-- The frames of the daemon socket (daemon/frame.rs): four bytes of length and
-- a JSON body. The reader has a limit for the length, and the writer has none.
import Mathlib.Algebra.GroupWithZero.Nat
import Lmao.JsonReading
import Lmao.Node

namespace lmao.cli.frame

/-! ## The code -/

/-- `serde_json::to_vec` and `serde_json::from_slice` of a type. -/
structure Codec (T : Type) where
  to_vec : T → Bytes
  from_slice : Bytes → Option T

/-- What `serde_json` does with the types that are sent, which are written as
objects: it reads what it wrote, and finds no value in a text cut short. -/
structure Codec.Lawful {T : Type} (c : Codec T) : Prop where
  round_trip : ∀ v, c.from_slice (c.to_vec v) = some v
  cut_short : ∀ v n, n < (c.to_vec v).length → c.from_slice ((c.to_vec v).take n) = none

def MAX_FRAME_BYTES : Nat := 16 * 1024 * 1024

inductive FrameError
  | length
  | too_large (len : Nat)
  | body
  | parse
  | write
deriving DecidableEq, Repr

def FrameError.display : FrameError → String
  | .length => "reading frame length"
  | .too_large len => "frame too large: " ++ toString len ++ " bytes"
  | .body => "reading frame body"
  | .parse => "parsing frame body"
  | .write => "write error"

def to_le_bytes (n : UInt32) : Bytes :=
  [UInt8.ofNat n.toNat, UInt8.ofNat (n.toNat / 256), UInt8.ofNat (n.toNat / 65536),
    UInt8.ofNat (n.toNat / 16777216)]

/-- The first `n` bytes of a stream and the rest, or nothing if it ends
before. -/
def read_exact (n : Nat) (stream : Bytes) : Option (Bytes × Bytes) :=
  if n ≤ stream.length then some (stream.take n, stream.drop n) else none

/-- A stream that takes `room` more bytes. -/
structure Sink where
  written : Bytes
  room : Nat

/-- Writes all the bytes, or those that there is room for. -/
def Sink.write_all (out : Sink) (bs : Bytes) : Sink × Except FrameError Unit :=
  ({ written := out.written ++ bs.take out.room, room := out.room - bs.length },
    if bs.length ≤ out.room then .ok () else .error .write)

variable {T : Type}

/-- The value, and what is left in the stream. -/
def read_frame (c : Codec T) (stream : Bytes) : Except FrameError T × Bytes :=
  match read_exact 4 stream with
  | none => (.error .length, [])
  | some (len_buf, rest) =>
    let len := from_le_bytes len_buf
    if len > MAX_FRAME_BYTES then (.error (.too_large len), rest)
    else
      match read_exact len rest with
      | none => (.error .body, [])
      | some (body, rest) =>
        match c.from_slice body with
        | none => (.error .parse, rest)
        | some v => (.ok v, rest)

/-- The length goes into 32 bits as it is. -/
def write_frame (c : Codec T) (out : Sink) (value : T) : Sink × Except FrameError Unit :=
  let body := c.to_vec value
  let len := UInt32.ofNat body.length
  match out.write_all (to_le_bytes len) with
  | (out, .error e) => (out, .error e)
  | (out, .ok ()) => out.write_all body

/-- Frames one after the other, up to the first error. -/
def write_frames (c : Codec T) : Sink → List T → Sink × Except FrameError Unit
  | out, [] => (out, .ok ())
  | out, v :: vs =>
    match write_frame c out v with
    | (out, .error e) => (out, .error e)
    | (out, .ok ()) => write_frames c out vs

/-- `n` reads, up to the first error. -/
def read_frames (c : Codec T) : Nat → Bytes → Except FrameError (List T) × Bytes
  | 0, stream => (.ok [], stream)
  | n + 1, stream =>
    match read_frame c stream with
    | (.error e, rest) => (.error e, rest)
    | (.ok v, rest) =>
      match read_frames c n rest with
      | (.error e, rest) => (.error e, rest)
      | (.ok vs, rest) => (.ok (v :: vs), rest)

/-! ## One frame -/

/-- The bytes of a frame. -/
def frame_bytes (c : Codec T) (value : T) : Bytes :=
  to_le_bytes (UInt32.ofNat (c.to_vec value).length) ++ c.to_vec value

theorem from_le_bytes_to_le_bytes (n : UInt32) : from_le_bytes (to_le_bytes n) = n.toNat := by
  have hn := n.toNat_lt
  simp only [to_le_bytes, from_le_bytes, UInt8.toNat_ofNat']
  omega

theorem read_exact_append (a b : Bytes) : read_exact a.length (a ++ b) = some (a, b) := by
  simp [read_exact]

theorem write_all_ok {out out' : Sink} {bs : Bytes} (h : out.write_all bs = (out', .ok ())) :
    out'.written = out.written ++ bs := by
  unfold Sink.write_all at h
  simp only [Prod.mk.injEq] at h
  obtain ⟨rfl, hok⟩ := h
  by_cases hroom : bs.length ≤ out.room
  · simp [List.take_of_length_le hroom]
  · rw [if_neg hroom] at hok
    cases hok

/-- A call that returns `Ok` has written the whole frame. -/
theorem write_frame_ok {c : Codec T} {out out' : Sink} {v : T}
    (h : write_frame c out v = (out', .ok ())) : out'.written = out.written ++ frame_bytes c v := by
  unfold write_frame at h
  rcases hlen : out.write_all (to_le_bytes (UInt32.ofNat (c.to_vec v).length)) with ⟨mid, e | ⟨⟩⟩
  · simp [hlen] at h
  · simp only [hlen] at h
    rw [write_all_ok h, write_all_ok hlen, frame_bytes, List.append_assoc]

theorem write_frames_ok {c : Codec T} {out out' : Sink} {vs : List T}
    (h : write_frames c out vs = (out', .ok ())) :
    out'.written = out.written ++ vs.flatMap (frame_bytes c) := by
  induction vs generalizing out with
  | nil =>
    simp only [write_frames, Prod.mk.injEq] at h
    simp [h.1]
  | cons v vs ih =>
    simp only [write_frames] at h
    rcases hv : write_frame c out v with ⟨mid, e | ⟨⟩⟩
    · simp [hv] at h
    · simp only [hv] at h
      rw [ih h, write_frame_ok hv, List.flatMap_cons, List.append_assoc]

/-- The reader takes the length modulo 2 ^ 32. -/
theorem read_frame_frame (c : Codec T) (v : T) (rest : Bytes) :
    read_frame c (frame_bytes c v ++ rest) =
      if (c.to_vec v).length % 2 ^ 32 > MAX_FRAME_BYTES then
        (.error (.too_large ((c.to_vec v).length % 2 ^ 32)), c.to_vec v ++ rest)
      else
        match read_exact ((c.to_vec v).length % 2 ^ 32) (c.to_vec v ++ rest) with
        | none => (.error .body, [])
        | some (body, rest) =>
          match c.from_slice body with
          | none => (.error .parse, rest)
          | some v => (.ok v, rest) := by
  have hread := read_exact_append (to_le_bytes (UInt32.ofNat (c.to_vec v).length))
    (c.to_vec v ++ rest)
  rw [← List.append_assoc] at hread
  have hfour : (to_le_bytes (UInt32.ofNat (c.to_vec v).length)).length = 4 := rfl
  rw [hfour] at hread
  simp only [read_frame, frame_bytes, hread, from_le_bytes_to_le_bytes, UInt32.toNat_ofNat']

theorem read_frame_of_fits {c : Codec T} (hc : c.Lawful) {v : T}
    (hfits : (c.to_vec v).length ≤ MAX_FRAME_BYTES) (rest : Bytes) :
    read_frame c (frame_bytes c v ++ rest) = (.ok v, rest) := by
  have hmod : (c.to_vec v).length % 2 ^ 32 = (c.to_vec v).length := by
    unfold MAX_FRAME_BYTES at hfits
    exact Nat.mod_eq_of_lt (by omega)
  rw [read_frame_frame, hmod, if_neg (by omega), read_exact_append]
  simp only [hc.round_trip]

/-- A body that is too long is refused by its length, or it is cut where the
length wraps. -/
theorem read_frame_of_too_long {c : Codec T} (hc : c.Lawful) {v : T}
    (hlong : MAX_FRAME_BYTES < (c.to_vec v).length) (rest : Bytes) :
    ∃ e, (read_frame c (frame_bytes c v ++ rest)).1 = .error e := by
  rw [read_frame_frame]
  by_cases hcap : (c.to_vec v).length % 2 ^ 32 > MAX_FRAME_BYTES
  · rw [if_pos hcap]
    exact ⟨_, rfl⟩
  · have hshort : (c.to_vec v).length % 2 ^ 32 < (c.to_vec v).length := by omega
    have hbody : read_exact ((c.to_vec v).length % 2 ^ 32) (c.to_vec v ++ rest) =
        some ((c.to_vec v).take ((c.to_vec v).length % 2 ^ 32),
          (c.to_vec v ++ rest).drop ((c.to_vec v).length % 2 ^ 32)) := by
      rw [read_exact, if_pos (by rw [List.length_append]; omega),
        List.take_append_of_le_length (by omega)]
    rw [if_neg hcap, hbody]
    simp only [hc.cut_short v _ hshort]
    exact ⟨_, rfl⟩

/-! ## Many frames -/

theorem read_frames_iff {c : Codec T} (hc : c.Lawful) (vs : List T) :
    read_frames c vs.length (vs.flatMap (frame_bytes c)) = (.ok vs, []) ↔
      ∀ v ∈ vs, (c.to_vec v).length ≤ MAX_FRAME_BYTES := by
  induction vs with
  | nil => simp [read_frames]
  | cons v vs ih =>
    rw [List.flatMap_cons, List.length_cons]
    by_cases hfits : (c.to_vec v).length ≤ MAX_FRAME_BYTES
    · simp only [read_frames, read_frame_of_fits hc hfits, List.forall_mem_cons, hfits, true_and,
        ← ih]
      rcases read_frames c vs.length (vs.flatMap (frame_bytes c)) with ⟨e | ws, rest⟩
      · simp
      · simp
    · obtain ⟨e, he⟩ := read_frame_of_too_long hc (Nat.lt_of_not_le hfits)
        (vs.flatMap (frame_bytes c))
      rcases hread : read_frame c (frame_bytes c v ++ vs.flatMap (frame_bytes c)) with ⟨r, rest⟩
      rw [hread] at he
      simp only at he
      subst he
      simp only [read_frames, hread, List.forall_mem_cons, hfits, false_and, iff_false]
      simp

/-- What was written is read back, value by value and to the last byte, exactly
if no body is longer than the limit of the reader. -/
theorem frames_are_lossless_iff_no_body_is_too_long {c : Codec T} (hc : c.Lawful) {out : Sink}
    {room : Nat} {vs : List T}
    (hw : write_frames c { written := [], room } vs = (out, .ok ())) :
    read_frames c vs.length out.written = (.ok vs, []) ↔
      ∀ v ∈ vs, (c.to_vec v).length ≤ MAX_FRAME_BYTES := by
  rw [write_frames_ok hw, List.nil_append]
  exact read_frames_iff hc vs

/-! ## The answers to a fetch -/

/-- The answers of the daemon to `StorageFetch`. -/
inductive FetchResponse
  | StorageFetch (cid payload_b64 : String)
  | Error (message : String)
deriving DecidableEq, Repr

/-- What a connection gets that asks for a CID. An error loses all but its
outer text. -/
def storage_fetch (storage : Option (String → Except node.StorageError Bytes)) (cid : String) :
    FetchResponse :=
  match storage with
  | none => .Error "daemon has no storage backend configured"
  | some download =>
    match download cid with
    | .error _ => .Error ("downloading " ++ cid ++ " from storage")
    | .ok bytes => .StorageFetch cid (base64.encode bytes)

namespace FetchResponse

open json (Value)

def tree_fields : FetchResponse → List (String × Value)
  | .StorageFetch cid payload_b64 =>
    [("kind", .str "storage_fetch"), ("cid", .str cid), ("payload_b64", .str payload_b64)]
  | .Error message => [("kind", .str "error"), ("message", .str message)]

def to_vec (r : FetchResponse) : Bytes := json.to_vec (Value.object r.tree_fields).render

theorem to_vec_injective : Function.Injective to_vec := by
  intro r r' h
  have htree := Value.object.inj (Value.render_injective (json.to_vec_injective h))
  cases r <;> cases r' <;> simp_all [tree_fields]

/-- The codec of the answers, with a reader that knows the texts that were
written and no other. -/
noncomputable def codec : Codec FetchResponse where
  to_vec := to_vec
  from_slice := Function.partialInv to_vec

theorem codec_lawful : codec.Lawful where
  round_trip := Function.partialInv_left to_vec_injective
  cut_short := by
    intro r n hn
    by_contra hsome
    obtain ⟨r', hr'⟩ := Option.ne_none_iff_exists'.1 hsome
    have htext : to_vec r' = (to_vec r).take n :=
      (to_vec_injective.isPartialInv _ _).1 hr'
    have hwhole : to_vec r = to_vec r' ++ (to_vec r).drop n := by
      rw [htext, List.take_append_drop]
    have hnil := json.object_texts_do_not_begin_one_another _ _ hwhole
    rw [List.drop_eq_nil_iff] at hnil
    exact absurd hn (Nat.not_lt.2 hnil)

end FetchResponse

/-! ## Objects of 12 MiB and more -/

theorem length_le_to_vec (t : json.Text) : t.length ≤ (json.to_vec t).length := by
  induction t with
  | nil => simp
  | cons c t ih =>
    have hc : 0 < (String.utf8EncodeChar c).length := by
      rw [String.length_utf8EncodeChar]
      exact c.utf8Size_pos
    simp only [json.to_vec, List.flatMap_cons, List.length_append, List.length_cons] at ih ⊢
    omega

theorem length_le_flatMap_escape (cs : List Char) :
    cs.length ≤ (cs.flatMap json.escape).length := by
  induction cs with
  | nil => simp
  | cons c cs ih =>
    obtain ⟨y, ys, hword, -⟩ := json.escape_avoids_quote c
    simp only [List.flatMap_cons, hword, List.length_append, List.length_cons]
    omega

theorem encode_chars_length (bs : Bytes) :
    4 * bs.length ≤ 3 * (base64.encode_chars bs).length := by
  fun_induction base64.encode_chars bs with
  | case1 => simp
  | case2 a => simp
  | case3 a b => simp
  | case4 a b c rest ih =>
    simp only [List.length_cons]
    omega

theorem payload_length (cid payload_b64 : String) :
    payload_b64.toList.length < (FetchResponse.StorageFetch cid payload_b64).to_vec.length := by
  have hescape := length_le_flatMap_escape payload_b64.toList
  refine Nat.lt_of_lt_of_le ?_ (length_le_to_vec _)
  rw [json.Value.render_object]
  simp only [FetchResponse.tree_fields, List.map_cons, List.map_nil, List.intersperse_cons_cons,
    List.intersperse_singleton, List.flatten_cons, json.Value.render_field, json.Value.render,
    json.str, List.length_append, List.length_cons]
  omega

/-- The body that carries an object is longer than four thirds of it. -/
theorem fetched_length (cid : String) (bytes : Bytes) :
    4 * bytes.length <
      3 * (FetchResponse.StorageFetch cid (base64.encode bytes)).to_vec.length := by
  have hpayload := payload_length cid (base64.encode bytes)
  have hencode := encode_chars_length bytes
  rw [base64.encode, String.toList_ofList] at hpayload
  rw [base64.encode]
  omega

/-- A frame is written when there is room for it. -/
theorem write_frame_of_room (c : Codec T) (v : T) {written : Bytes} {room : Nat}
    (hroom : 4 + (c.to_vec v).length ≤ room) :
    ∃ out, write_frame c { written, room } v = (out, .ok ()) ∧
      out.room = room - (4 + (c.to_vec v).length) := by
  have hlen : (to_le_bytes (UInt32.ofNat (c.to_vec v).length)).length = 4 := rfl
  have hhead : 4 ≤ room := by omega
  have hbody : (c.to_vec v).length ≤ room - 4 := by omega
  simp only [write_frame, Sink.write_all, hlen, hhead, if_true, hbody]
  exact ⟨_, rfl, Nat.sub_sub _ _ _⟩

theorem write_frames_of_room (c : Codec T) (vs : List T) {written : Bytes} {room : Nat}
    (hroom : (vs.map fun v => 4 + (c.to_vec v).length).sum ≤ room) :
    ∃ out, write_frames c { written, room } vs = (out, .ok ()) := by
  induction vs generalizing written room with
  | nil => exact ⟨_, rfl⟩
  | cons v vs ih =>
    rw [List.map_cons, List.sum_cons] at hroom
    have hfirst : ∃ out, write_frame c { written, room } v = (out, .ok ()) ∧
        out.room = room - (4 + (c.to_vec v).length) := write_frame_of_room c v (by omega)
    obtain ⟨⟨written', room'⟩, hv, rfl⟩ := hfirst
    simp only [write_frames, hv]
    exact ih (by omega)

/-- An answer with an object of 12 MiB or more is written, and not read. -/
theorem large_object_not_read {bytes : Bytes} (hlen : 12 * 1024 * 1024 ≤ bytes.length)
    (cid : String) :
    ∃ out room,
      write_frames FetchResponse.codec { written := [], room }
        [storage_fetch (some fun _ => .ok bytes) cid] = (out, .ok ()) ∧
      read_frames FetchResponse.codec 1 out.written ≠
        (.ok [storage_fetch (some fun _ => .ok bytes) cid], []) := by
  have hanswer : storage_fetch (some fun _ => .ok bytes) cid =
      .StorageFetch cid (base64.encode bytes) := rfl
  rw [hanswer]
  obtain ⟨out, hw⟩ := write_frames_of_room FetchResponse.codec
    [.StorageFetch cid (base64.encode bytes)] (Nat.le_refl _)
  refine ⟨out, _, hw, ?_⟩
  rw [write_frames_ok hw, List.nil_append]
  intro hread
  have hfits := (read_frames_iff FetchResponse.codec_lawful [_]).1 hread _
    (List.mem_singleton_self _)
  have hlong := fetched_length cid bytes
  simp only [FetchResponse.codec, MAX_FRAME_BYTES] at hfits
  omega

/-- The daemon writes the answer for an object of 12 MiB of zeros, and the client
does not get it. -/
theorem a_large_object_is_written_and_not_read :
    ∃ out room,
      write_frames FetchResponse.codec { written := [], room }
        [storage_fetch (some fun _ => .ok (List.replicate (12 * 1024 * 1024) 0)) "z"] =
          (out, .ok ()) ∧
      read_frames FetchResponse.codec 1 out.written ≠
        (.ok [storage_fetch (some fun _ => .ok (List.replicate (12 * 1024 * 1024) 0)) "z"], []) :=
  large_object_not_read (Nat.le_of_eq List.length_replicate.symm) "z"

namespace Sample

def small_answers : List FetchResponse := [.StorageFetch "z" "AAAA", .Error "no"]

theorem small_answers_short :
    (∀ v ∈ small_answers, v.to_vec.length ≤ MAX_FRAME_BYTES) ∧
      (small_answers.map fun v => 4 + v.to_vec.length).sum ≤ 1000 := by
  decide +kernel

end Sample

/-- Two answers on one stream. -/
theorem small_answers_are_read_back :
    ∃ out, write_frames FetchResponse.codec { written := [], room := 1000 } Sample.small_answers =
        (out, .ok ()) ∧
      read_frames FetchResponse.codec 2 out.written = (.ok Sample.small_answers, []) := by
  have hroom : (Sample.small_answers.map fun v => 4 + (FetchResponse.codec.to_vec v).length).sum ≤
      1000 := Sample.small_answers_short.2
  obtain ⟨out, hw⟩ := write_frames_of_room FetchResponse.codec Sample.small_answers hroom
  exact ⟨out, hw, (frames_are_lossless_iff_no_body_is_too_long FetchResponse.codec_lawful hw).2
    Sample.small_answers_short.1⟩

end lmao.cli.frame
