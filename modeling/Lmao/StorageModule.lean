-- Transfers over Basecamp's `storage_module` (storage_module_backend.rs of the
-- storage crate): a session of chunks for an upload, a file for a download. The
-- module reports an error in two shapes.
import Lmao.Base64
import Lmao.JsonGrammar
import Lmao.Node

namespace lmao.storage

open json (Tree)
open node (StorageError)

def CHUNK_BYTES : Nat := 1 <<< 20

inductive ModuleCall
  | uploadInit (filename : String) (chunk_bytes : Nat)
  | uploadChunk (session_id b64 : String)
  | uploadCancel (session_id : String)
  | uploadFinalize (session_id : String)
  | downloadFile (cid path : String) (is_local : Bool)
deriving DecidableEq, Repr

/-- The shim answers each call with a text or an error of its own. The texts
of the errors of the JSON reader come with the reader. -/
structure Shim where
  answer : Nat → Except String String
  from_str : String → Except String Tree

namespace Shim

/-- The `n`-th call. -/
def call (S : Shim) (n : Nat) (method : String) : Except StorageError Tree :=
  match S.answer n with
  | .error e => .error (.Http ("storage_module call " ++ method ++ ": " ++ e))
  | .ok json =>
    match S.from_str json with
    | .error e => .error (.Http ("storage_module " ++ method ++ " bad JSON: " ++ e))
    | .ok v => .ok v

/-- The JSON value of the `n`-th answer. -/
def reply (S : Shim) (n : Nat) : Option Tree := (S.call n "").toOption

theorem call_some {S : Shim} {n : Nat} {v : Tree} (h : S.reply n = some v) (method : String) :
    S.call n method = .ok v := by
  unfold reply call at h
  unfold call
  cases hanswer : S.answer n with
  | error e => simp [hanswer, Except.toOption] at h
  | ok json =>
    cases hread : S.from_str json with
    | error e => simp [hanswer, hread, Except.toOption] at h
    | ok w =>
      simp only [hanswer, hread, Except.toOption, Option.some.injEq] at h
      simp only [hread, h]

theorem call_none {S : Shim} {n : Nat} (h : S.reply n = none) (method : String) :
    ∃ e, S.call n method = .error e := by
  unfold reply call at h
  unfold call
  cases hanswer : S.answer n with
  | error e => exact ⟨_, rfl⟩
  | ok json =>
    cases hread : S.from_str json with
    | error e =>
      simp only [hread]
      exact ⟨_, rfl⟩
    | ok w => simp [hanswer, hread, Except.toOption] at h

end Shim

/-! ## The two shapes of an error -/

def as_str : Tree → Option String
  | .str s => some s
  | _ => none

/-- The message of `kind: "error"`. -/
def kind_error (v : Tree) : Option String :=
  ((v.get "message").bind as_str).filter fun _ => (v.get "kind").bind as_str == some "error"

/-- The text under `error`. -/
def plain_error (v : Tree) : Option String := (v.get "error").bind as_str

def extract_value (v : Tree) (field : String) : Except StorageError String :=
  match kind_error v with
  | some err => .error (.Http err)
  | none =>
    match plain_error v with
    | some err => .error (.Http err)
    | none =>
      match (v.get field).bind as_str with
      | some s => .ok s
      | none => .error (.Http ("missing `" ++ field ++ "` in storage_module response"))

/-! ## Upload and download -/

/-- The chunks of an open session and its end, from the `n`-th call on. -/
def upload_chunks (S : Shim) (session_id : String) :
    List Bytes → Nat → List ModuleCall × Except StorageError String
  | [], n =>
    ([.uploadFinalize session_id],
      (S.call n "uploadFinalize").bind fun resp => extract_value resp "value")
  | chunk :: rest, n =>
    let sent := ModuleCall.uploadChunk session_id (base64.encode chunk)
    match S.call n "uploadChunk" with
    | .error e => ([sent], .error e)
    | .ok r =>
      match kind_error r with
      | some msg => ([sent, .uploadCancel session_id], .error (.Http ("uploadChunk: " ++ msg)))
      | none =>
        let after := upload_chunks S session_id rest (n + 1)
        (sent :: after.1, after.2)

def upload (S : Shim) (data : Bytes) : List ModuleCall × Except StorageError String :=
  let init := ModuleCall.uploadInit "audit.log" CHUNK_BYTES
  match (S.call 0 "uploadInit").bind fun resp => extract_value resp "value" with
  | .error e => ([init], .error e)
  | .ok session_id =>
    let after := upload_chunks S session_id (data.toChunks CHUNK_BYTES) 1
    (init :: after.1, after.2)

/-- The file is made before the call and read after it. -/
def download (S : Shim) (tempfile : Except String String) (read_back : Except String Bytes)
    (cid : String) : List ModuleCall × Except StorageError Bytes :=
  match tempfile with
  | .error e => ([], .error (.Http ("tempfile: " ++ e)))
  | .ok path =>
    ([.downloadFile cid path false],
      match S.call 0 "downloadFile" with
      | .error e => .error e
      | .ok resp =>
        match kind_error resp with
        | some msg => .error (.Http ("downloadFile: " ++ msg))
        | none =>
          match read_back with
          | .error e => .error (.Http ("read back tempfile: " ++ e))
          | .ok bytes => .ok bytes)

/-! ## What the calls of an upload are -/

theorem flatten_toChunks {α : Type} (n : Nat) (l : List α) : (l.toChunks n).flatten = l := by
  have hgo : ∀ (xs : List α) (acc : Array α) (done : Array (List α)),
      (List.toChunks.go n xs acc done).flatten = done.toList.flatten ++ (acc.toList ++ xs) := by
    intro xs
    induction xs with
    | nil =>
      intro acc done
      simp [List.toChunks.go]
    | cons x xs ih =>
      intro acc done
      rw [List.toChunks.go]
      split
      · rw [ih]
        simp
      · rw [ih]
        simp
  cases l with
  | nil => cases n <;> rfl
  | cons x xs =>
    cases n with
    | zero => simp [List.toChunks]
    | succ n =>
      rw [List.toChunks, hgo]
      · simp
      · simp

/-- The call came back, and not with an error of the first shape. -/
def Passes (r : Option Tree) : Prop := ∃ v, r = some v ∧ kind_error v = none

/-- The call came back, and with no error in either shape. -/
def Clean (r : Option Tree) : Prop := ∃ v, r = some v ∧ kind_error v = none ∧ plain_error v = none

theorem clean_of_extract {S : Shim} {n : Nat} {method field value : String}
    (h : (S.call n method).bind (fun resp => extract_value resp field) = .ok value) :
    Clean (S.reply n) := by
  cases hreply : S.reply n with
  | none =>
    obtain ⟨e, he⟩ := Shim.call_none hreply method
    rw [he] at h
    cases h
  | some v =>
    rw [Shim.call_some hreply method, Except.bind] at h
    unfold extract_value at h
    cases hkind : kind_error v with
    | some err => simp [hkind] at h
    | none =>
      cases hplain : plain_error v with
      | some err => simp [hkind, hplain] at h
      | none => exact ⟨v, rfl, hkind, hplain⟩

/-- Chunks whose answers all pass are all sent, and the session is ended. -/
theorem upload_chunks_passed {S : Shim} {session_id : String} {chunks : List Bytes} {n : Nat}
    (h : ∀ i < chunks.length, Passes (S.reply (n + i))) :
    upload_chunks S session_id chunks n =
      (chunks.map (fun c => .uploadChunk session_id (base64.encode c)) ++
          [.uploadFinalize session_id],
        (S.call (n + chunks.length) "uploadFinalize").bind fun resp =>
          extract_value resp "value") := by
  induction chunks generalizing n with
  | nil => rfl
  | cons chunk rest ih =>
    obtain ⟨v, hv, hkind⟩ := h 0 (Nat.zero_lt_succ _)
    rw [Nat.add_zero] at hv
    have hrest := ih (n := n + 1) fun i hi => by
      have := h (i + 1) (Nat.succ_lt_succ hi)
      rwa [← Nat.add_assoc, Nat.add_right_comm] at this
    simp only [upload_chunks, Shim.call_some hv, hkind, hrest, List.map_cons, List.cons_append,
      List.length_cons, Nat.add_right_comm n 1 rest.length, Nat.add_assoc]

/-- Otherwise the upload fails and the session is not ended. -/
theorem upload_chunks_stopped {S : Shim} (session_id : String) {chunks : List Bytes} {n : Nat}
    (h : ¬ ∀ i < chunks.length, Passes (S.reply (n + i))) :
    (∃ e, (upload_chunks S session_id chunks n).2 = .error e) ∧
      ∀ s, ModuleCall.uploadFinalize s ∉ (upload_chunks S session_id chunks n).1 := by
  induction chunks generalizing n with
  | nil => exact absurd (fun i hi => absurd hi (Nat.not_lt_zero i)) h
  | cons chunk rest ih =>
    cases hreply : S.reply n with
    | none =>
      obtain ⟨e, he⟩ := Shim.call_none hreply "uploadChunk"
      simp only [upload_chunks, he]
      exact ⟨⟨e, rfl⟩, fun s => by simp⟩
    | some v =>
      cases hkind : kind_error v with
      | some msg =>
        simp only [upload_chunks, Shim.call_some hreply, hkind]
        exact ⟨⟨_, rfl⟩, fun s => by simp⟩
      | none =>
        have hrest : ¬ ∀ i < rest.length, Passes (S.reply (n + 1 + i)) := by
          intro hall
          apply h
          intro i hi
          cases i with
          | zero => exact ⟨v, hreply, hkind⟩
          | succ i =>
            have := hall i (Nat.lt_of_succ_lt_succ hi)
            rwa [Nat.add_right_comm, Nat.add_assoc] at this
        obtain ⟨herror, hopen⟩ := ih hrest
        simp only [upload_chunks, Shim.call_some hreply, hkind]
        exact ⟨herror, fun s => by simpa using hopen s⟩

/-! ## The law of the transfers -/

/-- The base64 text that a call carries. -/
def sent_chunk : ModuleCall → Option String
  | .uploadChunk _ b64 => some b64
  | _ => none

structure UploadLaw (S : Shim) (data : Bytes)
    (r : List ModuleCall × Except StorageError String) : Prop where
  /-- Behind a CID, no call came back with an error. -/
  clean : ∀ cid, r.2 = .ok cid → ∀ n < r.1.length, Clean (S.reply n)
  /-- Behind a CID, the chunks that were sent are the data. -/
  complete : ∀ cid, r.2 = .ok cid → ∃ chunks,
    (r.1.filterMap sent_chunk).mapM base64.decode = some chunks ∧ chunks.flatten = data
  /-- A session with a failed chunk is not ended. -/
  unfinished : ∀ n session b64, r.1[n]? = some (.uploadChunk session b64) →
    ¬ Clean (S.reply n) → ∀ m > n, ∀ session', r.1[m]? ≠ some (.uploadFinalize session')

/-- A download fails on an answer in either shape. -/
def DownloadLaw (S : Shim) (r : List ModuleCall × Except StorageError Bytes) : Prop :=
  ∀ v, S.reply 0 = some v → (kind_error v ≠ none ∨ plain_error v ≠ none) → ∃ e, r.2 = .error e

/-- The first answer opens a session. -/
def Opens (S : Shim) : Prop :=
  ∃ v, S.reply 0 = some v ∧ kind_error v = none ∧ plain_error v = none ∧
    ∃ session, v.get "value" = some (.str session)

/-- The number of chunks of an upload. -/
def chunk_count (data : Bytes) : Nat := (data.toChunks CHUNK_BYTES).length

/-- If no chunk is stopped by a failed call or by the first shape, none is
answered in the second shape. -/
def UploadNoticed (S : Shim) (data : Bytes) : Prop :=
  Opens S → (∀ i < chunk_count data, Passes (S.reply (i + 1))) →
    ∀ i < chunk_count data, ∀ v, S.reply (i + 1) = some v → plain_error v = none

/-- An answer in the second shape has the first one too, or there is no file to read. -/
def DownloadNoticed (S : Shim) (tempfile : Except String String)
    (read_back : Except String Bytes) : Prop :=
  ∀ v, S.reply 0 = some v → plain_error v ≠ none →
    kind_error v ≠ none ∨ (∃ e, tempfile = .error e) ∨ ∃ e, read_back = .error e

theorem init_cases (S : Shim) :
    (∃ session, Opens S ∧
      (S.call 0 "uploadInit").bind (fun resp => extract_value resp "value") = .ok session) ∨
    ¬ Opens S ∧
      ∃ e, (S.call 0 "uploadInit").bind (fun resp => extract_value resp "value") = .error e := by
  by_cases hopens : Opens S
  · obtain ⟨v, hv, hkind, hplain, session, hvalue⟩ := hopens
    refine .inl ⟨session, ⟨v, hv, hkind, hplain, session, hvalue⟩, ?_⟩
    rw [Shim.call_some hv]
    simp only [Except.bind, extract_value, hkind, hplain, hvalue, Option.bind_some, as_str]
  · refine .inr ⟨hopens, ?_⟩
    cases hinit : (S.call 0 "uploadInit").bind fun resp => extract_value resp "value" with
    | error e => exact ⟨e, rfl⟩
    | ok session =>
      obtain ⟨v, hv, hkind, hplain⟩ := clean_of_extract hinit
      rw [Shim.call_some hv] at hinit
      simp only [Except.bind, extract_value, hkind, hplain] at hinit
      cases hvalue : (v.get "value").bind as_str with
      | none => simp [hvalue] at hinit
      | some s =>
        obtain ⟨w, hw, hs⟩ := Option.bind_eq_some_iff.mp hvalue
        cases w with
        | str s => exact absurd ⟨v, hv, hkind, hplain, s, hw⟩ hopens
        | _ => cases hs

/-- The calls of an upload whose chunks all pass. -/
def session_calls (session : String) (chunks : List Bytes) : List ModuleCall :=
  .uploadInit "audit.log" CHUNK_BYTES ::
    (chunks.map (fun c => .uploadChunk session (base64.encode c)) ++ [.uploadFinalize session])

theorem sent_session_calls (session : String) (chunks : List Bytes) :
    ((session_calls session chunks).filterMap sent_chunk).mapM base64.decode = some chunks := by
  have hsent : (session_calls session chunks).filterMap sent_chunk = chunks.map base64.encode := by
    unfold session_calls
    rw [List.filterMap_cons_none rfl, List.filterMap_append, List.filterMap_cons_none rfl,
      List.filterMap_nil, List.append_nil, List.filterMap_map]
    exact congrFun List.filterMap_eq_map' chunks
  have hdecode : ∀ cs : List Bytes, (cs.map base64.encode).mapM base64.decode = some cs := by
    intro cs
    induction cs with
    | nil => rfl
    | cons c cs ih =>
      rw [List.map_cons, List.mapM_cons, base64.decode_encode, ih]
      rfl
  rw [hsent, hdecode]

theorem chunk_of_session_calls {session session' b64 : String} {chunks : List Bytes} {n : Nat}
    (h : (session_calls session chunks)[n]? = some (.uploadChunk session' b64)) :
    n < chunks.length + 1 := by
  by_contra hge
  have hn : n = chunks.length + 1 := by
    have hlen := (List.getElem?_eq_some_iff.mp h).1
    simp only [session_calls, List.length_cons, List.length_append, List.length_map,
      List.length_nil] at hlen
    omega
  rw [hn, session_calls, List.getElem?_cons_succ, List.getElem?_append_right (by simp)] at h
  simp at h

theorem session_calls_chunk (session : String) {chunks : List Bytes} {i : Nat}
    (h : i < chunks.length) : (session_calls session chunks)[i + 1]? =
      some (.uploadChunk session (base64.encode chunks[i])) := by
  rw [session_calls, List.getElem?_cons_succ, List.getElem?_append_left (by simpa using h),
    List.getElem?_map, List.getElem?_eq_getElem h]
  rfl

theorem session_calls_last (session : String) (chunks : List Bytes) :
    (session_calls session chunks)[chunks.length + 1]? = some (.uploadFinalize session) := by
  rw [session_calls, List.getElem?_cons_succ, List.getElem?_append_right (by simp)]
  simp

theorem upload_refused {S : Shim} (h : ¬ Opens S) (data : Bytes) :
    ∃ e, upload S data = ([.uploadInit "audit.log" CHUNK_BYTES], .error e) := by
  obtain ⟨session, hopens, -⟩ | ⟨-, e, he⟩ := init_cases S
  · exact absurd hopens h
  · exact ⟨e, by simp only [upload, he]⟩

theorem upload_opened {S : Shim} (h : Opens S) (data : Bytes) :
    ∃ session, upload S data =
      (.uploadInit "audit.log" CHUNK_BYTES ::
          (upload_chunks S session (data.toChunks CHUNK_BYTES) 1).1,
        (upload_chunks S session (data.toChunks CHUNK_BYTES) 1).2) := by
  obtain ⟨session, -, hinit⟩ | ⟨hclosed, -⟩ := init_cases S
  · exact ⟨session, by simp only [upload, hinit]⟩
  · exact absurd h hclosed

/-- A session whose chunks all pass, and the end of it. -/
theorem upload_passed {S : Shim} {data : Bytes} (h : Opens S)
    (hpass : ∀ i < chunk_count data, Passes (S.reply (i + 1))) :
    ∃ session, upload S data =
      (session_calls session (data.toChunks CHUNK_BYTES),
        (S.call (chunk_count data + 1) "uploadFinalize").bind fun resp =>
          extract_value resp "value") := by
  obtain ⟨session, hupload⟩ := upload_opened h data
  refine ⟨session, ?_⟩
  rw [hupload, upload_chunks_passed fun i hi => by rw [Nat.add_comm]; exact hpass i hi,
    Nat.add_comm 1]
  rfl

/-- An upload that is stopped keeps its promises. -/
theorem law_of_error {S : Shim} {data : Bytes} {calls : List ModuleCall} {e : StorageError}
    (h : ∀ s, ModuleCall.uploadFinalize s ∉ calls) : UploadLaw S data (calls, .error e) where
  clean _ hok := nomatch hok
  complete _ hok := nomatch hok
  unfinished _ _ _ _ _ _ _ session' hm := h session' (List.mem_of_getElem? hm)

/-- An upload whose calls are all clean keeps them, but perhaps for the last. -/
theorem law_of_clean {S : Shim} {data : Bytes} (session : String)
    (h : ∀ n < chunk_count data + 1, Clean (S.reply n)) :
    UploadLaw S data (session_calls session (data.toChunks CHUNK_BYTES),
      (S.call (chunk_count data + 1) "uploadFinalize").bind fun resp =>
        extract_value resp "value") where
  clean cid hcid n hn := by
    simp only [session_calls, List.length_cons, List.length_append, List.length_map,
      List.length_nil] at hn
    by_cases hlast : n = chunk_count data + 1
    · rw [hlast]
      exact clean_of_extract hcid
    · exact h n (by unfold chunk_count at hlast ⊢; omega)
  complete _ _ := ⟨data.toChunks CHUNK_BYTES, sent_session_calls session _, flatten_toChunks _ _⟩
  unfinished n _ _ hn hfailed := absurd (h n (chunk_of_session_calls hn)) hfailed

theorem upload_law_of_noticed {S : Shim} {data : Bytes} (h : UploadNoticed S data) :
    UploadLaw S data (upload S data) := by
  by_cases hopens : Opens S
  · by_cases hpass : ∀ i < chunk_count data, Passes (S.reply (i + 1))
    · have hplain := h hopens hpass
      have hclean : ∀ n < chunk_count data + 1, Clean (S.reply n) := by
        intro n hn
        cases n with
        | zero =>
          obtain ⟨v, hv, hkind, hplain, -⟩ := hopens
          exact ⟨v, hv, hkind, hplain⟩
        | succ i =>
          have hi : i < chunk_count data := by omega
          obtain ⟨v, hv, hkind⟩ := hpass i hi
          exact ⟨v, hv, hkind, hplain i hi v hv⟩
      obtain ⟨session, hupload⟩ := upload_passed hopens hpass
      rw [hupload]
      exact law_of_clean session hclean
    · obtain ⟨session, hupload⟩ := upload_opened hopens data
      have hstop : ¬ ∀ i < (data.toChunks CHUNK_BYTES).length, Passes (S.reply (1 + i)) := by
        intro hall
        exact hpass fun i hi => by rw [Nat.add_comm]; exact hall i hi
      obtain ⟨⟨e, he⟩, hopen⟩ := upload_chunks_stopped session hstop
      rw [hupload, he]
      exact law_of_error fun s => by simpa using hopen s
  · obtain ⟨e, he⟩ := upload_refused hopens data
    rw [he]
    exact law_of_error fun s => by simp

theorem noticed_of_upload_law {S : Shim} {data : Bytes} (h : UploadLaw S data (upload S data)) :
    UploadNoticed S data := by
  intro hopens hpass i hi v hv
  obtain ⟨session, hupload⟩ := upload_passed hopens hpass
  rw [hupload] at h
  by_contra hplain
  have hdirty : ¬ Clean (S.reply (i + 1)) := by
    rintro ⟨w, hw, -, hclean⟩
    rw [hv, Option.some_inj] at hw
    exact hplain (hw ▸ hclean)
  exact h.unfinished (i + 1) session _ (session_calls_chunk session hi) hdirty
    (chunk_count data + 1) (by omega) session (session_calls_last session _)

theorem download_law_iff (S : Shim) (tempfile : Except String String)
    (read_back : Except String Bytes) (cid : String) :
    DownloadLaw S (download S tempfile read_back cid) ↔
      DownloadNoticed S tempfile read_back := by
  constructor
  · intro h v hv hplain
    obtain ⟨e, he⟩ := h v hv (.inr hplain)
    by_cases hkind : kind_error v = none
    · refine .inr ?_
      cases tempfile with
      | error e => exact .inl ⟨e, rfl⟩
      | ok path =>
        cases read_back with
        | error e => exact .inr ⟨e, rfl⟩
        | ok bytes => simp [download, Shim.call_some hv, hkind] at he
    · exact .inl hkind
  · intro h v hv hfailed
    by_cases hkind : kind_error v = none
    · have hplain := hfailed.resolve_left (not_not_intro hkind)
      obtain ⟨e, rfl⟩ | ⟨e, rfl⟩ := (h v hv hplain).resolve_left (not_not_intro hkind)
      · exact ⟨_, rfl⟩
      · cases tempfile with
        | error e' => exact ⟨_, rfl⟩
        | ok path =>
          simp only [download, Shim.call_some hv, hkind]
          exact ⟨_, rfl⟩
    · obtain ⟨msg, hmsg⟩ := Option.ne_none_iff_exists'.mp hkind
      cases tempfile with
      | error e => exact ⟨_, rfl⟩
      | ok path =>
        simp only [download, Shim.call_some hv, hmsg]
        exact ⟨_, rfl⟩

/-- A transfer never succeeds on an error of the module, if and only if no
answer to a chunk or to a download that it goes by has the second shape. -/
theorem a_transfer_notices_errors_iff (S : Shim) (data : Bytes)
    (tempfile : Except String String) (read_back : Except String Bytes) (cid : String) :
    (UploadLaw S data (upload S data) ↔ UploadNoticed S data) ∧
    (DownloadLaw S (download S tempfile read_back cid) ↔
      DownloadNoticed S tempfile read_back) :=
  ⟨⟨noticed_of_upload_law, upload_law_of_noticed⟩, download_law_iff S tempfile read_back cid⟩

namespace Sample

/-- A module that is full after it opened a session, and ends the session all
the same. -/
def full : Shim where
  answer n := .ok (if n = 0 then "opened" else if n = 1 then "full" else "ended")
  from_str text :=
    if text = "opened" then .ok (.object [("value", .str "s1")])
    else if text = "full" then .ok (.object [("error", .str "disk full")])
    else .ok (.object [("value", .str "zDv")])

/-- A module that does not find the file. -/
def lost : Shim where
  answer _ := .ok "lost"
  from_str _ := .ok (.object [("error", .str "not found")])

end Sample

/-- An upload of one byte gets a CID although the byte was refused, and a
download gets an empty file. -/
theorem an_error_goes_unnoticed :
    ¬ UploadLaw Sample.full [1] (upload Sample.full [1]) ∧
    ¬ DownloadLaw Sample.lost (download Sample.lost (.ok "/tmp/x") (.ok []) "zDv") := by
  constructor
  · intro h
    obtain ⟨v, hv, -, hplain⟩ := h.clean "zDv" rfl 1 (by decide)
    cases hv
    exact absurd hplain (by decide)
  · intro h
    obtain ⟨e, he⟩ := h _ rfl (.inr (by decide))
    cases he

end lmao.storage
