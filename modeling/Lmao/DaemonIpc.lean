-- One request to the daemon over its socket: the client of the Basecamp module
-- (`sendRequest` of agent_impl.cpp) reads the answer as it comes, in pieces of any size,
-- and the daemon (`handle_connection` of daemon/server.rs) reads one frame and answers it.
import Lmao.Frame
import Lmao.Machine

namespace lmao.cli.ipc

open frame machine

/-! ## The client -/

/-- `silence` is the text of the socket when nothing more comes: the time is over or the
connection is gone. -/
inductive ReadError
  | length_timed_out (silence : String)
  | too_large (len : Nat)
  | body_timed_out (silence : String)
deriving DecidableEq, Repr

/-- The message that `sendRequest` wraps into JSON. -/
def ReadError.message : ReadError → String
  | .length_timed_out silence => "read len timed out: " ++ silence
  | .too_large len => "response frame too large: " ++ toString len ++ " bytes"
  | .body_timed_out silence => "read body timed out: " ++ silence

/-- How far the client has read. -/
inductive Phase
  | length
  | body (resp_len : Nat) (resp_body : Bytes)
  | done (result : Except ReadError Bytes)
deriving DecidableEq, Repr

/-- The bytes that the socket has available, and the phase. -/
structure Client where
  available : Bytes
  phase : Phase

namespace Client

def connected : Client := { available := [], phase := .length }

/-- The loop over the body, as far as it goes without waiting. Each turn takes what is
available, so there are at most two. -/
def read_body : Nat → Nat → Bytes → Bytes → Client
  | 0, resp_len, resp_body, available => { available, phase := .body resp_len resp_body }
  | turns + 1, resp_len, resp_body, available =>
    if resp_body.length < resp_len then
      if available.isEmpty then { available, phase := .body resp_len resp_body }
      else
        let missing := resp_len - resp_body.length
        read_body turns resp_len (resp_body ++ available.take missing) (available.drop missing)
    else { available, phase := .done (.ok resp_body) }

/-- The client goes on until it has to wait. -/
def go (c : Client) : Client :=
  match c.phase with
  | .length =>
    if c.available.length < 4 then c
    else
      let resp_len := from_le_bytes (c.available.take 4)
      let available := c.available.drop 4
      if resp_len > MAX_FRAME_BYTES then
        { available, phase := .done (.error (.too_large resp_len)) }
      else read_body 2 resp_len [] available
  | .body resp_len resp_body => read_body 2 resp_len resp_body c.available
  | .done _ => c

/-- More bytes come. -/
def arrive (c : Client) (bytes : Bytes) : Client :=
  go { c with available := c.available ++ bytes }

/-- `waitForReadyRead` says that nothing came. -/
def give_up (c : Client) (silence : String) : Client :=
  match c.phase with
  | .length => { c with phase := .done (.error (.length_timed_out silence)) }
  | .body _ _ => { c with phase := .done (.error (.body_timed_out silence)) }
  | .done _ => c

end Client

/-! ## The phase after some bytes -/

/-- How far a client is after some bytes, in one piece. -/
def plain (stream : Bytes) : Phase :=
  match read_exact 4 stream with
  | none => .length
  | some (len_buf, rest) =>
    let resp_len := from_le_bytes len_buf
    if resp_len > MAX_FRAME_BYTES then .done (.error (.too_large resp_len))
    else
      match read_exact resp_len rest with
      | none => .body resp_len rest
      | some (body, _) => .done (.ok body)

theorem plain_short {stream : Bytes} (h : stream.length < 4) : plain stream = .length := by
  rw [plain, read_exact, if_neg (Nat.not_le.mpr h)]

theorem plain_long {stream : Bytes} (h : 4 ≤ stream.length) :
    plain stream =
      if from_le_bytes (stream.take 4) > MAX_FRAME_BYTES then
        .done (.error (.too_large (from_le_bytes (stream.take 4))))
      else if from_le_bytes (stream.take 4) ≤ (stream.drop 4).length then
        .done (.ok ((stream.drop 4).take (from_le_bytes (stream.take 4))))
      else .body (from_le_bytes (stream.take 4)) (stream.drop 4) := by
  rw [plain, read_exact, if_pos h]
  dsimp only
  split
  case isTrue => rfl
  case isFalse =>
    rw [read_exact]
    split
    case h_1 hnone =>
      split at hnone
      case isTrue => cases hnone
      case isFalse hshort => rw [if_neg hshort]
    case h_2 body rest hsome =>
      split at hsome
      case isTrue henough =>
        cases hsome
        rw [if_pos henough]
      case isFalse => cases hsome

/-- The loop over the body takes what is missing, or all that there is. -/
theorem read_body_eq (resp_len : Nat) (resp_body available : Bytes)
    (h : resp_body.length ≤ resp_len) :
    (Client.read_body 2 resp_len resp_body available).phase =
      if resp_len ≤ (resp_body ++ available).length then
        .done (.ok ((resp_body ++ available).take resp_len))
      else .body resp_len (resp_body ++ available) := by
  rw [Client.read_body]
  by_cases hmissing : resp_body.length < resp_len
  · rw [if_pos hmissing]
    cases available with
    | nil =>
      rw [List.isEmpty_nil, if_pos rfl, List.append_nil, if_neg (Nat.not_le.mpr hmissing)]
    | cons b available =>
      rw [List.isEmpty_cons, if_neg Bool.false_ne_true, Client.read_body]
      generalize b :: available = more
      by_cases henough : resp_len ≤ (resp_body ++ more).length
      · have hlength : (resp_body ++ more.take (resp_len - resp_body.length)).length =
            resp_len := by
          rw [List.length_append, List.length_take]
          rw [List.length_append] at henough
          omega
        rw [if_neg (by omega), if_pos henough, List.take_append,
          List.take_of_length_le h]
      · have hshort : more.length ≤ resp_len - resp_body.length := by
          rw [List.length_append] at henough
          omega
        rw [List.take_of_length_le hshort, List.drop_of_length_le hshort, List.isEmpty_nil,
          if_pos (Nat.lt_of_not_le henough), if_pos rfl, if_neg henough]
  · have hsame : resp_len = resp_body.length := by omega
    rw [if_neg hmissing, hsame, if_pos (by rw [List.length_append]; omega),
      List.take_left]

/-- While the client waits for the body, it has taken all that is available. -/
theorem read_body_available {resp_len : Nat} {resp_body available : Bytes} {n : Nat} {bs : Bytes}
    (hphase : (Client.read_body 2 resp_len resp_body available).phase = .body n bs) :
    (Client.read_body 2 resp_len resp_body available).available = [] := by
  rw [Client.read_body] at hphase ⊢
  by_cases hmissing : resp_body.length < resp_len
  · rw [if_pos hmissing] at hphase ⊢
    cases available with
    | nil => rfl
    | cons b available =>
      rw [List.isEmpty_cons, if_neg Bool.false_ne_true, Client.read_body] at hphase ⊢
      dsimp only at hphase ⊢
      split
      case isTrue hmore =>
        rw [if_pos hmore] at hphase
        split
        case isTrue hempty => exact List.isEmpty_iff.mp hempty
        case isFalse hsome =>
          rw [List.length_append, List.length_take] at hmore
          exact absurd (List.isEmpty_iff.mpr (List.drop_of_length_le (by omega))) hsome
      case isFalse hmore =>
        rw [if_neg hmore] at hphase
        cases hphase
  · rw [if_neg hmissing] at hphase
    cases hphase

/-! ## Reading in pieces -/

namespace Client

/-- The client after some bytes is where it would be if they had come at once. -/
structure After (c : Client) (stream : Bytes) : Prop where
  phase : c.phase = plain stream
  waits : c.phase = .length → c.available = stream
  takes : ∀ n bs, c.phase = .body n bs → c.available = []

theorem After.connected : connected.After [] := by
  refine ⟨rfl, fun _ => rfl, ?_⟩
  intro n bs h
  cases h

end Client

/-- What a client is done with stays. -/
theorem plain_done {stream : Bytes} {result : Except ReadError Bytes}
    (h : plain stream = .done result) (more : Bytes) : plain (stream ++ more) = .done result := by
  have hlong : 4 ≤ stream.length := by
    apply Nat.le_of_not_lt
    intro hshort
    rw [plain_short hshort] at h
    cases h
  have htake : (stream ++ more).take 4 = stream.take 4 := List.take_append_of_le_length hlong
  have hdrop : (stream ++ more).drop 4 = stream.drop 4 ++ more :=
    List.drop_append_of_le_length hlong
  rw [plain_long hlong] at h
  rw [plain_long (by rw [List.length_append]; omega), htake, hdrop]
  split at h
  case isTrue hlarge =>
    rw [if_pos hlarge]
    exact h
  case isFalse hlarge =>
    rw [if_neg hlarge]
    split at h
    case isTrue henough =>
      rw [if_pos (by rw [List.length_append]; omega), List.take_append_of_le_length henough]
      exact h
    case isFalse => cases h

theorem plain_body {stream bs : Bytes} {n : Nat} (h : plain stream = .body n bs) :
    4 ≤ stream.length ∧ n = from_le_bytes (stream.take 4) ∧ bs = stream.drop 4 ∧
      ¬ n > MAX_FRAME_BYTES ∧ bs.length < n := by
  have hlong : 4 ≤ stream.length := by
    apply Nat.le_of_not_lt
    intro hshort
    rw [plain_short hshort] at h
    cases h
  rw [plain_long hlong] at h
  split at h
  case isTrue => cases h
  case isFalse hlarge =>
    split at h
    case isTrue => cases h
    case isFalse hshort =>
      cases h
      exact ⟨hlong, rfl, rfl, hlarge, Nat.lt_of_not_le hshort⟩

namespace Client

/-- A client that takes up the length, or the body where it stopped, goes as far as the
bytes reach. -/
theorem After.read_body {resp_len : Nat} {resp_body available stream : Bytes}
    (h : resp_body.length ≤ resp_len) (hlong : 4 ≤ stream.length)
    (hlen : resp_len = from_le_bytes (stream.take 4)) (hfits : ¬ resp_len > MAX_FRAME_BYTES)
    (hbody : stream.drop 4 = resp_body ++ available) :
    (Client.read_body 2 resp_len resp_body available).After stream := by
  subst hlen
  have hphase := read_body_eq _ resp_body available h
  rw [← hbody] at hphase
  refine ⟨?_, ?_, fun n bs hbs => read_body_available hbs⟩
  · rw [hphase, plain_long hlong, if_neg hfits]
  · intro hlength
    rw [hphase] at hlength
    split at hlength <;> cases hlength

theorem After.arrive {c : Client} {stream : Bytes} (h : c.After stream) (bytes : Bytes) :
    (c.arrive bytes).After (stream ++ bytes) := by
  obtain ⟨available, phase⟩ := c
  have hphase := h.phase
  rw [Client.arrive, go]
  dsimp only at hphase ⊢
  subst hphase
  cases hplain : plain stream with
  | length =>
    have havailable : available = stream := h.waits hplain
    subst havailable
    dsimp only
    split
    case isTrue hshort =>
      refine ⟨(plain_short hshort).symm, fun _ => rfl, ?_⟩
      intro n bs hbody
      cases hbody
    case isFalse hlong =>
      have hlong : 4 ≤ (available ++ bytes).length := Nat.le_of_not_lt hlong
      split
      case isTrue hlarge =>
        refine ⟨?_, ?_, ?_⟩
        · rw [plain_long hlong, if_pos hlarge]
        · intro hlength
          cases hlength
        · intro n bs hbody
          cases hbody
      case isFalse hfits =>
        exact .read_body (Nat.zero_le _) hlong rfl hfits rfl
  | body n bs =>
    have hempty : available = [] := h.takes n bs hplain
    obtain ⟨hlong, hlen, hbs, hfits, hshort⟩ := plain_body hplain
    subst hempty
    apply After.read_body (Nat.le_of_lt hshort)
    · rw [List.length_append]
      omega
    · rw [List.take_append_of_le_length hlong, hlen]
    · exact hfits
    · rw [List.drop_append_of_le_length hlong, ← hbs, List.nil_append]
  | done result =>
    refine ⟨(plain_done hplain bytes).symm, ?_, ?_⟩
    · intro hlength
      cases hlength
    · intro n bs hbody
      cases hbody

end Client

/-- However the bytes are cut into pieces, the client reads what it would read if they came
at once. -/
theorem feed_phase (pieces : List Bytes) :
    (pieces.foldl Client.arrive .connected).phase = plain pieces.flatten := by
  have hafter : ∀ (c : Client) stream, c.After stream →
      (pieces.foldl Client.arrive c).After (stream ++ pieces.flatten) := by
    induction pieces with
    | nil =>
      intro c stream h
      rw [List.flatten_nil, List.append_nil]
      exact h
    | cons bytes pieces ih =>
      intro c stream h
      rw [List.foldl_cons, List.flatten_cons, ← List.append_assoc]
      exact ih _ _ (h.arrive bytes)
  exact (hafter _ _ .connected).phase

/-! ## The two readers -/

/-- The error of the reader in Rust for an error of the client. -/
def ReadError.frame_error : ReadError → FrameError
  | .length_timed_out _ => .length
  | .too_large len => .too_large len
  | .body_timed_out _ => .body

/-- What a reader in Rust would say of the phase, if no more bytes came. -/
def Phase.answer {T : Type} (c : Codec T) : Phase → Except FrameError T
  | .length => .error .length
  | .body _ _ => .error .body
  | .done (.error e) => .error e.frame_error
  | .done (.ok text) =>
    match c.from_slice text with
    | none => .error .parse
    | some v => .ok v

theorem read_frame_plain {T : Type} (c : Codec T) (stream : Bytes) :
    (read_frame c stream).1 = (plain stream).answer c := by
  rw [read_frame, plain]
  cases read_exact 4 stream with
  | none => rfl
  | some r =>
    dsimp only
    split
    case isTrue => rfl
    case isFalse =>
      cases read_exact (from_le_bytes r.1) r.2 with
      | none => rfl
      | some r' => cases h : c.from_slice r'.1 <;> simp only [Phase.answer, h]

/-- The client in C++ and the reader in Rust agree on every stream, however it is cut into
pieces, when the client waits until nothing more comes: both have the same body, or the
same error. -/
theorem the_two_readers_agree {T : Type} (c : Codec T) (pieces : List Bytes) (silence : String) :
    ∃ result, ((pieces.foldl Client.arrive .connected).give_up silence).phase = .done result ∧
      (read_frame c pieces.flatten).1 = (Phase.done result).answer c := by
  have hphase := feed_phase pieces
  rw [read_frame_plain, ← hphase, Client.give_up]
  cases hp : (pieces.foldl Client.arrive .connected).phase with
  | length => exact ⟨_, rfl, rfl⟩
  | body n bs => exact ⟨_, rfl, rfl⟩
  | done result => exact ⟨result, hp, rfl⟩

/-! ## The daemon -/

/-- What the daemon makes of a request: the codecs of its two types, what `dispatch` gives,
and the variant for errors. -/
structure Service (Req Resp : Type) where
  requests : Codec Req
  responses : Codec Resp
  dispatch : Req → Except String Resp
  error : String → Resp

variable {Req Resp : Type} {S : Service Req Resp}

def Service.respond (S : Service Req Resp) (req : Req) : Resp :=
  match S.dispatch req with
  | .ok r => r
  | .error e => S.error e

/-- The text of the answer to a request. -/
def Service.answer (S : Service Req Resp) (req : Req) : Bytes := S.responses.to_vec (S.respond req)

/-- A connection of the daemon: it reads, it has answered, or it is closed without an
answer. -/
inductive Daemon (Req : Type)
  | reading (inbox : Bytes)
  | answered (req : Req)
  | closed (e : FrameError)

/-- `handle_connection` when more bytes come: the connection after them, and what it
writes. It reads on while the frame is not whole. -/
def Daemon.arrive (S : Service Req Resp) (bytes : Bytes) : Daemon Req → Daemon Req × Bytes
  | .reading inbox =>
    match (read_frame S.requests (inbox ++ bytes)).1 with
    | .error .length => (.reading (inbox ++ bytes), [])
    | .error .body => (.reading (inbox ++ bytes), [])
    | .error e => (.closed e, [])
    | .ok req => (.answered req, frame_bytes S.responses (S.respond req))
  | d => (d, [])

/-- The end of the stream. -/
def Daemon.hang_up (S : Service Req Resp) : Daemon Req → Daemon Req
  | .reading inbox =>
    match (read_frame S.requests inbox).1 with
    | .error e => .closed e
    | .ok req => .answered req
  | d => d

/-! ## One request -/

/-- The two ends, and what is on its way to each. -/
structure Session (Req : Type) where
  to_daemon : Bytes
  to_client : Bytes
  daemon : Daemon Req
  client : Client

/-- Bytes go over in pieces of any size. The client can lose patience while it waits, and
the daemon sees the end of the stream when the client is done. -/
inductive IpcOp
  | carry_request (n : Nat)
  | carry_response (n : Nat)
  | silence (text : String)
  | hang_up

/-- `sendRequest` after its connection: the frame with the length in front. -/
def request_frame (body : Bytes) : Bytes := frame.to_le_bytes (UInt32.ofNat body.length) ++ body

def send_request (body : Bytes) : Except String (Session Req) :=
  if body.length > MAX_FRAME_BYTES then
    .error ("request frame too large: " ++ toString body.length ++ " bytes")
  else .ok { to_daemon := request_frame body, to_client := [], daemon := .reading [],
             client := .connected }

/-- The log has the silences that ended a wait. -/
def Session.step (S : Service Req Resp) (s : Session Req) :
    IpcOp → Except Empty (Session Req × List String)
  | .carry_request n =>
    let r := s.daemon.arrive S (s.to_daemon.take n)
    .ok ({ s with to_daemon := s.to_daemon.drop n, daemon := r.1, to_client := s.to_client ++ r.2 },
      [])
  | .carry_response n =>
    .ok ({ s with to_client := s.to_client.drop n,
                  client := s.client.arrive (s.to_client.take n) }, [])
  | .silence text =>
    match s.client.phase with
    | .done _ => .ok (s, [])
    | _ => .ok ({ s with client := s.client.give_up text }, [text])
  | .hang_up =>
    match s.client.phase with
    | .done _ => .ok ({ s with daemon := s.daemon.hang_up S }, [])
    | _ => .ok (s, [])

/-! ## Frames in pieces -/

/-- A frame read to its end. The length is in 32 bits. -/
theorem plain_frame (body : Bytes) :
    plain (request_frame body) =
      if body.length % 2 ^ 32 > MAX_FRAME_BYTES then
        .done (.error (.too_large (body.length % 2 ^ 32)))
      else .done (.ok (body.take (body.length % 2 ^ 32))) := by
  have hfour : (frame.to_le_bytes (UInt32.ofNat body.length)).length = 4 := rfl
  have htake : (request_frame body).take 4 = frame.to_le_bytes (UInt32.ofNat body.length) :=
    List.take_left' hfour
  have hdrop : (request_frame body).drop 4 = body := List.drop_left' hfour
  have hlong : 4 ≤ (request_frame body).length := by
    rw [request_frame, List.length_append, hfour]
    omega
  rw [plain_long hlong, htake, hdrop, from_le_bytes_to_le_bytes, UInt32.toNat_ofNat',
    if_pos (Nat.mod_le _ _)]

theorem plain_ok {stream text : Bytes} (h : plain stream = .done (.ok text)) :
    4 + text.length ≤ stream.length := by
  have hlong : 4 ≤ stream.length := by
    apply Nat.le_of_not_lt
    intro hshort
    rw [plain_short hshort] at h
    cases h
  rw [plain_long hlong] at h
  split at h
  case isTrue => cases h
  case isFalse =>
    split at h
    case isTrue henough =>
      cases h
      rw [List.length_drop] at henough
      rw [List.length_take, List.length_drop]
      omega
    case isFalse => cases h

/-- A request has the length in front of it. -/
theorem plain_request {body : Bytes} (hfits : body.length ≤ MAX_FRAME_BYTES) :
    plain (request_frame body) = .done (.ok body) := by
  have hmod : body.length % 2 ^ 32 = body.length := by
    unfold MAX_FRAME_BYTES at hfits
    apply Nat.mod_eq_of_lt
    omega
  rw [plain_frame, hmod, if_neg (Nat.not_lt.mpr hfits), List.take_length]

/-- A piece of a request is not a whole one. -/
theorem plain_cut {body piece rest : Bytes} (hfits : body.length ≤ MAX_FRAME_BYTES)
    (h : piece ++ rest = request_frame body) (hrest : rest ≠ []) (result : Except ReadError Bytes) :
    plain piece ≠ .done result := by
  intro hplain
  have hwhole := plain_done hplain rest
  rw [h, plain_request hfits] at hwhole
  cases hwhole
  have hlength := congrArg List.length h
  have hlong := plain_ok hplain
  have hmore := List.length_pos_iff.mpr hrest
  rw [List.length_append] at hlength
  unfold request_frame at hlength
  rw [List.length_append, show (frame.to_le_bytes (UInt32.ofNat body.length)).length = 4 from rfl]
    at hlength
  omega

/-! ## A call along a run -/

/-- The daemon reads on while something of the request is on its way, and then it has
answered that request: the answer is all that it ever sends. A daemon that is closed found no
request, or the client gave up. -/
def Daemon.Holds (S : Service Req Resp) (body to_daemon sent : Bytes) (log : List String) :
    Daemon Req → Prop
  | .reading inbox => sent = [] ∧ inbox ++ to_daemon = request_frame body ∧ to_daemon ≠ []
  | .answered req => S.requests.from_slice body = some req ∧ sent = request_frame (S.answer req)
  | .closed _ => sent = [] ∧ (S.requests.from_slice body = none ∨ log ≠ [])

/-- What the client has `received`, and what comes to it, is what the daemon sent. -/
structure Session.Tracks (S : Service Req Resp) (body received : Bytes) (log : List String)
    (s : Session Req) : Prop where
  daemon : s.daemon.Holds S body s.to_daemon (received ++ s.to_client) log
  waits : log = [] → s.client.After received
  gave_up : log ≠ [] → ∃ e, s.client.phase = .done (.error e)

variable {body received : Bytes} {log : List String} {s s' : Session Req}

theorem send_request_ok {s : Session Req} (h : send_request body = .ok s) :
    body.length ≤ MAX_FRAME_BYTES ∧ s.Tracks S body [] [] := by
  unfold send_request at h
  split at h
  case isTrue => cases h
  case isFalse hfits =>
    cases h
    refine ⟨Nat.le_of_not_lt hfits, ⟨rfl, rfl, ?_⟩, fun _ => .connected, ?_⟩
    · intro hempty
      have hlength := congrArg List.length hempty
      cases hlength
    · intro hlog
      exact absurd rfl hlog

/-- The daemon answers when the last piece of the request comes. -/
theorem Daemon.arrive_reading (hfits : body.length ≤ MAX_FRAME_BYTES) {inbox bytes rest : Bytes}
    (h : inbox ++ bytes ++ rest = request_frame body) :
    Daemon.arrive S bytes (.reading inbox) =
      if rest = [] then
        match S.requests.from_slice body with
        | none => (.closed .parse, [])
        | some req => (.answered req, request_frame (S.answer req))
      else (.reading (inbox ++ bytes), []) := by
  unfold Daemon.arrive
  dsimp only
  rw [read_frame_plain]
  by_cases hrest : rest = []
  · subst hrest
    rw [List.append_nil] at h
    rw [if_pos rfl, h, plain_request hfits]
    cases hreq : S.requests.from_slice body with
    | none => simp only [Phase.answer, hreq]
    | some req =>
      simp only [Phase.answer, hreq]
      rfl
  · rw [if_neg hrest]
    cases hplain : plain (inbox ++ bytes) with
    | length => rfl
    | body n bs => rfl
    | done result => exact absurd hplain (plain_cut hfits h hrest result)

theorem Session.Tracks.carry_request (hfits : body.length ≤ MAX_FRAME_BYTES)
    (h : s.Tracks S body received log) {n : Nat} {out : List String}
    (hstep : s.step S (.carry_request n) = .ok (s', out)) :
    s'.Tracks S body received (log ++ out) := by
  unfold Session.step at hstep
  cases hstep
  rw [List.append_nil]
  refine ⟨?_, h.waits, h.gave_up⟩
  have hdaemon := h.daemon
  dsimp only
  cases hd : s.daemon with
  | reading inbox =>
    rw [hd] at hdaemon
    obtain ⟨hnone, hwhole, -⟩ := hdaemon
    have hcut : inbox ++ s.to_daemon.take n ++ s.to_daemon.drop n = request_frame body := by
      rw [List.append_assoc, List.take_append_drop, hwhole]
    rw [Daemon.arrive_reading hfits hcut, ← List.append_assoc, hnone, List.nil_append]
    by_cases hrest : s.to_daemon.drop n = []
    · rw [if_pos hrest]
      cases hreq : S.requests.from_slice body with
      | none => exact ⟨rfl, .inl hreq⟩
      | some req => exact ⟨hreq, rfl⟩
    · rw [if_neg hrest]
      exact ⟨rfl, hcut, hrest⟩
  | answered req =>
    rw [hd] at hdaemon
    dsimp only [Daemon.arrive]
    rw [List.append_nil]
    exact hdaemon
  | closed e =>
    rw [hd] at hdaemon
    dsimp only [Daemon.arrive]
    rw [List.append_nil]
    exact hdaemon

theorem Client.arrive_done {c : Client} {result : Except ReadError Bytes}
    (h : c.phase = .done result) (bytes : Bytes) : (c.arrive bytes).phase = .done result := by
  unfold Client.arrive Client.go
  dsimp only
  rw [h]

theorem Session.Tracks.carry_response (h : s.Tracks S body received log) {n : Nat}
    {out : List String} (hstep : s.step S (.carry_response n) = .ok (s', out)) :
    s'.Tracks S body (received ++ s.to_client.take n) (log ++ out) := by
  unfold Session.step at hstep
  cases hstep
  rw [List.append_nil]
  refine ⟨?_, ?_, ?_⟩
  · dsimp only
    rw [List.append_assoc, List.take_append_drop]
    exact h.daemon
  · intro hlog
    exact (h.waits hlog).arrive _
  · intro hlog
    obtain ⟨e, he⟩ := h.gave_up hlog
    exact ⟨e, Client.arrive_done he _⟩

/-- Only a client that waits gives up, and then it is done with an error. -/
theorem Session.Tracks.silence (h : s.Tracks S body received log) {text : String}
    {out : List String} (hstep : s.step S (.silence text) = .ok (s', out)) :
    s'.Tracks S body received (log ++ out) := by
  unfold Session.step at hstep
  dsimp only at hstep
  split at hstep
  case h_1 hdone =>
    cases hstep
    rw [List.append_nil]
    exact h
  case h_2 hwaits =>
    cases hstep
    have hlog : log ++ [text] ≠ [] := List.append_ne_nil_of_right_ne_nil _ (List.cons_ne_nil _ _)
    refine ⟨?_, fun hnone => absurd hnone hlog, ?_⟩
    · have hdaemon := h.daemon
      dsimp only
      cases hd : s.daemon with
      | reading inbox =>
        rw [hd] at hdaemon
        exact hdaemon
      | answered req =>
        rw [hd] at hdaemon
        exact hdaemon
      | closed e =>
        rw [hd] at hdaemon
        exact ⟨hdaemon.1, .inr hlog⟩
    · intro _
      unfold Client.give_up
      cases hp : s.client.phase with
      | length => exact ⟨_, rfl⟩
      | body n bs => exact ⟨_, rfl⟩
      | done result => exact absurd hp (hwaits result)

/-- A client that is done before the daemon has the request has given up. -/
theorem Session.Tracks.hang_up (hfits : body.length ≤ MAX_FRAME_BYTES)
    (h : s.Tracks S body received log) {out : List String}
    (hstep : s.step S .hang_up = .ok (s', out)) : s'.Tracks S body received (log ++ out) := by
  unfold Session.step at hstep
  dsimp only at hstep
  split at hstep
  case h_2 =>
    cases hstep
    rw [List.append_nil]
    exact h
  case h_1 result hdone =>
    cases hstep
    rw [List.append_nil]
    refine ⟨?_, h.waits, h.gave_up⟩
    have hdaemon := h.daemon
    dsimp only
    cases hd : s.daemon with
    | reading inbox =>
      rw [hd] at hdaemon
      obtain ⟨hnone, hwhole, hrest⟩ := hdaemon
      have hlog : log ≠ [] := by
        intro hlog
        have hphase := (h.waits hlog).phase
        rw [(List.append_eq_nil_iff.mp hnone).1, hdone] at hphase
        cases hphase
      unfold Daemon.hang_up
      dsimp only
      rw [read_frame_plain]
      cases hplain : plain inbox with
      | length => exact ⟨hnone, .inr hlog⟩
      | body n bs => exact ⟨hnone, .inr hlog⟩
      | done result => exact absurd hplain (plain_cut hfits hwhole hrest result)
    | answered req =>
      rw [hd] at hdaemon
      exact hdaemon
    | closed e =>
      rw [hd] at hdaemon
      exact hdaemon

theorem Session.Tracks.run {s0 : Session Req} {ops : List IpcOp}
    (h0 : send_request body = .ok s0)
    (hrun : machine.run (Session.step S) s0 ops = .ok (s, log)) :
    ∃ received, s.Tracks S body received log := by
  obtain ⟨hfits, hstart⟩ := send_request_ok (S := S) h0
  refine run_invariant (I := fun log s => ∃ received, s.Tracks S body received log) ⟨[], hstart⟩
    ?_ hrun
  intro log s op s' out h hstep
  obtain ⟨received, h⟩ := h
  cases op with
  | carry_request n => exact ⟨received, h.carry_request hfits hstep⟩
  | carry_response n => exact ⟨_, h.carry_response hstep⟩
  | silence text => exact ⟨received, h.silence hstep⟩
  | hang_up => exact ⟨received, h.hang_up hfits hstep⟩

namespace Sample

/-- The request for an object, as the module writes it. -/
def fetch : Bytes := utf8 "\x7b\"cid\":\"z\",\"kind\":\"storage_fetch\"\x7d"

/-- A daemon that stores one object of three bytes. -/
def storage : Service String FetchResponse where
  requests :=
    { to_vec := fun _ => fetch, from_slice := fun bs => if bs = fetch then some "z" else none }
  responses := { to_vec := FetchResponse.to_vec, from_slice := fun _ => none }
  dispatch := fun cid => .ok (storage_fetch (some fun _ => .ok [1, 2, 3]) cid)
  error := .Error

/-- The request comes in three pieces, and the answer with a cut in its length. -/
def in_pieces : List IpcOp :=
  [.carry_request 2, .carry_request 10, .carry_response 1, .carry_request 100, .carry_response 3,
    .carry_response 20, .carry_response 100, .silence "", .hang_up]

def asked : Session String :=
  { to_daemon := request_frame fetch, to_client := [], daemon := .reading [],
    client := .connected }

end Sample

end lmao.cli.ipc
