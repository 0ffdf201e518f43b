-- Transfers over the plugin of Logos Core (logos_core_backend.rs of the storage
-- crate). The events of the plugin carry no session, and every listener gets
-- all the events of a name, so what a call returns is its own only while the
-- others are not listening for theirs.
import Lmao.Base64
import Lmao.Machine
import Lmao.Node

set_option linter.unusedSectionVars false

namespace lmao.storage

open machine node

/-! ## Calls and events -/

/-- What a callback of the plugin makes of a result code and a message. -/
def callback_value (kind : String) (result : Int) (message : Option String) :
    Except StorageError String :=
  if result = 0 then .ok (message.getD "")
  else .error (.Http (kind ++ " error (" ++ toString result ++ "): " ++ message.getD ""))

def method_callback : Int → Option String → Except StorageError String := callback_value "plugin"

def event_callback : Int → Option String → Except StorageError String := callback_value "event"

/-- The parameters of a call: a name, a value and a type each. -/
def params_json (params : List (String × String × String)) : String :=
  "[" ++ ",".intercalate (params.map fun (name, value, ty) =>
    "\x7b\"name\":\"" ++ name ++ "\",\"value\":\"" ++ value ++ "\",\"type\":\"" ++ ty ++
      "\"\x7d") ++ "]"

inductive EventName
  | storageUploadDone
  | storageDownloadChunk
  | storageDownloadDone
deriving DecidableEq, Repr

/-- An event in the queue of a listener. The owner is the transfer that it is
about; only the plugin knows it. -/
structure Queued where
  owner : Nat
  value : Except StorageError String
deriving DecidableEq, Repr

/-! ## One transfer -/

inductive Kind
  | upload
  | download
deriving DecidableEq, Repr

/-- What a call waits for, or how it ended. -/
inductive Phase
  | uploadInit (data : Bytes)
  | uploadChunk (session_id : String) (rest : List Bytes)
  | uploadFinalize
  | uploadDone
  | downloadChunks
  | collecting (assembled : Bytes)
  | uploaded (result : Except StorageError String)
  | downloaded (result : Except StorageError Bytes)
  | panicked
deriving DecidableEq, Repr

def Phase.finished : Phase → Bool
  | .uploaded _ | .downloaded _ | .panicked => true
  | _ => false

/-- A call with its receivers. `reported` says that the plugin has emitted the
done event of the call. -/
structure Transfer where
  kind : Kind
  phase : Phase
  chunk_rx : List Queued
  done_rx : List Queued
  reported : Bool
deriving DecidableEq, Repr

def Transfer.finished (t : Transfer) : Bool := t.phase.finished

/-- A plugin method and the text of its parameters. -/
abbrev Call : Type := String × String

/-- Call a method and wait in the phase for the answer. A NUL in the parameters
panics, before the call. -/
def call_method (method params : String) (phase : Phase) : Phase × List Call :=
  if '\x00' ∈ params.toList then (.panicked, []) else (phase, [(method, params)])

def upload_init (chunk_size : Nat) (data : Bytes) : Phase × List Call :=
  call_method "uploadInit"
    (params_json [("filename", "blob", "string"), ("chunkSize", toString chunk_size, "int")])
    (.uploadInit data)

/-- The next chunk, base64-encoded, or the end of the upload session. -/
def upload_next (session_id : String) : List Bytes → Phase × List Call
  | chunk :: rest =>
    call_method "uploadChunk"
      (params_json [("sessionId", session_id, "string"),
        ("chunk", base64.encode chunk, "string")])
      (.uploadChunk session_id rest)
  | [] =>
    call_method "uploadFinalize" (params_json [("sessionId", session_id, "string")]) .uploadFinalize

def download_start (cid : String) : Phase × List Call :=
  call_method "downloadChunks" (params_json [("cid", cid, "string"), ("local", "false", "bool")])
    .downloadChunks

/-- A call goes on with the answer to its method. Chunks of size zero panic. -/
def Phase.answered (chunk_size : Nat) (phase : Phase) (answer : Except StorageError String) :
    Option (Phase × List Call) :=
  match phase, answer with
  | .uploadInit data, .ok session_id =>
    if chunk_size = 0 then some (.panicked, [])
    else some (upload_next session_id (data.toChunks chunk_size))
  | .uploadChunk session_id rest, .ok _ => some (upload_next session_id rest)
  | .uploadFinalize, .ok _ => some (.uploadDone, [])
  | .downloadChunks, .ok _ => some (.collecting [], [])
  | .uploadInit _, .error e | .uploadChunk _ _, .error e | .uploadFinalize, .error e =>
    some (.uploaded (.error e), [])
  | .downloadChunks, .error e => some (.downloaded (.error e), [])
  | _, _ => none

/-- The text of the error of the decoder is a parameter. -/
def decode_chunk (display : String → String) : Except StorageError String →
    Except StorageError Bytes
  | .error e => .error e
  | .ok chunk_b64 =>
    match base64.decode chunk_b64 with
    | none => .error (.Http ("base64 decode error: " ++ display chunk_b64))
    | some bytes => .ok bytes

/-- The first event is taken out of the receiver of an upload. -/
def Transfer.take_upload (t : Transfer) : Option Transfer :=
  match t.phase, t.done_rx with
  | .uploadDone, e :: rest => some { t with phase := .uploaded e.value, done_rx := rest }
  | _, _ => none

/-- The two branches of the `select`. -/
def Transfer.take_chunk (display : String → String) (t : Transfer) : Option Transfer :=
  match t.phase, t.chunk_rx with
  | .collecting assembled, e :: rest =>
    match decode_chunk display e.value with
    | .error err => some { t with phase := .downloaded (.error err), chunk_rx := rest }
    | .ok bytes => some { t with phase := .collecting (assembled ++ bytes), chunk_rx := rest }
  | _, _ => none

def Transfer.take_done (t : Transfer) : Option Transfer :=
  match t.phase, t.done_rx with
  | .collecting assembled, e :: rest =>
    match e.value with
    | .error err => some { t with phase := .downloaded (.error err), done_rx := rest }
    | .ok _ => some { t with phase := .downloaded (.ok assembled), done_rx := rest }
  | _, _ => none

/-! ## The machine -/

/-- The listeners of a transfer. -/
def Kind.listens : Kind → EventName → Bool
  | .upload, .storageUploadDone => true
  | .download, .storageDownloadChunk | .download, .storageDownloadDone => true
  | _, _ => false

/-- The callback of a listener puts the event into its queue. The receivers of
a call that is over are gone. -/
def Transfer.hear (t : Transfer) (name : EventName) (e : Queued) : Transfer :=
  if t.kind.listens name && !t.finished then
    match name with
    | .storageDownloadChunk => { t with chunk_rx := t.chunk_rx ++ [e] }
    | _ => { t with done_rx := t.done_rx ++ [e] }
  else t

/-- An upload or a download is called, the plugin answers the method that a
call waits for, an event is emitted, and a call takes an event out of a
queue. -/
inductive TransferOp
  | upload (data : Bytes)
  | download (cid : String)
  | answer (i : Nat) (result : Int) (message : Option String)
  | emit (name : EventName) (owner : Nat) (result : Int) (message : Option String)
  | take_upload (i : Nat)
  | take_chunk (i : Nat)
  | take_done (i : Nat)

inductive Output
  | called (i : Nat) (call : Call)
  | emitted (name : EventName) (owner : Nat) (value : Except StorageError String)
deriving DecidableEq, Repr

/-- The plugin emits an event for a call that listens to it, and no chunk of a
download after its done event. -/
def may_emit (t : Transfer) (name : EventName) : Bool :=
  t.kind.listens name && !(name == .storageDownloadChunk && t.reported)

/-- The transfer whose event it is takes note of the report. -/
def Transfer.note (t : Transfer) (name : EventName) : Transfer :=
  if name = .storageDownloadChunk then t else { t with reported := true }

/-- The queues after an event. -/
def hear_all (name : EventName) (e : Queued) (transfers : List Transfer) : List Transfer :=
  transfers.mapIdx fun i t => if i = e.owner then (t.hear name e).note name else t.hear name e

/-- The transfer `i` takes a step of its own, if it can. -/
def advance (transfers : List Transfer) (i : Nat) (next : Transfer → Option Transfer) :
    Except Unit (List Transfer × List Output) :=
  match transfers[i]?.bind next with
  | none => .error ()
  | some t => .ok (transfers.set i t, [])

/-- An error stands for a step that cannot be taken. -/
def step (chunk_size : Nat) (display : String → String) (transfers : List Transfer) :
    TransferOp → Except Unit (List Transfer × List Output)
  | .upload data =>
    let r := upload_init chunk_size data
    .ok (transfers ++
      [{ kind := .upload, phase := r.1, chunk_rx := [], done_rx := [], reported := false }],
      r.2.map (.called transfers.length))
  | .download cid =>
    let r := download_start cid
    .ok (transfers ++
      [{ kind := .download, phase := r.1, chunk_rx := [], done_rx := [], reported := false }],
      r.2.map (.called transfers.length))
  | .answer i result message =>
    match transfers[i]? with
    | none => .error ()
    | some t =>
      match t.phase.answered chunk_size (method_callback result message) with
      | none => .error ()
      | some (phase, calls) => .ok (transfers.set i { t with phase }, calls.map (.called i))
  | .emit name owner result message =>
    match transfers[owner]? with
    | none => .error ()
    | some t =>
      if may_emit t name then
        let value := event_callback result message
        .ok (hear_all name { owner, value } transfers, [.emitted name owner value])
      else .error ()
  | .take_upload i => advance transfers i Transfer.take_upload
  | .take_chunk i => advance transfers i (Transfer.take_chunk display)
  | .take_done i => advance transfers i Transfer.take_done

/-! ## The law -/

/-- The chunks that were emitted for a download, in order. -/
def chunksOf (i : Nat) (log : List Output) : List (Except StorageError String) :=
  log.filterMap fun
    | .emitted .storageDownloadChunk owner value => if owner = i then some value else none
    | _ => none

/-- The chunks put together, if each is one. -/
def assemble (display : String → String) (chunks : List (Except StorageError String)) :
    Option Bytes :=
  chunks.foldlM (fun assembled c => (decode_chunk display c).toOption.map (assembled ++ ·)) []

/-- What a call returned is its own. -/
structure OwnData (display : String → String) (log : List Output) (i : Nat) (t : Transfer) :
    Prop where
  upload : ∀ cid, t.phase = .uploaded (.ok cid) → .emitted .storageUploadDone i (.ok cid) ∈ log
  download : ∀ bytes, t.phase = .downloaded (.ok bytes) →
    assemble display (chunksOf i log) = some bytes

/-- When an event is emitted, every other call that hears it has its own done
event, and the `select` takes a chunk exactly if one of its own is waiting. -/
def Apart (transfers : List Transfer) : TransferOp → Prop
  | .emit name owner _ _ =>
    ∀ i < transfers.length, ∀ t ∈ transfers[i]?, i ≠ owner → t.kind.listens name = true →
      t.finished = false → t.reported = true
  | .take_chunk i => ∀ t ∈ transfers[i]?, ∃ e ∈ t.chunk_rx, e.owner = i
  | .take_done i => ∀ t ∈ transfers[i]?, ∀ e ∈ t.chunk_rx, e.owner ≠ i
  | _ => True

instance (transfers : List Transfer) : (op : TransferOp) → Decidable (Apart transfers op)
  | .emit _ _ _ _ | .take_chunk _ | .take_done _ => by
    dsimp only [Apart]
    infer_instance
  | .upload _ | .download _ | .answer _ _ _ | .take_upload _ => isTrue trivial

/-! ## The invariant -/

/-- The bytes of a download that goes on. -/
def Phase.assembled : Phase → Option Bytes
  | .downloadChunks => some []
  | .collecting assembled => some assembled
  | _ => none

/-- The phases of an upload and those of a download. -/
def Phase.suits : Phase → Kind → Bool
  | .uploadInit _, kind | .uploadChunk _ _, kind | .uploadFinalize, kind | .uploadDone, kind
  | .uploaded _, kind => kind == .upload
  | .downloadChunks, kind | .collecting _, kind | .downloaded _, kind => kind == .download
  | .panicked, _ => true

def Kind.done_name : Kind → EventName
  | .upload => .storageUploadDone
  | .download => .storageDownloadDone

/-- A download in the middle of its chunks: those that it has taken and those
that are waiting are all of its own, and others wait only behind them. -/
structure Collecting (display : String → String) (log : List Output) (i : Nat) (t : Transfer)
    (assembled : Bytes) (taken : List (Except StorageError String)) (own foreign : List Queued) :
    Prop where
  queue : t.chunk_rx = own ++ foreign
  own_owner : ∀ e ∈ own, e.owner = i
  foreign_owner : ∀ e ∈ foreign, e.owner ≠ i
  chunks : chunksOf i log = taken ++ own.map (·.value)
  taken_eq : assemble display taken = some assembled
  alone : t.reported = false → foreign = []

/-- A transfer after a run. The first event of its done queue is its own. -/
structure Fits (display : String → String) (log : List Output) (i : Nat) (t : Transfer) :
    Prop where
  own : OwnData display log i t
  suits : t.phase.suits t.kind = true
  ended : ∀ bytes, t.phase = .downloaded (.ok bytes) → t.reported = true
  unreported : t.finished = false → t.reported = false → t.done_rx = []
  reported : t.finished = false → t.reported = true → ∃ value rest,
    t.done_rx = { owner := i, value } :: rest ∧ .emitted t.kind.done_name i value ∈ log
  collecting : ∀ assembled, t.phase.assembled = some assembled →
    ∃ taken own foreign, Collecting display log i t assembled taken own foreign

structure Sound (display : String → String) (log : List Output) (transfers : List Transfer) :
    Prop where
  fits : ∀ i t, transfers[i]? = some t → Fits display log i t
  owners : ∀ name owner value, .emitted name owner value ∈ log → owner < transfers.length

variable {chunk_size : Nat} {display : String → String} {log : List Output} {i : Nat}
  {t : Transfer} {transfers : List Transfer}

theorem chunksOf_append (i : Nat) (log log' : List Output) :
    chunksOf i (log ++ log') = chunksOf i log ++ chunksOf i log' := List.filterMap_append

theorem chunksOf_called (i k : Nat) (calls : List Call) :
    chunksOf i (calls.map (.called k)) = [] := by
  simp [chunksOf]

theorem chunksOf_emitted_other {i owner : Nat} {name : EventName}
    {value : Except StorageError String} (h : name ≠ .storageDownloadChunk ∨ owner ≠ i) :
    chunksOf i [.emitted name owner value] = [] := by
  cases name with
  | storageDownloadChunk => simp [chunksOf, h.resolve_left (by simp)]
  | _ => rfl

/-- What leaves the chunks of a transfer as they are leaves it as it is. -/
theorem Fits.mono (h : Fits display log i t) {log' : List Output}
    (hchunks : chunksOf i log' = []) : Fits display (log ++ log') i t where
  own := by
    refine ⟨fun cid hphase => List.mem_append_left _ (h.own.upload cid hphase), ?_⟩
    intro bytes hphase
    rw [chunksOf_append, hchunks, List.append_nil]
    exact h.own.download bytes hphase
  suits := h.suits
  ended := h.ended
  unreported := h.unreported
  reported := by
    intro hfin hrep
    obtain ⟨value, rest, hrx, hmem⟩ := h.reported hfin hrep
    exact ⟨value, rest, hrx, List.mem_append_left _ hmem⟩
  collecting := by
    intro assembled hphase
    obtain ⟨taken, own, foreign, hc⟩ := h.collecting assembled hphase
    refine ⟨taken, own, foreign, hc.queue, hc.own_owner, hc.foreign_owner, ?_, hc.taken_eq,
      hc.alone⟩
    rw [chunksOf_append, hchunks, List.append_nil, hc.chunks]

theorem Sound.calls (h : Sound display log transfers) (k : Nat) (calls : List Call) :
    Sound display (log ++ calls.map (.called k)) transfers where
  fits := fun i t ht => (h.fits i t ht).mono (chunksOf_called i k calls)
  owners := by
    intro name owner value hmem
    rcases List.mem_append.mp hmem with hmem | hmem
    · exact h.owners name owner value hmem
    · simp at hmem

theorem Sound.set (h : Sound display log transfers) {t' : Transfer}
    (hfits : Fits display log i t') : Sound display log (transfers.set i t') where
  fits := by
    intro k u hu
    by_cases hk : i = k
    · subst hk
      rw [List.getElem?_set_self'] at hu
      obtain ⟨_, -, rfl⟩ := Option.map_eq_some_iff.mp hu
      exact hfits
    · rw [List.getElem?_set_ne hk] at hu
      exact h.fits k u hu
  owners := by
    intro name owner value hmem
    rw [List.length_set]
    exact h.owners name owner value hmem

/-! ## One step -/

/-- A call that is over, and not with a result. -/
def Phase.Failed (phase : Phase) : Prop :=
  phase.finished = true ∧ (∀ cid, phase ≠ .uploaded (.ok cid)) ∧
    ∀ bytes, phase ≠ .downloaded (.ok bytes)

theorem Phase.Failed.assembled {phase : Phase} (h : phase.Failed) : phase.assembled = none := by
  have hfin := h.1
  cases phase <;> simp_all [Phase.finished, Phase.assembled]

theorem Fits.failed {t' : Transfer} (hfail : t'.phase.Failed) (hsuits : t'.phase.suits t'.kind) :
    Fits display log i t' where
  own := ⟨fun cid h => absurd h (hfail.2.1 cid), fun bytes h => absurd h (hfail.2.2 bytes)⟩
  suits := hsuits
  ended := fun bytes h => absurd h (hfail.2.2 bytes)
  unreported := by
    intro hfin
    rw [Transfer.finished, hfail.1] at hfin
    cases hfin
  reported := by
    intro hfin
    rw [Transfer.finished, hfail.1] at hfin
    cases hfin
  collecting := by
    intro assembled hphase
    rw [hfail.assembled] at hphase
    cases hphase

/-- A call that goes on with another method. -/
theorem Fits.goes_on (h : Fits display log i t) {phase : Phase} (hfin : t.finished = false)
    (hgoes : phase.finished = false) (hsame : phase.assembled = t.phase.assembled)
    (hsuits : phase.suits t.kind = true) : Fits display log i { t with phase } where
  own := by
    constructor
    · rintro cid rfl
      cases hgoes
    · rintro bytes rfl
      cases hgoes
  suits := hsuits
  ended := by
    rintro bytes rfl
    cases hgoes
  unreported := fun _ hrep => h.unreported hfin hrep
  reported := fun _ hrep => h.reported hfin hrep
  collecting := by
    intro assembled hphase
    obtain ⟨taken, own, foreign, hc⟩ := h.collecting assembled (hsame ▸ hphase)
    exact ⟨taken, own, foreign, hc.queue, hc.own_owner, hc.foreign_owner, hc.chunks, hc.taken_eq,
      hc.alone⟩

/-- A method call leaves the phase it is given, or a panic. -/
theorem call_method_phase (method params : String) (phase : Phase) :
    (call_method method params phase).1 = .panicked ∨
      (call_method method params phase).1 = phase := by
  unfold call_method
  split
  · exact .inl rfl
  · exact .inr rfl

theorem failed_panicked : Phase.Failed .panicked := ⟨rfl, nofun, nofun⟩

theorem upload_next_phase (session_id : String) (chunks : List Bytes) :
    (upload_next session_id chunks).1 = .panicked ∨
      (upload_next session_id chunks).1.finished = false ∧
        (upload_next session_id chunks).1.assembled = none ∧
        (upload_next session_id chunks).1.suits .upload = true := by
  cases chunks with
  | nil =>
    apply (call_method_phase _ _ _).imp_right
    intro h
    rw [upload_next, h]
    exact ⟨rfl, rfl, rfl⟩
  | cons chunk rest =>
    apply (call_method_phase _ _ _).imp_right
    intro h
    rw [upload_next, h]
    exact ⟨rfl, rfl, rfl⟩

/-- An answer ends the call without a result, or it goes on. -/
theorem answered_cases {phase phase' : Phase} {answer : Except StorageError String}
    {calls : List Call} (h : phase.answered chunk_size answer = some (phase', calls)) {kind : Kind}
    (hsuits : phase.suits kind = true) :
    phase.finished = false ∧ phase'.suits kind = true ∧
      (phase'.Failed ∨ phase'.finished = false ∧ phase'.assembled = phase.assembled) := by
  have hnext : ∀ session_id chunks, kind = .upload →
      some (upload_next session_id chunks) = some (phase', calls) → phase.assembled = none →
      phase'.suits kind = true ∧
        (phase'.Failed ∨ phase'.finished = false ∧ phase'.assembled = phase.assembled) := by
    rintro session_id chunks rfl heq hnone
    have hphase : (upload_next session_id chunks).1 = phase' := by
      rw [Option.some.inj heq]
    rcases upload_next_phase session_id chunks with hp | ⟨hfin, hasm, hsuit⟩
    · rw [← hphase, hp]
      exact ⟨rfl, .inl failed_panicked⟩
    · rw [← hphase]
      exact ⟨hsuit, .inr ⟨hfin, hasm.trans hnone.symm⟩⟩
  unfold Phase.answered at h
  split at h
  · have hkind : kind = .upload := by simpa [Phase.suits] using hsuits
    split at h
    · cases h
      exact ⟨rfl, rfl, .inl failed_panicked⟩
    · exact ⟨rfl, hnext _ _ hkind h rfl⟩
  · have hkind : kind = .upload := by simpa [Phase.suits] using hsuits
    exact ⟨rfl, hnext _ _ hkind h rfl⟩
  · cases h
    exact ⟨rfl, hsuits, .inr ⟨rfl, rfl⟩⟩
  · cases h
    exact ⟨rfl, hsuits, .inr ⟨rfl, rfl⟩⟩
  · cases h
    exact ⟨rfl, hsuits, .inl ⟨rfl, nofun, nofun⟩⟩
  · cases h
    exact ⟨rfl, hsuits, .inl ⟨rfl, nofun, nofun⟩⟩
  · cases h
    exact ⟨rfl, hsuits, .inl ⟨rfl, nofun, nofun⟩⟩
  · cases h
    exact ⟨rfl, hsuits, .inl ⟨rfl, nofun, nofun⟩⟩
  · cases h

/-- No event was emitted for a call that comes next. -/
theorem Sound.chunksOf_next (h : Sound display log transfers) :
    chunksOf transfers.length log = [] := by
  apply List.filterMap_eq_nil_iff.mpr
  intro out hout
  split
  · rename_i owner value
    have hlt := h.owners _ owner value hout
    rw [if_neg (by omega)]
  · rfl

theorem Sound.snoc (h : Sound display log transfers) {kind : Kind} {phase : Phase}
    (hsuits : phase.suits kind = true)
    (hphase : phase.Failed ∨ phase.finished = false ∧ ∀ a, phase.assembled = some a → a = []) :
    Sound display log (transfers ++
      [{ kind, phase, chunk_rx := [], done_rx := [], reported := false }]) where
  fits := by
    intro i t ht
    rcases Nat.lt_or_ge i transfers.length with hlt | hge
    · rw [List.getElem?_append_left hlt] at ht
      exact h.fits i t ht
    · rw [List.getElem?_append_right hge] at ht
      have hi : i = transfers.length := by
        rcases Nat.eq_zero_or_pos (i - transfers.length) with h0 | hpos
        · omega
        · rw [List.getElem?_eq_none (by rw [List.length_singleton]; omega)] at ht
          cases ht
      subst hi
      rw [Nat.sub_self] at ht
      cases ht
      rcases hphase with hfail | ⟨hfin, hnil⟩
      · exact .failed hfail hsuits
      refine ⟨⟨?_, ?_⟩, hsuits, ?_, fun _ _ => rfl, fun _ hrep => ?_, ?_⟩
      · rintro cid rfl
        cases hfin
      · rintro bytes rfl
        cases hfin
      · rintro bytes rfl
        cases hfin
      · cases hrep
      · intro assembled ha
        obtain rfl := hnil assembled ha
        exact ⟨[], [], [], rfl, by simp, by simp, h.chunksOf_next, rfl, fun _ => rfl⟩
  owners := by
    intro name owner value hmem
    rw [List.length_append, List.length_singleton]
    exact Nat.lt_succ_of_lt (h.owners name owner value hmem)

/-- The first done event is its own. -/
theorem Fits.first_done (h : Fits display log i t) (hfin : t.finished = false) {e : Queued}
    {rest : List Queued} (hrx : t.done_rx = e :: rest) :
    t.reported = true ∧ .emitted t.kind.done_name i e.value ∈ log := by
  have hrep : t.reported = true := by
    by_contra hno
    have hnil := h.unreported hfin (Bool.not_eq_true _ ▸ hno)
    rw [hrx] at hnil
    cases hnil
  refine ⟨hrep, ?_⟩
  obtain ⟨value, rest', hrx', hmem⟩ := h.reported hfin hrep
  rw [hrx] at hrx'
  obtain ⟨rfl, rfl⟩ := List.cons.inj hrx'
  exact hmem

theorem Fits.take_upload (h : Fits display log i t) {t' : Transfer}
    (ht : t.take_upload = some t') : Fits display log i t' := by
  unfold Transfer.take_upload at ht
  split at ht
  · rename_i e rest hphase hrx
    cases ht
    have hsuits := h.suits
    rw [hphase] at hsuits
    have hfin : t.finished = false := by
      rw [Transfer.finished, hphase]
      rfl
    obtain ⟨-, hmem⟩ := h.first_done hfin hrx
    have hkind : t.kind = .upload := by simpa [Phase.suits] using hsuits
    refine ⟨⟨?_, nofun⟩, hsuits, nofun, nofun, nofun, nofun⟩
    intro cid hcid
    rw [hkind, Phase.uploaded.inj hcid] at hmem
    exact hmem
  · cases ht

theorem assemble_snoc {display : String → String} {chunks : List (Except StorageError String)}
    {c : Except StorageError String} {assembled bytes : Bytes}
    (h : assemble display chunks = some assembled) (hc : decode_chunk display c = .ok bytes) :
    assemble display (chunks ++ [c]) = some (assembled ++ bytes) := by
  unfold assemble at h ⊢
  rw [List.foldlM_append, h]
  simp [hc, Except.toOption]

/-- A chunk of its own is taken. -/
theorem Fits.take_chunk (h : Fits display log i t) {t' : Transfer}
    (hown : ∃ e ∈ t.chunk_rx, e.owner = i) (ht : t.take_chunk display = some t') :
    Fits display log i t' := by
  unfold Transfer.take_chunk at ht
  split at ht
  · rename_i assembled e rest hphase hrx
    have hsuits := h.suits
    rw [hphase] at hsuits
    obtain ⟨taken, own, foreign, hc⟩ := h.collecting assembled (by rw [hphase]; rfl)
    -- One of its own is waiting, so the first is one.
    obtain ⟨own', rfl⟩ : ∃ own', own = e :: own' := by
      rcases own with _ | ⟨e', own'⟩
      · exfalso
        obtain ⟨e', he', howner⟩ := hown
        rw [hc.queue] at he'
        exact hc.foreign_owner e' he' howner
      · have hq := hc.queue
        rw [hrx] at hq
        obtain ⟨rfl, -⟩ := List.cons.inj hq
        exact ⟨own', rfl⟩
    have hrest : rest = own' ++ foreign := by
      have hq := hc.queue
      rw [hrx] at hq
      exact (List.cons.inj hq).2
    rcases hdec : decode_chunk display e.value with err | bytes
    · simp only [hdec] at ht
      cases ht
      exact .failed ⟨rfl, nofun, nofun⟩ hsuits
    · simp only [hdec] at ht
      cases ht
      have hfin : t.finished = false := by
        rw [Transfer.finished, hphase]
        rfl
      refine ⟨⟨nofun, nofun⟩, hsuits, nofun, fun _ hrep => h.unreported hfin hrep,
        fun _ hrep => h.reported hfin hrep, ?_⟩
      rintro _ ⟨⟩
      refine ⟨taken ++ [e.value], own', foreign, hrest,
        fun x hx => hc.own_owner x (List.mem_cons_of_mem _ hx), hc.foreign_owner, ?_,
        assemble_snoc hc.taken_eq hdec, hc.alone⟩
      rw [hc.chunks]
      simp
  · cases ht

/-- The done event is taken when no chunk of its own is waiting. -/
theorem Fits.take_done (h : Fits display log i t) {t' : Transfer}
    (hnone : ∀ e ∈ t.chunk_rx, e.owner ≠ i) (ht : t.take_done = some t') :
    Fits display log i t' := by
  unfold Transfer.take_done at ht
  split at ht
  · rename_i assembled e rest hphase hrx
    have hsuits := h.suits
    rw [hphase] at hsuits
    obtain ⟨taken, own, foreign, hc⟩ := h.collecting assembled (by rw [hphase]; rfl)
    have hnil : own = [] := by
      rcases own with _ | ⟨e', own'⟩
      · rfl
      · exact absurd (hc.own_owner e' (by simp)) (hnone e' (by rw [hc.queue]; simp))
    have hfin : t.finished = false := by
      rw [Transfer.finished, hphase]
      rfl
    obtain ⟨hrep, -⟩ := h.first_done hfin hrx
    rcases hv : e.value with err | text
    · simp only [hv] at ht
      cases ht
      exact .failed ⟨rfl, nofun, nofun⟩ hsuits
    · simp only [hv] at ht
      cases ht
      refine ⟨⟨nofun, ?_⟩, hsuits, fun _ _ => hrep, nofun, nofun, nofun⟩
      rintro _ ⟨⟩
      rw [hc.chunks, hnil, List.map_nil, List.append_nil]
      exact hc.taken_eq
  · cases ht

theorem listens_done {kind : Kind} {name : EventName} (h : kind.listens name = true)
    (hname : name ≠ .storageDownloadChunk) : name = kind.done_name := by
  cases kind <;> cases name <;> simp_all [Kind.listens, Kind.done_name]

theorem hear_listening {name : EventName} {e : Queued} (hname : name ≠ .storageDownloadChunk)
    (hlistens : t.kind.listens name = true) (hfin : t.finished = false) :
    t.hear name e = { t with done_rx := t.done_rx ++ [e] } := by
  unfold Transfer.hear
  rw [if_pos (by simp [hlistens, hfin])]
  cases name with
  | storageDownloadChunk => exact absurd rfl hname
  | _ => rfl

theorem hear_chunk {e : Queued} (hlistens : t.kind.listens .storageDownloadChunk = true)
    (hfin : t.finished = false) :
    t.hear .storageDownloadChunk e = { t with chunk_rx := t.chunk_rx ++ [e] } := by
  unfold Transfer.hear
  rw [if_pos (by simp [hlistens, hfin])]

theorem hear_deaf {name : EventName} {e : Queued}
    (h : ¬ (t.kind.listens name = true ∧ t.finished = false)) : t.hear name e = t := by
  unfold Transfer.hear
  rw [if_neg (by simpa using h)]

/-- An event of another transfer goes behind what is there. -/
theorem Fits.hear_other (h : Fits display log i t) {name : EventName} {owner : Nat}
    {value : Except StorageError String} (hne : i ≠ owner)
    (hrep : t.kind.listens name → t.finished = false → t.reported = true) :
    Fits display (log ++ [.emitted name owner value]) i (t.hear name { owner, value }) := by
  have hnone : chunksOf i [.emitted name owner value] = [] :=
    chunksOf_emitted_other (.inr hne.symm)
  have hmono := h.mono hnone
  by_cases hhear : t.kind.listens name = true ∧ t.finished = false
  · obtain ⟨hlistens, hfin⟩ := hhear
    have hreported := hrep hlistens hfin
    by_cases hname : name = .storageDownloadChunk
    · subst hname
      rw [hear_chunk hlistens hfin]
      refine ⟨⟨hmono.own.upload, hmono.own.download⟩, hmono.suits, hmono.ended, hmono.unreported,
        hmono.reported, ?_⟩
      intro assembled hphase
      obtain ⟨taken, own, foreign, hc⟩ := hmono.collecting assembled hphase
      refine ⟨taken, own, foreign ++ [⟨owner, value⟩], ?_, hc.own_owner, ?_, hc.chunks,
        hc.taken_eq, ?_⟩
      · rw [hc.queue, List.append_assoc]
      · intro e he
        rcases List.mem_append.mp he with he | he
        · exact hc.foreign_owner e he
        · obtain rfl := List.mem_singleton.mp he
          exact hne.symm
      · intro hno
        rw [show t.reported = false from hno] at hreported
        cases hreported
    · rw [hear_listening hname hlistens hfin]
      refine ⟨⟨hmono.own.upload, hmono.own.download⟩, hmono.suits, hmono.ended, ?_, ?_, ?_⟩
      · intro _ hno
        rw [show t.reported = false from hno] at hreported
        cases hreported
      · intro _ _
        obtain ⟨v, rest, hrx, hmem⟩ := hmono.reported hfin hreported
        refine ⟨v, rest ++ [⟨owner, value⟩], ?_, hmem⟩
        rw [hrx, List.cons_append]
      · intro assembled hphase
        obtain ⟨taken, own, foreign, hc⟩ := hmono.collecting assembled hphase
        exact ⟨taken, own, foreign, hc.queue, hc.own_owner, hc.foreign_owner, hc.chunks,
          hc.taken_eq, hc.alone⟩
  · rw [hear_deaf hhear]
    exact hmono

/-- A chunk of the transfer itself goes behind its other chunks. -/
theorem Fits.hear_own_chunk (h : Fits display log i t) {value : Except StorageError String}
    (hlistens : t.kind.listens .storageDownloadChunk = true) (hrep : t.reported = false) :
    Fits display (log ++ [.emitted .storageDownloadChunk i value]) i
      (t.hear .storageDownloadChunk { owner := i, value }) := by
  have hone : chunksOf i [.emitted .storageDownloadChunk i value] = [value] := by simp [chunksOf]
  have hnot : ∀ bytes, t.phase ≠ .downloaded (.ok bytes) := by
    intro bytes hphase
    rw [h.ended bytes hphase] at hrep
    cases hrep
  have hown : OwnData display (log ++ [.emitted .storageDownloadChunk i value]) i t :=
    ⟨fun cid hphase => List.mem_append_left _ (h.own.upload cid hphase),
      fun bytes hphase => absurd hphase (hnot bytes)⟩
  by_cases hfin : t.finished = false
  · rw [hear_chunk hlistens hfin]
    refine ⟨⟨hown.upload, hown.download⟩, h.suits, h.ended, h.unreported, ?_, ?_⟩
    · intro _ hyes
      rw [show t.reported = true from hyes] at hrep
      cases hrep
    · intro assembled hphase
      obtain ⟨taken, own, foreign, hc⟩ := h.collecting assembled hphase
      obtain rfl := hc.alone hrep
      refine ⟨taken, own ++ [{ owner := i, value }], [], ?_, ?_, by simp, ?_, hc.taken_eq,
        fun _ => rfl⟩
      · simp [hc.queue]
      · intro e he
        rcases List.mem_append.mp he with he | he
        · exact hc.own_owner e he
        · obtain rfl := List.mem_singleton.mp he
          rfl
      · rw [chunksOf_append, hone, hc.chunks]
        simp
  · rw [hear_deaf fun hh => hfin hh.2]
    refine ⟨hown, h.suits, h.ended, fun hno => absurd hno hfin, fun hno => absurd hno hfin, ?_⟩
    intro assembled hphase
    exfalso
    apply hfin
    rcases hp : t.phase <;> simp_all [Phase.assembled, Transfer.finished, Phase.finished]

/-- The done event of the transfer itself comes first. -/
theorem Fits.hear_own_done (h : Fits display log i t) {name : EventName}
    {value : Except StorageError String} (hname : name ≠ .storageDownloadChunk)
    (hlistens : t.kind.listens name = true) :
    Fits display (log ++ [.emitted name i value]) i
      { t.hear name { owner := i, value } with reported := true } := by
  have hmono : Fits display (log ++ [.emitted name i value]) i t :=
    h.mono (chunksOf_emitted_other (.inl hname))
  by_cases hfin : t.finished = false
  · rw [hear_listening hname hlistens hfin]
    refine ⟨⟨hmono.own.upload, hmono.own.download⟩, hmono.suits, fun _ _ => rfl, nofun, ?_, ?_⟩
    · intro _ _
      rcases hrep : t.reported with _ | _
      · refine ⟨value, [], ?_, ?_⟩
        · simp [h.unreported hfin hrep]
        · rw [listens_done hlistens hname]
          simp
      · obtain ⟨v, rest, hrx, hmem⟩ := hmono.reported hfin hrep
        refine ⟨v, rest ++ [{ owner := i, value }], ?_, hmem⟩
        simp [hrx]
    · intro assembled hphase
      obtain ⟨taken, own, foreign, hc⟩ := hmono.collecting assembled hphase
      exact ⟨taken, own, foreign, hc.queue, hc.own_owner, hc.foreign_owner, hc.chunks,
        hc.taken_eq, nofun⟩
  · rw [hear_deaf fun hh => hfin hh.2]
    refine ⟨⟨hmono.own.upload, hmono.own.download⟩, hmono.suits, fun _ _ => rfl, nofun,
      fun hno => absurd hno hfin, ?_⟩
    intro assembled hphase
    obtain ⟨taken, own, foreign, hc⟩ := hmono.collecting assembled hphase
    exact ⟨taken, own, foreign, hc.queue, hc.own_owner, hc.foreign_owner, hc.chunks,
      hc.taken_eq, nofun⟩

theorem Sound.emit (h : Sound display log transfers) {name : EventName} {owner : Nat}
    {value : Except StorageError String} (ht : transfers[owner]? = some t)
    (hemit : may_emit t name = true)
    (hapart : ∀ i u, transfers[i]? = some u → i ≠ owner → u.kind.listens name →
      u.finished = false → u.reported = true) :
    Sound display (log ++ [.emitted name owner value])
      (hear_all name { owner, value } transfers) where
  fits := by
    intro i u hu
    unfold hear_all at hu
    rw [List.getElem?_mapIdx] at hu
    obtain ⟨u₀, hu₀, rfl⟩ := Option.map_eq_some_iff.mp hu
    have hfits := h.fits i u₀ hu₀
    by_cases hi : i = owner
    · subst hi
      rw [ht] at hu₀
      cases hu₀
      simp only [may_emit, Bool.and_eq_true, Bool.not_eq_true', Bool.and_eq_false_iff,
        beq_eq_false_iff_ne] at hemit
      simp only [if_pos]
      unfold Transfer.note
      by_cases hname : name = .storageDownloadChunk
      · subst hname
        rw [if_pos rfl]
        exact hfits.hear_own_chunk hemit.1 (hemit.2.resolve_left (by simp))
      · rw [if_neg hname]
        exact hfits.hear_own_done hname hemit.1
    · simp only [if_neg hi]
      exact hfits.hear_other hi (hapart i u₀ hu₀ hi)
  owners := by
    intro name' owner' value' hmem
    unfold hear_all
    rw [List.length_mapIdx]
    rcases List.mem_append.mp hmem with hmem | hmem
    · exact h.owners name' owner' value' hmem
    · cases List.mem_singleton.mp hmem
      exact (List.getElem?_eq_some_iff.mp ht).1

theorem advance_ok {next : Transfer → Option Transfer} {transfers' : List Transfer}
    {out : List Output} (h : advance transfers i next = .ok (transfers', out)) :
    ∃ t t', transfers[i]? = some t ∧ next t = some t' ∧ transfers' = transfers.set i t' ∧
      out = [] := by
  unfold advance at h
  split at h
  · cases h
  · rename_i t' hnext
    cases h
    obtain ⟨t, ht, hstep⟩ := Option.bind_eq_some_iff.mp hnext
    exact ⟨t, t', ht, hstep, rfl, rfl⟩

theorem Sound.step {op : TransferOp} {transfers' : List Transfer} {out : List Output}
    (h : Sound display log transfers) (hapart : Apart transfers op)
    (hs : step chunk_size display transfers op = .ok (transfers', out)) :
    Sound display (log ++ out) transfers' := by
  cases op with
  | upload data =>
    cases hs
    refine Sound.calls ?_ _ _
    rcases call_method_phase "uploadInit" _ (.uploadInit data) with hphase | hphase
    · exact h.snoc (by rw [upload_init, hphase]; rfl)
        (.inl (by rw [upload_init, hphase]; exact failed_panicked))
    · exact h.snoc (by rw [upload_init, hphase]; rfl)
        (.inr (by rw [upload_init, hphase]; exact ⟨rfl, nofun⟩))
  | download cid =>
    cases hs
    refine Sound.calls ?_ _ _
    rcases call_method_phase "downloadChunks" _ .downloadChunks with hphase | hphase
    · exact h.snoc (by rw [download_start, hphase]; rfl)
        (.inl (by rw [download_start, hphase]; exact failed_panicked))
    · exact h.snoc (by rw [download_start, hphase]; rfl)
        (.inr (by rw [download_start, hphase]; exact ⟨rfl, fun a ha => by cases ha; rfl⟩))
  | answer i result message =>
    simp only [storage.step] at hs
    split at hs
    · cases hs
    · rename_i t ht
      split at hs
      · cases hs
      · rename_i phase calls hanswer
        cases hs
        have hfits := h.fits i t ht
        obtain ⟨hfin, hsuits, hfail | ⟨hgoes, hsame⟩⟩ := answered_cases hanswer hfits.suits
        · exact (h.set (.failed hfail hsuits)).calls _ _
        · exact (h.set (hfits.goes_on hfin hgoes hsame hsuits)).calls _ _
  | emit name owner result message =>
    simp only [storage.step] at hs
    split at hs
    · cases hs
    · rename_i t ht
      split at hs
      · rename_i hemit
        cases hs
        apply h.emit ht hemit
        intro i u hu
        exact hapart i (List.getElem?_eq_some_iff.mp hu).1 u hu
      · cases hs
  | take_upload i =>
    obtain ⟨t, t', ht, hnext, rfl, rfl⟩ := advance_ok hs
    rw [List.append_nil]
    exact h.set ((h.fits i t ht).take_upload hnext)
  | take_chunk i =>
    obtain ⟨t, t', ht, hnext, rfl, rfl⟩ := advance_ok hs
    rw [List.append_nil]
    exact h.set ((h.fits i t ht).take_chunk (hapart t ht) hnext)
  | take_done i =>
    obtain ⟨t, t', ht, hnext, rfl, rfl⟩ := advance_ok hs
    rw [List.append_nil]
    exact h.set ((h.fits i t ht).take_done (hapart t ht) hnext)

/-- In a run in which the transfers stay apart, every call that returns a CID
or data returns its own. -/
theorem a_transfer_returns_its_own_data {ops : List TransferOp}
    (hrun : run (step chunk_size display) [] ops = .ok (transfers, log))
    (hapart : Meets (step chunk_size display) (fun _ s op => Apart s op) [] ops) :
    ∀ i t, transfers[i]? = some t → OwnData display log i t := by
  have h0 : Sound display [] [] := ⟨nofun, nofun⟩
  have hstep : ∀ log s op s' out, Sound display log s → Apart s op →
      step chunk_size display s op = .ok (s', out) → Sound display (log ++ out) s' :=
    fun _ _ _ _ _ hs hcond hok => hs.step hcond hok
  have hsound := run_invariant_of_meets h0 hstep hapart hrun
  intro i t ht
  exact (hsound.fits i t ht).own

namespace Sample

/-- The plugin answers the methods of an upload of so many chunks. -/
def answers (i : Nat) (session_id : String) (chunks : Nat) : List TransferOp :=
  .answer i 0 (some session_id) :: List.replicate (chunks + 1) (.answer i 0 none)

/-- Two uploads, one after the other, and a download of two chunks. -/
def apart_ops : List TransferOp :=
  ([.upload [1]] : List TransferOp) ++ answers 0 "a" 1 ++
    ([.emit .storageUploadDone 0 0 (some "cid-a"), .upload []] : List TransferOp) ++
    answers 1 "b" 0 ++
    ([.take_upload 0, .emit .storageUploadDone 1 0 (some "cid-b"), .take_upload 1,
      .download "cid-c", .answer 2 0 none, .emit .storageDownloadChunk 2 0 (some "AQ=="),
      .take_chunk 2, .emit .storageDownloadChunk 2 0 (some "Ag=="),
      .emit .storageDownloadDone 2 0 none, .take_chunk 2, .take_done 2] : List TransferOp)

/-- The same uploads at one time, and a `select` that takes the done event
first. -/
def mixed_ops : List TransferOp :=
  ([.upload [1], .upload []] : List TransferOp) ++ answers 0 "a" 1 ++ answers 1 "b" 0 ++
    ([.emit .storageUploadDone 1 0 (some "cid-b"), .take_upload 0,
      .emit .storageUploadDone 0 0 (some "cid-a"), .take_upload 1,
      .download "cid-c", .answer 2 0 none, .emit .storageDownloadChunk 2 0 (some "AQ=="),
      .emit .storageDownloadDone 2 0 none, .take_done 2] : List TransferOp)

end Sample

theorem transfers_apart_return_their_own :
    Meets (step 65536 id) (fun _ s op => Apart s op) [] Sample.apart_ops ∧
    Returns (run (step 65536 id) [] Sample.apart_ops) fun r =>
      r.1.map (·.phase) =
        [.uploaded (.ok "cid-a"), .uploaded (.ok "cid-b"), .downloaded (.ok [1, 2])] ∧
      ∀ i t, r.1[i]? = some t → OwnData id r.2 i t := by
  have hrun : Meets (step 65536 id) (fun _ s op => Apart s op) [] Sample.apart_ops ∧
      Returns (run (step 65536 id) [] Sample.apart_ops) fun r => r.1.map (·.phase) =
        [.uploaded (.ok "cid-a"), .uploaded (.ok "cid-b"), .downloaded (.ok [1, 2])] := by
    decide +kernel
  obtain ⟨hapart, r, hr, hphases⟩ := hrun
  exact ⟨hapart, r, hr, hphases, a_transfer_returns_its_own_data hr hapart⟩

/-- Both uploads return the CID of the second, and the download nothing. -/
theorem mixed_transfers_return_other_data :
    Returns (run (step 65536 id) [] Sample.mixed_ops) fun r =>
      r.1.map (·.phase) =
        [.uploaded (.ok "cid-b"), .uploaded (.ok "cid-b"), .downloaded (.ok [])] ∧
      .emitted .storageUploadDone 0 (.ok "cid-b") ∉ r.2 ∧ chunksOf 2 r.2 = [.ok "AQ=="] ∧
      (∀ t, r.1[0]? = some t → ¬ OwnData id r.2 0 t) ∧
      ∀ t, r.1[2]? = some t → ¬ OwnData id r.2 2 t := by
  have hrun : Returns (run (step 65536 id) [] Sample.mixed_ops) fun r =>
      r.1.map (·.phase) =
        [.uploaded (.ok "cid-b"), .uploaded (.ok "cid-b"), .downloaded (.ok [])] ∧
      .emitted .storageUploadDone 0 (.ok "cid-b") ∉ r.2 ∧ chunksOf 2 r.2 = [.ok "AQ=="] := by
    decide +kernel
  obtain ⟨⟨transfers, log⟩, hr, hphases, hmissing, hchunks⟩ := hrun
  dsimp only at hphases hmissing hchunks
  have hphase : ∀ (i : Nat) (t : Transfer), transfers[i]? = some t →
      [Phase.uploaded (.ok "cid-b"), .uploaded (.ok "cid-b"), .downloaded (.ok [])][i]? =
        some t.phase := by
    intro i t ht
    rw [← hphases, List.getElem?_map, ht]
    rfl
  refine ⟨_, hr, hphases, hmissing, hchunks, ?_, ?_⟩
  · intro t ht hown
    exact hmissing (hown.upload "cid-b" (Option.some.inj (hphase 0 t ht)).symm)
  · intro t ht hown
    have hall := hown.download [] (Option.some.inj (hphase 2 t ht)).symm
    rw [hchunks] at hall
    exact absurd hall (by decide +kernel)

end lmao.storage
