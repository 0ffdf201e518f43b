-- Trust requests that a daemon serves at the same time (daemon/server.rs). A
-- request takes the lock of the trust list once for each of its calls, and
-- between two of them the calls of other requests can come.
import Lmao.Machine
import Lmao.TrustFrontEnds

namespace lmao.cli

open node machine

/-! ## The calls of a request -/

/-- What a request has changed when only the save is left. -/
inductive Change
  | added (pubkey nickname : String)
  | removed (pubkey nickname : String)
  | switched (previous next : TrustMode)
deriving DecidableEq

def Change.response (persisted : Bool) : Change → Response
  | .added pubkey nickname => .TrustAdd pubkey nickname persisted
  | .removed pubkey nickname => .TrustRemove pubkey nickname persisted
  | .switched previous next => .TrustMode (mode_to_str previous) (mode_to_str next) persisted

/-- A request, and the time of its new entry. -/
abbrev Job := SystemTime × Request

/-- Where a request stands. An add that took its snapshot has decided whether
it is the first one, and a mode request has read the mode. -/
inductive Progress
  | received (job : Job)
  | add_decided (first : Bool) (entry : TrustEntry)
  | add_bumped (entry : TrustEntry)
  | mode_decided (previous next : TrustMode)
  | saving (change : Change)
  | done (response : Response)

/-- The list is off and empty: the next add is the first one. -/
def first_add (list : TrustList) : Bool := list.mode = .Off ∧ list.iter.length = 0

/-- The request takes the lock for its next call. -/
def acquire (T : Toml) (s : DaemonServer) : Progress → DaemonServer × Progress
  | .received (now, .TrustAdd pubkey nickname capabilities notes encryption_pubkey) =>
    (s, .add_decided (first_add s.trust_list)
      { pubkey, nickname, capabilities, notes, encryption_pubkey, added_at := now })
  | .received (_, .TrustRemove target) =>
    match trust_remove s.trust_list target with
    | (list, none) =>
      ({ s with trust_list := list }, .done (.Error ("no entry matched " ++ target)))
    | (list, some dropped) =>
      ({ s with trust_list := list }, .saving (.removed dropped.pubkey dropped.nickname))
  | .received (_, .TrustMode mode) =>
    let previous := s.trust_list.mode
    match mode.elim (.ok previous) parse_trust_mode with
    | .error e => (s, .done (.Error e))
    | .ok next =>
      if next ≠ previous then (s, .mode_decided previous next)
      else (s, .done (.TrustMode (mode_to_str previous) (mode_to_str next) false))
  | .add_decided true entry =>
    ({ s with trust_list := s.trust_list.set_mode .Enforce }, .add_bumped entry)
  | .add_decided false entry =>
    ({ s with trust_list := s.trust_list.add entry }, .saving (.added entry.pubkey entry.nickname))
  | .add_bumped entry =>
    ({ s with trust_list := s.trust_list.add entry }, .saving (.added entry.pubkey entry.nickname))
  | .mode_decided previous next =>
    ({ s with trust_list := s.trust_list.set_mode next }, .saving (.switched previous next))
  | .saving change =>
    let (s, persisted) := s.persist_trust T
    (s, .done (change.response persisted))
  | .done response => (s, .done response)

/-- The request has done all that it does to the list. -/
def Progress.settled : Progress → Bool
  | .saving _ => true
  | .done _ => true
  | _ => false

/-! ## Requests that run together -/

structure Race where
  server : DaemonServer
  progress : List Progress

def Race.new (server : DaemonServer) (jobs : List Job) : Race :=
  { server, progress := jobs.map .received }

/-- The requests that settle at a call of request `k`. -/
def settles (k : Nat) (p p' : Progress) : List Nat :=
  if !p.settled && p'.settled then [k] else []

/-- One call of request `k`. The step names `k` when the request settles. -/
def Race.step (T : Toml) (s : Race) (k : Nat) : Except Empty (Race × List Nat) :=
  match s.progress[k]? with
  | none => .ok (s, [])
  | some p =>
    let (server, p') := acquire T s.server p
    .ok ({ server, progress := s.progress.set k p' }, settles k p p')

/-- The requests one after another. -/
def serve (T : Toml) (s : DaemonServer) (job : Job) : Except Empty (DaemonServer × List Response) :=
  let (s, response) := s.dispatch T job.1 job.2
  .ok (s, [response])

/-- The calls of a request one after another, with no other request between
them. -/
def alone (T : Toml) : Nat → DaemonServer → Progress → DaemonServer × Progress
  | 0, s, p => (s, p)
  | n + 1, s, p =>
    let r := acquire T s p
    alone T n r.1 r.2

/-- They do what `dispatch` does. -/
theorem alone_is_dispatch (T : Toml) (s : DaemonServer) (job : Job) :
    alone T 4 s (.received job) =
      ((s.dispatch T job.1 job.2).1, .done (s.dispatch T job.1 job.2).2) := by
  obtain ⟨now, req⟩ := job
  cases req with
  | TrustAdd pubkey nickname capabilities notes encryption_pubkey =>
    change alone T 3 s (.add_decided (first_add s.trust_list) _) = _
    simp only [DaemonServer.dispatch]
    by_cases hfirst : s.trust_list.mode = .Off ∧ s.trust_list.iter.length = 0
    · rw [show first_add s.trust_list = true from decide_eq_true hfirst, if_pos hfirst]
      rfl
    · rw [show first_add s.trust_list = false from decide_eq_false hfirst, if_neg hfirst]
      rfl
  | TrustRemove target =>
    change alone T 3 (acquire T s (.received (now, .TrustRemove target))).1
      (acquire T s (.received (now, .TrustRemove target))).2 = _
    simp only [DaemonServer.dispatch, acquire]
    rcases trust_remove s.trust_list target with ⟨l, _ | dropped⟩
    · rfl
    · rfl
  | TrustMode mode =>
    change alone T 3 (acquire T s (.received (now, .TrustMode mode))).1
      (acquire T s (.received (now, .TrustMode mode))).2 = _
    simp only [DaemonServer.dispatch, acquire]
    rcases mode.elim (Except.ok s.trust_list.mode) parse_trust_mode with e | next
    · rfl
    · by_cases hnew : next ≠ s.trust_list.mode
      · simp only [if_pos hnew]
        rfl
      · simp only [if_neg hnew]
        rfl

/-! ## What is assumed of the file, and what it holds -/

/-- Every list can be written. -/
def Writes (T : Toml) : Prop := ∀ file, (T.to_string_pretty file).isSome

theorem persist_writes {T : Toml} (hT : Writes T) {s : DaemonServer} {path : String}
    (hfile : s.trust_file = some path) :
    s.persist_trust T =
      ({ s with files := Function.update s.files path (s.trust_list.to_toml_string T) }, true) := by
  obtain ⟨text, htext⟩ := Option.isSome_iff_exists.mp (hT s.trust_list.to_file)
  have htoml : s.trust_list.to_toml_string T = some text := htext
  simp [DaemonServer.persist_trust, TrustList.save_to, hfile, htoml]

theorem persist_with {T : Toml} (hT : Writes T) {s : DaemonServer} {path : String}
    (hfile : s.trust_file = some path) (l : TrustList) :
    DaemonServer.persist_trust T { s with trust_list := l } =
      ({ s with
          trust_list := l
          files := Function.update s.files path (l.to_toml_string T) }, true) :=
  persist_writes hT hfile

/-- The request changed the list. -/
def Progress.changed : Progress → Bool
  | .add_bumped _ => true
  | .saving _ => true
  | .done (.TrustAdd ..) => true
  | .done (.TrustRemove ..) => true
  | .done (.TrustMode previous current _) => previous ≠ current
  | _ => false

/-- The request will save. -/
def Progress.unsaved : Progress → Bool
  | .add_bumped _ => true
  | .saving _ => true
  | _ => false

/-- Once a request changed the list, the file holds it, unless the save of some
request is still to come. -/
def FileInv (T : Toml) (path : String) (s : Race) : Prop :=
  s.server.trust_file = some path ∧
    ((∃ p ∈ s.progress, p.changed = true) → (∀ p ∈ s.progress, p.unsaved = false) →
      s.server.files path = s.server.trust_list.to_toml_string T)

/-- What one call does: it saves, or it changes the list and leaves a save to
come, or it leaves the list alone and reports no change. -/
theorem acquire_cases {T : Toml} (hT : Writes T) {s s' : DaemonServer} {path : String}
    {p p' : Progress} (hfile : s.trust_file = some path) (h : acquire T s p = (s', p')) :
    s'.trust_file = some path ∧
      ((s'.trust_list = s.trust_list ∧ s'.files path = s.trust_list.to_toml_string T) ∨
        p'.unsaved = true ∨
        (s'.trust_list = s.trust_list ∧ s'.files = s.files ∧ p.unsaved = false ∧
          p'.changed = p.changed)) := by
  cases p with
  | received job =>
    obtain ⟨now, req⟩ := job
    cases req with
    | TrustAdd pubkey nickname capabilities notes encryption_pubkey =>
      cases h
      exact ⟨hfile, .inr (.inr ⟨rfl, rfl, rfl, rfl⟩)⟩
    | TrustRemove target =>
      simp only [acquire] at h
      rcases hr : trust_remove s.trust_list target with ⟨l, _ | dropped⟩
      · rw [hr] at h
        cases h
        exact ⟨hfile, .inr (.inr ⟨trust_remove_none hr, rfl, rfl, rfl⟩)⟩
      · rw [hr] at h
        cases h
        exact ⟨hfile, .inr (.inl rfl)⟩
    | TrustMode mode =>
      simp only [acquire] at h
      split at h
      · cases h
        exact ⟨hfile, .inr (.inr ⟨rfl, rfl, rfl, rfl⟩)⟩
      · split at h
        · cases h
          exact ⟨hfile, .inr (.inr ⟨rfl, rfl, rfl, rfl⟩)⟩
        · rename_i hsame
          cases h
          rw [not_not.mp hsame]
          exact ⟨hfile, .inr (.inr ⟨rfl, rfl, rfl, by simp [Progress.changed]⟩)⟩
  | add_decided first entry =>
    cases first with
    | true =>
      cases h
      exact ⟨hfile, .inr (.inl rfl)⟩
    | false =>
      cases h
      exact ⟨hfile, .inr (.inl rfl)⟩
  | add_bumped entry =>
    cases h
    exact ⟨hfile, .inr (.inl rfl)⟩
  | mode_decided previous next =>
    cases h
    exact ⟨hfile, .inr (.inl rfl)⟩
  | saving change =>
    simp only [acquire, persist_writes hT hfile] at h
    cases h
    exact ⟨hfile, .inl ⟨rfl, by simp⟩⟩
  | done response =>
    cases h
    exact ⟨hfile, .inr (.inr ⟨rfl, rfl, rfl, rfl⟩)⟩

theorem FileInv.step {T : Toml} (hT : Writes T) {path : String} {s s' : Race} {k : Nat}
    {out : List Nat} (h : FileInv T path s) (hs : s.step T k = .ok (s', out)) :
    FileInv T path s' := by
  unfold Race.step at hs
  rcases hk : s.progress[k]? with _ | p
  · rw [hk] at hs
    cases hs
    exact h
  · rcases ha : acquire T s.server p with ⟨server, p'⟩
    simp only [hk, ha, Except.ok.injEq, Prod.mk.injEq] at hs
    obtain ⟨rfl, -⟩ := hs
    obtain ⟨hlt, hget⟩ := List.getElem?_eq_some_iff.mp hk
    obtain ⟨hfile, hcase⟩ := acquire_cases hT h.1 ha
    refine ⟨hfile, ?_⟩
    rintro ⟨q, hq, hchanged⟩ hsaved
    have hp' : p'.unsaved = false := hsaved p' (List.mem_set hlt p')
    rcases hcase with ⟨hlist, hfiles⟩ | hunsaved | ⟨hlist, hfiles, hp, hsame⟩
    · simp only [hlist, hfiles]
    · rw [hunsaved] at hp'
      cases hp'
    · -- nothing was changed or saved, so the file is as it was
      simp only [hlist, hfiles]
      apply h.2
      · rcases List.mem_or_eq_of_mem_set hq with hmem | rfl
        · exact ⟨q, hmem, hchanged⟩
        · exact ⟨p, hget ▸ List.getElem_mem hlt, hsame ▸ hchanged⟩
      · intro r hr
        by_cases hrp : r = p
        · rw [hrp]
          exact hp
        · obtain ⟨j, hj, rfl⟩ := List.getElem_of_mem hr
          apply hsaved
          rw [List.mem_iff_getElem?]
          refine ⟨j, ?_⟩
          rw [List.getElem?_set_ne (fun hjk => hrp (by subst hjk; rw [hget])),
            List.getElem?_eq_getElem hj]

/-! ## When no decision goes stale -/

def Progress.bumped : Progress → Bool
  | .add_bumped _ => true
  | _ => false

/-- No other request is between the mode change of its first add and the add
itself, unless this one has only its save left. And the decision that this one
acts on is the one that the list still gives. -/
def Quiet (s : Race) (k : Nat) : Prop :=
  match s.progress[k]? with
  | none => True
  | some p =>
    (p.settled = true ∨ ∀ j < s.progress.length, j ≠ k →
      (s.progress[j]?.elim false Progress.bumped) = false) ∧
    match p with
    | .add_decided first _ => first = first_add s.server.trust_list
    | .mode_decided previous _ => previous = s.server.trust_list.mode
    | _ => True

instance (s : Race) (k : Nat) : Decidable (Quiet s k) := by
  unfold Quiet
  split
  · infer_instance
  · split <;> infer_instance

/-! ## Serial runs -/

/-- The request of the job, with what it has read so far. -/
def Progress.Of (job : Job) : Progress → Prop
  | .received job' => job' = job
  | .add_decided _ e =>
    job = (e.added_at, .TrustAdd e.pubkey e.nickname e.capabilities e.notes e.encryption_pubkey)
  | .add_bumped e =>
    job = (e.added_at, .TrustAdd e.pubkey e.nickname e.capabilities e.notes e.encryption_pubkey)
  | .mode_decided previous next =>
    ∃ mode, job.2 = .TrustMode (some mode) ∧ parse_trust_mode mode = .ok next ∧ next ≠ previous
  | _ => True

/-- The answer of a settled request. -/
def Progress.answer : Progress → Option Response
  | .saving change => some (change.response true)
  | .done response => some response
  | _ => none

/-- The list of a serial run in place of the shared one: they differ only
while a first add is between its two changes. -/
structure Stands (list : TrustList) (s : Race) : Prop where
  same : (∀ p ∈ s.progress, p.bumped = false) → s.server.trust_list = list
  bumped : ∀ (k : Nat) (e : TrustEntry), s.progress[k]? = some (.add_bumped e) →
    first_add list = true ∧ s.server.trust_list = list.set_mode .Enforce ∧
      ∀ (j : Nat) (p : Progress), s.progress[j]? = some p → p.bumped = true → j = k

/-- The requests that settled, in the order in which they did, give in a serial
run the shared list and their answers. -/
structure Serial (T : Toml) (path : String) (start : DaemonServer) (jobs : List Job)
    (order : List Nat) (s : Race) : Prop where
  size : s.progress.length = jobs.length
  nodup : order.Nodup
  settled : ∀ k : Nat, k ∈ order ↔ ∃ p, s.progress[k]? = some p ∧ p.settled = true
  of_jobs : ∀ (k : Nat) (p : Progress) (job : Job), s.progress[k]? = some p →
    jobs[k]? = some job → p.Of job
  file : s.server.trust_file = some path
  serial : ∃ d responses, run (serve T) start (order.filterMap (jobs[·]?)) = .ok (d, responses) ∧
    d.trust_file = some path ∧ Stands d.trust_list s ∧
    order.map (fun k => s.progress[k]?.bind Progress.answer) = responses.map some

section
variable {T : Toml} (hT : Writes T) {path : String} {d : DaemonServer}
  (hfile : d.trust_file = some path)
include hT hfile

theorem dispatch_add (e : TrustEntry) :
    ∃ files, d.dispatch T e.added_at
        (.TrustAdd e.pubkey e.nickname e.capabilities e.notes e.encryption_pubkey) =
      ({ d with
          trust_list := (if first_add d.trust_list then d.trust_list.set_mode .Enforce
            else d.trust_list).add e
          files },
        .TrustAdd e.pubkey e.nickname true) := by
  simp only [DaemonServer.dispatch, persist_with hT hfile, first_add, decide_eq_true_eq]
  exact ⟨_, rfl⟩

theorem dispatch_mode {mode : String} {next : TrustMode} (hmode : parse_trust_mode mode = .ok next)
    (hnew : next ≠ d.trust_list.mode) (now : SystemTime) :
    ∃ files, d.dispatch T now (.TrustMode (some mode)) =
      ({ d with trust_list := d.trust_list.set_mode next, files },
        (Change.switched d.trust_list.mode next).response true) := by
  simp only [DaemonServer.dispatch, Option.elim_some, hmode, ne_eq, hnew, not_false_eq_true,
    if_true, persist_with hT hfile]
  exact ⟨_, rfl⟩

/-- A call from `received` that settles the request is the whole request. -/
theorem dispatch_received {job : Job} {s' : DaemonServer} {p' : Progress}
    (h : acquire T d (.received job) = (s', p')) (hp' : p'.settled = true) :
    ∃ files response, d.dispatch T job.1 job.2 = ({ s' with files }, response) ∧
      p'.answer = some response := by
  obtain ⟨now, req⟩ := job
  cases req with
  | TrustAdd pubkey nickname capabilities notes encryption_pubkey =>
    cases h
    cases hp'
  | TrustRemove target =>
    simp only [acquire] at h
    simp only [DaemonServer.dispatch]
    rcases hr : trust_remove d.trust_list target with ⟨l, _ | dropped⟩
    · rw [hr] at h
      cases h
      exact ⟨_, _, rfl, rfl⟩
    · rw [hr] at h
      cases h
      simp only [persist_with hT hfile]
      exact ⟨_, _, rfl, rfl⟩
  | TrustMode mode =>
    simp only [acquire] at h
    simp only [DaemonServer.dispatch]
    rcases hparse : mode.elim (Except.ok d.trust_list.mode) parse_trust_mode with e | next
    · simp only [hparse] at h ⊢
      cases h
      exact ⟨_, _, rfl, rfl⟩
    · simp only [hparse] at h ⊢
      by_cases hchange : next ≠ d.trust_list.mode
      · rw [if_pos hchange] at h
        cases h
        cases hp'
      · rw [if_neg hchange] at h
        cases h
        simp only [if_neg hchange]
        exact ⟨_, _, rfl, rfl⟩

end

/-! ## One call in a race -/

section
variable {T : Toml} {path : String} {start : DaemonServer} {jobs : List Job} {order : List Nat}
  {s : Race} {k : Nat} {p p' : Progress} {server : DaemonServer}

/-- The race after a call of request `k`. -/
abbrev Race.after (s : Race) (server : DaemonServer) (k : Nat) (p' : Progress) : Race :=
  { server, progress := s.progress.set k p' }

theorem get_after (hk : s.progress[k]? = some p) (j : Nat) :
    (s.after server k p').progress[j]? = if k = j then some p' else s.progress[j]? := by
  obtain ⟨hlt, -⟩ := List.getElem?_eq_some_iff.mp hk
  rw [List.getElem?_set]
  by_cases hj : k = j
  · subst hj
    simp [hlt]
  · simp [hj]

/-- A call that settles nothing new leaves the serial run as it is. -/
theorem Serial.silent (h : Serial T path start jobs order s) (hk : s.progress[k]? = some p)
    (hsettled : p'.settled = p.settled) (hanswer : p'.answer = p.answer)
    (hof : ∀ job, p.Of job → p'.Of job) (hfile : server.trust_file = some path)
    (hstands : ∀ l, Stands l s → Stands l (s.after server k p')) :
    Serial T path start jobs order (s.after server k p') where
  size := by rw [List.length_set, h.size]
  nodup := h.nodup
  settled j := by
    rw [h.settled, get_after hk]
    by_cases hj : k = j
    · subst hj
      simp [hk, hsettled]
    · simp [hj]
  of_jobs j q job hq hjob := by
    rw [get_after hk] at hq
    by_cases hj : k = j
    · subst hj
      rw [if_pos rfl] at hq
      cases hq
      exact hof job (h.of_jobs k p job hk hjob)
    · rw [if_neg hj] at hq
      exact h.of_jobs j q job hq hjob
  file := hfile
  serial := by
    obtain ⟨d, responses, hrun, hd, hlist, hresponses⟩ := h.serial
    refine ⟨d, responses, hrun, hd, hstands _ hlist, hresponses ▸ ?_⟩
    apply List.map_congr_left
    intro j _
    rw [get_after hk]
    by_cases hj : k = j
    · subst hj
      simp [hk, hanswer]
    · simp [hj]

/-- A call that settles the request, as the serial run would serve it now. -/
theorem Serial.effect (h : Serial T path start jobs order s) (hk : s.progress[k]? = some p)
    (hp : p.settled = false) (hp' : p'.settled = true) (hfile : server.trust_file = some path)
    {job : Job} (hjob : jobs[k]? = some job)
    (hserve : ∀ d : DaemonServer, d.trust_file = some path → Stands d.trust_list s →
      ∃ files response, d.dispatch T job.1 job.2 =
          ({ trust_list := server.trust_list, trust_file := some path, files }, response) ∧
        p'.answer = some response)
    (hbumped : ∀ q ∈ (s.after server k p').progress, q.bumped = false) :
    Serial T path start jobs (order ++ [k]) (s.after server k p') where
  size := by rw [List.length_set, h.size]
  nodup := by
    rw [List.nodup_append]
    refine ⟨h.nodup, List.nodup_singleton k, ?_⟩
    intro a ha b hb hab
    rw [List.mem_singleton] at hb
    obtain ⟨q, hq, hsettled⟩ := (h.settled a).mp ha
    rw [hab, hb, hk] at hq
    cases hq
    rw [hp] at hsettled
    cases hsettled
  settled j := by
    rw [List.mem_append, h.settled, get_after hk, List.mem_singleton]
    by_cases hj : k = j
    · subst hj
      simp [hp']
    · simp [hj, Ne.symm hj]
  of_jobs j q job' hq hjob' := by
    rw [get_after hk] at hq
    by_cases hj : k = j
    · rw [if_pos hj] at hq
      cases hq
      -- a settled request reads nothing more
      cases p' with
      | saving change => trivial
      | done response => trivial
      | _ => cases hp'
    · rw [if_neg hj] at hq
      exact h.of_jobs j q job' hq hjob'
  file := hfile
  serial := by
    obtain ⟨d, responses, hrun, hd, hlist, hresponses⟩ := h.serial
    obtain ⟨files, response, hdispatch, hanswer⟩ := hserve d hd hlist
    refine ⟨{ trust_list := server.trust_list, trust_file := some path, files },
      responses ++ [response], ?_, rfl, ⟨fun _ => rfl, ?_⟩, ?_⟩
    · rw [List.filterMap_append]
      simp only [List.filterMap_cons, hjob, List.filterMap_nil]
      exact run_snoc_ok hrun (by simp [serve, hdispatch])
    · intro j e hj
      cases hbumped _ (List.mem_of_getElem? hj)
    · rw [List.map_append, List.map_append, ← hresponses]
      congr 1
      · apply List.map_congr_left
        intro j hj
        have hne : k ≠ j := by
          rintro rfl
          obtain ⟨q, hq, hsettled⟩ := (h.settled k).mp hj
          rw [hk] at hq
          cases hq
          rw [hp] at hsettled
          cases hsettled
        rw [get_after hk, if_neg hne]
      · have hset : (s.after server k p').progress[k]? = some p' := by
          rw [get_after hk, if_pos rfl]
        simp [hset, hanswer]

/-- A call that is not part of a first add keeps the list of the serial run
when it keeps the shared one. -/
theorem Stands.keep {l : TrustList} (h : Stands l s) (hk : s.progress[k]? = some p)
    (hp : p.bumped = false) (hp' : p'.bumped = false)
    (hlist : server.trust_list = s.server.trust_list) : Stands l (s.after server k p') := by
  have hback : ∀ (j : Nat) (q : Progress), (s.after server k p').progress[j]? = some q →
      q.bumped = true → s.progress[j]? = some q := by
    intro j q hq hbumped
    rw [get_after hk] at hq
    by_cases hj : k = j
    · rw [if_pos hj] at hq
      cases hq
      rw [hp'] at hbumped
      cases hbumped
    · rwa [if_neg hj] at hq
  constructor
  · intro hnone
    rw [hlist]
    apply h.same
    intro q hq
    obtain ⟨j, hj⟩ := List.mem_iff_getElem?.mp hq
    by_cases hjk : k = j
    · subst hjk
      rw [hk] at hj
      cases hj
      exact hp
    · apply hnone q
      apply List.mem_of_getElem? (i := j)
      rw [get_after hk, if_neg hjk, hj]
  · intro j e hj
    obtain ⟨hfirst, hmode, honly⟩ := h.bumped j e (hback j _ hj rfl)
    exact ⟨hfirst, hlist.trans hmode, fun i q hi hq => honly i q (hback i q hi hq) hq⟩

/-- What a request reads and changes first depends on the list alone. -/
theorem acquire_received (T : Toml) {s d : DaemonServer} (hlist : s.trust_list = d.trust_list)
    (job : Job) :
    acquire T d (.received job) =
      ({ d with trust_list := (acquire T s (.received job)).1.trust_list },
        (acquire T s (.received job)).2) := by
  obtain ⟨now, req⟩ := job
  cases req with
  | TrustAdd pubkey nickname capabilities notes encryption_pubkey => simp [acquire, hlist]
  | TrustRemove target =>
    simp only [acquire, hlist]
    rcases trust_remove d.trust_list target with ⟨l, _ | dropped⟩
    · rfl
    · rfl
  | TrustMode mode =>
    simp only [acquire, hlist]
    split
    · simp [hlist]
    · split
      · simp [hlist]
      · simp [hlist]

/-- A request that only read has decided on what it read. -/
theorem acquire_decides {T : Toml} {s s' : DaemonServer} {job : Job} {p' : Progress}
    (h : acquire T s (.received job) = (s', p')) (hp' : p'.settled = false) :
    s' = s ∧ p'.bumped = false ∧ p'.Of job := by
  obtain ⟨now, req⟩ := job
  cases req with
  | TrustAdd pubkey nickname capabilities notes encryption_pubkey =>
    cases h
    exact ⟨rfl, rfl, rfl⟩
  | TrustRemove target =>
    simp only [acquire] at h
    rcases hr : trust_remove s.trust_list target with ⟨l, _ | dropped⟩
    · rw [hr] at h
      cases h
      cases hp'
    · rw [hr] at h
      cases h
      cases hp'
  | TrustMode mode =>
    simp only [acquire] at h
    split at h
    · cases h
      cases hp'
    · rename_i next hparse
      split at h
      · rename_i hnew
        cases h
        cases mode with
        | none =>
          cases hparse
          exact absurd rfl hnew
        | some mode => exact ⟨rfl, rfl, mode, rfl, hparse, hnew⟩
      · cases h
        cases hp'

theorem not_bumped_of_settled (h : p.settled = true) : p.bumped = false := by
  cases p with
  | add_bumped e => cases h
  | _ => rfl

/-- No request but `k` is in the middle of a first add. -/
def Alone (s : Race) (k : Nat) : Prop :=
  ∀ (j : Nat) (q : Progress), k ≠ j → s.progress[j]? = some q → q.bumped = false

theorem Alone.after (h : Alone s k) (hk : s.progress[k]? = some p) (hp' : p'.bumped = false) :
    ∀ q ∈ (s.after server k p').progress, q.bumped = false := by
  intro q hq
  obtain ⟨j, hj⟩ := List.mem_iff_getElem?.mp hq
  rw [get_after hk] at hj
  by_cases hjk : k = j
  · rw [if_pos hjk] at hj
    cases hj
    exact hp'
  · rw [if_neg hjk] at hj
    exact h j q hjk hj

theorem Alone.same (h : Alone s k) (hk : s.progress[k]? = some p) (hp : p.bumped = false)
    {l : TrustList} (hl : Stands l s) : s.server.trust_list = l := by
  apply hl.same
  intro q hq
  obtain ⟨j, hj⟩ := List.mem_iff_getElem?.mp hq
  by_cases hjk : k = j
  · subst hjk
    rw [hk] at hj
    cases hj
    exact hp
  · exact h j q hjk hj

/-- The first of the two changes of a first add. -/
theorem Serial.bump (h : Serial T path start jobs order s) (halone : Alone s k) {entry : TrustEntry}
    (hk : s.progress[k]? = some (.add_decided true entry))
    (hfirst : first_add s.server.trust_list = true) :
    Serial T path start jobs order
      (s.after { s.server with trust_list := s.server.trust_list.set_mode .Enforce } k
        (.add_bumped entry)) := by
  refine h.silent hk rfl rfl (fun _ hof => hof) h.file ?_
  intro l hl
  have hlist := halone.same hk rfl hl
  constructor
  · intro hnone
    have hmem : Progress.add_bumped entry ∈
        (s.after { s.server with trust_list := s.server.trust_list.set_mode .Enforce } k
          (.add_bumped entry)).progress :=
      List.mem_set (List.getElem?_eq_some_iff.mp hk).1 _
    cases hnone _ hmem
  · intro j e hj
    refine ⟨hlist ▸ hfirst, by rw [← hlist], fun i q hi hq => ?_⟩
    have honly : ∀ (i : Nat) (q : Progress), (s.after { s.server with
        trust_list := s.server.trust_list.set_mode .Enforce } k (.add_bumped entry)).progress[i]? =
          some q → q.bumped = true → k = i := by
      intro i q hi hq
      rw [get_after hk] at hi
      by_contra hne
      rw [if_neg hne] at hi
      rw [halone i q hne hi] at hq
      cases hq
    exact (honly i q hi hq).symm.trans (honly j _ hj rfl)

section
variable (hT : Writes T) (h : Serial T path start jobs order s) {job : Job}
  (hjob : jobs[k]? = some job)
include hT h hjob

theorem Serial.received (halone : Alone s k) (hk : s.progress[k]? = some (.received job))
    (ha : acquire T s.server (.received job) = (server, p')) :
    Serial T path start jobs (order ++ settles k (.received job) p') (s.after server k p') := by
  have hfile : server.trust_file = some path := (acquire_cases hT h.file ha).1
  have hp : (Progress.received job).settled = false := rfl
  by_cases hp' : p'.settled = true
  · rw [show settles k (.received job) p' = [k] by simp [settles, hp, hp']]
    apply h.effect hk rfl hp' hfile hjob
    · intro d hd hlist
      have hsame := acquire_received T (halone.same hk rfl hlist) job
      rw [ha] at hsame
      obtain ⟨files, response, hdispatch, hanswer⟩ := dispatch_received hT hd hsame hp'
      exact ⟨files, response, by rw [hdispatch, hd], hanswer⟩
    · exact halone.after hk (not_bumped_of_settled hp')
  · have hp' : p'.settled = false := Bool.eq_false_iff.mpr hp'
    obtain ⟨rfl, hbumped, hof⟩ := acquire_decides ha hp'
    rw [show settles k (.received job) p' = [] by simp [settles, hp'], List.append_nil]
    apply h.silent hk hp' _ _ hfile
    · intro l hl
      exact hl.keep hk rfl hbumped rfl
    · cases p' with
      | saving change => cases hp'
      | done response => cases hp'
      | _ => rfl
    · rintro job' rfl
      exact hof

/-- The add itself, with the mode that the serial run gives the list before
it. -/
theorem Serial.add {entry : TrustEntry} (halone : Alone s k) (hk : s.progress[k]? = some p)
    (hp : p.settled = false) (hof : job = (entry.added_at, .TrustAdd entry.pubkey entry.nickname
      entry.capabilities entry.notes entry.encryption_pubkey))
    (hlist : ∀ l, Stands l s →
      s.server.trust_list = if first_add l then l.set_mode .Enforce else l) :
    Serial T path start jobs (order ++ [k])
      (s.after { s.server with trust_list := s.server.trust_list.add entry } k
        (.saving (.added entry.pubkey entry.nickname))) := by
  refine h.effect hk hp rfl h.file hjob ?_ ?_
  · intro d hd hl
    obtain ⟨files, hdispatch⟩ := dispatch_add hT hd entry
    subst hof
    refine ⟨files, _, hdispatch.trans ?_, rfl⟩
    simp only [hd, hlist _ hl]
    rfl
  · exact halone.after hk rfl

theorem Serial.switch {previous next : TrustMode} (halone : Alone s k)
    (hk : s.progress[k]? = some (.mode_decided previous next))
    (hof : (Progress.mode_decided previous next).Of job)
    (hmode : previous = s.server.trust_list.mode) :
    Serial T path start jobs (order ++ [k])
      (s.after { s.server with trust_list := s.server.trust_list.set_mode next } k
        (.saving (.switched previous next))) := by
  refine h.effect hk rfl rfl h.file hjob ?_ ?_
  · intro d hd hl
    have hlist := halone.same hk rfl hl
    obtain ⟨mode, hreq, hparse, hnew⟩ := hof
    rw [hmode, hlist] at hnew
    obtain ⟨files, hdispatch⟩ := dispatch_mode hT hd hparse hnew job.1
    refine ⟨files, _, ?_, rfl⟩
    rw [hreq, hdispatch]
    simp only [hd, hmode, hlist]
  · exact halone.after hk rfl

end

theorem Serial.step (hT : Writes T) (h : Serial T path start jobs order s) (hquiet : Quiet s k)
    {s' : Race} {out : List Nat} (hs : s.step T k = .ok (s', out)) :
    Serial T path start jobs (order ++ out) s' := by
  unfold Race.step at hs
  unfold Quiet at hquiet
  rcases hk : s.progress[k]? with _ | p
  · rw [hk] at hs
    cases hs
    rw [List.append_nil]
    exact h
  · simp only [hk] at hs hquiet
    obtain ⟨hothers, hdecision⟩ := hquiet
    have hlt : k < jobs.length := h.size ▸ (List.getElem?_eq_some_iff.mp hk).1
    have hjob : jobs[k]? = some jobs[k] := List.getElem?_eq_getElem hlt
    have hof : p.Of jobs[k] := h.of_jobs k p _ hk hjob
    have halone : p.settled = false → Alone s k := by
      intro hp j q hjk hq
      have hj := hothers.resolve_left (by simp [hp]) j
        (List.getElem?_eq_some_iff.mp hq).1 (Ne.symm hjk)
      rwa [hq] at hj
    cases hs
    cases p with
    | received job =>
      cases hof
      exact h.received hT hjob (halone rfl) hk rfl
    | add_decided first entry =>
      cases first with
      | true =>
        change Serial T path start jobs (order ++ []) _
        rw [List.append_nil]
        exact h.bump (halone rfl) hk hdecision.symm
      | false =>
        apply h.add hT hjob (halone rfl) hk rfl hof
        intro l hl
        have hlist := (halone rfl).same hk rfl hl
        rw [← hlist, ← hdecision, if_neg Bool.false_ne_true]
    | add_bumped entry =>
      apply h.add hT hjob (halone rfl) hk rfl hof
      intro l hl
      obtain ⟨hfirst, hlist, -⟩ := hl.bumped k entry hk
      rw [hfirst, if_pos rfl, hlist]
    | mode_decided previous next => exact h.switch hT hjob (halone rfl) hk hof hdecision
    | saving change =>
      simp only [acquire, persist_writes hT h.file]
      change Serial T path start jobs (order ++ []) _
      rw [List.append_nil]
      exact h.silent hk rfl rfl (fun _ _ => trivial) h.file fun l hl => hl.keep hk rfl rfl rfl
    | done response =>
      change Serial T path start jobs (order ++ []) _
      rw [List.append_nil]
      exact h.silent hk rfl rfl (fun _ _ => trivial) h.file fun l hl => hl.keep hk rfl rfl rfl

end

/-! ## Whole races -/

def Finished (s : Race) : Prop := ∀ p ∈ s.progress, ∃ response, p = .done response

def Progress.isDone : Progress → Bool
  | .done _ => true
  | _ => false

theorem finished_of_isDone {s : Race} (h : s.progress.all Progress.isDone = true) : Finished s := by
  intro p hp
  have hdone := List.all_eq_true.mp h p hp
  cases p with
  | done response => exact ⟨response, rfl⟩
  | _ => cases hdone

/-- Some order of the requests, served one after another, gives the mode, the
entries and the answers of the race. -/
def Serialisable (T : Toml) (start : DaemonServer) (jobs : List Job) (s : Race) : Prop :=
  ∃ order, List.Perm order (List.range jobs.length) ∧
    ∃ d responses, run (serve T) start (order.filterMap (jobs[·]?)) = .ok (d, responses) ∧
      d.trust_list = s.server.trust_list ∧
      order.map (fun k => s.progress[k]?.bind Progress.answer) = responses.map some

theorem Serial.new (T : Toml) {path : String} {start : DaemonServer}
    (hfile : start.trust_file = some path) (jobs : List Job) :
    Serial T path start jobs [] (Race.new start jobs) where
  size := by simp [Race.new]
  nodup := List.nodup_nil
  settled k := by
    simp only [Race.new, List.getElem?_map, List.not_mem_nil, false_iff]
    rintro ⟨p, hp, hsettled⟩
    obtain ⟨job, -, rfl⟩ := Option.map_eq_some_iff.mp hp
    cases hsettled
  of_jobs k p job hp hjob := by
    simp only [Race.new, List.getElem?_map, hjob, Option.map_some, Option.some.injEq] at hp
    subst hp
    rfl
  file := hfile
  serial := by
    refine ⟨start, [], rfl, hfile, ⟨fun _ => rfl, ?_⟩, rfl⟩
    intro k e hk
    simp only [Race.new, List.getElem?_map] at hk
    obtain ⟨job, -, hjob⟩ := Option.map_eq_some_iff.mp hk
    cases hjob

theorem Serial.finished {T : Toml} {path : String} {start : DaemonServer} {jobs : List Job}
    {order : List Nat} {s : Race} (h : Serial T path start jobs order s) (hdone : Finished s) :
    Serialisable T start jobs s := by
  have hmem : ∀ k, k ∈ order ↔ k < s.progress.length := by
    intro k
    rw [h.settled]
    constructor
    · rintro ⟨p, hp, -⟩
      exact (List.getElem?_eq_some_iff.mp hp).1
    · intro hk
      obtain ⟨response, hp⟩ := hdone _ (List.getElem_mem hk)
      exact ⟨_, List.getElem?_eq_getElem hk, by rw [hp]; rfl⟩
  obtain ⟨d, responses, hrun, -, hlist, hresponses⟩ := h.serial
  refine ⟨order, ?_, d, responses, hrun, ?_, hresponses⟩
  · rw [List.perm_ext_iff_of_nodup h.nodup List.nodup_range]
    intro k
    rw [hmem, List.mem_range, h.size]
  · apply (hlist.same _).symm
    intro p hp
    obtain ⟨response, rfl⟩ := hdone p hp
    rfl

/-- Requests whose decisions never go stale are served as in some order one
after another, and the file holds the list that they leave. -/
theorem trust_requests_serialise (T : Toml) (hT : Writes T) (path : String) (start : DaemonServer)
    (hfile : start.trust_file = some path) (jobs : List Job) (calls : List Nat)
    (hquiet : Meets (Race.step T) (fun _ s k => Quiet s k) (Race.new start jobs) calls) :
    Returns (run (Race.step T) (Race.new start jobs) calls) fun r =>
      Finished r.1 → Serialisable T start jobs r.1 ∧
        ((∃ p ∈ r.1.progress, p.changed = true) →
          r.1.server.files path = r.1.server.trust_list.to_toml_string T) := by
  obtain ⟨⟨s, order⟩, hrun⟩ := ends_ok (run (Race.step T) (Race.new start jobs) calls)
  have hstep : ∀ order s k s' out, Serial T path start jobs order s → Quiet s k →
      Race.step T s k = .ok (s', out) → Serial T path start jobs (order ++ out) s' :=
    fun _ _ _ _ _ h hq hs => h.step hT hq hs
  have hserial := run_invariant_of_meets (Serial.new T hfile jobs) hstep hquiet hrun
  have hinv : FileInv T path s := by
    have hstep : ∀ (log : List Nat) s k s' (out : List Nat), FileInv T path s →
        Race.step T s k = .ok (s', out) → FileInv T path s' :=
      fun _ _ _ _ _ h hs => h.step hT hs
    refine run_invariant (I := fun _ s => FileInv T path s) ⟨hfile, ?_⟩ hstep hrun
    rintro ⟨p, hp, hchanged⟩ -
    obtain ⟨job, -, rfl⟩ := List.mem_map.mp hp
    cases hchanged
  refine ⟨_, hrun, fun hdone => ⟨hserial.finished hdone, fun hchanged => ?_⟩⟩
  apply hinv.2 hchanged
  intro p hp
  obtain ⟨response, rfl⟩ := hdone p hp
  rfl

/-! ## Two races -/

namespace Sample

/-- A writer that knows the text of the file with alice. -/
def writer : Toml where
  to_string_pretty file := some (if file = alice then alice_text else "")
  from_str _ _ := none

def daemon : DaemonServer :=
  { trust_list := .empty, trust_file := some "trust.toml", files := fun _ => none }

def add_alice : Job := (0, .TrustAdd "02aa" "alice" [] none none)

/-- The first add, and a removal that finds nothing after the snapshot of the
add. -/
def quiet_calls : List Nat := [0, 1, 0, 0, 0]

end Sample

theorem a_failed_removal_serialises :
    Returns (run (Race.step Sample.writer)
        (Race.new Sample.daemon [Sample.add_alice, (0, .TrustRemove "bob")]) Sample.quiet_calls)
      fun r => Finished r.1 →
        Serialisable Sample.writer Sample.daemon [Sample.add_alice, (0, .TrustRemove "bob")] r.1 ∧
        ((∃ p ∈ r.1.progress, p.changed = true) →
          r.1.server.files "trust.toml" = r.1.server.trust_list.to_toml_string Sample.writer) :=
  trust_requests_serialise Sample.writer (fun _ => rfl) "trust.toml" Sample.daemon rfl _ _
    (by decide +kernel)

/-- The first add takes its snapshot, a mode request sets the mode `log`, and
the add goes on with what it saw. -/
def Sample.stale_calls : List Nat := [0, 1, 1, 1, 0, 0, 0]

theorem a_stale_snapshot_is_not_serialisable :
    ¬ Returns (run (Race.step Sample.writer)
        (Race.new Sample.daemon [Sample.add_alice, (0, .TrustMode (some "log"))])
        Sample.stale_calls)
      fun r => Finished r.1 →
        Serialisable Sample.writer Sample.daemon [Sample.add_alice, (0, .TrustMode (some "log"))]
          r.1 := by
  have hrace : Returns (run (Race.step Sample.writer)
      (Race.new Sample.daemon [Sample.add_alice, (0, .TrustMode (some "log"))])
      Sample.stale_calls) fun r =>
        r.1.server.trust_list.mode = .Enforce ∧ r.1.progress.all Progress.isDone = true := by
    decide +kernel
  have hserial : ∀ order ∈ [[0, 1], [1, 0]], Returns (run (serve Sample.writer) Sample.daemon
      (order.filterMap ([Sample.add_alice, (0, .TrustMode (some "log"))][·]?)))
        fun r => r.1.trust_list.mode = .Log := by
    decide +kernel
  rintro ⟨⟨s, order⟩, hrun, h⟩
  obtain ⟨⟨s', order'⟩, hrun', hmode, hdone⟩ := hrace
  rw [hrun'] at hrun
  cases hrun
  obtain ⟨order, hperm, d, responses, hserve, hlist, -⟩ := h (finished_of_isDone hdone)
  have hmem : order ∈ [[0, 1], [1, 0]] := by
    obtain ⟨a, b, rfl⟩ := List.length_eq_two.mp hperm.length_eq
    have ha := List.mem_range.mp (hperm.subset (List.mem_cons_self (a := a)))
    have hb := List.mem_range.mp (hperm.subset (List.mem_cons_of_mem a (List.mem_singleton_self b)))
    have hab : a ≠ b := by simpa using hperm.nodup_iff.mpr List.nodup_range
    simp only [List.length_cons, List.length_nil] at ha hb
    have hcases : (a = 0 ∧ b = 1) ∨ (a = 1 ∧ b = 0) := by omega
    rcases hcases with ⟨rfl, rfl⟩ | ⟨rfl, rfl⟩
    · simp
    · simp
  obtain ⟨⟨d', responses'⟩, hserve', hlog⟩ := hserial order hmem
  rw [hserve'] at hserve
  cases hserve
  simp only at hlist hlog hmode
  rw [hlist, hmode] at hlog
  cases hlog

end lmao.cli
