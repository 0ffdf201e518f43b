-- The identity of an agent in its key files (`from_keyfile` of the node crate, `build_node`
-- of cli/common.rs): a start looks for a file and reads it, or draws a secret and writes it.
-- Starts can overlap, and any of them can die between two calls.
import Mathlib.Data.List.TakeDrop
import Lmao.Crypto
import Lmao.HexNumbers
import Lmao.History
import Lmao.PresenceSigning

namespace lmao.cli.identity

open crypto machine
open node.history (is_whitespace trim)
open text (Hex)

/-! ## A file with a secret -/

inductive FileCall
  | read
  | create
  | set_permissions
  | write

/-- How a secret is written and read, and the messages for calls that fail. -/
structure SecretFile (K : Type) where
  to_text : K → String
  from_text : String → Except String K
  failed : FileCall → String → String

/-- A secret is read as it was written, and a text cut short is no secret. -/
structure SecretFile.Lawful {K : Type} (F : SecretFile K) : Prop where
  round_trip : ∀ key, F.from_text (F.to_text key) = .ok key
  not_empty : ∀ key, 0 < (F.to_text key).toList.length
  cut_short : ∀ key n, n < (F.to_text key).toList.length →
    ∀ key', F.from_text (String.ofList ((F.to_text key).toList.take n)) ≠ .ok key'

/-- A start on its way through one file: the call that comes next, with the secret that it
drew, or the result. -/
inductive Load (K : Type)
  | path_exists
  | read
  | create (key : K)
  | set_permissions (key : K)
  | write (key : K)
  | done (result : Except String K)

/-- A call works, or it fails and a write has written `n` characters. -/
inductive Outcome
  | ok
  | error (e : String) (n : Nat)

/-- A text that is written to the front of a file. -/
def overwrite (text : List Char) (old : String) : String :=
  String.ofList (text ++ old.toList.drop text.length)

namespace Load

variable {K : Type}

/-- The next call works. A start that finds no file draws a secret. -/
def turn (F : SecretFile K) (drawn : K) (file : Option String) :
    Load K → Load K × Option String
  | .path_exists => if file.isSome then (.read, file) else (.create drawn, file)
  | .read =>
    match file with
    | some text => (.done (F.from_text text), file)
    | none => (.done (.error (F.failed .read "No such file or directory (os error 2)")), file)
  | .create key => (.set_permissions key, some "")
  | .set_permissions key => (.write key, file)
  | .write key => (.done (.ok key), file.map (overwrite (F.to_text key).toList))
  | .done result => (.done result, file)

/-- The next call fails. A start that fails to look for the file takes it that there is
none. -/
def fail (F : SecretFile K) (drawn : K) (e : String) (n : Nat) (file : Option String) :
    Load K → Load K × Option String
  | .path_exists => (.create drawn, file)
  | .read => (.done (.error (F.failed .read e)), file)
  | .create _ => (.done (.error (F.failed .create e)), file)
  | .set_permissions _ => (.done (.error (F.failed .set_permissions e)), file)
  | .write key =>
    (.done (.error (F.failed .write e)), file.map (overwrite ((F.to_text key).toList.take n)))
  | .done result => (.done result, file)

def next (F : SecretFile K) (drawn : K) (outcome : Outcome) (file : Option String) (l : Load K) :
    Load K × Option String :=
  match outcome with
  | .ok => l.turn F drawn file
  | .error e n => l.fail F drawn e n file

/-- The start has the file open and has not written it. -/
def Writing : Load K → Prop
  | .set_permissions _ => True
  | .write _ => True
  | _ => False

end Load

/-- A start made a file, or emptied an old one. -/
structure Created (K : Type) where
  p : Nat
  key : K
  old : Option String

def Load.created {K : Type} (p : Nat) (outcome : Outcome) (file : Option String) (l : Load K) :
    List (Created K) :=
  match outcome, l with
  | .ok, .create key => [{ p, key, old := file }]
  | _, _ => []

/-! ## What a file and the starts agree on -/

section Agreement

variable {K : Type} {F : SecretFile K} {file : Option String} {loads : List (Load K)}
variable {p : Nat} {l l' : Load K}

/-- Whoever is done has the secret that the file holds. While one start writes, the file is
empty, and no other start writes. -/
structure Agree (F : SecretFile K) (file : Option String) (loads : List (Load K)) : Prop where
  holds : ∀ key, Load.done (.ok key) ∈ loads → ∃ text, file = some text ∧ F.from_text text = .ok key
  empty : ∀ l : Load K, l ∈ loads → l.Writing → file = some ""
  one : ∀ (p q : Nat) (l l' : Load K), loads[p]? = some l → loads[q]? = some l' →
    l.Writing → l'.Writing → p = q

theorem overwrite_empty (text : List Char) : overwrite text "" = String.ofList text := by
  unfold overwrite
  rw [String.toList_empty, List.drop_nil, List.append_nil]

theorem SecretFile.Lawful.empty (hF : F.Lawful) (key : K) : F.from_text "" ≠ .ok key :=
  hF.cut_short key 0 (hF.not_empty key) key

/-- An element of a list with one element replaced. -/
theorem mem_set_cases {α : Type} {xs : List α} {a x : α} {p : Nat} (h : x ∈ xs.set p a) :
    x = a ∨ x ∈ xs := by
  rcases List.mem_or_eq_of_mem_set h with h | h
  · exact .inr h
  · exact .inl h

theorem Agree.begin (h : Agree F file loads) : Agree F file (loads ++ [.path_exists]) := by
  refine ⟨?_, ?_, ?_⟩
  · intro key hmem
    rcases List.mem_append.mp hmem with hmem | hmem
    · exact h.holds key hmem
    · cases List.mem_singleton.mp hmem
  · intro l hmem hwriting
    rcases List.mem_append.mp hmem with hmem | hmem
    · exact h.empty l hmem hwriting
    · rw [List.mem_singleton.mp hmem] at hwriting
      exact hwriting.elim
  · have hold : ∀ (p : Nat) (l : Load K), (loads ++ [.path_exists])[p]? = some l → l.Writing →
        loads[p]? = some l := by
      intro p l hp hwriting
      rw [List.getElem?_append] at hp
      split at hp
      case isTrue => exact hp
      case isFalse =>
        rw [List.mem_singleton.mp (List.mem_of_getElem? hp)] at hwriting
        exact hwriting.elim
    intro p q l l' hp hq hl hl'
    exact h.one p q l l' (hold p l hp hl) (hold q l' hq hl') hl hl'

/-- A call that leaves the file alone. -/
theorem Agree.keep (h : Agree F file loads) (hp : loads[p]? = some l)
    (hwriting : l'.Writing → l.Writing)
    (hdone : ∀ key, l' = .done (.ok key) → ∃ text, file = some text ∧ F.from_text text = .ok key) :
    Agree F file (loads.set p l') := by
  refine ⟨?_, ?_, ?_⟩
  · intro key hmem
    rcases mem_set_cases hmem with hmem | hmem
    · exact hdone key hmem.symm
    · exact h.holds key hmem
  · intro l₁ hmem hl₁
    rcases mem_set_cases hmem with rfl | hmem
    · exact h.empty l (List.mem_of_getElem? hp) (hwriting hl₁)
    · exact h.empty l₁ hmem hl₁
  · have hold : ∀ (q : Nat) (l₁ : Load K), (loads.set p l')[q]? = some l₁ → l₁.Writing →
        ∃ l₂, loads[q]? = some l₂ ∧ l₂.Writing := by
      intro q l₁ hq hl₁
      rw [List.getElem?_set] at hq
      split at hq
      case isTrue hsame =>
        subst hsame
        split at hq
        case isTrue =>
          cases hq
          exact ⟨l, hp, hwriting hl₁⟩
        case isFalse => cases hq
      case isFalse => exact ⟨l₁, hq, hl₁⟩
    intro q q' l₁ l₁' hq hq' hl₁ hl₁'
    obtain ⟨l₂, hq, hl₂⟩ := hold q l₁ hq hl₁
    obtain ⟨l₂', hq', hl₂'⟩ := hold q' l₁' hq' hl₁'
    exact h.one q q' l₂ l₂' hq hq' hl₂ hl₂'

/-- Nobody is done while there is no file, and nobody writes. -/
theorem Agree.create (h : Agree F none loads) (key : K) :
    Agree F (some "") (loads.set p (.set_permissions key)) := by
  have hquiet : ∀ l : Load K, l ∈ loads → ¬ l.Writing := by
    intro l hmem hl
    cases h.empty l hmem hl
  have hnone : ∀ key, Load.done (.ok key) ∉ loads := by
    intro key hmem
    obtain ⟨text, htext, -⟩ := h.holds key hmem
    cases htext
  refine ⟨?_, fun _ _ _ => rfl, ?_⟩
  · intro key hmem
    rcases mem_set_cases hmem with hmem | hmem
    · cases hmem
    · exact absurd hmem (hnone key)
  · have hown : ∀ (q : Nat) (l : Load K), (loads.set p (.set_permissions key))[q]? = some l →
        l.Writing → q = p := by
      intro q l hq hl
      rw [List.getElem?_set] at hq
      split at hq
      case isTrue hsame => exact hsame.symm
      case isFalse => exact absurd hl (hquiet l (List.mem_of_getElem? hq))
    intro q q' l l' hq hq' hl hl'
    rw [hown q l hq hl, hown q' l' hq' hl']

/-- Nobody is done while a start writes, and afterwards nobody writes. -/
theorem Agree.write (hF : F.Lawful) (h : Agree F file loads) (hp : loads[p]? = some l)
    (hl : l.Writing) {result : Except String K} {text : String}
    (hresult : ∀ key, result = .ok key → F.from_text text = .ok key) :
    Agree F (some text) (loads.set p (.done result)) := by
  have hempty := h.empty l (List.mem_of_getElem? hp) hl
  have hnone : ∀ key, Load.done (.ok key) ∉ loads := by
    intro key hmem
    obtain ⟨text, htext, hkey⟩ := h.holds key hmem
    cases hempty.symm.trans htext
    exact hF.empty key hkey
  have hquiet : ∀ (q : Nat) (l₁ : Load K), (loads.set p (.done result))[q]? = some l₁ →
      ¬ l₁.Writing := by
    intro q l₁ hq hl₁
    rw [List.getElem?_set] at hq
    split at hq
    case isTrue =>
      split at hq
      case isTrue =>
        cases hq
        exact hl₁
      case isFalse => cases hq
    case isFalse hother => exact hother (h.one p q l l₁ hp hq hl hl₁)
  refine ⟨?_, ?_, ?_⟩
  · intro key hmem
    rcases mem_set_cases hmem with hmem | hmem
    · cases hmem
      exact ⟨text, rfl, hresult key rfl⟩
    · exact absurd hmem (hnone key)
  · intro l₁ hmem hl₁
    obtain ⟨q, hq⟩ := List.mem_iff_getElem?.mp hmem
    exact absurd hl₁ (hquiet q l₁ hq)
  · intro q _ l₁ _ hq _ hl₁ _
    exact absurd hl₁ (hquiet q l₁ hq)

/-- One call of a start, if it does not empty an old file. -/
theorem Agree.next (h : Agree F file loads) (hF : F.Lawful) (hp : loads[p]? = some l) {drawn : K}
    {outcome : Outcome} (hold : ∀ c ∈ l.created p outcome file, c.old = none) :
    Agree F (l.next F drawn outcome file).2 (loads.set p (l.next F drawn outcome file).1) := by
  cases outcome with
  | ok =>
    cases l with
    | path_exists =>
      dsimp only [Load.next, Load.turn]
      split
      · exact h.keep hp (fun hl => hl) nofun
      · exact h.keep hp (fun hl => hl) nofun
    | read =>
      dsimp only [Load.next, Load.turn]
      split
      case h_1 text =>
        refine h.keep hp (fun hl => hl) ?_
        intro key hkey
        exact ⟨text, rfl, Load.done.inj hkey⟩
      case h_2 => exact h.keep hp (fun hl => hl) nofun
    | create key =>
      have hnone : file = none := hold _ (List.mem_singleton_self _)
      subst hnone
      exact h.create key
    | set_permissions key => exact h.keep hp (fun _ => trivial) nofun
    | write key =>
      have hempty := h.empty _ (List.mem_of_getElem? hp) trivial
      subst hempty
      dsimp only [Load.next, Load.turn]
      rw [Option.map_some, overwrite_empty, String.ofList_toList]
      apply h.write hF hp trivial
      intro key' hkey
      cases hkey
      exact hF.round_trip key
    | done result =>
      apply h.keep hp (fun hl => hl)
      intro key hkey
      rw [hkey] at hp
      exact h.holds key (List.mem_of_getElem? hp)
  | error e n =>
    cases l with
    | path_exists => exact h.keep hp (fun hl => hl) nofun
    | read => exact h.keep hp (fun hl => hl) nofun
    | create key => exact h.keep hp (fun hl => hl) nofun
    | set_permissions key => exact h.keep hp (fun hl => hl.elim) nofun
    | write key =>
      have hempty := h.empty _ (List.mem_of_getElem? hp) trivial
      subst hempty
      apply h.write hF hp trivial
      intro key' hkey
      cases hkey
    | done result =>
      apply h.keep hp (fun hl => hl)
      intro key hkey
      rw [hkey] at hp
      exact h.holds key (List.mem_of_getElem? hp)

end Agreement

/-! ## What one call keeps -/

namespace Load

variable {K : Type} {F : SecretFile K} {drawn : K} {outcome : Outcome} {file : Option String}
variable {l : Load K}

/-- The start made the file for `key`. -/
def Drew (key : K) : Load K → Prop
  | .set_permissions drawn => drawn = key
  | .write drawn => drawn = key
  | .done (.ok drawn) => drawn = key
  | .done (.error _) => True
  | _ => False

theorem Drew.next {key : K} (h : l.Drew key) : (l.next F drawn outcome file).1.Drew key := by
  cases outcome with
  | ok =>
    cases l with
    | path_exists => exact h.elim
    | read => exact h.elim
    | create key' => exact h.elim
    | set_permissions key' => exact h
    | write key' => exact h
    | done result => exact h
  | error e n =>
    cases l with
    | path_exists => exact h.elim
    | read => exact h.elim
    | create key' => exact h.elim
    | set_permissions key' => trivial
    | write key' => trivial
    | done result => exact h

theorem mem_created {p : Nat} {c : Created K} (h : c ∈ l.created p outcome file) :
    outcome = .ok ∧ l = .create c.key ∧ c.p = p ∧ c.old = file := by
  unfold Load.created at h
  split at h
  case h_1 key =>
    cases List.mem_singleton.mp h
    exact ⟨rfl, rfl, rfl, rfl⟩
  case h_2 => cases h

/-- A start that is about to make the file saw that there is none. -/
def Looked (file : Option String) (l : Load K) : Prop := ∀ key, l = .create key → file = none

theorem Looked.next (F : SecretFile K) (drawn : K) (h : l.Looked file)
    (hwell : outcome ≠ .ok → l ≠ .path_exists) :
    (l.next F drawn outcome file).1.Looked (l.next F drawn outcome file).2 ∧
      ∀ p, ∀ c ∈ l.created p outcome file, c.old = none := by
  refine ⟨?_, ?_⟩
  · intro key hkey
    cases outcome with
    | ok =>
      cases l with
      | path_exists =>
        dsimp only [Load.next, Load.turn] at hkey ⊢
        split at hkey
        case isTrue => cases hkey
        case isFalse hnone =>
          rw [if_neg hnone]
          exact Option.not_isSome_iff_eq_none.mp hnone
      | read =>
        dsimp only [Load.next, Load.turn] at hkey
        split at hkey <;> cases hkey
      | create key' => cases hkey
      | set_permissions key' => cases hkey
      | write key' => cases hkey
      | done result => cases hkey
    | error e n =>
      cases l with
      | path_exists => exact absurd rfl (hwell nofun)
      | read => cases hkey
      | create key' => cases hkey
      | set_permissions key' => cases hkey
      | write key' => cases hkey
      | done result => cases hkey
  · intro p c hc
    obtain ⟨-, hl, -, hold⟩ := mem_created hc
    rw [hold]
    exact h c.key hl

/-- A start that finds `text` in the file: it is on its way to the secret in it, or a call
`failed`. -/
def Decided (F : SecretFile K) (text : String) (failed : Prop) : Load K → Prop
  | .path_exists => True
  | .read => True
  | .done result => result = F.from_text text ∨ failed ∧ ∃ e, result = .error e
  | _ => False

theorem Decided.mono {text : String} {failed failed' : Prop} (h : l.Decided F text failed)
    (hfailed : failed → failed') : l.Decided F text failed' := by
  cases l with
  | path_exists => trivial
  | read => trivial
  | create key => exact h
  | set_permissions key => exact h
  | write key => exact h
  | done result => exact h.imp id (And.imp_left hfailed)

theorem Decided.next {text : String} {failed : Prop} (h : l.Decided F text failed)
    (hwell : outcome ≠ .ok → l ≠ .path_exists) :
    (l.next F drawn outcome (some text)).1.Decided F text (failed ∨ outcome ≠ .ok) ∧
      (l.next F drawn outcome (some text)).2 = some text := by
  cases outcome with
  | ok =>
    cases l with
    | path_exists => exact ⟨trivial, rfl⟩
    | read => exact ⟨.inl rfl, rfl⟩
    | create key => exact h.elim
    | set_permissions key => exact h.elim
    | write key => exact h.elim
    | done result => exact ⟨h.imp id (And.imp_left .inl), rfl⟩
  | error e n =>
    cases l with
    | path_exists => exact absurd rfl (hwell nofun)
    | read => exact ⟨.inr ⟨.inr nofun, _, rfl⟩, rfl⟩
    | create key => exact h.elim
    | set_permissions key => exact h.elim
    | write key => exact h.elim
    | done result => exact ⟨h.imp id (And.imp_left .inl), rfl⟩

end Load

/-! ## The two files of an agent -/

/-- `Path::file_stem` and `Path::extension` of a file name. A dot in front begins no
extension. -/
def split_at_dot (file_name : List Char) : List Char × Option (List Char) :=
  match file_name.reverse.span (· != '.') with
  | (_, []) => (file_name, none)
  | (_, [_]) => (file_name, none)
  | (after, _ :: before) => (before.reverse, some after.reverse)

def set_extension (file_name extension : List Char) : List Char :=
  (split_at_dot file_name).1 ++ if extension = [] then [] else '.' :: extension

/-- The name of the file with the secret for X25519. -/
def sidecar_x25519_path (file_name : List Char) : List Char :=
  let ext :=
    match (split_at_dot file_name).2 with
    | some e => e ++ ".x25519".toList
    | none => "x25519".toList
  set_extension file_name ext

theorem split_at_dot_append {file_name stem ext : List Char}
    (h : split_at_dot file_name = (stem, some ext)) : file_name = stem ++ '.' :: ext := by
  unfold split_at_dot at h
  have hspan := List.span_eq_takeWhile_dropWhile (· != '.') file_name.reverse
  have hparts := List.takeWhile_append_dropWhile (p := (· != '.')) (l := file_name.reverse)
  rw [hspan] at h
  rcases hdrop : file_name.reverse.dropWhile (· != '.') with _ | ⟨dot, _ | ⟨c, before⟩⟩
  · rw [hdrop] at h
    cases h
  · rw [hdrop] at h
    cases h
  · rw [hdrop] at h
    cases h
    have hhead := List.head?_dropWhile_not (· != '.') file_name.reverse
    rw [hdrop] at hhead
    have hdot : dot = '.' := by simpa using hhead
    rw [hdrop, hdot] at hparts
    have hname := congrArg List.reverse hparts
    rw [List.reverse_reverse, List.reverse_append, List.reverse_cons, List.append_assoc] at hname
    exact hname.symm

/-- The name of the sidecar has an ending more. -/
theorem sidecar_x25519_path_eq (file_name : List Char) :
    sidecar_x25519_path file_name = file_name ++ ".x25519".toList := by
  unfold sidecar_x25519_path set_extension
  rcases h : split_at_dot file_name with ⟨stem, _ | ext⟩
  · have hstem : stem = file_name := by
      unfold split_at_dot at h
      split at h
      · exact (Prod.mk.inj h).1.symm
      · exact (Prod.mk.inj h).1.symm
      · cases h
    subst hstem
    rfl
  · have hne : ext ++ ".x25519".toList ≠ [] := List.append_ne_nil_of_right_ne_nil _ (by decide)
    dsimp only
    rw [if_neg hne, split_at_dot_append h, List.append_assoc]
    rfl

/-! ## The two secrets -/

/-- The bytes of signing keys. -/
structure KeyBytes (E : Ecdsa) where
  to_bytes : E.SigningKey → Bytes
  from_bytes : Bytes → Except String E.SigningKey

/-- A signing key has 32 bytes, and is read as it was written. -/
structure KeyBytes.Documented {E : Ecdsa} (B : KeyBytes E) : Prop where
  length : ∀ key, (B.to_bytes key).length = 32
  round_trip : ∀ key, B.from_bytes (B.to_bytes key) = .ok key

/-- The secret of an `AgentIdentity`, 32 bytes of any kind. -/
abbrev StaticSecret := { bytes : Bytes // bytes.length = 32 }

/-- The key file. `hex_error` is the text for what is no hex. -/
def keyfile {E : Ecdsa} (B : KeyBytes E) (hex_error : String → String) (path : String) :
    SecretFile E.SigningKey where
  to_text key := hex_encode (B.to_bytes key)
  from_text hex_str :=
    match hex_decode (trim hex_str) with
    | none => .error ("invalid hex in keyfile " ++ path ++ ": " ++ hex_error (trim hex_str))
    | some bytes =>
      if bytes.length ≠ 32 then
        .error ("keyfile " ++ path ++ " contains " ++ toString bytes.length ++
          " bytes, expected 32")
      else
        match B.from_bytes bytes with
        | .error e => .error ("invalid signing key in " ++ path ++ ": " ++ e)
        | .ok key => .ok key
  failed
    | .read, e => "failed to read keyfile " ++ path ++ ": " ++ e
    | .create, e => "failed to create keyfile " ++ path ++ ": " ++ e
    | .set_permissions, e => "failed to set permissions on " ++ path ++ ": " ++ e
    | .write, e => "failed to write keyfile " ++ path ++ ": " ++ e

def secret_hex (secret : StaticSecret) : String := hex_encode secret.1

def from_hex (secret_hex : String) : Except CryptoError StaticSecret :=
  match hex_decode secret_hex with
  | none => .error .Hex
  | some bytes =>
    if h : bytes.length = 32 then .ok ⟨bytes, h⟩
    else .error (.InvalidKeyLength "secret key must be 32 bytes")

/-- The file next to it, of which only the outer text of an error is shown. -/
def sidecar (path : String) : SecretFile StaticSecret where
  to_text := secret_hex
  from_text hex :=
    match from_hex (trim hex) with
    | .error _ => .error ("parsing X25519 secret in " ++ path)
    | .ok secret => .ok secret
  failed
    | .read, _ => "reading X25519 sidecar " ++ path
    | _, _ => "writing X25519 sidecar " ++ path

/-! ## Hex texts, whole and cut -/

theorem hex_digits_length (bs : Bytes) : (hex_digits bs).length = 2 * bs.length := by
  induction bs with
  | nil => rfl
  | cons b bs ih =>
    unfold hex_digits at ih ⊢
    rw [List.flatMap_cons, List.length_append, ih, List.length_cons]
    simp only [List.length_cons, List.length_nil]
    omega

theorem hex_bytes_length {s : List Char} {bs : Bytes} (h : hex_bytes s = some bs) :
    s.length = 2 * bs.length := by
  induction s using hex_bytes.induct generalizing bs with
  | case1 =>
    cases h
    rfl
  | case2 c => cases h
  | case3 a b rest ih =>
    unfold hex_bytes at h
    obtain ⟨x, -, h⟩ := Option.bind_eq_some_iff.mp h
    obtain ⟨y, -, h⟩ := Option.bind_eq_some_iff.mp h
    obtain ⟨bs', hbs, h⟩ := Option.bind_eq_some_iff.mp h
    cases h
    rw [List.length_cons, List.length_cons, List.length_cons, ih hbs]
    omega

/-- There is no white space to take off from hex. -/
theorem trim_hex {s : List Char} (h : Hex s) : trim (String.ofList s) = String.ofList s := by
  have hdark : ∀ s' : List Char, Hex s' → s'.dropWhile is_whitespace = s' := by
    intro s' hs'
    cases s' with
    | nil => rfl
    | cons c rest =>
      have hcases := text.hex_val_cases (hs' c (List.mem_cons_self ..))
      have hc : is_whitespace c = false := by
        unfold is_whitespace
        simp only [Bool.or_eq_false_iff, Bool.and_eq_false_iff, beq_eq_false_iff_ne,
          decide_eq_false_iff_not]
        omega
      rw [List.dropWhile_cons, hc]
      rfl
  have hreverse : Hex s.reverse := fun c hc => h c (List.mem_reverse.mp hc)
  unfold trim
  rw [String.toList_ofList, hdark s h, hdark s.reverse hreverse, List.reverse_reverse]

theorem hex_encode_trim (bs : Bytes) : hex_decode (trim (hex_encode bs)) = some bs := by
  unfold hex_encode
  rw [trim_hex (text.hex_of_hex_bytes (hex_bytes_digits bs))]
  exact hex_decode_encode bs

/-- The text of 32 bytes, cut short, has not 32 bytes. -/
theorem hex_decode_cut {bs : Bytes} (hlength : bs.length = 32) {n : Nat}
    (hn : n < (hex_encode bs).toList.length) {bytes : Bytes}
    (h : hex_decode (trim (String.ofList ((hex_encode bs).toList.take n))) = some bytes) :
    bytes.length ≠ 32 := by
  have hhex : Hex (hex_digits bs) := text.hex_of_hex_bytes (hex_bytes_digits bs)
  unfold hex_encode at hn h
  rw [String.toList_ofList] at hn h
  rw [hex_digits_length] at hn
  have htake : Hex ((hex_digits bs).take n) := fun c hc => hhex c (List.mem_of_mem_take hc)
  rw [trim_hex htake] at h
  unfold hex_decode at h
  rw [String.toList_ofList] at h
  have hbytes := hex_bytes_length h
  rw [List.length_take, hex_digits_length] at hbytes
  omega

theorem keyfile_lawful {E : Ecdsa} {B : KeyBytes E} (hB : B.Documented)
    (hex_error : String → String) (path : String) : (keyfile B hex_error path).Lawful := by
  refine ⟨?_, ?_, ?_⟩
  · intro key
    unfold keyfile
    dsimp only
    rw [hex_encode_trim]
    dsimp only
    rw [if_neg (not_not.mpr (hB.length key)), hB.round_trip]
  · intro key
    unfold keyfile hex_encode
    dsimp only
    rw [String.toList_ofList, hex_digits_length, hB.length key]
    decide
  · intro key n hn key' h
    unfold keyfile at hn h
    dsimp only at hn h
    split at h
    case h_1 => cases h
    case h_2 bytes hbytes =>
      rw [if_pos (hex_decode_cut (hB.length key) hn hbytes)] at h
      cases h

theorem sidecar_lawful (path : String) : (sidecar path).Lawful := by
  refine ⟨?_, ?_, ?_⟩
  · intro secret
    unfold sidecar secret_hex from_hex
    dsimp only
    rw [hex_encode_trim]
    dsimp only
    rw [dif_pos secret.2]
  · intro secret
    unfold sidecar secret_hex hex_encode
    dsimp only
    rw [String.toList_ofList, hex_digits_length, secret.2]
    decide
  · intro secret n hn secret' h
    unfold sidecar secret_hex at hn
    unfold sidecar secret_hex from_hex at h
    dsimp only at hn h
    split at h
    case h_1 => cases h
    case h_2 secret'' heq =>
      split at heq
      case h_1 => cases heq
      case h_2 bytes hbytes =>
        rw [dif_neg (hex_decode_cut secret.2 hn hbytes)] at heq
        cases heq

/-! ## Starts of an agent -/

/-- The two files of `build_node` with a key file. -/
structure IdentityFiles (K X : Type) where
  keyfile : String
  signing_key : SecretFile K
  sidecar : String
  x25519 : SecretFile X

structure IdentityFiles.Lawful {K X : Type} (I : IdentityFiles K X) : Prop where
  signing_key : I.signing_key.Lawful
  x25519 : I.x25519.Lawful
  two_files : I.keyfile ≠ I.sidecar

/-- The files for a key file of that name in a directory. -/
def identity_files {E : Ecdsa} (B : KeyBytes E) (hex_error : String → String) (dir : String)
    (file_name : List Char) : IdentityFiles E.SigningKey StaticSecret :=
  let path := dir ++ String.ofList file_name
  let x25519_path := dir ++ String.ofList (sidecar_x25519_path file_name)
  { keyfile := path, signing_key := keyfile B hex_error path, sidecar := x25519_path,
    x25519 := sidecar x25519_path }

theorem identity_files_lawful {E : Ecdsa} {B : KeyBytes E} (hB : B.Documented)
    (hex_error : String → String) (dir : String) (file_name : List Char) :
    (identity_files B hex_error dir file_name).Lawful := by
  unfold identity_files
  refine ⟨keyfile_lawful hB hex_error (dir ++ String.ofList file_name),
    sidecar_lawful (dir ++ String.ofList (sidecar_x25519_path file_name)), ?_⟩
  intro hsame
  have hlength := congrArg (fun s : String => s.toList.length) hsame
  dsimp only at hlength
  rw [String.toList_append, String.toList_append, String.toList_ofList, String.toList_ofList,
    sidecar_x25519_path_eq, List.length_append, List.length_append, List.length_append] at hlength
  have hending : ".x25519".toList.length = 7 := rfl
  omega

/-- One start: it comes to the sidecar when it has the signing key. -/
structure Node (K X : Type) where
  signing : Load K
  encryption : Load X

inductive Stage
  | keyfile
  | sidecar
  | over

def Node.stage {K X : Type} (node : Node K X) : Stage :=
  match node.signing with
  | .done (.error _) => .over
  | .done (.ok _) =>
    match node.encryption with
    | .done _ => .over
    | _ => .sidecar
  | _ => .keyfile

/-- The secrets of a node that was built. -/
def Node.built {K X : Type} (node : Node K X) : Option (K × X) :=
  match node.signing, node.encryption with
  | .done (.ok key), .done (.ok secret) => some (key, secret)
  | _, _ => none

/-- The files of a computer, and the starts of the agent. -/
structure Home (K X : Type) where
  files : String → Option String
  nodes : List (Node K X)

inductive StartOp (K X : Type)
  | begin
  | call (p : Nat) (outcome : Outcome) (key : K) (secret : X)

inductive HomeOutput (K X : Type)
  | keyfile (c : Created K)
  | sidecar (c : Created X)
  | failed (p : Nat)

section Home

variable {K X : Type} (I : IdentityFiles K X)

def failures (p : Nat) : Outcome → List (HomeOutput K X)
  | .ok => []
  | .error _ _ => [.failed p]

/-- The next call of a start. A start that gets no more calls is dead. -/
def Home.step (h : Home K X) : StartOp K X → Except Empty (Home K X × List (HomeOutput K X))
  | .begin => .ok ({ h with nodes := h.nodes ++ [⟨.path_exists, .path_exists⟩] }, [])
  | .call p outcome key secret =>
    match h.nodes[p]? with
    | none => .ok (h, [])
    | some node =>
      match node.stage with
      | .over => .ok (h, [])
      | .keyfile =>
        let file := h.files I.keyfile
        let r := node.signing.next I.signing_key key outcome file
        .ok ({ files := Function.update h.files I.keyfile r.2,
               nodes := h.nodes.set p { node with signing := r.1 } },
          (node.signing.created p outcome file).map .keyfile ++ failures p outcome)
      | .sidecar =>
        let file := h.files I.sidecar
        let r := node.encryption.next I.x25519 secret outcome file
        .ok ({ files := Function.update h.files I.sidecar r.2,
               nodes := h.nodes.set p { node with encryption := r.1 } },
          (node.encryption.created p outcome file).map .sidecar ++ failures p outcome)

end Home

/-- The key files that were made, and the sidecars. -/
def keyfiles {K X : Type} (log : List (HomeOutput K X)) : List (Created K) :=
  log.filterMap fun
    | .keyfile c => some c
    | _ => none

def sidecars {K X : Type} (log : List (HomeOutput K X)) : List (Created X) :=
  log.filterMap fun
    | .sidecar c => some c
    | _ => none

/-- No start emptied a file that was there. -/
def NoneReplaced {K X : Type} (log : List (HomeOutput K X)) : Prop :=
  (∀ c ∈ keyfiles log, c.old = none) ∧ ∀ c ∈ sidecars log, c.old = none

section Laws

variable {K X : Type} {I : IdentityFiles K X} {h h' : Home K X} {log : List (HomeOutput K X)}

theorem keyfiles_append (log out : List (HomeOutput K X)) :
    keyfiles (log ++ out) = keyfiles log ++ keyfiles out := List.filterMap_append

theorem sidecars_append (log out : List (HomeOutput K X)) :
    sidecars (log ++ out) = sidecars log ++ sidecars out := List.filterMap_append

theorem keyfiles_failures (p : Nat) (outcome : Outcome) :
    keyfiles (failures p outcome : List (HomeOutput K X)) = [] := by
  cases outcome <;> rfl

theorem sidecars_failures (p : Nat) (outcome : Outcome) :
    sidecars (failures p outcome : List (HomeOutput K X)) = [] := by
  cases outcome <;> rfl

theorem keyfiles_keyfile (cs : List (Created K)) :
    keyfiles (cs.map (HomeOutput.keyfile (X := X))) = cs := by
  unfold keyfiles
  rw [List.filterMap_map]
  exact List.filterMap_some

theorem sidecars_sidecar (cs : List (Created X)) :
    sidecars (cs.map (HomeOutput.sidecar (K := K))) = cs := by
  unfold sidecars
  rw [List.filterMap_map]
  exact List.filterMap_some

theorem sidecars_keyfile (cs : List (Created K)) :
    sidecars (cs.map (HomeOutput.keyfile (X := X))) = [] := by
  unfold sidecars
  rw [List.filterMap_map]
  exact List.filterMap_eq_nil_iff.mpr fun _ _ => rfl

theorem keyfiles_sidecar (cs : List (Created X)) :
    keyfiles (cs.map (HomeOutput.sidecar (K := K))) = [] := by
  unfold keyfiles
  rw [List.filterMap_map]
  exact List.filterMap_eq_nil_iff.mpr fun _ _ => rfl

/-- What one step can do. -/
inductive Home.Step (I : IdentityFiles K X) (h : Home K X) :
    StartOp K X → Home K X → List (HomeOutput K X) → Prop
  | begin : Step I h .begin { h with nodes := h.nodes ++ [⟨.path_exists, .path_exists⟩] } []
  | idle {p outcome key secret} : Step I h (.call p outcome key secret) h []
  | keyfile {p outcome key secret node} (hp : h.nodes[p]? = some node)
      (hstage : node.stage = .keyfile) :
      Step I h (.call p outcome key secret)
        { files := Function.update h.files I.keyfile
            (node.signing.next I.signing_key key outcome (h.files I.keyfile)).2,
          nodes := h.nodes.set p { node with signing :=
            (node.signing.next I.signing_key key outcome (h.files I.keyfile)).1 } }
        ((node.signing.created p outcome (h.files I.keyfile)).map .keyfile ++ failures p outcome)
  | sidecar {p outcome key secret node} (hp : h.nodes[p]? = some node)
      (hstage : node.stage = .sidecar) :
      Step I h (.call p outcome key secret)
        { files := Function.update h.files I.sidecar
            (node.encryption.next I.x25519 secret outcome (h.files I.sidecar)).2,
          nodes := h.nodes.set p { node with encryption :=
            (node.encryption.next I.x25519 secret outcome (h.files I.sidecar)).1 } }
        ((node.encryption.created p outcome (h.files I.sidecar)).map .sidecar ++
          failures p outcome)

theorem Home.step_cases {op : StartOp K X} {out : List (HomeOutput K X)}
    (hstep : h.step I op = .ok (h', out)) : Home.Step I h op h' out := by
  unfold Home.step at hstep
  cases op with
  | begin =>
    cases hstep
    exact .begin
  | call p outcome key secret =>
    dsimp only at hstep
    split at hstep
    case h_1 =>
      cases hstep
      exact .idle
    case h_2 node hp =>
      split at hstep
      case h_1 =>
        cases hstep
        exact .idle
      case h_2 hstage =>
        cases hstep
        exact .keyfile hp hstage
      case h_3 hstage =>
        cases hstep
        exact .sidecar hp hstage

/-! ## The invariant of all runs -/

theorem map_set_same {α β : Type} (f : α → β) {xs : List α} {p : Nat} {a b : α}
    (hp : xs[p]? = some a) (hf : f b = f a) : (xs.set p b).map f = xs.map f := by
  obtain ⟨hlt, rfl⟩ := List.getElem?_eq_some_iff.mp hp
  rw [List.map_set, hf, ← List.getElem_map f (h := by rw [List.length_map]; exact hlt),
    List.set_getElem_self]

theorem signing_set {nodes : List (Node K X)} {p : Nat} {node : Node K X}
    (hp : nodes[p]? = some node) (l : Load X) :
    (nodes.set p { node with encryption := l }).map Node.signing = nodes.map Node.signing :=
  map_set_same Node.signing hp rfl

theorem encryption_set {nodes : List (Node K X)} {p : Nat} {node : Node K X}
    (hp : nodes[p]? = some node) (l : Load K) :
    (nodes.set p { node with signing := l }).map Node.encryption = nodes.map Node.encryption :=
  map_set_same Node.encryption hp rfl

/-- What the starts made, they are done with or have it in hand. -/
structure Home.Kept (I : IdentityFiles K X) (log : List (HomeOutput K X)) (h : Home K X) :
    Prop where
  keyfile : (∀ c ∈ keyfiles log, c.old = none) →
    Agree I.signing_key (h.files I.keyfile) (h.nodes.map Node.signing)
  sidecar : (∀ c ∈ sidecars log, c.old = none) →
    Agree I.x25519 (h.files I.sidecar) (h.nodes.map Node.encryption)
  drew_keyfile : ∀ c ∈ keyfiles log, ∃ l, (h.nodes.map Node.signing)[c.p]? = some l ∧ l.Drew c.key
  drew_sidecar : ∀ c ∈ sidecars log, ∃ l, (h.nodes.map Node.encryption)[c.p]? = some l ∧
    l.Drew c.key

/-- The starts that made a file, after one more call. -/
theorem drew_next {T : Type} {F : SecretFile T} {drawn : T} {outcome : Outcome}
    {file : Option String} {loads : List (Load T)} {p : Nat} {l : Load T} {cs : List (Created T)}
    (hp : loads[p]? = some l) (h : ∀ c ∈ cs, ∃ l, loads[c.p]? = some l ∧ l.Drew c.key) :
    ∀ c ∈ cs ++ l.created p outcome file, ∃ l',
      (loads.set p (l.next F drawn outcome file).1)[c.p]? = some l' ∧ l'.Drew c.key := by
  obtain ⟨hlt, -⟩ := List.getElem?_eq_some_iff.mp hp
  intro c hc
  rcases List.mem_append.mp hc with hc | hc
  · obtain ⟨l₁, hl₁, hdrew⟩ := h c hc
    by_cases hsame : p = c.p
    · subst hsame
      cases hp.symm.trans hl₁
      exact ⟨_, List.getElem?_set_self hlt, hdrew.next⟩
    · exact ⟨l₁, (List.getElem?_set_ne hsame).trans hl₁, hdrew⟩
  · obtain ⟨rfl, hl, hcp, -⟩ := Load.mem_created hc
    rw [hcp]
    refine ⟨_, List.getElem?_set_self hlt, ?_⟩
    rw [hl]
    rfl

theorem drew_begin {T : Type} {loads : List (Load T)} {cs : List (Created T)}
    (h : ∀ c ∈ cs, ∃ l, loads[c.p]? = some l ∧ l.Drew c.key) (l₀ : Load T) :
    ∀ c ∈ cs, ∃ l, (loads ++ [l₀])[c.p]? = some l ∧ l.Drew c.key := by
  intro c hc
  obtain ⟨l, hl, hdrew⟩ := h c hc
  obtain ⟨hlt, -⟩ := List.getElem?_eq_some_iff.mp hl
  exact ⟨l, (List.getElem?_append_left hlt).trans hl, hdrew⟩

theorem Home.Kept.step (hI : I.Lawful) (hkept : h.Kept I log) {op : StartOp K X}
    {out : List (HomeOutput K X)} (hstep : h.step I op = .ok (h', out)) :
    h'.Kept I (log ++ out) := by
  cases Home.step_cases hstep with
  | begin =>
    rw [List.append_nil]
    refine ⟨?_, ?_, ?_, ?_⟩
    · intro hnone
      rw [List.map_append]
      exact (hkept.keyfile hnone).begin
    · intro hnone
      rw [List.map_append]
      exact (hkept.sidecar hnone).begin
    · rw [List.map_append]
      exact drew_begin hkept.drew_keyfile _
    · rw [List.map_append]
      exact drew_begin hkept.drew_sidecar _
  | idle =>
    rw [List.append_nil]
    exact hkept
  | @keyfile p outcome key secret node hp hstage =>
    have hsigning : (h.nodes.map Node.signing)[p]? = some node.signing := by
      rw [List.getElem?_map, hp]
      rfl
    have hlog : keyfiles (log ++ ((node.signing.created p outcome (h.files I.keyfile)).map
        .keyfile ++ failures p outcome)) =
        keyfiles log ++ node.signing.created p outcome (h.files I.keyfile) := by
      rw [keyfiles_append, keyfiles_append, keyfiles_keyfile, keyfiles_failures, List.append_nil]
    have hother : sidecars (log ++ ((node.signing.created p outcome (h.files I.keyfile)).map
        .keyfile ++ failures p outcome)) = sidecars log := by
      rw [sidecars_append, sidecars_append, sidecars_keyfile, sidecars_failures,
        List.append_nil, List.append_nil]
    refine ⟨?_, ?_, ?_, ?_⟩
    · rw [hlog, List.map_set]
      dsimp only
      rw [Function.update_self]
      intro hnone
      have hagree := hkept.keyfile fun c hc => hnone c (List.mem_append_left _ hc)
      exact hagree.next hI.signing_key hsigning fun c hc => hnone c (List.mem_append_right _ hc)
    · rw [hother]
      dsimp only
      rw [Function.update_of_ne hI.two_files.symm, encryption_set hp]
      exact hkept.sidecar
    · rw [hlog, List.map_set]
      exact drew_next hsigning hkept.drew_keyfile
    · rw [hother]
      dsimp only
      rw [encryption_set hp]
      exact hkept.drew_sidecar
  | @sidecar p outcome key secret node hp hstage =>
    have hencryption : (h.nodes.map Node.encryption)[p]? = some node.encryption := by
      rw [List.getElem?_map, hp]
      rfl
    have hlog : sidecars (log ++ ((node.encryption.created p outcome (h.files I.sidecar)).map
        .sidecar ++ failures p outcome)) =
        sidecars log ++ node.encryption.created p outcome (h.files I.sidecar) := by
      rw [sidecars_append, sidecars_append, sidecars_sidecar, sidecars_failures, List.append_nil]
    have hother : keyfiles (log ++ ((node.encryption.created p outcome (h.files I.sidecar)).map
        .sidecar ++ failures p outcome)) = keyfiles log := by
      rw [keyfiles_append, keyfiles_append, keyfiles_sidecar, keyfiles_failures,
        List.append_nil, List.append_nil]
    refine ⟨?_, ?_, ?_, ?_⟩
    · rw [hother]
      dsimp only
      rw [Function.update_of_ne hI.two_files, signing_set hp]
      exact hkept.keyfile
    · rw [hlog, List.map_set]
      dsimp only
      rw [Function.update_self]
      intro hnone
      have hagree := hkept.sidecar fun c hc => hnone c (List.mem_append_left _ hc)
      exact hagree.next hI.x25519 hencryption fun c hc => hnone c (List.mem_append_right _ hc)
    · rw [hother]
      dsimp only
      rw [signing_set hp]
      exact hkept.drew_keyfile
    · rw [hlog, List.map_set]
      exact drew_next hencryption hkept.drew_sidecar

/-! ## Starts in turn -/

def Load.looks {T : Type} : Load T → Bool
  | .path_exists => true
  | _ => false

/-- The next call is `exists`. -/
def Node.looks (node : Node K X) : Bool :=
  match node.stage with
  | .keyfile => node.signing.looks
  | .sidecar => node.encryption.looks
  | .over => false

def Outcome.works : Outcome → Bool
  | .ok => true
  | .error _ _ => false

/-- A call by one of the starts from `n` on, which does not fail to look for a file. -/
def Home.From (n : Nat) (h : Home K X) : StartOp K X → Prop
  | .begin => True
  | .call p outcome _ _ =>
    n ≤ p ∧ (h.nodes[p]?.all fun node => outcome.works || !node.looks) = true

instance (n : Nat) (h : Home K X) : (op : StartOp K X) → Decidable (h.From n op)
  | .begin => .isTrue trivial
  | .call _ _ _ _ => inferInstanceAs (Decidable (_ ∧ _))

/-- Only the youngest start makes calls: those before it are over, or dead. -/
def Home.InTurn (h : Home K X) (op : StartOp K X) : Prop := h.From (h.nodes.length - 1) op

instance (h : Home K X) (op : StartOp K X) : Decidable (h.InTurn op) :=
  inferInstanceAs (Decidable (h.From _ op))

theorem Home.From.works {n p : Nat} {outcome : Outcome} {key : K} {secret : X} {node : Node K X}
    (hfrom : h.From n (.call p outcome key secret)) (hp : h.nodes[p]? = some node) :
    (node.stage = .keyfile → outcome ≠ .ok → node.signing ≠ .path_exists) ∧
      (node.stage = .sidecar → outcome ≠ .ok → node.encryption ≠ .path_exists) := by
  have hwell := hfrom.2
  rw [hp] at hwell
  cases outcome with
  | ok => exact ⟨fun _ hne => absurd rfl hne, fun _ hne => absurd rfl hne⟩
  | error e n =>
    have hlooks : node.looks = false := by simpa [Outcome.works] using hwell
    unfold Node.looks at hlooks
    refine ⟨?_, ?_⟩
    · intro hstage _ hsigning
      rw [hstage, hsigning] at hlooks
      cases hlooks
    · intro hstage _ hencryption
      rw [hstage, hencryption] at hlooks
      cases hlooks

/-- Nothing was replaced, and the youngest start saw what is there. -/
structure Home.Fresh (I : IdentityFiles K X) (log : List (HomeOutput K X)) (h : Home K X) :
    Prop where
  none_replaced : NoneReplaced log
  signing : ∀ node, h.nodes.getLast? = some node → node.signing.Looked (h.files I.keyfile)
  encryption : ∀ node, h.nodes.getLast? = some node → node.encryption.Looked (h.files I.sidecar)

theorem getLast?_set_last {α : Type} {xs : List α} {p : Nat} {a b : α} (hp : xs[p]? = some a)
    (hlast : xs.length - 1 ≤ p) : xs.getLast? = some a ∧ (xs.set p b).getLast? = some b := by
  obtain ⟨hlt, -⟩ := List.getElem?_eq_some_iff.mp hp
  have hsame : p = xs.length - 1 := by omega
  rw [List.getLast?_eq_getElem?, List.getLast?_eq_getElem?, List.length_set, ← hsame]
  exact ⟨hp, List.getElem?_set_self hlt⟩

theorem Home.Fresh.step (hI : I.Lawful) (hfresh : h.Fresh I log) {op : StartOp K X}
    (hturn : h.InTurn op) {out : List (HomeOutput K X)} (hstep : h.step I op = .ok (h', out)) :
    h'.Fresh I (log ++ out) := by
  cases Home.step_cases hstep with
  | begin =>
    rw [List.append_nil]
    refine ⟨hfresh.none_replaced, ?_, ?_⟩
    · intro node hnode
      rw [List.getLast?_concat] at hnode
      cases hnode
      nofun
    · intro node hnode
      rw [List.getLast?_concat] at hnode
      cases hnode
      nofun
  | idle =>
    rw [List.append_nil]
    exact hfresh
  | @keyfile p outcome key secret node hp hstage =>
    obtain ⟨hlast, hset⟩ := getLast?_set_last (b := { node with signing :=
      (node.signing.next I.signing_key key outcome (h.files I.keyfile)).1 }) hp hturn.1
    have hnext := (hfresh.signing node hlast).next I.signing_key key
      ((hturn.works hp).1 hstage)
    refine ⟨⟨?_, ?_⟩, ?_, ?_⟩
    · rw [keyfiles_append, keyfiles_append, keyfiles_keyfile, keyfiles_failures, List.append_nil]
      intro c hc
      rcases List.mem_append.mp hc with hc | hc
      · exact hfresh.none_replaced.1 c hc
      · exact hnext.2 p c hc
    · rw [sidecars_append, sidecars_append, sidecars_keyfile, sidecars_failures,
        List.append_nil, List.append_nil]
      exact hfresh.none_replaced.2
    · intro node' hnode'
      cases hset.symm.trans hnode'
      dsimp only
      rw [Function.update_self]
      exact hnext.1
    · intro node' hnode'
      cases hset.symm.trans hnode'
      dsimp only
      rw [Function.update_of_ne hI.two_files.symm]
      exact hfresh.encryption node hlast
  | @sidecar p outcome key secret node hp hstage =>
    obtain ⟨hlast, hset⟩ := getLast?_set_last (b := { node with encryption :=
      (node.encryption.next I.x25519 secret outcome (h.files I.sidecar)).1 }) hp hturn.1
    have hnext := (hfresh.encryption node hlast).next I.x25519 secret
      ((hturn.works hp).2 hstage)
    refine ⟨⟨?_, ?_⟩, ?_, ?_⟩
    · rw [keyfiles_append, keyfiles_append, keyfiles_sidecar, keyfiles_failures,
        List.append_nil, List.append_nil]
      exact hfresh.none_replaced.1
    · rw [sidecars_append, sidecars_append, sidecars_sidecar, sidecars_failures, List.append_nil]
      intro c hc
      rcases List.mem_append.mp hc with hc | hc
      · exact hfresh.none_replaced.2 c hc
      · exact hnext.2 p c hc
    · intro node' hnode'
      cases hset.symm.trans hnode'
      dsimp only
      rw [Function.update_of_ne hI.two_files]
      exact hfresh.signing node hlast
    · intro node' hnode'
      cases hset.symm.trans hnode'
      dsimp only
      rw [Function.update_self]
      exact hnext.1

/-- The identity in the files. -/
def Home.kept_identity (I : IdentityFiles K X) (h : Home K X) : Option (K × X) :=
  (h.files I.keyfile).bind fun text => (I.signing_key.from_text text).toOption.bind fun key =>
    (h.files I.sidecar).bind fun text' => (I.x25519.from_text text').toOption.map fun secret =>
      (key, secret)

/-- A directory before any start. -/
def Home.fresh (files : String → Option String) : Home K X := { files, nodes := [] }

theorem Home.Kept.fresh (files : String → Option String) :
    (Home.fresh files : Home K X).Kept I [] := by
  refine ⟨fun _ => ⟨nofun, nofun, nofun⟩, fun _ => ⟨nofun, nofun, nofun⟩, nofun, nofun⟩

theorem Node.built_eq {node : Node K X} {key : K} {secret : X}
    (hbuilt : node.built = some (key, secret)) :
    node.signing = .done (.ok key) ∧ node.encryption = .done (.ok secret) := by
  unfold Node.built at hbuilt
  split at hbuilt
  case h_1 hsigning hencryption =>
    cases hbuilt
    exact ⟨hsigning, hencryption⟩
  case h_2 => cases hbuilt

/-- An agent that is started again and again has one identity, that of its files, in any
order of the calls of its starts, and however many of them die, as long as no start empties a
file that another made; and none does when only the youngest start makes calls and `exists`
does not fail. Two starts that both made a file, and were built, have different identities if
what they drew is different. -/
theorem restarts_keep_the_identity (hI : I.Lawful) {files : String → Option String}
    {ops : List (StartOp K X)} (hrun : run (Home.step I) (Home.fresh files) ops = .ok (h, log)) :
    (NoneReplaced log → ∀ node ∈ h.nodes, ∀ identity, node.built = some identity →
      h.kept_identity I = some identity) ∧
    (Meets (Home.step I) (fun _ h op => h.InTurn op) (Home.fresh files) ops →
      NoneReplaced log) ∧
    (∀ c ∈ keyfiles log, ∀ node, h.nodes[c.p]? = some node → ∀ key secret,
      node.built = some (key, secret) → key = c.key) ∧
    ∀ c ∈ sidecars log, ∀ node, h.nodes[c.p]? = some node → ∀ key secret,
      node.built = some (key, secret) → secret = c.key := by
  have hkept : h.Kept I log := run_invariant (I := fun log h => h.Kept I log) (.fresh files)
    (fun _ _ _ _ _ hkept hstep => hkept.step hI hstep) hrun
  refine ⟨?_, ?_, ?_, ?_⟩
  · rintro hnone node hmem ⟨key, secret⟩ hbuilt
    obtain ⟨hsigning, hencryption⟩ := Node.built_eq hbuilt
    obtain ⟨text, htext, hkey⟩ := (hkept.keyfile hnone.1).holds key
      (hsigning ▸ List.mem_map_of_mem hmem)
    obtain ⟨text', htext', hsecret⟩ := (hkept.sidecar hnone.2).holds secret
      (hencryption ▸ List.mem_map_of_mem hmem)
    unfold Home.kept_identity
    rw [htext, Option.bind_some, hkey, htext']
    simp only [Except.toOption, Option.bind_some, hsecret, Option.map_some]
  · intro hturns
    have hfresh : h.Fresh I log :=
      run_invariant_of_meets (I := fun log h => h.Fresh I log)
        ⟨⟨nofun, nofun⟩, nofun, nofun⟩
        (fun _ _ _ _ _ hfresh hturn hstep => hfresh.step hI hturn hstep) hturns hrun
    exact hfresh.none_replaced
  · intro c hc node hnode key secret hbuilt
    obtain ⟨l, hl, hdrew⟩ := hkept.drew_keyfile c hc
    rw [List.getElem?_map, hnode] at hl
    cases hl
    rw [(Node.built_eq hbuilt).1] at hdrew
    exact hdrew
  · intro c hc node hnode key secret hbuilt
    obtain ⟨l, hl, hdrew⟩ := hkept.drew_sidecar c hc
    rw [List.getElem?_map, hnode] at hl
    cases hl
    rw [(Node.built_eq hbuilt).2] at hdrew
    exact hdrew

end Laws

namespace Sample

def byte_ecdsa : Ecdsa where
  SigningKey := StaticSecret
  VerifyingKey := StaticSecret
  Signature := Bytes
  verifying_key := id
  from_sec1_bytes _ := none
  to_der := id
  from_der := some
  sign _ message := message
  verify _ message signature := message == signature

def byte_keys : KeyBytes byte_ecdsa where
  to_bytes key := key.1
  from_bytes bytes := if h : bytes.length = 32 then .ok ⟨bytes, h⟩ else .error "signature error"

theorem byte_keys_documented : byte_keys.Documented where
  length key := key.2
  round_trip key := dif_pos key.2

def agent : IdentityFiles StaticSecret StaticSecret :=
  identity_files byte_keys (fun _ => "Odd number of digits") "lmao/" "agent.key".toList

def secret (n : UInt8) : StaticSecret := ⟨List.replicate 32 n, List.length_replicate⟩

def calls (p : Nat) (n : UInt8) (count : Nat) : List (StartOp StaticSecret StaticSecret) :=
  List.replicate count (.call p .ok (secret n) (secret (n + 1)))

/-- A start that dies before it makes a file, one that makes both, and one that
reads them. -/
def three_starts : List (StartOp StaticSecret StaticSecret) :=
  .begin :: calls 0 5 1 ++ .begin :: calls 1 7 8 ++ .begin :: calls 2 9 4

end Sample

theorem restarts_keep_the_identity_three_starts :
    ∃ h log, run (Home.step Sample.agent) (Home.fresh fun _ => none) Sample.three_starts =
        .ok (h, log) ∧
      h.kept_identity Sample.agent = some (Sample.secret 7, Sample.secret 8) := by
  obtain ⟨⟨h, log⟩, hrun⟩ :=
    ends_ok (run (Home.step Sample.agent) (Home.fresh fun _ => none) Sample.three_starts)
  have hturns : Meets (Home.step Sample.agent) (fun _ h op => h.InTurn op)
      (Home.fresh fun _ => none) Sample.three_starts := by decide +kernel
  have hbuilt : (run (Home.step Sample.agent) (Home.fresh fun _ => none)
      Sample.three_starts).toOption.bind (fun r => r.1.nodes[1]?.bind Node.built) =
      some (Sample.secret 7, Sample.secret 8) := by decide +kernel
  rw [hrun] at hbuilt
  change h.nodes[1]?.bind Node.built = _ at hbuilt
  obtain ⟨node, hnode, hidentity⟩ := Option.bind_eq_some_iff.mp hbuilt
  have hlaw := restarts_keep_the_identity
    (identity_files_lawful Sample.byte_keys_documented _ _ _) hrun
  exact ⟨h, log, hrun,
    hlaw.1 (hlaw.2.1 hturns) node (List.mem_of_getElem? hnode) _ hidentity⟩

section Laws

variable {K X : Type} {I : IdentityFiles K X} {h h' : Home K X} {log : List (HomeOutput K X)}

/-! ## Later starts -/

/-- The starts from `n` on, in a file that holds `text`. -/
structure Decided {T : Type} (F : SecretFile T) (text : String) (n : Nat) (failed : Nat → Prop)
    (file : Option String) (loads : List (Load T)) : Prop where
  file : file = some text
  loads : ∀ p l, n ≤ p → loads[p]? = some l → l.Decided F text (failed p)

section Later

variable {T : Type} {F : SecretFile T} {text : String} {n : Nat} {failed failed' : Nat → Prop}
variable {file : Option String} {loads : List (Load T)} {p : Nat} {l : Load T}

theorem Decided.mono (hd : Decided F text n failed file loads)
    (hfailed : ∀ p, failed p → failed' p) : Decided F text n failed' file loads :=
  ⟨hd.file, fun p l hn hp => (hd.loads p l hn hp).mono (hfailed p)⟩

theorem Decided.begin (hd : Decided F text n failed file loads) :
    Decided F text n failed file (loads ++ [.path_exists]) := by
  refine ⟨hd.file, ?_⟩
  intro p l hn hp
  rw [List.getElem?_append] at hp
  split at hp
  case isTrue => exact hd.loads p l hn hp
  case isFalse =>
    cases List.mem_singleton.mp (List.mem_of_getElem? hp)
    trivial

theorem Decided.next (hd : Decided F text n failed file loads) (hn : n ≤ p)
    (hp : loads[p]? = some l) {drawn : T} {outcome : Outcome}
    (hwell : outcome ≠ .ok → l ≠ .path_exists) (hfailed : ∀ p, failed p → failed' p)
    (hown : outcome ≠ .ok → failed' p) :
    Decided F text n failed' (l.next F drawn outcome file).2
      (loads.set p (l.next F drawn outcome file).1) := by
  have hfile := hd.file
  subst hfile
  have hnext : (l.next F drawn outcome (some text)).1.Decided F text (failed p ∨ outcome ≠ .ok) ∧
      (l.next F drawn outcome (some text)).2 = some text := (hd.loads p l hn hp).next hwell
  refine ⟨hnext.2, ?_⟩
  intro q l' hq hl'
  rw [List.getElem?_set] at hl'
  split at hl'
  case isTrue hsame =>
    subst hsame
    split at hl'
    case isTrue =>
      cases hl'
      exact hnext.1.mono fun h => h.elim (hfailed p) hown
    case isFalse => cases hl'
  case isFalse => exact (hd.loads q l' hq hl').mono (hfailed q)

end Later

/-- What both files say about the starts from `n` on. -/
structure Home.Later (I : IdentityFiles K X) (files : String → Option String) (n : Nat)
    (log : List (HomeOutput K X)) (h : Home K X) : Prop where
  keyfile : ∀ text, files I.keyfile = some text → Decided I.signing_key text n
    (fun p => .failed p ∈ log) (h.files I.keyfile) (h.nodes.map Node.signing)
  sidecar : ∀ text, files I.sidecar = some text → Decided I.x25519 text n
    (fun p => .failed p ∈ log) (h.files I.sidecar) (h.nodes.map Node.encryption)

theorem Home.Later.step (htwo : I.keyfile ≠ I.sidecar) {files : String → Option String} {n : Nat}
    (hlater : h.Later I files n log) {op : StartOp K X} (hfrom : h.From n op)
    {out : List (HomeOutput K X)} (hstep : h.step I op = .ok (h', out)) :
    h'.Later I files n (log ++ out) := by
  have hold : ∀ p, HomeOutput.failed p ∈ log → HomeOutput.failed p ∈ log ++ out :=
    fun p hp => List.mem_append_left _ hp
  cases Home.step_cases hstep with
  | begin =>
    refine ⟨?_, ?_⟩
    · intro text htext
      rw [List.map_append]
      exact ((hlater.keyfile text htext).mono hold).begin
    · intro text htext
      rw [List.map_append]
      exact ((hlater.sidecar text htext).mono hold).begin
  | idle =>
    exact ⟨fun text htext => (hlater.keyfile text htext).mono hold,
      fun text htext => (hlater.sidecar text htext).mono hold⟩
  | @keyfile p outcome key secret node hp hstage =>
    refine ⟨?_, ?_⟩
    · intro text htext
      dsimp only
      rw [Function.update_self, List.map_set]
      refine (hlater.keyfile text htext).next hfrom.1 ?_ ((hfrom.works hp).1 hstage) hold ?_
      · rw [List.getElem?_map, hp]
        rfl
      · intro hne
        apply List.mem_append_right
        apply List.mem_append_right
        cases outcome with
        | ok => exact absurd rfl hne
        | error e n => exact List.mem_singleton_self _
    · intro text htext
      dsimp only
      rw [Function.update_of_ne htwo.symm, encryption_set hp]
      exact (hlater.sidecar text htext).mono hold
  | @sidecar p outcome key secret node hp hstage =>
    refine ⟨?_, ?_⟩
    · intro text htext
      dsimp only
      rw [Function.update_of_ne htwo, signing_set hp]
      exact (hlater.keyfile text htext).mono hold
    · intro text htext
      dsimp only
      rw [Function.update_self, List.map_set]
      refine (hlater.sidecar text htext).next hfrom.1 ?_ ((hfrom.works hp).2 hstage) hold ?_
      · rw [List.getElem?_map, hp]
        rfl
      · intro hne
        apply List.mem_append_right
        apply List.mem_append_right
        cases outcome with
        | ok => exact absurd rfl hne
        | error e n => exact List.mem_singleton_self _

/-- What the files of a computer hold decides every later start, if the starts before it make
no more calls and `exists` does not fail for a later one: the files stay, and a start ends
with what its file says, or with an error of a call. A file that a start left empty, or cut
short, locks the agent out. -/
theorem the_files_decide_every_later_start (hI : I.Lawful) {h₀ : Home K X}
    {ops : List (StartOp K X)}
    (hfrom : Meets (Home.step I) (fun _ h op => h.From h₀.nodes.length op) h₀ ops)
    (hrun : run (Home.step I) h₀ ops = .ok (h, log)) :
    (∀ text, h₀.files I.keyfile = some text → h.files I.keyfile = some text ∧
      ∀ p node result, h₀.nodes.length ≤ p → h.nodes[p]? = some node →
        node.signing = .done result →
        result = I.signing_key.from_text text ∨
          HomeOutput.failed p ∈ log ∧ ∃ e, result = .error e) ∧
    (∀ text, h₀.files I.sidecar = some text → h.files I.sidecar = some text ∧
      ∀ p node result, h₀.nodes.length ≤ p → h.nodes[p]? = some node →
        node.encryption = .done result →
        result = I.x25519.from_text text ∨
          HomeOutput.failed p ∈ log ∧ ∃ e, result = .error e) ∧
    (∀ key n, n < (I.signing_key.to_text key).toList.length →
      h₀.files I.keyfile = some (String.ofList ((I.signing_key.to_text key).toList.take n)) →
      ∀ p node, h₀.nodes.length ≤ p → h.nodes[p]? = some node → node.built = none) := by
  have hlater : h.Later I h₀.files h₀.nodes.length log := by
    refine run_invariant_of_meets (I := fun log h => h.Later I h₀.files h₀.nodes.length log)
      ⟨?_, ?_⟩ (fun _ _ _ _ _ hlater hfrom hstep => hlater.step hI.two_files hfrom hstep) hfrom hrun
    · intro text htext
      refine ⟨htext, ?_⟩
      intro p l hp hl
      rw [List.getElem?_eq_none (by rw [List.length_map]; exact hp)] at hl
      cases hl
    · intro text htext
      refine ⟨htext, ?_⟩
      intro p l hp hl
      rw [List.getElem?_eq_none (by rw [List.length_map]; exact hp)] at hl
      cases hl
  have hkey : ∀ text, h₀.files I.keyfile = some text → ∀ p node result,
      h₀.nodes.length ≤ p → h.nodes[p]? = some node → node.signing = .done result →
      result = I.signing_key.from_text text ∨
        HomeOutput.failed p ∈ log ∧ ∃ e, result = .error e := by
    intro text htext p node result hp hnode hresult
    have hdecided := (hlater.keyfile text htext).loads p node.signing hp (by
      rw [List.getElem?_map, hnode]
      rfl)
    rw [hresult] at hdecided
    exact hdecided
  refine ⟨?_, ?_, ?_⟩
  · exact fun text htext => ⟨(hlater.keyfile text htext).file, hkey text htext⟩
  · intro text htext
    refine ⟨(hlater.sidecar text htext).file, ?_⟩
    intro p node result hp hnode hresult
    have hdecided := (hlater.sidecar text htext).loads p node.encryption hp (by
      rw [List.getElem?_map, hnode]
      rfl)
    rw [hresult] at hdecided
    exact hdecided
  · intro key n hn htext p node hp hnode
    cases hbuilt : node.built with
    | none => rfl
    | some identity =>
      have hsigning := (Node.built_eq hbuilt).1
      rcases hkey _ htext p node _ hp hnode hsigning with hok | ⟨-, e, he⟩
      · exact absurd hok.symm (hI.signing_key.cut_short key n hn _)
      · cases he

end Laws

namespace Sample

/-- A start died when it had made the key file. -/
def locked : Home StaticSecret StaticSecret :=
  { files := Function.update (fun _ => none) agent.keyfile (some ""),
    nodes := [⟨.write (secret 5), .path_exists⟩] }

end Sample

/-- The next start ends with the error for the empty file. -/
theorem the_files_decide_every_later_start_locked :
    ∃ h log, run (Home.step Sample.agent) Sample.locked (.begin :: Sample.calls 1 7 2) =
        .ok (h, log) ∧
      ∀ p node, 1 ≤ p → h.nodes[p]? = some node → node.built = none := by
  obtain ⟨⟨h, log⟩, hrun⟩ :=
    ends_ok (run (Home.step Sample.agent) Sample.locked (.begin :: Sample.calls 1 7 2))
  have hfrom : Meets (Home.step Sample.agent)
      (fun _ h op => h.From Sample.locked.nodes.length op) Sample.locked
      (.begin :: Sample.calls 1 7 2) := by decide +kernel
  have hlawful := identity_files_lawful Sample.byte_keys_documented
    (fun _ => "Odd number of digits") "lmao/" "agent.key".toList
  have hempty : Sample.locked.files Sample.agent.keyfile = some (String.ofList
      ((Sample.agent.signing_key.to_text (Sample.secret 5)).toList.take 0)) := by
    unfold Sample.locked
    dsimp only
    rw [Function.update_self]
    rfl
  exact ⟨h, log, hrun, (the_files_decide_every_later_start hlawful hfrom hrun).2.2
    (Sample.secret 5) 0 (hlawful.signing_key.not_empty _) hempty⟩

end lmao.cli.identity
