-- The two ways to change a trust list (cli crate): `lmao trust` edits the file
-- (trust.rs), and a running daemon takes requests and writes the file after
-- each change (daemon/server.rs).
import Lmao.Trust

namespace lmao.cli

open node

/-- The actions of `lmao trust` that change the list. -/
inductive TrustAction
  | Add (pubkey nickname : String) (capabilities : List String)
      (notes encryption_pubkey : Option String)
  | Remove (target : String)
  | Mode (new_mode : Option String)
deriving DecidableEq, Repr

/-- The ASCII letters in lower case. -/
def to_ascii_lowercase (s : String) : String := s.map Char.toLower

/-! ## The file -/

namespace trust

def loading (path : String) : String := "loading trust file " ++ path

def saving (path : String) : String := "saving trust file " ++ path

/-- The end of each action: the list goes to the file. -/
def save (T : Toml) (list : TrustList) (files : Files) (path : String) :
    Files × Except String Unit :=
  let r := list.save_to T files path
  (r.1, r.2.mapError fun _ => saving path)

def add (T : Toml) (files : Files) (path pubkey nickname : String) (capabilities : List String)
    (notes encryption_pubkey : Option String) (clock : Nat → SystemTime) (now : SystemTime) :
    Files × Except String Unit :=
  match TrustList.load_from T files path clock with
  | .error _ => (files, .error (loading path))
  | .ok list =>
    let list := if list.mode = .Off ∧ list.is_empty then list.set_mode .Enforce else list
    let list := list.add
      { pubkey, nickname, capabilities, notes, encryption_pubkey, added_at := now }
    save T list files path

def remove (T : Toml) (files : Files) (path target : String) (clock : Nat → SystemTime) :
    Files × Except String Unit :=
  match TrustList.load_from T files path clock with
  | .error _ => (files, .error (loading path))
  | .ok list =>
    let r := match list.remove target with
      | (list, some dropped) => (list, some dropped)
      | (list, none) => list.remove_by_nickname target
    match r with
    | (_, none) => (files, .error ("no entry matched " ++ target))
    | (list, some _) => save T list files path

def mode (T : Toml) (files : Files) (path : String) (new_mode : Option String)
    (clock : Nat → SystemTime) : Files × Except String Unit :=
  match TrustList.load_from T files path clock with
  | .error _ => (files, .error (loading path))
  | .ok list =>
    match new_mode with
    | none => (files, .ok ())
    | some new =>
      match to_ascii_lowercase new with
      | "off" => save T (list.set_mode .Off) files path
      | "enforce" => save T (list.set_mode .Enforce) files path
      | "log" => save T (list.set_mode .Log) files path
      | other => (files, .error ("unknown mode: " ++ other ++ " (expected off|enforce|log)"))

/-- One action by the file. `clock` gives the times that the load reads, and
`now` is the time of a new entry. -/
def handle (T : Toml) (files : Files) (path : String) (clock : Nat → SystemTime)
    (now : SystemTime) : TrustAction → Files × Except String Unit
  | .Add pubkey nickname capabilities notes encryption_pubkey =>
    add T files path pubkey nickname capabilities notes encryption_pubkey clock now
  | .Remove target => remove T files path target clock
  | .Mode new_mode => mode T files path new_mode clock

end trust

/-! ## The daemon -/

inductive Request
  | TrustAdd (pubkey nickname : String) (capabilities : List String)
      (notes encryption_pubkey : Option String)
  | TrustRemove (target : String)
  | TrustMode (mode : Option String)
deriving DecidableEq, Repr

inductive Response
  | TrustAdd (pubkey nickname : String) (persisted : Bool)
  | TrustRemove (pubkey nickname : String) (persisted : Bool)
  | TrustMode (previous current : String) (persisted : Bool)
  | Error (message : String)
deriving DecidableEq, Repr

/-- The request that `lmao trust` sends for an action when a daemon runs. -/
def TrustAction.request : TrustAction → Request
  | .Add pubkey nickname capabilities notes encryption_pubkey =>
    .TrustAdd pubkey nickname capabilities notes encryption_pubkey
  | .Remove target => .TrustRemove target
  | .Mode new_mode => .TrustMode new_mode

def mode_to_str : TrustMode → String
  | .Off => "off"
  | .Enforce => "enforce"
  | .Log => "log"

def parse_trust_mode (s : String) : Except String TrustMode :=
  match to_ascii_lowercase s with
  | "off" => .ok .Off
  | "enforce" => .ok .Enforce
  | "log" => .ok .Log
  | other => .error ("unknown trust mode: " ++ other ++ " (expected off|enforce|log)")

/-- Remove a peer by pubkey first, then by nickname. -/
def trust_remove (list : TrustList) (target : String) : TrustList × Option TrustEntry :=
  match list.remove target with
  | (list, some dropped) => (list, some dropped)
  | (list, none) => list.remove_by_nickname target

/-- The list of the node, the path of its file, and the disk. -/
structure DaemonServer where
  trust_list : TrustList
  trust_file : Option String
  files : Files

namespace DaemonServer

/-- Write the list to the file, if one is configured. The answer says whether
it was written. -/
def persist_trust (T : Toml) (s : DaemonServer) : DaemonServer × Bool :=
  match s.trust_file with
  | none => (s, false)
  | some path =>
    match s.trust_list.save_to T s.files path with
    | (_, .error _) => (s, false)
    | (files, .ok ()) => ({ s with files }, true)

def dispatch (T : Toml) (s : DaemonServer) (now : SystemTime) : Request → DaemonServer × Response
  | .TrustAdd pubkey nickname capabilities notes encryption_pubkey =>
    let current_mode := s.trust_list.mode
    let before_count := s.trust_list.iter.length
    let list :=
      if current_mode = .Off ∧ before_count = 0 then s.trust_list.set_mode .Enforce
      else s.trust_list
    let list := list.add
      { pubkey, nickname, capabilities, notes, encryption_pubkey, added_at := now }
    let (s, persisted) := persist_trust T { s with trust_list := list }
    (s, .TrustAdd pubkey nickname persisted)
  | .TrustRemove target =>
    match trust_remove s.trust_list target with
    | (list, none) => ({ s with trust_list := list }, .Error ("no entry matched " ++ target))
    | (list, some dropped) =>
      let (s, persisted) := persist_trust T { s with trust_list := list }
      (s, .TrustRemove dropped.pubkey dropped.nickname persisted)
  | .TrustMode mode =>
    let previous := s.trust_list.mode
    match mode.elim (.ok previous) parse_trust_mode with
    | .error e => (s, .Error e)
    | .ok next =>
      let (s, persisted) :=
        if next ≠ previous then persist_trust T { s with trust_list := s.trust_list.set_mode next }
        else (s, false)
      (s, .TrustMode (mode_to_str previous) (mode_to_str next) persisted)

end DaemonServer

end lmao.cli
