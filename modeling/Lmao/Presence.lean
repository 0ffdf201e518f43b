-- The live peers of a node (presence.rs of the core and of the node crate).
import Mathlib.Data.List.AList
import Lmao.Bytes

namespace lmao.node

inductive LoadBucket
  | Free
  | Busy
  | Full
deriving DecidableEq, Repr

structure LoadStatus where
  bucket : LoadBucket
  queue_depth : UInt32
  max_concurrent : UInt32
  avg_latency_ms : UInt32
deriving DecidableEq, Repr

structure PeerInfo where
  name : String
  capabilities : List String
  waku_topic : String
  ttl_secs : UInt64
  last_seen : UInt64
  load : Option LoadStatus
deriving DecidableEq, Repr

/-- `now_secs.saturating_sub(last_seen)` is a subtraction of naturals. -/
def PeerInfo.is_expired_at (info : PeerInfo) (now_secs : UInt64) : Bool :=
  info.ttl_secs == 0 || decide (now_secs.toNat - info.last_seen.toNat > info.ttl_secs.toNat)

/-- The map, keyed by `agent_id`. The order of its entries stands for the order
in which the hash map walks them. -/
structure PeerMap where
  peers : AList fun _ : String => PeerInfo

namespace PeerMap

def new : PeerMap := { peers := ∅ }

def toList (map : PeerMap) : List (String × PeerInfo) :=
  map.peers.entries.map fun e => (e.1, e.2)

/-- All the peers that are not expired. -/
def all_live (map : PeerMap) (now_secs : UInt64) : List (String × PeerInfo) :=
  map.toList.filter fun p => !p.2.is_expired_at now_secs

/-- All the live peers that advertise the capability. -/
def find_by_capability (map : PeerMap) (now_secs : UInt64) (capability : String) :
    List (String × PeerInfo) :=
  map.toList.filter fun p => !p.2.is_expired_at now_secs && p.2.capabilities.contains capability

end PeerMap

end lmao.node
