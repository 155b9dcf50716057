import InferenceSim.Kv.BlockHash
import Std.Data.ExtTreeMap

/-! The router's memory of which prompt blocks went to which instance. For each
instance it keeps the most recently recorded hashes, up to a capacity. -/
namespace InferenceSim

/-- The hashes recorded for one instance: the stamp of each, and the hash of each
stamp in order of age. -/
structure RecordedBlocks where
  lastUsed : Std.ExtTreeMap BlockHash Nat := ∅
  byAge : Std.ExtTreeMap Nat BlockHash := ∅

namespace RecordedBlocks

/-- Records a hash under a new stamp. -/
def touch (b : RecordedBlocks) (h : BlockHash) (stamp : Nat) : RecordedBlocks :=
  let byAge := match b.lastUsed[h]? with
    | some old => b.byAge.erase old
    | none => b.byAge
  { lastUsed := b.lastUsed.insert h stamp, byAge := byAge.insert stamp h }

/-- Forgets the oldest hash. -/
def dropOldest (b : RecordedBlocks) : RecordedBlocks :=
  match b.byAge.minEntry? with
  | some (stamp, h) => { lastUsed := b.lastUsed.erase h, byAge := b.byAge.erase stamp }
  | none => b

def trim (b : RecordedBlocks) (capacity : Nat) : RecordedBlocks :=
  Nat.repeat dropOldest (b.lastUsed.size - capacity) b

end RecordedBlocks

/-- What the router remembers; `stamp` counts the recordings. -/
structure PrefixIndex where
  blockSize : Nat
  capacity : Nat
  instances : Std.ExtTreeMap Nat RecordedBlocks := ∅
  stamp : Nat := 0

namespace PrefixIndex

def defaultCapacity : Nat := 10000

/-- An empty index. At least one hash per instance is remembered. -/
def new (blockSize capacity : Nat) : PrefixIndex :=
  { blockSize, capacity := max capacity 1 }

def hashes (index : PrefixIndex) (request : RequestView) : List BlockHash :=
  promptBlockHashes request.id request.shared request.inputTokens index.blockSize

/-- How many leading hashes are recorded for an instance. -/
def matchLength (index : PrefixIndex) (hs : List BlockHash) (host : Nat) : Nat :=
  match index.instances[host]? with
  | some blocks => (hs.takeWhile fun h => blocks.lastUsed.contains h).length
  | none => 0

/-- Records that the hashes now live on an instance. -/
def record (index : PrefixIndex) (hs : List BlockHash) (host : Nat) : PrefixIndex :=
  let blocks := (index.instances[host]?).getD {}
  let (blocks, stamp) := hs.foldl
    (fun (blocks, stamp) h => (blocks.touch h (stamp + 1), stamp + 1)) (blocks, index.stamp)
  { index with
    stamp
    instances := index.instances.insert host (blocks.trim index.capacity) }

/-- How many hashes are recorded for an instance. -/
def sizeFor (index : PrefixIndex) (host : Nat) : Nat :=
  match index.instances[host]? with
  | some blocks => blocks.lastUsed.size
  | none => 0

end PrefixIndex

end InferenceSim
