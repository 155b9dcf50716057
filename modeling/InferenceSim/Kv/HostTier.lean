import InferenceSim.Kv.BlockHash
import InferenceSim.Violation
import Std.Data.ExtTreeMap

/-! The slower tier behind the device cache. It holds the hashes of evicted blocks,
up to a capacity, and forgets the least recently offloaded one when full. A
reload moves hashes back at a cost in time. -/
namespace InferenceSim

/-- The parameters of the tier. -/
structure HostTierConfig where
  /-- The capacity in blocks. -/
  blocks : Nat
  /-- Tokens moved per tick. -/
  bandwidth : Float := 100.0
  /-- The fixed cost of a reload in ticks. -/
  baseLatency : Nat := 0
  /-- A reload at most this long after the offload counts as thrash. -/
  thrashWindow : Nat := 1000
  deriving Inhabited

namespace HostTierConfig

def toDocument (c : HostTierConfig) : Document :=
  .table [("blocks", .count c.blocks), ("bandwidth", .real c.bandwidth),
    ("base_latency", .count c.baseLatency), ("thrash_window", .count c.thrashWindow)]

def ofDocument? (d : Document) : Option HostTierConfig := do
  let f ← d.fields? ["blocks", "bandwidth", "base_latency", "thrash_window"]
  let tick := Document.asCount? 64
  return {
    blocks := ← f.count 64 "blocks"
    bandwidth := ← f.withDefault "bandwidth" Document.asReal? 100.0
    baseLatency := ← f.withDefault "base_latency" tick 0
    thrashWindow := ← f.withDefault "thrash_window" tick 1000 }

end HostTierConfig

/-- A resident hash: its stamp, and when it was offloaded. -/
structure OffloadedBlock where
  stamp : Nat
  offloadedAt : Nat
  deriving DecidableEq, Repr

/-- The tier with its counters; `byAge` lists the resident hashes by stamp. -/
structure HostTier where
  host : Nat
  capacity : Nat
  free : Nat
  blockSize : Nat
  bandwidth : Float
  baseLatency : Nat
  thrashWindow : Nat
  entries : Std.ExtTreeMap BlockHash OffloadedBlock := ∅
  byAge : Std.ExtTreeMap Nat BlockHash := ∅
  stamp : Nat := 0
  /-- Reload time that no step has been charged for yet. -/
  pendingLatency : Nat := 0
  offloads : Nat := 0
  reloads : Nat := 0
  thrashes : Nat := 0
  dropped : Nat := 0

namespace HostTier

def new (host : Nat) (config : HostTierConfig) (blockSize : Nat) : HostTier :=
  { host, blockSize
    capacity := config.blocks
    free := config.blocks
    bandwidth := config.bandwidth
    baseLatency := config.baseLatency
    thrashWindow := config.thrashWindow }

def used (t : HostTier) : Nat := t.entries.size

def contains (t : HostTier) (h : BlockHash) : Bool := t.entries.contains h

/-- Used and free blocks have to add up to the capacity. -/
def check (t : HostTier) : Except Violation Unit :=
  if t.used + t.free = t.capacity then .ok ()
  else .error (.kvConservation t.host .cpu t.used t.free t.capacity)

/-- Forgets the least recently offloaded hash. -/
def dropOldest (t : HostTier) : HostTier :=
  match t.byAge.minEntry? with
  | some (stamp, h) =>
    { t with
      byAge := t.byAge.erase stamp
      entries := t.entries.erase h
      free := t.free + 1
      dropped := t.dropped + 1 }
  | none => t

/-- Gives a hash the newest stamp. -/
def place (t : HostTier) (h : BlockHash) (now : Nat) : HostTier :=
  { t with
    entries := t.entries.insert h { stamp := t.stamp, offloadedAt := now }
    byAge := t.byAge.insert t.stamp h }

/-- Takes in the hash of a block that the device has evicted. A tier without room
takes in nothing. -/
def offload (t : HostTier) (h : BlockHash) (now : Nat) : Except Violation Unit × HostTier :=
  if t.capacity = 0 then (.ok (), t)
  else
    let t := { t with stamp := t.stamp + 1 }
    match t.entries[h]? with
    | some entry =>
      let t := { t with byAge := t.byAge.erase entry.stamp }
      (.ok (), t.place h now)
    | none =>
      let t := if t.free = 0 then t.dropOldest else t
      let t := t.place h now
      let t := { t with free := t.free - 1, offloads := t.offloads + 1 }
      (t.check, t)

/-- The time to move blocks: the base cost and their tokens over the bandwidth. -/
def transferLatency (t : HostTier) (blocks : Nat) : Nat :=
  if blocks = 0 then 0
  else
    let tokens := Binary64.ofCount blocks * Binary64.ofCount t.blockSize
    let transfer := if t.bandwidth > 0.0 then Binary64.toCount (tokens / t.bandwidth).ceil else 0
    t.baseLatency + transfer

/-- Takes a hash out if it is resident. -/
def takeOut (t : HostTier) (h : BlockHash) (now : Nat) : HostTier :=
  match t.entries[h]? with
  | some entry =>
    { t with
      entries := t.entries.erase h
      byAge := t.byAge.erase entry.stamp
      free := t.free + 1
      thrashes := if now - entry.offloadedAt ≤ t.thrashWindow then t.thrashes + 1 else t.thrashes }
  | none => t

/-- Moves hashes back to the device. Those that were resident cost time. -/
def reload (t : HostTier) (hs : List BlockHash) (now : Nat) :
    Except Violation Unit × HostTier :=
  let before := t.used
  let t := hs.foldl (fun t h => t.takeOut h now) t
  let moved := before - t.used
  let t := if moved = 0 then t
    else { t with
      reloads := t.reloads + moved
      pendingLatency := t.pendingLatency + t.transferLatency moved }
  (t.check, t)

def takePendingLatency (t : HostTier) : Nat × HostTier :=
  (t.pendingLatency, { t with pendingLatency := 0 })

def thrashRate (t : HostTier) : Float :=
  if t.reloads = 0 then 0.0 else Binary64.ofCount t.thrashes / Binary64.ofCount t.reloads

end HostTier

end InferenceSim
