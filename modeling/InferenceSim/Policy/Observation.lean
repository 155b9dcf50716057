import InferenceSim.Counting
import InferenceSim.Request.Form
import Std.Data.ExtTreeMap

/-! What policies see of the cluster: a snapshot of the load of each instance, and
the filters and the order by load that routing is built from. -/
namespace InferenceSim

/-- The work an instance takes: both phases, prompts only, or decoding only. -/
inductive Role where
  | unified
  | prefill
  | decode
  deriving DecidableEq, Repr, Inhabited

namespace Role

def name : Role → String
  | .unified => "unified"
  | .prefill => "prefill"
  | .decode => "decode"

/-- The name that reports use. -/
def label : Role → String
  | .unified => "Unified"
  | .prefill => "Prefill"
  | .decode => "Decode"

def all : List Role := [.unified, .prefill, .decode]

def acceptsPrefill : Role → Bool
  | .unified | .prefill => true
  | .decode => false

def acceptsDecode : Role → Bool
  | .unified | .decode => true
  | .prefill => false

def toDocument (r : Role) : Document := .text r.name

def ofDocument? : Document → Option Role :=
  Document.asChoice? (all.map fun r => (r.name, r))

end Role

/-- The load of one instance as routing sees it. -/
structure Snapshot where
  id : Nat
  role : Role
  queueDepth : Nat := 0
  batchSize : Nat := 0
  /-- Requests routed here that have not reached the queue yet. -/
  pending : Nat := 0
  kvUtilization : Float := 0.0
  freeKvBlocks : Nat := 0
  cacheHitRate : Float := 0.0
  inFlight : Nat := 0
  /-- When the snapshot was taken. -/
  timestamp : Nat := 0
  deriving Inhabited

namespace Snapshot

/-- Queued, running and pending requests together, fewer than `2 ^ 32` of them. -/
def effectiveLoad (s : Snapshot) : Nat := s.queueDepth + s.batchSize + s.pending

def toDocument (s : Snapshot) : Document :=
  .table [("id", .count s.id), ("role", s.role.toDocument),
    ("queue_depth", .count s.queueDepth), ("batch_size", .count s.batchSize),
    ("pending", .count s.pending), ("kv_utilization", .real s.kvUtilization),
    ("free_kv_blocks", .count s.freeKvBlocks), ("cache_hit_rate", .real s.cacheHitRate),
    ("in_flight", .count s.inFlight), ("timestamp", .count s.timestamp)]

def ofDocument? (d : Document) : Option Snapshot := do
  let f ← d.fields? ["id", "role", "queue_depth", "batch_size", "pending", "kv_utilization",
    "free_kv_blocks", "cache_hit_rate", "in_flight", "timestamp"]
  return {
    id := ← f.count 32 "id"
    role := ← f.required "role" Role.ofDocument?
    queueDepth := ← f.count 32 "queue_depth"
    batchSize := ← f.count 32 "batch_size"
    pending := ← f.count 32 "pending"
    kvUtilization := ← f.real "kv_utilization"
    freeKvBlocks := ← f.count 64 "free_kv_blocks"
    cacheHitRate := ← f.real "cache_hit_rate"
    inFlight := ← f.count 32 "in_flight"
    timestamp := ← f.count 64 "timestamp" }

end Snapshot

/-- What admission and routing see. -/
structure ClusterView where
  clock : Nat
  snapshots : List Snapshot
  deriving Inhabited

namespace ClusterView

def totalLoad (v : ClusterView) : Nat := totalOf (v.snapshots.map Snapshot.effectiveLoad)

def toDocument (v : ClusterView) : Document :=
  .table [("clock", .count v.clock), ("snapshots", .ofList Snapshot.toDocument v.snapshots)]

def ofDocument? (d : Document) : Option ClusterView := do
  let f ← d.fields? ["clock", "snapshots"]
  return {
    clock := ← f.count 64 "clock"
    snapshots := ← f.required "snapshots" (Document.asList? Snapshot.ofDocument?) }

end ClusterView

def prefillCandidates (snapshots : List Snapshot) : List Snapshot :=
  snapshots.filter fun s => s.role.acceptsPrefill

def withRole (role : Role) (snapshots : List Snapshot) : List Snapshot :=
  snapshots.filter fun s => s.role = role

/-- Whether `a` comes before `b` by load, the lower id first among equals. -/
def Snapshot.lighter (a b : Snapshot) : Bool :=
  a.effectiveLoad < b.effectiveLoad || (a.effectiveLoad = b.effectiveLoad && a.id < b.id)

/-- Whether `a` comes before `b` from the busiest down, the lower id first among equals. -/
def Snapshot.busier (a b : Snapshot) : Bool :=
  b.effectiveLoad < a.effectiveLoad || (a.effectiveLoad = b.effectiveLoad && a.id < b.id)

/-- The first of those that no other one goes before. -/
def firstBy (before : Snapshot → Snapshot → Bool) : List Snapshot → Option Snapshot
  | [] => none
  | s :: rest => some (rest.foldl (fun best t => if before t best then t else best) s)

/-- The least loaded instance; the lowest id wins ties. -/
def leastLoaded (candidates : List Snapshot) : Option Snapshot :=
  firstBy Snapshot.lighter candidates

end InferenceSim
