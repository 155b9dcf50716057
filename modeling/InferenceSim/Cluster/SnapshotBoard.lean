import InferenceSim.Instance.Basic

/-! The router's view of the load of instances. Each group of fields is refreshed on
its own terms, so routing may see stale figures, as a router does that polls. -/
namespace InferenceSim

/-- When a field picks up the live value. -/
inductive RefreshMode where
  /-- At every reading. -/
  | immediate
  /-- At a reading, once the value is `interval` ticks old. -/
  | periodic (interval : Nat)
  /-- Only when all fields are refreshed. -/
  | onDemand
  deriving DecidableEq, Repr, Inhabited

namespace RefreshMode

def toDocument : RefreshMode → Document
  | .immediate => .table [("mode", .text "immediate")]
  | .periodic interval => .table [("mode", .text "periodic"), ("interval", .count interval)]
  | .onDemand => .table [("mode", .text "on-demand")]

def ofDocument? (d : Document) : Option RefreshMode := do
  let (name, d) ← d.tagged? "mode"
  match name with
  | "immediate" => d.bare?.map fun _ => .immediate
  | "periodic" => return .periodic (← (← d.fields? ["interval"]).count 64 "interval")
  | "on-demand" => d.bare?.map fun _ => .onDemand
  | _ => none

/-- Whether a reading at `clock` refreshes a value of the given age. -/
def due (mode : RefreshMode) (refreshedAt clock : Nat) : Bool :=
  match mode with
  | .immediate => true
  | .periodic interval => interval ≤ clock - refreshedAt
  | .onDemand => false

end RefreshMode

/-- The refresh modes of the fields. -/
structure SnapshotConfig where
  queueDepth : RefreshMode := .immediate
  batchSize : RefreshMode := .immediate
  /-- The mode of utilization, free blocks and cache hit rate. -/
  kv : RefreshMode := .immediate
  /-- The ticks between events that refresh all fields. -/
  refreshInterval : Option Nat := none
  deriving DecidableEq, Repr, Inhabited

namespace SnapshotConfig

/-- The ticks between refresh events, if there is a field that needs them. -/
def eventInterval (c : SnapshotConfig) : Option Nat :=
  let needed := [c.queueDepth, c.batchSize, c.kv].contains .onDemand
  c.refreshInterval.filter fun i => needed && 0 < i

def toDocument (c : SnapshotConfig) : Document :=
  .table [("queue_depth", c.queueDepth.toDocument), ("batch_size", c.batchSize.toDocument),
    ("kv_utilization", c.kv.toDocument),
    ("refresh_interval", .option .count c.refreshInterval)]

def ofDocument? (d : Document) : Option SnapshotConfig := do
  let f ← d.fields? ["queue_depth", "batch_size", "kv_utilization", "refresh_interval"]
  let mode (name : String) := f.withDefault name RefreshMode.ofDocument? .immediate
  return {
    queueDepth := ← mode "queue_depth"
    batchSize := ← mode "batch_size"
    kv := ← mode "kv_utilization"
    refreshInterval :=
      ← f.withDefault "refresh_interval" (Document.asOption? (Document.asCount? 64)) none }

end SnapshotConfig

/-- The last snapshot of an instance, and when each group of its fields was refreshed. -/
structure PostedSnapshot where
  snapshot : Snapshot
  queueDepthAt : Nat := 0
  batchSizeAt : Nat := 0
  kvAt : Nat := 0
  deriving Inhabited

namespace PostedSnapshot

def refreshQueueDepth (p : PostedSnapshot) (live : LiveLoad) (clock : Nat) : PostedSnapshot :=
  { p with snapshot := { p.snapshot with queueDepth := live.queueDepth }, queueDepthAt := clock }

def refreshBatchSize (p : PostedSnapshot) (live : LiveLoad) (clock : Nat) : PostedSnapshot :=
  { p with snapshot := { p.snapshot with batchSize := live.batchSize }, batchSizeAt := clock }

def refreshKv (p : PostedSnapshot) (live : LiveLoad) (clock : Nat) : PostedSnapshot :=
  { p with
    snapshot := { p.snapshot with
      kvUtilization := live.kvUtilization
      freeKvBlocks := live.freeKvBlocks
      cacheHitRate := live.cacheHitRate }
    kvAt := clock }

def refresh (p : PostedSnapshot) (live : LiveLoad) (clock : Nat) : PostedSnapshot :=
  ((p.refreshQueueDepth live clock).refreshBatchSize live clock).refreshKv live clock

/-- Refreshes the fields that are due. -/
def refreshDue (p : PostedSnapshot) (c : SnapshotConfig) (live : LiveLoad) (clock : Nat) :
    PostedSnapshot :=
  let p := if c.queueDepth.due p.queueDepthAt clock then p.refreshQueueDepth live clock else p
  let p := if c.batchSize.due p.batchSizeAt clock then p.refreshBatchSize live clock else p
  if c.kv.due p.kvAt clock then p.refreshKv live clock else p

end PostedSnapshot

/-- One posted snapshot per instance, by id. -/
structure SnapshotBoard where
  config : SnapshotConfig
  posted : Array PostedSnapshot

namespace SnapshotBoard

/-- A board of idle instances. -/
def new (config : SnapshotConfig) (roles : List Role) : SnapshotBoard :=
  { config
    posted := (roles.zipIdx.map fun (role, id) =>
      ({ snapshot := { id, role } } : PostedSnapshot)).toArray }

/-- The snapshot of an instance as routing sees it. The router's own counters are
always current. -/
def read (b : SnapshotBoard) (id : Nat) (live : LiveLoad) (pending inFlight clock : Nat) :
    Snapshot × SnapshotBoard :=
  match b.posted[id]? with
  | none => ({ id, role := .unified }, b)
  | some p =>
    let p := p.refreshDue b.config live clock
    let p := { p with
      snapshot := { p.snapshot with pending, inFlight, timestamp := clock } }
    (p.snapshot, { b with posted := b.posted.setIfInBounds id p })

/-- Refreshes every field of the instances whose loads are given, by id. -/
def refreshAll (b : SnapshotBoard) (loads : List LiveLoad) (clock : Nat) : SnapshotBoard :=
  { b with
    posted := b.posted.mapIdx fun id p =>
      match loads[id]? with
      | some live => p.refresh live clock
      | none => p }

end SnapshotBoard

end InferenceSim
