import InferenceSim.Cluster.Decision
import InferenceSim.Config.Basic
import InferenceSim.Metrics.Summary

/-! A cluster: its instances with the router's counters for them, the queue of events,
the state of the policies, and the records of the run. -/
namespace InferenceSim

/-- One event that has run, as it is logged. -/
structure LoggedEvent where
  time : Nat
  seq : Nat
  kind : String
  host : Option Nat
  request : Option Nat
  deriving DecidableEq, Repr, Inhabited

namespace LoggedEvent

def ofEvent (e : Event) : LoggedEvent :=
  { time := e.time, seq := e.seq, kind := e.action.label.name, host := e.action.host?
    request := e.action.request?.map (·.id) }

def toDocument (e : LoggedEvent) : Document :=
  .table [("time", .count e.time), ("seq", .count e.seq), ("kind", .text e.kind),
    ("instance", .option .count e.host), ("request", .option .count e.request)]

def ofDocument? (d : Document) : Option LoggedEvent := do
  let f ← d.fields? ["time", "seq", "kind", "instance", "request"]
  return {
    time := ← f.count 64 "time"
    seq := ← f.count 64 "seq"
    kind := ← f.text "kind"
    host := ← f.optional "instance" (Document.asCount? 32)
    request := ← f.optional "request" (Document.asCount? 64) }

end LoggedEvent

/-- An instance of the cluster, with the router's counters for it. -/
structure Member where
  server : Instance
  /-- Requests routed here that have not reached the queue yet. -/
  pending : Nat := 0
  /-- Requests routed here that are neither finished nor handed off. -/
  inFlight : Nat := 0

/-- A cluster in the course of a run. -/
structure Cluster where
  config : Config
  /-- The instances by id. -/
  members : List Member
  clock : Clock := {}
  events : EventQueue := {}
  board : SnapshotBoard
  admission : AdmissionPolicy
  routing : RoutingPolicy
  log : RunLog
  trace : DecisionTrace
  injected : Nat := 0
  /-- How many events have run. -/
  processed : Nat := 0
  /-- The events that have run, if they are logged. -/
  eventLog : Option (Array LoggedEvent) := none

namespace Cluster

/-- A cluster without requests, if the configuration is valid. -/
def new (config : Config) (trace : DecisionTrace) : Except ConfigError Cluster := do
  config.validate
  let settings := config.cluster
  let admission ← (AdmissionPolicy.ofRule config.policies.admission).mapError .policy
  let routing ← (RoutingPolicy.ofRule config.policies.routing settings.blockSize
    config.routerSeed).mapError .policy
  return {
    config, admission, routing, trace
    members := settings.roles.zipIdx.map fun (role, id) =>
      { server := .new id role settings.spec config.policies.scheduler }
    board := .new config.snapshot settings.roles
    log := .new config.run.warmup }

def withEventLog (c : Cluster) : Cluster := { c with eventLog := some #[] }

def now (c : Cluster) : Nat := c.clock.now

def instances (c : Cluster) : List Instance := c.members.map (·.server)

/-- Schedules an action. -/
def schedule (c : Cluster) (time : Nat) (action : Action) : Except Fault Cluster :=
  match c.events.schedule time action with
  | .ok (_, events) => .ok { c with events }
  | .error v => .error (.violation v)

/-- Has a request arrive at its time of arrival. -/
def inject (c : Cluster) (r : Request) : Except Fault Cluster := do
  let c ← c.schedule r.arrivalTime (.clusterArrival r)
  return { c with injected := c.injected + 1 }

def injectAll (c : Cluster) (rs : List Request) : Except Fault Cluster := rs.foldlM inject c

def record (c : Cluster) (r : DecisionRecord) : Cluster := { c with trace := c.trace.record r }

def change (c : Cluster) (id : Nat) (f : Member → Member) : Cluster :=
  { c with members := c.members.modify id f }

/-- The member with an id. -/
def member (c : Cluster) (id : Nat) : Except Fault Member :=
  match c.members[id]? with
  | some m => .ok m
  | none => .error (.violation (.unknownInstance id c.members.length))

/-- The snapshots of some members, and the board after they were read. -/
def readBoard (now : Nat) : List Member → SnapshotBoard → List Snapshot × SnapshotBoard
  | [], b => ([], b)
  | m :: rest, b =>
    let (s, b) := b.read m.server.id m.server.load m.pending m.inFlight now
    let (ss, b) := readBoard now rest b
    (s :: ss, b)

def observe (c : Cluster) : ClusterView × Cluster :=
  let (snapshots, board) := readBoard c.now c.members c.board
  ({ clock := c.now, snapshots }, { c with board })

/-- Turns a request away. -/
def reject (c : Cluster) (r : Request) (stage : RejectionStage) (reason : String) :
    Except Fault Cluster :=
  if r.state = .rejected || r.state.canMoveTo .rejected then
    let log := match stage with
      | .admission => c.log.rejectAtAdmission
      | .routing => c.log.rejectAtRouting
      | .host => c.log.rejectAtInstance
    .ok ({ c with log }.record (.rejection r.id c.now stage reason))
  else .error (.violation (.illegalTransition r.id r.state .rejected))

end Cluster

end InferenceSim
