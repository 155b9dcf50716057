import InferenceSim.Cluster.Dispatch
import InferenceSim.Workload.Source

/-! Runs: events are taken from the queue and carried out one by one until none is left
or the horizon is reached, and then the run is summed up. -/
namespace InferenceSim

/-- Why a simulation has no summary. -/
inductive SimulationError where
  | config (e : ConfigError)
  | fault (f : Fault)
  | workload (e : WorkloadError)
  deriving Repr

def SimulationError.message : SimulationError → String
  | config e => s!"configuration error: {e.message}"
  | fault f => s!"internal consistency violation: {f.message}"
  | workload e => s!"workload error: {e.message}"

namespace Cluster

/-- Whether an event at a time still runs. -/
def withinHorizon (c : Cluster) (time : Nat) : Bool :=
  match c.config.run.horizon with
  | some h => time ≤ h
  | none => true

/-- The action of an event, once the clock has moved to it and it was logged. -/
def begin (c : Cluster) (e : Event) (events : EventQueue) : Except Fault Cluster :=
  match c.clock.advanceTo e.time with
  | .error b => .error (.backwardsClock b)
  | .ok clock =>
    .ok { c with
      clock, events
      eventLog := c.eventLog.map fun l => l.push (.ofEvent e) }

/-- Runs the next event; none if there is none within the horizon. An event that fails
leaves the cluster as it was when the event began. -/
def step (c : Cluster) : Option (Except Fault Unit × Cluster) :=
  match c.events.pop? with
  | none => none
  | some (e, events) =>
    if c.withinHorizon e.time then
      match c.begin e events with
      | .error f => some (.error f, c)
      | .ok c =>
        match c.dispatch e.action with
        | .error f => some (.error f, c)
        | .ok c => some (.ok (), { c with processed := c.processed + 1 })
    else none

/-- Runs at most `limit` events. -/
def runEvents : (limit : Nat) → Cluster → Except Fault Unit × Cluster
  | 0, c => (.ok (), c)
  | limit + 1, c =>
    match c.step with
    | none => (.ok (), c)
    | some (.error f, c) => (.error f, c)
    | some (.ok (), c) => runEvents limit c

/-- The most events of a run: as many as there are 64-bit sequence numbers to give them. -/
def eventLimit : Nat := Nat.pow 2 64

/-- Schedules the first refresh of all snapshots, if there are any. -/
def start (c : Cluster) : Except Fault Cluster :=
  match c.config.snapshot.eventInterval with
  | some interval => c.schedule (c.now + interval) .snapshotRefresh
  | none => .ok c

def context (c : Cluster) : RunContext :=
  { label := c.routing.name
    injected := c.injected
    inTransit := c.events.inTransit
    skipInversions := c.config.policies.priority.isConstant
    policyCounters :=
      c.routing.counters.foldl (fun m (name, value) => m.insert name value) ∅ }

def summary (c : Cluster) : RunSummary := c.log.summarize c.context c.instances

/-- Records the anomalies of a summary. Those of routing were recorded when they
happened. -/
def recordAnomalies (c : Cluster) (s : RunSummary) : Cluster :=
  s.anomalies.foldl (fun c a => match a with
    | .invalidRouting _ _ _ => c
    | _ => c.record (.anomaly c.now a.kind a.detail)) c

/-- Runs until nothing is left to do within the horizon, and sums up. -/
def run (c : Cluster) : Except Fault RunSummary × Cluster :=
  match c.start with
  | .error f => (.error f, c)
  | .ok c =>
    match c.runEvents eventLimit with
    | (.error f, c) => (.error f, c)
    | (.ok (), c) => (.ok c.summary, c.recordAnomalies c.summary)

/-- Has requests arrive and runs. -/
def runWith (c : Cluster) (rs : List Request) : Except Fault RunSummary × Cluster :=
  match c.injectAll rs with
  | .error f => (.error f, c)
  | .ok c => c.run

end Cluster

namespace Config

def simulate (c : Config) (rs : List Request) : Except SimulationError RunSummary := do
  let cluster ← (Cluster.new c .off).mapError .config
  (cluster.runWith rs).1.mapError .fault

/-- Runs the configured workload. -/
def simulateWorkload (c : Config) (read : String → Except String String) :
    Except SimulationError RunSummary := do
  let cluster ← (Cluster.new c .off).mapError .config
  let rs ← (c.workload.load read c.streams).mapError .workload
  (cluster.runWith rs).1.mapError .fault

/-- The routing rule with a name, with default parameters. -/
def routingNamed (name : String) : Except ConfigError RoutingRule :=
  match RoutingRule.ofName? name with
  | some r => .ok r
  | none => .error (.invalid (.unknownRouting name RoutingRule.names))

/-- Runs the same requests under each of some routing policies. -/
def compareRouting (c : Config) (rs : List Request) (names : List String) :
    Except SimulationError (List RunSummary) :=
  names.mapM fun name => do
    let routing ← (routingNamed name).mapError .config
    (c.withRouting routing).simulate rs

end Config

end InferenceSim
