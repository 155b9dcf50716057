import InferenceSim.Cluster.Basic

/-! What each event does to the cluster. A request passes admission and routing, waits
at an instance and runs there; after its prompt it may be handed off to another
instance, and in the end it is completed or was turned away. -/
namespace InferenceSim

/-- Why a target cannot take a request. -/
inductive Misroute where
  | unknown (id : Nat)
  | unknownPrefill (id : Nat)
  | unknownDecode (id : Nat)
  | notWhole (id : Nat) (role : Role)
  | noPrefill (id : Nat) (role : Role)
  | noDecode (id : Nat) (role : Role)
  | sameInstance (id : Nat)
  deriving DecidableEq, Repr

def Misroute.message : Misroute → String
  | unknown id => s!"instance {id} does not exist"
  | unknownPrefill id => s!"prefill instance {id} does not exist"
  | unknownDecode id => s!"decode instance {id} does not exist"
  | notWhole id role => s!"instance {id} has role {role.label} and cannot serve whole requests"
  | noPrefill id role => s!"instance {id} has role {role.label} and cannot prefill"
  | noDecode id role => s!"instance {id} has role {role.label} and cannot decode"
  | sameInstance id => s!"prefill and decode both on instance {id}"

/-- Why a target cannot take a request among instances with the given roles, if it cannot. -/
def Target.misroute? (roles : List Role) : Target → Option Misroute
  | .reject => none
  | .single id =>
    match roles[id]? with
    | none => some (.unknown id)
    | some r => if r.acceptsPrefill && r.acceptsDecode then none else some (.notWhole id r)
  | .split prefill decode =>
    match roles[prefill]?, roles[decode]? with
    | none, _ => some (.unknownPrefill prefill)
    | some _, none => some (.unknownDecode decode)
    | some p, some d =>
      if !p.acceptsPrefill then some (.noPrefill prefill p)
      else if !d.acceptsDecode then some (.noDecode decode d)
      else if prefill = decode then some (.sameInstance prefill)
      else none

namespace Cluster

/-- The policy lets a request in, turns it away or has it ask again. -/
def handleAdmission (c : Cluster) (r : Request) : Except Fault Cluster :=
  let (view, c) := c.observe
  let (verdict, admission) := c.admission.judge r.view view
  let c := { c with admission }
  match verdict with
  | .accept reason =>
    (c.record (.admission r.id c.now true reason)).schedule
      (c.now + c.config.cluster.routingLatency) (.routing r)
  | .reject reason =>
    (c.record (.admission r.id c.now false reason)).reject r .admission reason
  | .delay duration _ =>
    { c with log := c.log.delay }.schedule (c.now + max duration 1) (.admission r)

/-- Sends a request to an instance. It reaches the queue once its delay is over. -/
def send (c : Cluster) (r : Request) (host : Nat) (decode : Option Nat) (route : Route)
    (view : ClusterView) : Except Fault Cluster :=
  let r := { r with
    priority := route.priorityHint.getD r.priority
    decodeTarget := decode }
  let c := c.change host fun m =>
    { m with pending := m.pending + 1, inFlight := m.inFlight + 1 }
  let (candidates, regret) := counterfactual host route.scores view.snapshots c.trace.topK
  (c.record (.routing r.id c.now host decode route.reason route.scores candidates regret)).schedule
    (c.now + c.config.latency.queueingDelay r.inputTokens) (.instanceArrival host r)

/-- The policy chooses where a request goes. -/
def handleRouting (c : Cluster) (r : Request) : Except Fault Cluster :=
  let r := { r with priority := c.config.policies.priority.score r.view c.now }
  let (view, c) := c.observe
  let (route, routing) := c.routing.route r.view view
  let c := { c with routing }
  match route.target.misroute? (c.instances.map (·.role)) with
  | some m =>
    let c := { c with log := c.log.misroute r.id c.now m.message }
    let anomaly : Anomaly := .invalidRouting r.id c.now m.message
    (c.record (.anomaly c.now anomaly.kind anomaly.detail)).reject r .routing m.message
  | none =>
    match route.target with
    | .reject => c.reject r .routing route.reason
    | .single host => c.send r host none route view
    | .split prefill decode => c.send r prefill (some decode) route view

/-- A request reaches the wait queue of an instance. -/
def handleEnqueue (c : Cluster) (host : Nat) (r : Request) : Except Fault Cluster := do
  let m ← c.member host
  let (result, server, events) := m.server.enqueue r c.now c.events
  let outcome ← result
  let c := { c with events }
  let pending := m.pending - 1
  match outcome with
  | .queued => return c.change host fun m => { m with server, pending }
  | .rejected r reason =>
    let c := c.change host fun m => { m with server, pending, inFlight := m.inFlight - 1 }
    c.reject r .host reason.message

/-- An instance takes a step. -/
def handleStep (c : Cluster) (host : Nat) : Except Fault Cluster := do
  let m ← c.member host
  let (server, events) ← m.server.step c.now c.config.latency c.events
  return { c with events }.change host fun m => { m with server }

/-- A request is complete. -/
def finishRequest (host : Nat) (c : Cluster) (r : Request) : Cluster :=
  let c := c.change host fun m => { m with inFlight := m.inFlight - 1 }
  { c with log := c.log.complete r }.record
    (.completion r.id c.now host r.ttft (r.e2e.getD 0))

/-- The KV of a request is moved to the instance that decodes. -/
def handOff (host : Nat) (c : Cluster) (h : Handoff) : Except Fault Cluster := do
  let _ ← c.member h.decode
  let c := c.change host fun m => { m with inFlight := m.inFlight - 1 }
  let c := c.change h.decode fun m =>
    { m with pending := m.pending + 1, inFlight := m.inFlight + 1 }
  let delay := c.config.cluster.disaggregated.transferLatency h.blocks c.config.cluster.blockSize
  c.schedule (c.now + delay) (.kvTransferComplete h.decode h.request)

/-- A step of an instance is over. -/
def handleStepComplete (c : Cluster) (host : Nat) : Except Fault Cluster := do
  let m ← c.member host
  let (result, server, events) := m.server.complete c.now c.events
  let report ← result
  server.kv.check.mapError .violation
  let rule := c.config.policies.priority
  let server := if rule.isConstant then server else server.reprioritize rule c.now
  let c := { c with events }.change host fun m => { m with server }
  let c := report.completed.foldl (finishRequest host) c
  report.handoffs.foldlM (handOff host) c

/-- Every snapshot is refreshed, and again later if anything else is to happen. -/
def handleRefresh (c : Cluster) : Except Fault Cluster :=
  let loads := c.instances.map Instance.load
  let c := { c with board := c.board.refreshAll loads c.now }
  match c.config.snapshot.eventInterval with
  | some interval =>
    if c.events.pending.isEmpty then .ok c
    else c.schedule (c.now + interval) .snapshotRefresh
  | none => .ok c

/-- Carries out an action. -/
def dispatch (c : Cluster) : Action → Except Fault Cluster
  | .clusterArrival r => c.schedule (c.now + c.config.cluster.admissionLatency) (.admission r)
  | .admission r => c.handleAdmission r
  | .routing r => c.handleRouting r
  | .instanceArrival host r | .kvTransferComplete host r => c.handleEnqueue host r
  | .step host => c.handleStep host
  | .stepComplete host => c.handleStepComplete host
  | .snapshotRefresh => c.handleRefresh

end Cluster

end InferenceSim
