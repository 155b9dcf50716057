import InferenceSim.Proofs.Cluster.Entries

/-! Clusters in a guise. Actions read neither the horizon nor what was logged, and of the events
to come they only know whether there are any and that new ones are taken. So a cluster may look
different in these and still do the same. -/
namespace InferenceSim

namespace Config

def withHorizon (c : Config) (horizon : Option Nat) : Config :=
  { c with run := { c.run with horizon } }

variable (c : Config) (horizon : Option Nat)

@[simp] theorem withHorizon_cluster : (c.withHorizon horizon).cluster = c.cluster := rfl
@[simp] theorem withHorizon_policies : (c.withHorizon horizon).policies = c.policies := rfl
@[simp] theorem withHorizon_routerSeed : (c.withHorizon horizon).routerSeed = c.routerSeed := rfl
@[simp] theorem withHorizon_validate : (c.withHorizon horizon).validate = c.validate := rfl

end Config

namespace Action

def isArrival : Action → Bool
  | .clusterArrival _ => true
  | _ => false

theorem priority_of_isArrival (a : Action) (h : a.isArrival = true) : a.priority = 0 := by
  cases a <;> first | rfl | cases h

theorem priority_pos (a : Action) (h : a.isArrival = false) : 0 < a.priority := by
  cases a <;> first | exact Nat.succ_pos _ | cases h

end Action

/-- What may look different about a cluster: its horizon, its events to come and the entries of
its log. An event still comes at its time and does what it does, and one that is no arrival looks
as it is. -/
structure Guise where
  horizon : Option Nat → Option Nat
  event : Event → Event
  time : ∀ e, (event e).time = e.time
  action : ∀ e, (event e).action = e.action
  later : ∀ e, e.action.isArrival = false → event e = e
  entry : LoggedEvent → LoggedEvent
  logged : ∀ e, LoggedEvent.ofEvent (event e) = entry (.ofEvent e)

namespace Guise

def queue (g : Guise) (q : EventQueue) : EventQueue := { q with pending := q.pending.map g.event }

def wear (g : Guise) (c : Cluster) : Cluster :=
  { c with
    config := c.config.withHorizon (g.horizon c.config.run.horizon)
    events := g.queue c.events
    eventLog := c.eventLog.map fun log => log.map g.entry }

variable {g : Guise}

section Reading
variable (c : Cluster)

@[simp] theorem wear_clock : (g.wear c).clock = c.clock := rfl
@[simp] theorem wear_now : (g.wear c).now = c.now := rfl
@[simp] theorem wear_events : (g.wear c).events = g.queue c.events := rfl
@[simp] theorem wear_latency : (g.wear c).config.latency = c.config.latency := rfl
@[simp] theorem wear_policies : (g.wear c).config.policies = c.config.policies := rfl
@[simp] theorem wear_snapshot : (g.wear c).config.snapshot = c.config.snapshot := rfl
@[simp] theorem wear_admission : (g.wear c).admission = c.admission := rfl
@[simp] theorem wear_routing : (g.wear c).routing = c.routing := rfl
@[simp] theorem wear_observe : (g.wear c).observe = (c.observe.1, g.wear c.observe.2) := rfl
@[simp] theorem wear_member (host : Nat) : (g.wear c).member host = c.member host := rfl

end Reading

theorem entries (g : Guise) (c : Cluster) : (g.wear c).entries = c.entries.map g.entry := by
  unfold Cluster.entries wear
  cases c.eventLog <;> simp

section Queues

theorem before_event {e : Event} (h : e.action.isArrival = false) (o : Event) :
    e.before (g.event o) = e.before o := by
  cases ho : o.action.isArrival with
  | false => rw [g.later o ho]
  | true =>
      have first : o.action.priority = 0 := o.action.priority_of_isArrival ho
      have second : 0 < e.action.priority := e.action.priority_pos h
      simp [Event.before, g.time, g.action, first, Nat.ne_of_gt second]

theorem insert {e : Event} (h : e.action.isArrival = false) (pending : List Event) :
    EventQueue.insert e (pending.map g.event) = (EventQueue.insert e pending).map g.event := by
  induction pending with
  | nil => exact congrArg (fun x => [x]) (g.later e h).symm
  | cons head rest ih =>
      simp only [EventQueue.insert, List.map_cons, before_event h]
      split
      · rw [List.map_cons, g.later e h]
        rfl
      · rw [List.map_cons, ih]

theorem queue_schedule (q : EventQueue) (time : Nat) {a : Action} (h : a.isArrival = false) :
    (g.queue q).schedule time a = (q.schedule time a).map (Prod.map id g.queue) := by
  unfold EventQueue.schedule
  rw [show (g.queue q).now = q.now from rfl]
  split
  · rfl
  · simp only [queue, Except.map, Prod.map, id]
    rw [insert (e := ⟨time, q.nextSeq, a⟩) h]

theorem isEmpty_queue (q : EventQueue) :
    (g.queue q).pending.isEmpty = q.pending.isEmpty := List.isEmpty_map

theorem pop?_queue (q : EventQueue) :
    (g.queue q).pop? = q.pop?.map (Prod.map g.event g.queue) := by
  obtain ⟨pending, nextSeq, now⟩ := q
  cases pending with
  | nil => rfl
  | cons e rest => simp [queue, EventQueue.pop?, g.time]

theorem wake (i : Instance) (time : Nat) {a : Action} (h : a.isArrival = false)
    (q : EventQueue) :
    i.wake time a (g.queue q) = Prod.map id (Prod.map id g.queue) (i.wake time a q) := by
  unfold Instance.wake
  rw [queue_schedule q time h]
  cases q.schedule time a <;> rfl

theorem enqueue (i : Instance) (r : Request) (now : Nat) (q : EventQueue) :
    i.enqueue r now (g.queue q) = Prod.map id (Prod.map id g.queue) (i.enqueue r now q) := by
  unfold Instance.enqueue
  cases i.receive r with
  | error e => rfl
  | ok r =>
      dsimp only
      cases i.unfit? r with
      | error e => rfl
      | ok unfit =>
          cases unfit with
          | some reason =>
              dsimp only
              cases r.transition .rejected <;> rfl
          | none =>
              dsimp only
              split
              · rfl
              · rw [wake _ _ rfl]
                rfl

theorem instance_step (i : Instance) (now : Nat) (latency : LatencyModel) (q : EventQueue) :
    i.step now latency (g.queue q) = (i.step now latency q).map (Prod.map id g.queue) := by
  unfold Instance.step
  cases formBatch i.limits i.scheduler now
    { running := i.running, queue := i.queue, kv := i.kv.setClock now } with
  | error e => rfl
  | ok formed =>
      obtain ⟨o, s⟩ := formed
      simp only [bind, Except.bind]
      split
      · split
        · rfl
        · rw [queue_schedule q _ rfl]
          cases q.schedule _ _ <;> rfl
      · rw [queue_schedule q _ rfl]
        cases q.schedule _ _ <;> rfl

theorem instance_complete (i : Instance) (now : Nat) (q : EventQueue) :
    i.complete now (g.queue q) = Prod.map id (Prod.map id g.queue) (i.complete now q) := by
  unfold Instance.complete
  cases i.inFlight with
  | none => rfl
  | some o =>
      dsimp only
      cases o.scheduled.foldlM (fun rs w => Instance.advanceOne i.id w now rs) i.running with
      | error v => rfl
      | ok running =>
          dsimp only
          cases Instance.settle now running i.kv with
          | error e => rfl
          | ok s =>
              dsimp only
              split
              · rfl
              · rw [wake _ _ rfl]
                rfl

end Queues

section Handlers
variable {c d : Cluster} {time : Nat} {a : Action}

theorem schedule (worn : d = g.wear c) (h : a.isArrival = false) :
    d.schedule time a = (c.schedule time a).map g.wear := by
  subst worn
  unfold Cluster.schedule
  rw [wear_events, queue_schedule _ time h]
  cases c.events.schedule time a <;> rfl

theorem reject {r : Request} {stage : RejectionStage} {reason : String} (worn : d = g.wear c) :
    d.reject r stage reason = (c.reject r stage reason).map g.wear := by
  subst worn
  unfold Cluster.reject
  split
  · cases stage <;> rfl
  · rfl

theorem handleAdmission (c : Cluster) (r : Request) :
    (g.wear c).handleAdmission r = (c.handleAdmission r).map g.wear := by
  unfold Cluster.handleAdmission
  dsimp only
  rw [wear_observe]
  dsimp only
  rw [wear_admission]
  split
  · exact schedule rfl rfl
  · exact reject rfl
  · exact schedule rfl rfl

theorem handleRouting (c : Cluster) (r : Request) :
    (g.wear c).handleRouting r = (c.handleRouting r).map g.wear := by
  unfold Cluster.handleRouting
  dsimp only
  rw [wear_observe]
  obtain ⟨view, seen⟩ := c.observe
  dsimp only
  rw [wear_policies, wear_now, wear_routing]
  obtain ⟨route, routing⟩ := seen.routing.route _ view
  dsimp only
  have roles : ({ g.wear seen with routing } : Cluster).instances = seen.instances := rfl
  have roles' : ({ seen with routing } : Cluster).instances = seen.instances := rfl
  rw [roles, roles']
  cases route.target.misroute? (seen.instances.map (·.role)) with
  | some m => exact reject rfl
  | none =>
      cases route.target with
      | reject => exact reject rfl
      | single host => exact schedule rfl rfl
      | split prefill decode => exact schedule rfl rfl

theorem handleEnqueue (c : Cluster) (host : Nat)
    (r : Request) : (g.wear c).handleEnqueue host r = (c.handleEnqueue host r).map g.wear := by
  unfold Cluster.handleEnqueue
  rw [wear_member]
  cases c.member host with
  | error e => rfl
  | ok m =>
      simp only [bind, Except.bind]
      rw [wear_events, wear_now, enqueue m.server r c.now c.events]
      obtain ⟨result, server, events⟩ := m.server.enqueue r c.now c.events
      dsimp only [Prod.map]
      cases result with
      | error e => rfl
      | ok outcome =>
          cases outcome with
          | queued => rfl
          | rejected r reason => exact reject rfl

theorem handleStep (c : Cluster) (host : Nat) :
    (g.wear c).handleStep host = (c.handleStep host).map g.wear := by
  unfold Cluster.handleStep
  rw [wear_member]
  cases c.member host with
  | error e => rfl
  | ok m =>
      simp only [bind, Except.bind]
      rw [wear_events, wear_now, wear_latency,
        instance_step m.server c.now c.config.latency c.events]
      cases m.server.step c.now c.config.latency c.events <;> rfl

theorem finishAll (host : Nat) (rs : List Request) (c : Cluster) :
    rs.foldl (Cluster.finishRequest host) (g.wear c)
      = g.wear (rs.foldl (Cluster.finishRequest host) c) := by
  induction rs generalizing c with
  | nil => rfl
  | cons r rs ih => exact ih (c.finishRequest host r)

theorem handOff (host : Nat) (c : Cluster) (h : Handoff) :
    (g.wear c).handOff host h = (c.handOff host h).map g.wear := by
  unfold Cluster.handOff
  rw [wear_member]
  cases c.member h.decode with
  | error e => rfl
  | ok m => exact schedule rfl rfl

theorem handOffAll (host : Nat) (hs : List Handoff)
    (c : Cluster) : hs.foldlM (Cluster.handOff host) (g.wear c)
      = (hs.foldlM (Cluster.handOff host) c).map g.wear := by
  induction hs generalizing c with
  | nil => rfl
  | cons h hs ih =>
      rw [List.foldlM_cons, List.foldlM_cons, handOff]
      cases c.handOff host h with
      | error e => rfl
      | ok d => exact ih d

theorem handleStepComplete (c : Cluster) (host : Nat) :
    (g.wear c).handleStepComplete host = (c.handleStepComplete host).map g.wear := by
  unfold Cluster.handleStepComplete
  rw [wear_member]
  cases c.member host with
  | error e => rfl
  | ok m =>
      simp only [bind, Except.bind]
      rw [wear_events, wear_now, wear_policies, instance_complete m.server c.now c.events]
      obtain ⟨result, server, events⟩ := m.server.complete c.now c.events
      dsimp only [Prod.map, id]
      cases result with
      | error e => rfl
      | ok report =>
          dsimp only
          cases server.kv.check.mapError Fault.violation with
          | error e => rfl
          | ok _ =>
              generalize (if c.config.policies.priority.isConstant then server
                else server.reprioritize c.config.policies.priority c.now) = kept
              have finished := finishAll (g := g) host report.completed
                (({ c with events } : Cluster).change host fun m => { m with server := kept })
              exact (congrArg (report.handoffs.foldlM (Cluster.handOff host)) finished).trans
                (handOffAll host report.handoffs _)

theorem handleRefresh (c : Cluster) :
    (g.wear c).handleRefresh = c.handleRefresh.map g.wear := by
  unfold Cluster.handleRefresh
  dsimp only
  rw [wear_snapshot, wear_events, isEmpty_queue]
  cases c.config.snapshot.eventInterval with
  | none => rfl
  | some interval =>
      dsimp only
      split
      · rfl
      · exact schedule rfl rfl

/-- A cluster does the same in any guise. -/
theorem dispatch (c : Cluster) (a : Action) :
    (g.wear c).dispatch a = (c.dispatch a).map g.wear := by
  cases a with
  | clusterArrival r => exact schedule rfl rfl
  | admission r => exact handleAdmission c r
  | routing r => exact handleRouting c r
  | instanceArrival host r => exact handleEnqueue c host r
  | kvTransferComplete host r => exact handleEnqueue c host r
  | step host => exact handleStep c host
  | stepComplete host => exact handleStepComplete c host
  | snapshotRefresh => exact handleRefresh c

end Handlers

section Runs

theorem start (c : Cluster) : (g.wear c).start = c.start.map g.wear := by
  unfold Cluster.start
  rw [wear_snapshot]
  cases c.config.snapshot.eventInterval with
  | none => rfl
  | some interval => exact schedule rfl rfl

theorem begin (c : Cluster) (e : Event) (rest : EventQueue) :
    (g.wear c).begin (g.event e) (g.queue rest) = (c.begin e rest).map g.wear := by
  unfold Cluster.begin
  rw [g.time, wear_clock]
  cases c.clock.advanceTo e.time with
  | error b => rfl
  | ok clock =>
      have log : (g.wear c).eventLog.map (fun l => l.push (.ofEvent (g.event e)))
          = (c.eventLog.map fun l => l.push (.ofEvent e)).map fun l => l.map g.entry := by
        cases h : c.eventLog <;> simp [wear, h, g.logged]
      simp only [log]
      rfl

/-- Where the horizon lets the same event run, the same event runs. -/
theorem step {c : Cluster} (h : ∀ e rest, c.events.pop? = some (e, rest) →
      (g.wear c).withinHorizon e.time = c.withinHorizon e.time) :
    (g.wear c).step = c.step.map (Prod.map id g.wear) := by
  unfold Cluster.step
  rw [wear_events, pop?_queue]
  cases popped : c.events.pop? with
  | none => rfl
  | some next =>
      obtain ⟨e, rest⟩ := next
      simp only [Option.map_some, Prod.map, begin, g.time, g.action, h e rest popped]
      split
      · cases c.begin e rest with
        | error f => rfl
        | ok d =>
            simp only [Except.map, dispatch]
            cases d.dispatch e.action <;> rfl
      · rfl

theorem summary (c : Cluster) : (g.wear c).summary = c.summary := by
  have transit : (g.wear c).events.inTransit = c.events.inTransit := by
    simp [wear, queue, EventQueue.inTransit, List.countP_map, Function.comp_def, g.action]
  unfold Cluster.summary Cluster.context
  rw [transit]
  rfl

theorem recordAnomalies (c : Cluster) (s : RunSummary) :
    (g.wear c).recordAnomalies s = g.wear (c.recordAnomalies s) := by
  unfold Cluster.recordAnomalies
  generalize s.anomalies = anomalies
  induction anomalies generalizing c with
  | nil => rfl
  | cons a rest ih =>
      rw [List.foldl_cons, List.foldl_cons, ← ih]
      cases a <;> rfl

variable (same : g.horizon = id)
include same

theorem runEvents (limit : Nat) (c : Cluster) :
    (g.wear c).runEvents limit = Prod.map id g.wear (c.runEvents limit) := by
  induction limit generalizing c with
  | zero => rfl
  | succ limit ih =>
      have unmoved : (g.wear c).config = c.config := by simp [wear, same, Config.withHorizon]
      unfold Cluster.runEvents
      rw [step fun e rest _ => by simp [Cluster.withinHorizon, unmoved]]
      rcases c.step with _ | ⟨_ | _, d⟩
      · rfl
      · rfl
      · exact ih d

/-- A run that ends at the same time comes out the same. -/
theorem run (c : Cluster) : (g.wear c).run = Prod.map id g.wear c.run := by
  unfold Cluster.run
  rw [start]
  cases c.start with
  | error f => rfl
  | ok c =>
      simp only [Except.map, runEvents same]
      rcases c.runEvents Cluster.eventLimit with ⟨_ | _, d⟩
      · rfl
      · simp [summary, recordAnomalies]

end Runs

end Guise

end InferenceSim
