import InferenceSim.Proofs.Cluster.Effects
import InferenceSim.Proofs.Cluster.Running

/-! Laws of whole runs. What each event keeps of every instance, of the requests on their way
and of those it completes, holds however far a run has come. -/
namespace InferenceSim
namespace Cluster

/-- The states of a run in which its next events began. -/
def path : (limit : Nat) → Cluster → List Cluster
  | 0, _ => []
  | limit + 1, c =>
    match c.step with
    | some (.ok (), d) => c :: path limit d
    | _ => []

/-- The requests that the next event completes. -/
def completing (c : Cluster) : List Request :=
  match c.events.pop? with
  | some (e, q) =>
    match c.begin e q with
    | .ok b => b.finishing e.action
    | .error _ => []
  | none => []

def completions (limit : Nat) (c : Cluster) : List Request :=
  (c.path limit).flatMap completing

/-- An event that has run. -/
structure Ran (c : Cluster) (e : Event) (b d : Cluster) : Prop where
  popped : ∃ q, c.events.pop? = some (e, q) ∧ c.begin e q = .ok b
  dispatched : ∃ d', b.dispatch e.action = .ok d' ∧ d = { d' with processed := d'.processed + 1 }

variable {config : Config} {rs : List Request} {b c d : Cluster} {l : Ledger} {a : Action}
  {e : Event}

/-- An event begins when the clock moves to it and it is logged. -/
theorem begin_inv {q : EventQueue} (begun : c.begin e q = .ok b) :
    b = { c with
      clock := { now := e.time }, events := q
      eventLog := c.eventLog.map fun l => l.push (.ofEvent e) } := by
  simp only [begin, Clock.advanceTo] at begun
  split at begun
  · cases begun
  · next clock forward =>
    split at forward
    · cases forward
    · rw [← Except.ok.inj begun, ← Except.ok.inj forward]

/-- An event fails and leaves the cluster as it was, or as it was when the event had begun, or it
runs. -/
theorem step_cases {out : Except Fault Unit} (stepped : c.step = some (out, d)) :
    (∃ f, out = .error f ∧
      (d = c ∨ ∃ e q, c.events.pop? = some (e, q) ∧ c.begin e q = .ok d)) ∨
    out = .ok () ∧ ∃ e b, Ran c e b d := by
  unfold step at stepped
  split at stepped
  · cases stepped
  · next e q popped =>
    split at stepped
    · split at stepped
      · obtain ⟨rfl, rfl⟩ := Prod.mk.inj (Option.some.inj stepped)
        exact .inl ⟨_, rfl, .inl rfl⟩
      · next b begun =>
        split at stepped
        · obtain ⟨rfl, rfl⟩ := Prod.mk.inj (Option.some.inj stepped)
          exact .inl ⟨_, rfl, .inr ⟨e, q, popped, begun⟩⟩
        · next d' dispatched =>
          obtain ⟨rfl, rfl⟩ := Prod.mk.inj (Option.some.inj stepped)
          exact .inr ⟨rfl, e, b, ⟨q, popped, begun⟩, d', dispatched, rfl⟩
    · cases stepped

theorem ran_of_step (stepped : c.step = some (.ok (), d)) : ∃ e b, Ran c e b d := by
  rcases step_cases stepped with ⟨f, failed, _⟩ | ⟨_, ran⟩
  · cases failed
  · exact ran

namespace Ran

theorem effect (k : Ran c e b d) : Effect b e.action d := by
  obtain ⟨d', done, rfl⟩ := k.dispatched
  obtain ⟨clock, config, size, turn, sent, log⟩ := effect_of_dispatch done
  exact ⟨clock, config, size, turn, sent, log⟩

theorem does (k : Ran c e b d) : Does b e.action d := by
  obtain ⟨d', done, rfl⟩ := k.dispatched
  obtain ⟨sent, notes, deed, clock, config, looks, eventLog, trace, log, events⟩ :=
    does_of_dispatch done
  exact ⟨sent, notes, deed, clock, config, looks, eventLog, trace, log, events⟩

theorem completing_eq (k : Ran c e b d) : c.completing = b.finishing e.action := by
  obtain ⟨q, popped, begun⟩ := k.popped
  simp only [completing, popped, begun]

theorem begins (k : Ran c e b d) (coherent : Coherent config rs [] c l)
    (g : Logged config rs c l) :
    Coherent config rs [e.action] b l ∧ b.instances = c.instances ∧ b.now = e.time ∧
      c.now ≤ e.time ∧ c.events.pending = e :: b.events.pending ∧ b.log = c.log := by
  obtain ⟨q, popped, begun⟩ := k.popped
  obtain ⟨b', begun', k', _, instances, events, now, pending⟩ := begin_ok coherent g popped
  obtain rfl := Except.ok.inj (begun.symm.trans begun')
  refine ⟨k', instances, now, ?_, events ▸ pending, ?_⟩
  · exact Nat.le_trans (Nat.le_of_eq coherent.clock.symm)
      (EventQueue.pop_ok coherent.ordered popped).1
  · rw [begin_inv begun]

theorem actions (k : Ran c e b d) (coherent : Coherent config rs [] c l)
    (g : Logged config rs c l) : c.events.actions = e.action :: b.events.actions := by
  obtain ⟨_, _, _, _, pending, _⟩ := k.begins coherent g
  rw [EventQueue.actions, pending]
  rfl

end Ran

/-- What every event keeps of a cluster and of the states that a run has passed through holds
however far the run has come. -/
theorem run_keeps (holds : List Cluster → Cluster → Prop) (valid : config.cluster.Valid)
    (distinct : (rs.map (·.id)).Nodup)
    (keeps : ∀ {past : List Cluster} {c : Cluster} {l : Ledger} {e : Event} {b d : Cluster}
      {l' : Ledger}, Coherent config rs [] c l → Logged config rs c l → Ran c e b d →
      Coherent config rs [] d l' → holds past c → holds (past ++ [c]) d)
    (k : Coherent config rs [] c l) (g : Logged config rs c l) (past : List Cluster)
    (start : holds past c) (limit : Nat) :
    holds (past ++ c.path limit) (c.runEvents limit).2 := by
  induction limit generalizing c l past with
  | zero => exact (List.append_nil past).symm ▸ start
  | succ limit ih =>
      rcases step_ok valid distinct k g with none | ⟨d, l', stepped, k', g', _⟩
      · rw [path, runEvents, none]
        exact (List.append_nil past).symm ▸ start
      · obtain ⟨e, b, ran⟩ := ran_of_step stepped
        rw [path, runEvents, stepped]
        have later := ih k' g' _ (keeps k g ran k' start)
        rwa [List.append_assoc] at later

theorem runEvents_still (none : c.step = none) (limit : Nat) : c.runEvents limit = (.ok (), c) := by
  cases limit with
  | zero => rfl
  | succ => rw [runEvents, none]

theorem runEvents_add {limit : Nat} (done : c.runEvents limit = (.ok (), d)) (more : Nat) :
    c.runEvents (limit + more) = d.runEvents more := by
  induction limit generalizing c with
  | zero =>
      obtain rfl := (Prod.mk.inj done).2
      rw [Nat.zero_add]
  | succ limit ih =>
      rw [Nat.add_right_comm, runEvents]
      rw [runEvents] at done
      cases stepped : c.step with
      | none =>
          rw [stepped] at done
          obtain rfl := (Prod.mk.inj done).2
          exact (runEvents_still stepped more).symm
      | some next =>
          obtain ⟨out, m⟩ := next
          rw [stepped] at done
          cases out with
          | error f => cases done
          | ok => exact ih done

theorem finishing_inv {r : Request} (k : Coherent config rs [a] b l) (hr : r ∈ b.finishing a) :
    ∃ (host : Nat) (i j : Instance) (o : BatchOutcome) (report : StepReport) (q : EventQueue),
      a = .stepComplete host ∧ b.instances[host]? = some i ∧ i.inFlight = some o ∧
      i.complete b.now b.events = (.ok report, j, q) ∧ r ∈ report.completed ∧
      r.stem ∈ i.requests.map (·.stem) := by
  unfold finishing at hr
  split at hr
  · next host =>
    split at hr
    · next i at' =>
      obtain ⟨_, o, flight⟩ := Instance.flight_of_awaited (k.awaits at' (decide_eq_true rfl))
      obtain ⟨out, j, q, done⟩ : ∃ out j q, i.complete b.now b.events = (out, j, q) :=
        ⟨_, _, _, rfl⟩
      rw [Instance.finishing, done] at hr
      cases out with
      | error f => cases hr
      | ok report =>
          have inside : r ∈ report.completed := hr
          obtain ⟨_, ended⟩ := k.ended_complete at' done (.inl rfl)
          refine ⟨host, i, j, o, report, q, rfl, at', flight, done, inside, ?_⟩
          refine ended.stems.mem_iff.mp (List.mem_map_of_mem ?_)
          exact List.mem_append_left _ (List.mem_append_left _ inside)
    · cases hr
  · cases hr

theorem finishing_origin (k : Coherent config rs [a] b l) : ∀ r ∈ b.finishing a, r.origin ∈ rs := by
  intro r hr
  obtain ⟨host, i, _, _, _, _, _, at', _, _, _, known⟩ := finishing_inv k hr
  obtain ⟨s, hs, stem⟩ := List.mem_map.mp known
  rw [← Request.origin_of_stem stem]
  refine k.owners.mem_iff.mp (List.mem_append_left _ (List.mem_map_of_mem ?_))
  exact List.mem_append_right _ (List.mem_flatMap.mpr ⟨i, List.mem_of_getElem? at', hs⟩)

/-- What is to hold of instances at a time, of requests that arrive or were handed off at a
time, and of those that are complete. -/
structure Law where
  server : Nat → Instance → Prop
  arrived : Nat → Request → Prop
  handed : Nat → Request → Prop
  completed : Request → Prop

namespace Law
variable {law : Law} {spec : InstanceSpec}

/-- What is to hold of an action at the time of its event. -/
def action (law : Law) (time : Nat) : Action → Prop
  | .clusterArrival r | .admission r | .routing r | .instanceArrival _ r => law.arrived time r
  | .kvTransferComplete _ r => law.handed time r
  | .stepComplete _ | .step _ | .snapshotRefresh => True

/-- A law that holds at the start, and that nothing breaks which can happen. -/
structure Kept (law : Law) (spec : InstanceSpec) : Prop where
  new : ∀ id role rule, law.server 0 (.new id role spec rule)
  fresh : ∀ r : Request, r.Fresh → law.arrived r.arrivalTime r
  wait : ∀ {now later : Nat} {i : Instance}, now ≤ later → law.server now i → law.server later i
  travel : ∀ {now later : Nat} {r : Request}, now ≤ later → law.arrived now r →
    law.arrived later r
  transfer : ∀ {now later : Nat} {r : Request}, now ≤ later → law.handed now r →
    law.handed later r
  route : ∀ {now : Nat} {r : Request} (priority : Priority) (decodeTarget : Option Nat),
    law.arrived now r → law.arrived now { r with priority, decodeTarget }
  enqueue : ∀ {now : Nat} {i j : Instance} {r : Request} {out : Enqueued} {q d : EventQueue},
    i.Coherent spec → law.server now i → law.arrived now r ∨ law.handed now r →
    i.enqueue r now q = (.ok out, j, d) → law.server now j
  step : ∀ {now : Nat} {i j : Instance} {latency : LatencyModel} {q d : EventQueue},
    i.Coherent spec → law.server now i → i.inFlight = none →
    i.step now latency q = .ok (j, d) → law.server now j
  complete : ∀ {now : Nat} {i j : Instance} {o : BatchOutcome} {report : StepReport}
    {q d : EventQueue}, i.Coherent spec → law.server now i → i.inFlight = some o →
    i.complete now q = (.ok report, j, d) →
    law.server now j ∧ (∀ r ∈ report.completed, law.completed r) ∧
      ∀ h ∈ report.handoffs, law.handed now h.request
  rescore : ∀ {now : Nat} {i : Instance} (rule : PriorityRule), law.server now i →
    law.server now (i.reprioritize rule now)

/-- A law holds of a cluster. -/
structure Holds (law : Law) (c : Cluster) : Prop where
  servers : ∀ i ∈ c.instances, law.server c.now i
  actions : ∀ e ∈ c.events.pending, law.action e.time e.action

theorem Kept.later (kept : law.Kept spec) {now later : Nat} (le : now ≤ later)
    (holds : law.action now a) : law.action later a := by
  cases a with
  | clusterArrival r => exact kept.travel le holds
  | admission r => exact kept.travel le holds
  | routing r => exact kept.travel le holds
  | instanceArrival host r => exact kept.travel le holds
  | kvTransferComplete host r => exact kept.transfer le holds
  | stepComplete host => exact trivial
  | step host => exact trivial
  | snapshotRefresh => exact trivial

theorem Kept.turn (kept : law.Kept config.cluster.spec) (k : Coherent config rs [a] b l)
    (hand : law.action b.now a) {id : Nat} {i j : Instance} (at' : b.instances[id]? = some i)
    (holds : law.server b.now i) (turn : Turn b id i a j) : law.server b.now j := by
  have coherent := (k.employs id i at').coherent
  cases turn with
  | rest => exact holds
  | arrive done => exact kept.enqueue coherent holds (.inl hand) done
  | transfer done => exact kept.enqueue coherent holds (.inr hand) done
  | step done =>
      have ready := (Instance.ready_of_awaited (k.awaits at' (decide_eq_true rfl))).2
      exact kept.step coherent holds ready done
  | complete done rescored =>
      obtain ⟨_, o, flight⟩ := Instance.flight_of_awaited (k.awaits at' (decide_eq_true rfl))
      have left := (kept.complete coherent holds flight done).1
      rcases rescored with rfl | ⟨rule, rfl⟩
      · exact left
      · exact kept.rescore rule left

theorem Kept.sent (kept : law.Kept config.cluster.spec) (k : Coherent config rs [a] b l)
    (hand : law.action b.now a) (servers : ∀ i ∈ b.instances, law.server b.now i) {x : Action}
    (sent : Sent b a x) : law.action b.now x := by
  cases sent with
  | accept r => exact hand
  | delay r => exact hand
  | route r => exact hand
  | send r host priority decodeTarget => exact kept.route priority decodeTarget hand
  | handoff at' done left =>
      have coherent := (k.employs _ _ at').coherent
      obtain ⟨_, o, flight⟩ := Instance.flight_of_awaited (k.awaits at' (decide_eq_true rfl))
      exact (kept.complete coherent (servers _ (List.mem_of_getElem? at')) flight done).2.2 _ left
  | bare _ none =>
      cases x with
      | stepComplete => exact trivial
      | step => exact trivial
      | snapshotRefresh => exact trivial
      | _ => cases none

theorem Kept.finishing (kept : law.Kept config.cluster.spec) (k : Coherent config rs [a] b l)
    (servers : ∀ i ∈ b.instances, law.server b.now i) :
    ∀ r ∈ b.finishing a, law.completed r := by
  intro r hr
  obtain ⟨host, i, j, o, report, q, _, at', flight, done, inside, _⟩ := finishing_inv k hr
  exact (kept.complete (k.employs host i at').coherent (servers i (List.mem_of_getElem? at'))
    flight done).2.1 r inside

/-- One event keeps a law. -/
theorem Kept.ran (kept : law.Kept config.cluster.spec) (k : Coherent config rs [] c l)
    (g : Logged config rs c l) (ran : Ran c e b d) (holds : law.Holds c) :
    law.Holds d ∧ ∀ r ∈ c.completing, r.origin ∈ rs ∧ law.completed r := by
  obtain ⟨k', instances, now, later, pending, _⟩ := ran.begins k g
  have effect := ran.effect
  have still : d.now = b.now := congrArg Clock.now effect.clock
  have servers : ∀ i ∈ b.instances, law.server b.now i := fun i hi =>
    kept.wait (now ▸ later) (holds.servers i (instances ▸ hi))
  have hand : law.action b.now e.action :=
    now ▸ holds.actions e (pending ▸ List.mem_cons_self)
  refine ⟨⟨fun j hj => ?_, fun x hx => ?_⟩, ?_⟩
  · obtain ⟨id, after⟩ := List.getElem?_of_mem hj
    obtain ⟨i, at', turn⟩ := effect.turned after
    exact still ▸ kept.turn k' hand at' (servers i (List.mem_of_getElem? at')) turn
  · obtain ⟨added, joins, sent⟩ := effect.sent
    rcases joins.mem_iff.mp hx with new | old
    · have ahead : b.now ≤ x.time :=
        Nat.le_trans (Nat.le_of_eq k'.clock.symm) (joins.later x new)
      exact kept.later ahead (kept.sent k' hand servers (sent x new))
    · exact holds.actions x (pending ▸ List.mem_cons_of_mem e old)
  · rw [ran.completing_eq]
    exact fun r hr => ⟨finishing_origin k' r hr, kept.finishing k' servers r hr⟩

/-- A law that holds of a cluster holds after any number of events. -/
theorem Kept.run (kept : law.Kept config.cluster.spec) (valid : config.cluster.Valid)
    (distinct : (rs.map (·.id)).Nodup) (k : Coherent config rs [] c l)
    (g : Logged config rs c l) (holds : law.Holds c) (limit : Nat) :
    law.Holds (c.runEvents limit).2 ∧
      ∀ r ∈ c.completions limit, r.origin ∈ rs ∧ law.completed r := by
  refine run_keeps (fun past c => law.Holds c ∧
    ∀ r ∈ past.flatMap completing, r.origin ∈ rs ∧ law.completed r) valid distinct
    (fun k g ran _ before => ?_) k g [] ⟨holds, List.forall_mem_nil _⟩ limit
  obtain ⟨next, now⟩ := kept.ran k g ran before.1
  refine ⟨next, fun r hr => ?_⟩
  rw [List.flatMap_append, List.flatMap_singleton] at hr
  rcases List.mem_append.mp hr with earlier | this
  · exact before.2 r earlier
  · exact now r this

end Law

theorem runEvents_logs (valid : config.cluster.Valid) (distinct : (rs.map (·.id)).Nodup)
    (k : Coherent config rs [] c l) (g : Logged config rs c l) (limit : Nat) :
    (c.runEvents limit).2.log.all.toList =
      c.log.all.toList ++ (c.completions limit).filterMap Completion.ofRequest? := by
  refine run_keeps (fun past d => d.log.all.toList =
    c.log.all.toList ++ (past.flatMap completing).filterMap Completion.ofRequest?) valid distinct
    (fun k g ran _ before => ?_) k g [] (List.append_nil _).symm limit
  rw [List.flatMap_append, List.flatMap_singleton, List.filterMap_append, ← List.append_assoc,
    ← before, ran.completing_eq, ← (ran.begins k g).2.2.2.2.2]
  exact ran.effect.log

/-- A cluster at the start of a run: idle instances, and the arrivals of the requests. -/
structure Awaits (config : Config) (rs : List Request) (c : Cluster) : Prop where
  clock : c.now = 0
  servers : ∀ i ∈ c.instances, ∃ id role rule, i = .new id role config.cluster.spec rule
  arrivals : ∀ e ∈ c.events.pending, e.action = .snapshotRefresh ∨
    ∃ r ∈ rs, e.time = r.arrivalTime ∧ e.action = .clusterArrival r
  log : c.log.all.toList = []

theorem new_inv {trace : DecisionTrace} (made : new config trace = .ok c) :
    ∃ admission routing, c = {
      config, admission, routing, trace
      members := config.cluster.roles.zipIdx.map fun (role, id) =>
        { server := .new id role config.cluster.spec config.policies.scheduler }
      board := .new config.snapshot config.cluster.roles
      log := .new config.run.warmup } := by
  obtain ⟨_, _, made⟩ := ok_of_bind made
  obtain ⟨admission, _, made⟩ := ok_of_bind made
  obtain ⟨routing, _, made⟩ := ok_of_bind made
  exact ⟨admission, routing, (Except.ok.inj made).symm⟩

theorem inject_inv {r : Request} (done : c.inject r = .ok d) :
    ∃ n q, d = { c with events := q, injected := c.injected + 1 } ∧
      c.events.Joins [⟨r.arrivalTime, n, .clusterArrival r⟩] q := by
  obtain ⟨b, scheduled, done⟩ := ok_of_bind done
  obtain ⟨n, q, rfl, joins⟩ := schedule_inv scheduled
  exact ⟨n, q, (Except.ok.inj done).symm, joins⟩

/-- Until a run has begun, only events come to a cluster. -/
theorem injectAll_inv {todo : List Request} (done : c.injectAll todo = .ok d) :
    ∃ events injected, d = { c with events, injected } := by
  induction todo generalizing c with
  | nil => exact ⟨_, _, (Except.ok.inj done).symm⟩
  | cons r rest ih =>
      obtain ⟨b, first, done⟩ := ok_of_bind done
      obtain ⟨_, _, rfl, _⟩ := inject_inv first
      obtain ⟨events, injected, rfl⟩ := ih done
      exact ⟨events, injected, rfl⟩

theorem start_inv (done : c.start = .ok d) : ∃ events, d = { c with events } := by
  unfold start at done
  split at done
  · obtain ⟨_, q, rfl, _⟩ := schedule_inv done
    exact ⟨q, rfl⟩
  · exact ⟨_, (Except.ok.inj done).symm⟩

theorem Loaded.withEventLog (k : Loaded config rs c) : Loaded config rs c.withEventLog :=
  ⟨k.coherent.note ⟨rfl, rfl, rfl, rfl⟩ rfl rfl rfl, k.logged.note rfl rfl, k.clock, k.calm⟩

theorem awaits_of_new {trace : DecisionTrace} (made : new config trace = .ok c) :
    Awaits config [] c := by
  obtain ⟨admission, routing, rfl⟩ := new_inv made
  refine ⟨rfl, fun i hi => ?_, List.forall_mem_nil _, rfl⟩
  obtain ⟨m, hm, rfl⟩ := List.mem_map.mp hi
  obtain ⟨⟨role, id⟩, _, rfl⟩ := List.mem_map.mp hm
  exact ⟨id, role, _, rfl⟩

namespace Awaits

theorem withEventLog (k : Awaits config rs c) : Awaits config rs c.withEventLog :=
  ⟨k.clock, k.servers, k.arrivals, k.log⟩

theorem schedule {time : Nat} (k : Awaits config rs c) (done : c.schedule time a = .ok d)
    {ss : List Request} (more : ∀ r ∈ rs, r ∈ ss) (own : a = .snapshotRefresh ∨
      ∃ r ∈ ss, time = r.arrivalTime ∧ a = .clusterArrival r) : Awaits config ss d := by
  obtain ⟨n, q, rfl, joins⟩ := schedule_inv done
  refine ⟨k.clock, k.servers, fun x hx => ?_, k.log⟩
  rcases joins.mem_iff.mp hx with new | old
  · rw [List.mem_singleton.mp new]
    exact own
  · rcases k.arrivals x old with refresh | ⟨r, hr, same⟩
    · exact .inl refresh
    · exact .inr ⟨r, more r hr, same⟩

theorem inject {r : Request} (k : Awaits config rs c) (done : c.inject r = .ok d) :
    Awaits config (rs ++ [r]) d := by
  obtain ⟨b, scheduled, done⟩ := ok_of_bind done
  obtain rfl := Except.ok.inj done
  obtain ⟨clock, servers, arrivals, log⟩ := k.schedule scheduled
    (fun s hs => List.mem_append_left [r] hs)
    (.inr ⟨r, List.mem_append_right rs List.mem_cons_self, rfl, rfl⟩)
  exact ⟨clock, servers, arrivals, log⟩

theorem injectAll {todo : List Request} (k : Awaits config rs c)
    (done : c.injectAll todo = .ok d) : Awaits config (rs ++ todo) d := by
  induction todo generalizing rs c with
  | nil =>
      obtain rfl := Except.ok.inj done
      exact (List.append_nil rs).symm ▸ k
  | cons r rest ih =>
      obtain ⟨b, first, done⟩ := ok_of_bind done
      have left := ih (k.inject first) done
      rwa [List.append_assoc] at left

theorem start (k : Awaits config rs c) (done : c.start = .ok d) : Awaits config rs d := by
  unfold Cluster.start at done
  split at done
  · exact k.schedule done (fun r hr => hr) (.inl rfl)
  · exact Except.ok.inj done ▸ k

theorem holds {law : Law} (kept : law.Kept config.cluster.spec) (k : Awaits config rs c)
    (fresh : ∀ r ∈ rs, r.Fresh) : law.Holds c where
  servers i hi := by
    obtain ⟨id, role, rule, rfl⟩ := k.servers i hi
    exact k.clock ▸ kept.new id role rule
  actions e he := by
    rcases k.arrivals e he with refresh | ⟨r, hr, time, action⟩
    · rw [refresh]
      exact trivial
    · rw [time, action]
      exact kept.fresh r (fresh r hr)

end Awaits

/-- Under a valid configuration a law that is kept holds however far a run has come. -/
theorem valid_run_keeps {law : Law} (kept : law.Kept config.cluster.spec)
    (valid : config.validate = .ok ()) (trace : DecisionTrace) (fresh : ∀ r ∈ rs, r.Fresh)
    (distinct : (rs.map (·.id)).Nodup) :
    ∃ c d e, new config trace = .ok c ∧ c.injectAll rs = .ok d ∧ d.start = .ok e ∧
      Coherent config rs [] e {} ∧ Logged config rs e {} ∧ Awaits config rs e ∧
      ∀ limit, law.Holds (e.runEvents limit).2 ∧
        ∀ r ∈ e.completions limit, r.origin ∈ rs ∧ law.completed r := by
  obtain ⟨c, d, e, made, injected, started, _, coherent, logged⟩ := launch_ok valid trace fresh
  have awaits : Awaits config rs e :=
    ((awaits_of_new made).injectAll injected).start started
  refine ⟨c, d, e, made, injected, started, coherent, logged, awaits, fun limit => ?_⟩
  exact kept.run (promised_of_validate valid).valid distinct coherent logged
    (awaits.holds kept fresh) limit

end Cluster
end InferenceSim
