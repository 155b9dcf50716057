import InferenceSim.Cluster.Run
import InferenceSim.Proofs.Cluster.Completion
import InferenceSim.Proofs.Cluster.Pipeline
import InferenceSim.Proofs.Instance.Turns

/-! What an action does that is carried out, with everything it can do: the actions that it
sends on, the decisions that it records, and the members and their counters after it. -/
namespace InferenceSim

/-- The requests that the end of a step completes. -/
def Instance.finishing (i : Instance) (now : Nat) (q : EventQueue) : List Request :=
  match (i.complete now q).1 with
  | .ok report => report.completed
  | .error _ => []

namespace Member

def expecting (m : Member) : Member :=
  { m with pending := m.pending + 1, inFlight := m.inFlight + 1 }

def parting (m : Member) : Member := { m with inFlight := m.inFlight - 1 }

end Member

namespace Cluster

/-- The requests that an action completes. -/
def finishing (c : Cluster) : Action → List Request
  | .stepComplete host =>
    match c.instances[host]? with
    | some i => i.finishing c.now c.events
    | none => []
  | _ => []

def completionOf (now host : Nat) (r : Request) : DecisionRecord :=
  .completion r.id now host r.ttft (r.e2e.getD 0)

/-- The members once a host has counted the requests that a step of it has finished. -/
def countFinished (host : Nat) (rs : List Request) (ms : List Member) : List Member :=
  rs.foldl (fun ms _ => ms.modify host Member.parting) ms

/-- The members once the requests that a host has handed off are counted. -/
def countHanded (host : Nat) (hs : List Handoff) (ms : List Member) : List Member :=
  hs.foldl (fun ms h => (ms.modify host Member.parting).modify h.decode Member.expecting) ms

/-- What an action does: the actions it sends on, the decisions it records and the members
that it leaves. -/
inductive Deed (c : Cluster) :
    Action → List Action → List DecisionRecord → List Member → Prop
  | accept (r : Request) : Deed c (.clusterArrival r) [.admission r] [] c.members
  | grant (r : Request) (reason : String) :
      Deed c (.admission r) [.routing r] [.admission r.id c.now true reason] c.members
  | refuse (r : Request) (reason : String) :
      Deed c (.admission r) []
        [.admission r.id c.now false reason, .rejection r.id c.now .admission reason] c.members
  | delay (r : Request) : Deed c (.admission r) [.admission r] [] c.members
  | send {r : Request} {view : RequestView} {route : Route} {host : Nat} {decode : Option Nat}
      (priority : Priority) (candidates : List Candidate) (regret : Float)
      (chosen : (c.routing.route view c.observe.1).1 = route)
      (target : route.target = .towards host decode) :
      Deed c (.routing r) [.instanceArrival host { r with priority, decodeTarget := decode }]
        [.routing r.id c.now host decode route.reason route.scores candidates regret]
        (c.members.modify host Member.expecting)
  | forgo {r : Request} {view : RequestView} {route : Route}
      (chosen : (c.routing.route view c.observe.1).1 = route) (target : route.target = .reject) :
      Deed c (.routing r) [] [.rejection r.id c.now .routing route.reason] c.members
  | misroute {r : Request} {view : RequestView} {route : Route} {m : Misroute}
      (chosen : (c.routing.route view c.observe.1).1 = route)
      (wrong : route.target.misroute? (c.instances.map (·.role)) = some m) :
      Deed c (.routing r) []
        [.anomaly c.now (Anomaly.invalidRouting r.id c.now m.message).kind
            (Anomaly.invalidRouting r.id c.now m.message).detail,
          .rejection r.id c.now .routing m.message] c.members
  | join {a : Action} {host : Nat} {r : Request} {m : Member} {j : Instance} {q : EventQueue}
      {rings : List Action} (own : a = .instanceArrival host r ∨ a = .kvTransferComplete host r)
      (at' : c.members[host]? = some m)
      (done : m.server.enqueue r c.now c.events = (.ok .queued, j, q))
      (bare : ∀ b ∈ rings, b.request? = none) :
      Deed c a rings []
        (c.members.modify host fun n => { n with server := j, pending := m.pending - 1 })
  | turnAway {a : Action} {host : Nat} {r s : Request} {reason : Unfit} {m : Member}
      {j : Instance} {q : EventQueue} {rings : List Action}
      (own : a = .instanceArrival host r ∨ a = .kvTransferComplete host r)
      (at' : c.members[host]? = some m)
      (done : m.server.enqueue r c.now c.events = (.ok (.rejected s reason), j, q))
      (bare : ∀ b ∈ rings, b.request? = none) :
      Deed c a rings [.rejection s.id c.now .host reason.message]
        (c.members.modify host fun n =>
          { n with server := j, pending := m.pending - 1, inFlight := n.inFlight - 1 })
  | step {host : Nat} {m : Member} {j : Instance} {q : EventQueue} {rings : List Action}
      (at' : c.members[host]? = some m)
      (done : m.server.step c.now c.config.latency c.events = .ok (j, q))
      (bare : ∀ b ∈ rings, b.request? = none) :
      Deed c (.step host) rings [] (c.members.modify host fun n => { n with server := j })
  | complete {host : Nat} {m : Member} {report : StepReport} {j k : Instance} {q : EventQueue}
      {rings : List Action} (at' : c.members[host]? = some m)
      (done : m.server.complete c.now c.events = (.ok report, j, q))
      (rescored : k = j ∨ ∃ rule, k = j.reprioritize rule c.now)
      (bare : ∀ b ∈ rings, b.request? = none) :
      Deed c (.stepComplete host) (report.handoffs.map Handoff.action ++ rings)
        (report.completed.map (completionOf c.now host))
        (countHanded host report.handoffs (countFinished host report.completed
          (c.members.modify host fun n => { n with server := k })))
  | refresh {rings : List Action} (bare : ∀ b ∈ rings, b.request? = none) :
      Deed c .snapshotRefresh rings [] c.members

/-- What an action makes of the board and of the routing policy: who asks what there is reads the
board, and only routing moves the policy on. -/
inductive Looks (c : Cluster) : Action → SnapshotBoard → RoutingPolicy → Prop
  | ask (r : Request) : Looks c (.admission r) c.observe.2.board c.routing
  | choose (r : Request) (view : RequestView) :
      Looks c (.routing r) c.observe.2.board (c.routing.route view c.observe.1).2
  | refresh (loads : List LiveLoad) :
      Looks c .snapshotRefresh (c.board.refreshAll loads c.now) c.routing
  | rest {a : Action} (other : ∀ r, a ≠ .routing r) : Looks c a c.board c.routing

/-- A cluster after it has sent some actions on, recorded some decisions and logged the
requests that an action completes. -/
structure Leaves (c : Cluster) (a : Action) (sent : List Action) (notes : List DecisionRecord)
    (d : Cluster) : Prop where
  clock : d.clock = c.clock
  config : d.config = c.config
  looks : Looks c a d.board d.routing
  eventLog : d.eventLog = c.eventLog
  trace : d.trace = notes.foldl DecisionTrace.record c.trace
  log : d.log.all.toList = c.log.all.toList ++ (c.finishing a).filterMap Completion.ofRequest?
  events : ∃ added, c.events.Joins added d.events ∧ (added.map (·.action)).Perm sent

variable {c d e : Cluster} {a b : Action} {r : Request} {host time : Nat}

/-- What is to happen afterwards is what was sent on, and what was to happen before. -/
theorem Leaves.actions {sent : List Action} {notes : List DecisionRecord}
    (k : Leaves c a sent notes d) : d.events.actions.Perm (sent ++ c.events.actions) := by
  obtain ⟨added, joins, sends⟩ := k.events
  have more := joins.pending.map (·.action)
  rw [List.map_append] at more
  exact more.trans (sends.append_right _)

/-- What is addressed to an instance leaves the router alone. -/
theorem Looks.away (own : a.host? = some host) : Looks c a c.board c.routing :=
  .rest fun r same => by
    rw [same] at own
    cases own

theorem schedule_inv (done : c.schedule time a = .ok d) :
    ∃ n q, d = { c with events := q } ∧ c.events.Joins [⟨time, n, a⟩] q := by
  unfold schedule at done
  split at done
  · next n q scheduled =>
    exact ⟨n, q, (Except.ok.inj done).symm, EventQueue.joins_of_schedule scheduled⟩
  · cases done

theorem reject_inv {stage : RejectionStage} {reason : String}
    (done : c.reject r stage reason = .ok d) :
    ∃ log, d = { c with log, trace := c.trace.record (.rejection r.id c.now stage reason) } ∧
      log.all = c.log.all := by
  unfold reject at done
  split at done
  · refine ⟨_, (Except.ok.inj done).symm, ?_⟩
    cases stage <;> rfl
  · cases done

theorem member_inv {m : Member} (found : c.member host = .ok m) :
    c.members[host]? = some m := by
  unfold member at found
  split at found
  · next m' at' => exact Except.ok.inj found ▸ at'
  · cases found

def Does (c : Cluster) (a : Action) (d : Cluster) : Prop :=
  ∃ sent notes, Deed c a sent notes d.members ∧ Leaves c a sent notes d

theorem does_of_schedule {notes : List DecisionRecord} (done : d.schedule time b = .ok e)
    (deed : Deed c a [b] notes d.members) (bare : c.finishing a = []) (clock : d.clock = c.clock)
    (config : d.config = c.config) (looks : Looks c a d.board d.routing)
    (eventLog : d.eventLog = c.eventLog)
    (trace : d.trace = notes.foldl DecisionTrace.record c.trace) (log : d.log.all = c.log.all)
    (events : d.events = c.events) : Does c a e := by
  obtain ⟨n, q, rfl, joins⟩ := schedule_inv done
  refine ⟨_, _, deed, clock, config, looks, eventLog, trace, ?_, _, events ▸ joins, .refl _⟩
  rw [bare, log]
  exact (List.append_nil _).symm

theorem does_of_deed {notes : List DecisionRecord} (deed : Deed c a [] notes d.members)
    (bare : c.finishing a = []) (log : d.log.all = c.log.all) (clock : d.clock = c.clock)
    (config : d.config = c.config) (looks : Looks c a d.board d.routing)
    (eventLog : d.eventLog = c.eventLog)
    (trace : d.trace = notes.foldl DecisionTrace.record c.trace) (events : d.events = c.events) :
    Does c a d := by
  refine ⟨_, _, deed, clock, config, looks, eventLog, trace, ?_, [], events ▸ .refl, .refl _⟩
  rw [bare, log]
  exact (List.append_nil _).symm

theorem does_arrival (done : c.dispatch (.clusterArrival r) = .ok d) :
    Does c (.clusterArrival r) d :=
  does_of_schedule done (.accept r) rfl rfl rfl (.rest fun _ same => by cases same) rfl rfl rfl rfl

theorem does_admission (done : c.handleAdmission r = .ok d) : Does c (.admission r) d := by
  unfold handleAdmission at done
  dsimp only at done
  split at done
  · next reason _ => exact does_of_schedule done (.grant r reason) rfl rfl rfl (.ask r) rfl rfl rfl rfl
  · next reason _ =>
    obtain ⟨log, rfl, same⟩ := reject_inv done
    exact does_of_deed (.refuse r reason) rfl same rfl rfl (.ask r) rfl rfl rfl
  · exact does_of_schedule done (.delay r) rfl rfl rfl (.ask r) rfl rfl rfl rfl

theorem does_send {s : Request} (decode : Option Nat) {route : Route} {view : RequestView}
    {board : SnapshotBoard} {routing : RoutingPolicy} {p : Priority} (same : s = { r with priority := p })
    (chosen : (c.routing.route view c.observe.1).1 = route)
    (target : route.target = .towards host decode) (looks : Looks c (.routing r) board routing)
    (done : ({ c with board, routing } : Cluster).send s host decode route c.observe.1 = .ok d) :
    Does c (.routing r) d := by
  subst same
  obtain ⟨candidates, regret, judged⟩ : ∃ candidates regret, counterfactual host route.scores
    c.observe.1.snapshots c.trace.topK = (candidates, regret) := ⟨_, _, rfl⟩
  unfold Cluster.send at done
  dsimp only at done
  rw [show counterfactual host route.scores c.observe.1.snapshots
    (({ c with board, routing } : Cluster).change host _).trace.topK = _ from judged] at done
  exact does_of_schedule done (.send _ candidates regret chosen target) rfl rfl rfl looks rfl rfl rfl
    rfl

theorem does_routing (done : c.handleRouting r = .ok d) : Does c (.routing r) d := by
  unfold handleRouting at done
  dsimp only at done
  split at done
  · next m wrong =>
    obtain ⟨log, rfl, same⟩ := reject_inv done
    exact does_of_deed (.misroute rfl wrong) rfl same rfl rfl (.choose r _) rfl rfl rfl
  · split at done
    · next target =>
      obtain ⟨log, rfl, same⟩ := reject_inv done
      exact does_of_deed (.forgo rfl target) rfl same rfl rfl (.choose r _) rfl rfl rfl
    · next host target => exact does_send none rfl rfl target (.choose r _) done
    · next host decode target => exact does_send (some decode) rfl rfl target (.choose r _) done

theorem does_enqueue (done : c.handleEnqueue host r = .ok d)
    (own : a = .instanceArrival host r ∨ a = .kvTransferComplete host r) : Does c a d := by
  obtain ⟨m, found, done⟩ := ok_of_bind done
  have at' := member_inv found
  obtain ⟨out, j, q, ran⟩ : ∃ out j q, m.server.enqueue r c.now c.events = (out, j, q) :=
    ⟨_, _, _, rfl⟩
  rw [ran] at done
  obtain ⟨outcome, rfl, settled⟩ := ok_of_bind done
  obtain ⟨added, joins, bare⟩ := Instance.rings_of_enqueue ran
  have bare' : ∀ b ∈ added.map (·.action), b.request? = none := List.forall_mem_map.mpr bare
  have none : c.finishing a = [] := by rcases own with rfl | rfl <;> rfl
  have blind : Looks c a c.board c.routing := by rcases own with rfl | rfl <;> exact .away rfl
  cases outcome with
  | queued =>
      obtain rfl := Except.ok.inj settled
      refine ⟨_, _, .join own at' ran bare', rfl, rfl, blind, rfl, rfl, ?_, added, joins, .refl _⟩
      rw [none]
      exact (List.append_nil _).symm
  | rejected s reason =>
      obtain ⟨log, rfl, same⟩ := reject_inv settled
      refine ⟨_, _, .turnAway own at' ran bare', rfl, rfl, blind, rfl, rfl, ?_, added, joins, .refl _⟩
      rw [none, List.filterMap_nil, List.append_nil]
      exact congrArg Array.toList same

theorem does_step (done : c.handleStep host = .ok d) : Does c (.step host) d := by
  obtain ⟨m, found, done⟩ := ok_of_bind done
  obtain ⟨⟨j, q⟩, ran, done⟩ := ok_of_bind done
  obtain ⟨added, joins, bare⟩ := Instance.rings_of_step ran
  obtain rfl := Except.ok.inj done
  exact ⟨_, _, .step (member_inv found) ran (List.forall_mem_map.mpr bare), rfl, rfl,
    .away rfl, rfl, rfl, (List.append_nil _).symm, added, joins, .refl _⟩

theorem finishAll_inv (completed : List Request) (host : Nat) (c : Cluster) :
    ∃ log, completed.foldl (finishRequest host) c = { c with
        members := countFinished host completed c.members, log
        trace := (completed.map (completionOf c.now host)).foldl DecisionTrace.record c.trace } ∧
      log.all.toList = c.log.all.toList ++ completed.filterMap Completion.ofRequest? := by
  induction completed generalizing c with
  | nil => exact ⟨_, rfl, (List.append_nil _).symm⟩
  | cons r rest ih =>
      obtain ⟨log, done, known⟩ := ih (finishRequest host c r)
      refine ⟨log, done, ?_⟩
      have logged : (finishRequest host c r).log = c.log.complete r := rfl
      rw [known, logged, RunLog.complete, List.filterMap_cons]
      cases Completion.ofRequest? r with
      | none => rfl
      | some x =>
          rw [Array.toList_push, List.append_assoc]
          rfl

theorem handOffAll_inv {hs : List Handoff} (done : hs.foldlM (handOff host) c = .ok d) :
    ∃ q added, d = { c with members := countHanded host hs c.members, events := q } ∧
      c.events.Joins added q ∧ (added.map (·.action)).Perm (hs.map Handoff.action) := by
  induction hs generalizing c with
  | nil =>
      obtain rfl := Except.ok.inj done
      exact ⟨_, [], rfl, .refl, .refl _⟩
  | cons h rest ih =>
      obtain ⟨b, first, done⟩ := ok_of_bind done
      obtain ⟨_, _, first⟩ := ok_of_bind first
      obtain ⟨n, q, rfl, joins⟩ := schedule_inv first
      obtain ⟨p, added, rfl, joins', same⟩ := ih done
      refine ⟨p, _, rfl, joins.trans joins', ?_⟩
      rw [List.map_append]
      exact (same.append_right _).trans List.perm_append_comm

theorem finishing_eq {m : Member} {report : StepReport} {j : Instance} {q : EventQueue}
    (at' : c.members[host]? = some m)
    (ran : m.server.complete c.now c.events = (.ok report, j, q)) :
    c.finishing (.stepComplete host) = report.completed := by
  simp only [finishing, instances, List.getElem?_map, at', Option.map_some, Instance.finishing, ran]

theorem does_stepComplete (done : c.handleStepComplete host = .ok d) :
    Does c (.stepComplete host) d := by
  obtain ⟨m, found, done⟩ := ok_of_bind done
  have at' := member_inv found
  obtain ⟨out, j, q, ran⟩ : ∃ out j q, m.server.complete c.now c.events = (out, j, q) :=
    ⟨_, _, _, rfl⟩
  rw [ran] at done
  obtain ⟨report, rfl, checked⟩ := ok_of_bind done
  obtain ⟨_, _, ended⟩ := ok_of_bind checked
  obtain ⟨added, joins, bare⟩ := Instance.rings_of_complete ran
  obtain ⟨k, hk⟩ : ∃ k, k = (if c.config.policies.priority.isConstant then j
    else j.reprioritize c.config.policies.priority c.now) := ⟨_, rfl⟩
  have rescored : k = j ∨ ∃ rule, k = j.reprioritize rule c.now := by
    rw [hk]
    split
    · exact .inl rfl
    · exact .inr ⟨_, rfl⟩
  obtain ⟨log, finished, known⟩ := finishAll_inv report.completed host
    (({ c with events := q } : Cluster).change host fun m => { m with server := k })
  have done : report.handoffs.foldlM (handOff host) (report.completed.foldl (finishRequest host)
      (({ c with events := q } : Cluster).change host fun m => { m with server := k })) = .ok d := by
    rw [hk]
    exact ended
  rw [finished] at done
  obtain ⟨p, more, rfl, joins', same⟩ := handOffAll_inv done
  refine ⟨_, _, .complete at' ran rescored (List.forall_mem_map.mpr bare), rfl, rfl,
    .away rfl, rfl, rfl, finishing_eq at' ran ▸ known, _,
    joins.trans joins', ?_⟩
  rw [List.map_append]
  exact same.append_right _

theorem does_refresh (done : c.handleRefresh = .ok d) : Does c .snapshotRefresh d := by
  have nothing : ∀ b ∈ ([] : List Action), b.request? = none := List.forall_mem_nil _
  unfold handleRefresh at done
  dsimp only at done
  split at done
  · split at done
    · rw [← Except.ok.inj done]
      exact does_of_deed (.refresh nothing) rfl rfl rfl rfl (.refresh _) rfl rfl rfl
    · exact does_of_schedule done (.refresh (List.forall_mem_singleton.mpr rfl))
        rfl rfl rfl (.refresh _) rfl rfl rfl rfl
  · rw [← Except.ok.inj done]
    exact does_of_deed (.refresh nothing) rfl rfl rfl rfl (.refresh _) rfl rfl rfl

theorem does_of_dispatch (done : c.dispatch a = .ok d) : Does c a d := by
  cases a with
  | clusterArrival r => exact does_arrival done
  | admission r => exact does_admission done
  | routing r => exact does_routing done
  | instanceArrival host r => exact does_enqueue done (.inl rfl)
  | kvTransferComplete host r => exact does_enqueue done (.inr rfl)
  | stepComplete host => exact does_stepComplete done
  | step host => exact does_step done
  | snapshotRefresh => exact does_refresh done

namespace Coherent
variable {config : Config} {rs : List Request} {l : Ledger} {i j k : Instance} {q : EventQueue}

theorem host_eq {hand : List Action} (coherent : Coherent config rs hand c l) {m : Member}
    (at' : c.members[host]? = some m) : c.instances[host]? = some m.server ∧ m.server.id = host := by
  have found : c.instances[host]? = some m.server := by
    rw [instances, List.getElem?_map, at']
    rfl
  exact ⟨found, (coherent.employs host m.server found).own⟩

theorem stems_step (usable : config.cluster.spec.Usable)
    (coherent : Coherent config rs [.step host] c l) (at' : c.instances[host]? = some i)
    (done : i.step c.now c.config.latency c.events = .ok (j, q)) :
    j.id = i.id ∧ (j.requests.map (·.stem)).Perm (i.requests.map (·.stem)) := by
  obtain ⟨busy, ready⟩ := Instance.ready_of_awaited (coherent.awaits at' (decide_eq_true rfl))
  obtain ⟨j', q', done', _, moved, stems, _⟩ := Instance.step_ok usable
    (coherent.employs host i at').coherent busy ready c.config.latency (Nat.le_of_eq coherent.clock)
  obtain ⟨rfl, _⟩ := Prod.mk.inj (Except.ok.inj (done.symm.trans done'))
  exact ⟨moved.id, stems⟩

theorem ended_complete (coherent : Coherent config rs [.stepComplete host] c l)
    (at' : c.instances[host]? = some i) {report : StepReport}
    (done : i.complete c.now c.events = (.ok report, j, q))
    (rescored : k = j ∨ ∃ rule, k = j.reprioritize rule c.now) :
    k.id = i.id ∧ Instance.Ended config.cluster.spec c.now i report k := by
  obtain ⟨busy, o, flight⟩ :=
    Instance.flight_of_awaited (coherent.awaits at' (decide_eq_true rfl))
  obtain ⟨report', j', q', done', sound, moved, ended⟩ := Instance.complete_ok
    (coherent.employs host i at').coherent busy flight (Nat.le_of_eq coherent.clock)
  obtain ⟨same, rest⟩ := Prod.mk.inj (done.symm.trans done')
  obtain rfl := Except.ok.inj same
  obtain ⟨rfl, rfl⟩ := Prod.mk.inj rest
  rcases rescored with rfl | ⟨rule, rfl⟩
  · exact ⟨moved.id, ended⟩
  · obtain ⟨_, moved, ended⟩ := ended.rescore sound moved rule c.now
    exact ⟨moved.id, ended⟩

/-- Routing sends every request to instances for its phases, or turns it away if no instance is
left to decode. -/
theorem assigned {hand : Action} (valid : config.cluster.Valid)
    (coherent : Coherent config rs [hand] c l) (view : RequestView) :
    (c.routing.route view c.observe.1).1.target.misroute? (c.instances.map (·.role)) = none ∧
      ((∃ host decode, config.cluster.Assigns host decode ∧
        (c.routing.route view c.observe.1).1.target = .towards host decode) ∨
      ¬config.cluster.Paired ∧ (c.routing.route view c.observe.1).1.target = .reject) := by
  obtain ⟨seen, board, looked, _, known⟩ := coherent.observe_ok
  rw [looked, coherent.roles_eq]
  rcases target_assigned valid coherent.routing known view with
    ⟨host, decode, assigned, target⟩ | ⟨unpaired, target⟩
  · exact ⟨target ▸ assigned.sound, .inl ⟨host, decode, assigned, target⟩⟩
  · exact ⟨target ▸ rfl, .inr ⟨unpaired, target⟩⟩

end Coherent
end Cluster
end InferenceSim
