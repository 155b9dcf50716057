import InferenceSim.Proofs.Instance.Stepping
import InferenceSim.Proofs.Routing.Validity

/-! What holds of a cluster between two events, and also in the middle of one: then some
actions are in hand, which are neither pending nor carried out. Every request is in one
place, the payload of an action or an instance, or has left the cluster. -/
namespace InferenceSim

namespace Action

def isRefresh : Action → Bool
  | .snapshotRefresh => true
  | _ => false

/-- What an action may carry, and which of `n` instances it may be meant for. -/
def Proper (spec : InstanceSpec) (n : Nat) : Action → Prop
  | .clusterArrival r | .admission r | .routing r => r.state = .arrived ∧ r.progress = 0
  | .instanceArrival host r => host < n ∧ r.state = .arrived ∧ r.progress = 0 ∧
      ∀ target, r.decodeTarget = some target → target < n
  | .kvTransferComplete host r => host < n ∧ HandedOff spec r
  | .stepComplete host | .step host => host < n
  | .snapshotRefresh => True

section
variable {a : Action} {m n : Nat}

theorem wakes_iff : a.wakes n = true ↔ a = .step n ∨ a = .stepComplete n := by
  cases a <;> simp [wakes]

theorem proper_of_wakes {spec : InstanceSpec} (woken : a.wakes m = true) (inside : m < n) :
    a.Proper spec n := by
  rcases wakes_iff.mp woken with rfl | rfl <;> exact inside

theorem wakes_other (woken : a.wakes m = true) (other : m ≠ n) : a.wakes n = false := by
  rcases wakes_iff.mp woken with rfl | rfl <;> exact decide_eq_false other

theorem calm_of_wakes (woken : a.wakes m = true) : a.isRefresh = false := by
  rcases wakes_iff.mp woken with rfl | rfl <;> rfl

theorem bare_of_wakes (woken : a.wakes m = true) : a.request? = none := by
  rcases wakes_iff.mp woken with rfl | rfl <;> rfl

theorem asleep_of_carries {r : Request} (own : a.request? = some r) (n : Nat) :
    a.wakes n = false := by
  cases a with
  | step | stepComplete | snapshotRefresh => cases own
  | _ => rfl

theorem calm_of_carries {r : Request} (own : a.request? = some r) : a.isRefresh = false := by
  cases a with
  | step | stepComplete | snapshotRefresh => cases own
  | _ => rfl

end
end Action

def carried (actions : List Action) : List Request := actions.filterMap Action.request?

/-- The requests that have left a cluster, as they were made. -/
structure Ledger where
  completed : List Request := []
  refused : List Request := []
  misrouted : List Request := []
  unserved : List Request := []

def Ledger.all (l : Ledger) : List Request :=
  l.completed ++ l.refused ++ l.misrouted ++ l.unserved

/-- Only requests that can be served were completed, and only others were turned away by an
instance. Admission turned none away if it accepts all, and routing if any instance decodes. -/
structure Ledger.Fair (config : Config) (l : Ledger) : Prop where
  completed : ∀ r ∈ l.completed, config.cluster.spec.serves r
  unserved : ∀ r ∈ l.unserved, config.cluster.spec.serves r = false
  refused : config.policies.admission = .acceptAll → l.refused = []
  misrouted : config.cluster.Paired → l.misrouted = []

namespace Cluster

/-- What holds of the instance with some id, where `actions` are all that are to come. -/
structure Employs (config : Config) (actions : List Action) (id : Nat) (i : Instance) : Prop where
  own : i.id = id
  role : config.cluster.roles[id]? = some i.role
  coherent : i.Coherent config.cluster.spec
  awaited : (actions.filter (·.wakes id)).Perm i.awaited
  targets : ∀ r ∈ i.requests, ∀ target, r.decodeTarget = some target →
    target < config.cluster.instances

/-- A cluster of a configuration that requests `rs` were injected into. The actions in
`hand` are still to be carried out, and the ledger knows the requests that have left. -/
structure Coherent (config : Config) (rs : List Request) (hand : List Action) (c : Cluster)
    (l : Ledger) : Prop where
  settings : c.config = config
  size : c.instances.length = config.cluster.instances
  clock : c.events.now = c.clock.now
  ordered : c.events.Ordered
  proper : ∀ a ∈ hand ++ c.events.actions, a.Proper config.cluster.spec config.cluster.instances
  refreshes : (hand ++ c.events.actions).countP Action.isRefresh ≤ 1
  employs : ∀ (id : Nat) (i : Instance), c.instances[id]? = some i →
    Employs config (hand ++ c.events.actions) id i
  owners : ((carried (hand ++ c.events.actions) ++ c.instances.flatMap Instance.requests).map
    Request.origin ++ l.all).Perm rs
  ledger : l.Fair config
  counted : totalOf (c.instances.map (·.stats.completed)) = l.completed.length
  board : Posted config.cluster.roles c.board
  routing : c.routing.splits = config.cluster.disaggregated.enabled
  admission : config.policies.admission = .acceptAll → c.admission = .acceptAll

/-- The log of a cluster agrees with the ledger. -/
structure Logged (config : Config) (rs : List Request) (c : Cluster) (l : Ledger) : Prop where
  injected : c.injected = rs.length
  warmup : c.log.warmup = config.run.warmup
  completed : c.log.all.toList.map (·.request) = l.completed.map (·.id)
  refused : c.log.rejectedAtAdmission = l.refused.length
  misrouted : c.log.rejectedAtRouting = l.misrouted.length
  unserved : c.log.rejectedAtInstance = l.unserved.length

/-- A cluster with the same settings, policies and snapshots. -/
structure Keeps (c d : Cluster) : Prop where
  config : d.config = c.config
  board : d.board = c.board
  routing : d.routing = c.routing
  admission : d.admission = c.admission

/-- A cluster in which an instance gives way to another one. -/
structure Replaces (c : Cluster) (host : Nat) (j : Instance) (d : Cluster) : Prop
    extends Keeps c d where
  clock : d.clock = c.clock
  instances : d.instances = c.instances.modify host fun _ => j

/-- Whatever else changes, the log stays. -/
theorem Logged.note {config : Config} {rs : List Request} {c d : Cluster} {l : Ledger}
    (g : Logged config rs c l) (log : d.log = c.log) (injected : d.injected = c.injected) :
    Logged config rs d l where
  injected := injected.trans g.injected
  warmup := log ▸ g.warmup
  completed := log ▸ g.completed
  refused := log ▸ g.refused
  misrouted := log ▸ g.misrouted
  unserved := log ▸ g.unserved

theorem instances_change (c : Cluster) (host : Nat) {f : Member → Member}
    {g : Instance → Instance} (same : ∀ m, (f m).server = g m.server) :
    (c.change host f).instances = c.instances.modify host g :=
  map_modify same c.members host

theorem Replaces.change (c : Cluster) (host : Nat) (q : EventQueue) {f : Member → Member}
    {j : Instance} (server : ∀ m, (f m).server = j) :
    Replaces c host j (({ c with events := q } : Cluster).change host f) :=
  ⟨⟨rfl, rfl, rfl, rfl⟩, rfl, instances_change _ host server⟩

theorem instances_count (c : Cluster) (host : Nat) {f : Member → Member}
    (same : ∀ m, (f m).server = m.server) : (c.change host f).instances = c.instances := by
  rw [c.instances_change host (g := fun i => i) same]
  exact List.modify_id host c.instances

theorem member_ok {c : Cluster} {host : Nat} {i : Instance} (at' : c.instances[host]? = some i) :
    ∃ m, c.member host = .ok m ∧ m.server = i := by
  rw [instances, List.getElem?_map] at at'
  obtain ⟨m, found, same⟩ := Option.map_eq_some_iff.mp at'
  exact ⟨m, by rw [member, found], same⟩

namespace Coherent
variable {config : Config} {rs : List Request} {hand hand' : List Action} {c d : Cluster}
  {l l' : Ledger} {a b : Action}

theorem roles_eq (k : Coherent config rs hand c l) :
    c.instances.map (·.role) = config.cluster.roles :=
  map_eq_of_getElem? (k.size.trans (ClusterSettings.length_roles _).symm) fun id i at' =>
    (k.employs id i at').role

theorem exists_instance (k : Coherent config rs hand c l) {host : Nat}
    (inside : host < config.cluster.instances) : ∃ i, c.instances[host]? = some i :=
  ⟨_, List.getElem?_eq_getElem (k.size.symm ▸ inside)⟩

theorem rearrange (k : Coherent config rs hand c l) (keeps : Keeps c d)
    (instances : d.instances = c.instances) (clock : d.events.now = d.clock.now)
    (ordered : d.events.Ordered)
    (same : (hand' ++ d.events.actions).Perm (hand ++ c.events.actions)) :
    Coherent config rs hand' d l where
  settings := keeps.config.trans k.settings
  size := by rw [instances, k.size]
  clock := clock
  ordered := ordered
  proper a ha := k.proper a (same.mem_iff.mp ha)
  refreshes := by rw [same.countP_eq]; exact k.refreshes
  employs id i at' := by
    have employed := k.employs id i (instances ▸ at')
    exact { employed with awaited := (same.filter _).trans employed.awaited }
  owners := by
    rw [instances]
    refine List.Perm.trans ?_ k.owners
    exact (((same.filterMap _).append_right _).map _).append_right _
  ledger := k.ledger
  counted := by rw [instances, k.counted]
  board := keeps.board ▸ k.board
  routing := by rw [keeps.routing, k.routing]
  admission all := by rw [keeps.admission, k.admission all]

theorem note (k : Coherent config rs hand c l) (keeps : Keeps c d)
    (instances : d.instances = c.instances) (events : d.events = c.events)
    (clock : d.clock = c.clock) : Coherent config rs hand d l :=
  k.rearrange keeps instances (by rw [events, clock, k.clock]) (events ▸ k.ordered)
    (by rw [events])

theorem schedule (k : Coherent config rs (a :: hand) c l) {time : Nat} (later : c.now ≤ time) :
    ∃ n q, c.schedule time a = .ok { c with events := q } ∧
      q.pending.Perm (⟨time, n, a⟩ :: c.events.pending) ∧
      Coherent config rs hand { c with events := q } l := by
  obtain ⟨n, q, scheduled, gains, joined⟩ := c.events.schedule_ok
    (show c.events.now ≤ time from k.clock ▸ later) a
  refine ⟨n, q, by rw [Cluster.schedule, scheduled], joined, ?_⟩
  refine k.rearrange ⟨rfl, rfl, rfl, rfl⟩ rfl (gains.now.trans k.clock) (gains.ordered k.ordered)
    ((gains.actions.append_left hand).trans ?_)
  exact List.perm_middle

theorem consult (k : Coherent config rs hand c l) (admission : AdmissionPolicy)
    (routing : RoutingPolicy) {board : SnapshotBoard} (posted : Posted config.cluster.roles board)
    (splits : routing.splits = c.routing.splits)
    (all : c.admission = .acceptAll → admission = .acceptAll) :
    Coherent config rs hand { c with board, admission, routing } l :=
  { k with
    board := posted
    routing := splits.trans k.routing
    admission := fun rule => all (k.admission rule) }

theorem exchange (k : Coherent config rs hand c l)
    (proper : ∀ a ∈ hand', a.Proper config.cluster.spec config.cluster.instances)
    (refreshes : hand'.countP Action.isRefresh ≤ hand.countP Action.isRefresh)
    (wakes : ∀ id, (hand'.filter (·.wakes id)).Perm (hand.filter (·.wakes id)))
    (owners : ((carried hand').map Request.origin ++ l'.all).Perm
      ((carried hand).map Request.origin ++ l.all))
    (ledger : l'.Fair config) (counted : l'.completed.length = l.completed.length) :
    Coherent config rs hand' c l' where
  settings := k.settings
  size := k.size
  clock := k.clock
  ordered := k.ordered
  proper a ha := by
    rcases List.mem_append.mp ha with inHand | pending
    · exact proper a inHand
    · exact k.proper a (List.mem_append_right hand pending)
  refreshes := by
    have most := k.refreshes
    rw [List.countP_append] at most ⊢
    omega
  employs id i at' := by
    have employed := k.employs id i at'
    refine { employed with awaited := .trans ?_ employed.awaited }
    rw [List.filter_append, List.filter_append]
    exact (wakes id).append_right _
  owners := by
    classical
    refine List.perm_iff_count.mpr fun r => ?_
    have before := k.owners.count_eq r
    have moved := owners.count_eq r
    simp only [carried, List.filterMap_append, List.map_append, List.count_append] at before moved ⊢
    omega
  ledger := ledger
  counted := k.counted.trans counted.symm
  board := k.board
  routing := k.routing
  admission := k.admission

theorem carry (k : Coherent config rs [a] c l) {r s : Request}
    (proper : b.Proper config.cluster.spec config.cluster.instances)
    (own : a.request? = some r) (own' : b.request? = some s) (origin : s.origin = r.origin) :
    Coherent config rs [b] c l := by
  refine k.exchange (fun x hx => List.mem_singleton.mp hx ▸ proper) ?_ (fun id => .of_eq ?_)
    (.of_eq ?_) k.ledger rfl
  · rw [List.countP_cons, Action.calm_of_carries own']
    exact Nat.zero_le _
  · rw [List.filter_cons, List.filter_cons, Action.asleep_of_carries own,
      Action.asleep_of_carries own']
    rfl
  · simp only [carried, List.filterMap_cons, own, own', List.map_cons, origin]

/-- The request in hand leaves without having been completed. -/
theorem leave (k : Coherent config rs [a] c l) {r : Request} (own : a.request? = some r)
    (all : l'.all.Perm (r.origin :: l.all)) (ledger : l'.Fair config)
    (completed : l'.completed = l.completed) : Coherent config rs [] c l' := by
  refine k.exchange (List.forall_mem_nil _) (Nat.zero_le _) (fun id => .of_eq ?_) ?_ ledger
    (congrArg List.length completed)
  · rw [List.filter_cons, Action.asleep_of_carries own]
    rfl
  · simp only [carried, List.filterMap_cons, own, List.filterMap_nil, List.map_nil, List.map_cons]
    exact all

theorem refuse (k : Coherent config rs [a] c l) {r : Request} (own : a.request? = some r)
    (rule : config.policies.admission ≠ .acceptAll) :
    Coherent config rs [] c { l with refused := r.origin :: l.refused } := by
  refine k.leave own ?_ ⟨k.ledger.completed, k.ledger.unserved, fun all => absurd all rule,
    k.ledger.misrouted⟩ rfl
  rw [Ledger.all, Ledger.all, List.append_assoc, List.append_assoc, List.append_assoc,
    List.append_assoc]
  exact List.perm_middle

theorem misroute (k : Coherent config rs [a] c l) {r : Request} (own : a.request? = some r)
    (unpaired : ¬config.cluster.Paired) :
    Coherent config rs [] c { l with misrouted := r.origin :: l.misrouted } := by
  refine k.leave own ?_ ⟨k.ledger.completed, k.ledger.unserved, k.ledger.refused,
    fun paired => absurd paired unpaired⟩ rfl
  rw [Ledger.all, Ledger.all, List.append_assoc, List.append_assoc (l.completed ++ l.refused)]
  exact List.perm_middle

section
variable {host : Nat} {i j : Instance} {spent : List Action}

theorem employs_changed (k : Coherent config rs hand c l) (at' : c.instances[host]? = some i)
    (moved : i.Moved c.events spent j d.events) (coherent : j.Coherent config.cluster.spec)
    (targets : ∀ r ∈ j.requests, ∀ target, r.decodeTarget = some target →
      target < config.cluster.instances)
    (own : ∀ a ∈ spent, a.wakes host)
    (handed : (hand.filter (·.wakes host)).Perm ((spent ++ hand').filter (·.wakes host))) :
    Employs config (hand' ++ d.events.actions) host j := by
  have employed := k.employs host i at'
  obtain ⟨added, gains, awaited, wakes⟩ := employed.own ▸ moved.events
  have pending := gains.actions.filter (·.wakes host)
  have waited := employed.awaited
  refine ⟨moved.id.trans employed.own, moved.role ▸ employed.role, coherent, ?_, targets⟩
  rw [List.filter_append, List.filter_eq_self.mpr wakes] at pending
  rw [List.filter_append, List.filter_eq_self.mpr own] at handed
  rw [List.filter_append] at waited ⊢
  exact perm_balance handed waited awaited pending

theorem employs_other (k : Coherent config rs hand c l) (at' : c.instances[host]? = some i)
    (moved : i.Moved c.events spent j d.events) (own : ∀ a ∈ spent, a.wakes host) {id : Nat}
    {s : Instance} (other : host ≠ id) (at'' : c.instances[id]? = some s)
    (handed : (hand.filter (·.wakes id)).Perm ((spent ++ hand').filter (·.wakes id))) :
    Employs config (hand' ++ d.events.actions) id s := by
  obtain ⟨added, gains, _, wakes⟩ := (k.employs host i at').own ▸ moved.events
  have none : ∀ {as : List Action}, (∀ a ∈ as, a.wakes host) → as.filter (·.wakes id) = [] := by
    intro as all
    refine List.filter_eq_nil_iff.mpr fun a ha => ?_
    rw [Action.wakes_other (all a ha) other]
    exact Bool.false_ne_true
  have pending := gains.actions.filter (·.wakes id)
  have employed := k.employs id s at''
  have waited := employed.awaited
  refine { employed with awaited := ?_ }
  rw [List.filter_append, none wakes, List.nil_append] at pending
  rw [List.filter_append, none own, List.nil_append] at handed
  rw [List.filter_append] at waited ⊢
  exact (handed.symm.append pending).trans waited

theorem owners_changed (k : Coherent config rs hand c l) (at' : c.instances[host]? = some i)
    (moved : i.Moved c.events spent j d.events)
    (owners : ((carried hand' ++ j.requests).map Request.origin ++ l'.all).Perm
      ((carried hand ++ i.requests).map Request.origin ++ l.all)) :
    ((carried (hand' ++ d.events.actions) ++
      (c.instances.modify host fun _ => j).flatMap Instance.requests).map Request.origin ++
        l'.all).Perm rs := by
  obtain ⟨added, gains, _, wakes⟩ := moved.events
  have bare : added.filterMap Action.request? = [] := List.filterMap_eq_nil_iff.mpr fun a ha =>
    Action.bare_of_wakes (wakes a ha)
  have all := (flatMap_modify (fun _ => j) Instance.requests at').map Request.origin
  have pending := (gains.actions.filterMap Action.request?).map Request.origin
  rw [List.filterMap_append, bare, List.nil_append] at pending
  classical
  refine List.perm_iff_count.mpr fun r => ?_
  have all := all.count_eq r
  have pending := pending.count_eq r
  have before := k.owners.count_eq r
  have owners := owners.count_eq r
  simp only [carried, List.filterMap_append, List.map_append, List.count_append] at *
  omega

/-- An instance changes, with the actions that were waited for or that it has brought. -/
theorem replace (k : Coherent config rs hand c l) (at' : c.instances[host]? = some i)
    (replaces : Replaces c host j d)
    (moved : i.Moved c.events spent j d.events) (coherent : j.Coherent config.cluster.spec)
    (targets : ∀ r ∈ j.requests, ∀ target, r.decodeTarget = some target →
      target < config.cluster.instances)
    (proper : ∀ a ∈ hand', a.Proper config.cluster.spec config.cluster.instances)
    (calm : hand'.countP Action.isRefresh = 0) (own : ∀ a ∈ spent, a.wakes host)
    (handed : ∀ id, (hand.filter (·.wakes id)).Perm ((spent ++ hand').filter (·.wakes id)))
    (owners : ((carried hand' ++ j.requests).map Request.origin ++ l'.all).Perm
      ((carried hand ++ i.requests).map Request.origin ++ l.all))
    (ledger : l'.Fair config)
    (counted : j.stats.completed + l.completed.length = i.stats.completed + l'.completed.length) :
    Coherent config rs hand' d l' := by
  obtain ⟨added, gains, _, wakes⟩ := (k.employs host i at').own ▸ moved.events
  have inside : host < config.cluster.instances := k.size ▸ (List.getElem?_eq_some_iff.mp at').1
  constructor
  case settings => exact replaces.config.trans k.settings
  case size => rw [replaces.instances, List.length_modify, k.size]
  case clock => rw [gains.now, replaces.clock, k.clock]
  case ordered => exact gains.ordered k.ordered
  case proper =>
    intro a ha
    rcases List.mem_append.mp ha with inHand | pending
    · exact proper a inHand
    · rcases List.mem_append.mp (gains.actions.mem_iff.mp pending) with new | old
      · exact Action.proper_of_wakes (wakes a new) inside
      · exact k.proper a (List.mem_append_right hand old)
  case refreshes =>
    have none : added.countP Action.isRefresh = 0 := List.countP_eq_zero.mpr fun a ha => by
      rw [Action.calm_of_wakes (wakes a ha)]
      exact Bool.false_ne_true
    have most := k.refreshes
    rw [List.countP_append] at most
    rw [List.countP_append, gains.actions.countP_eq, List.countP_append]
    omega
  case employs =>
    intro id s at''
    rw [replaces.instances] at at''
    by_cases same : host = id
    · obtain rfl := same
      rw [List.getElem?_modify_eq, at'] at at''
      obtain rfl : j = s := Option.some.inj at''
      exact k.employs_changed at' moved coherent targets own (handed host)
    · rw [List.getElem?_modify_ne _ _ same] at at''
      exact k.employs_other at' moved own same at'' (handed id)
  case owners =>
    rw [replaces.instances]
    exact k.owners_changed at' moved owners
  case ledger => exact ledger
  case counted =>
    have total := totalOf_modify (fun _ => j) (fun i => i.stats.completed) at'
    rw [replaces.instances]
    have before := k.counted
    omega
  case board => exact replaces.board ▸ k.board
  case routing => rw [replaces.routing, k.routing]
  case admission => exact fun all => by rw [replaces.admission, k.admission all]

end

end Coherent
end Cluster
end InferenceSim
