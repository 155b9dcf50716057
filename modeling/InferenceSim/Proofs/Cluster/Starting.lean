import InferenceSim.Cluster.Run
import InferenceSim.Proofs.Cluster.Burden
import InferenceSim.Proofs.Results

/-! The start of a run. A valid configuration makes a cluster, and every fresh request
can be injected into it. -/
namespace InferenceSim

namespace Cluster
variable {config : Config} {rs : List Request} {hand : List Action} {c : Cluster} {l : Ledger}
  {r : Request}

/-- What a valid configuration promises to a run. -/
structure Promised (config : Config) : Prop where
  valid : config.cluster.Valid
  routing : config.cluster.disaggregated.enabled = config.policies.routing.isDisaggregated
  admission : ∃ p, AdmissionPolicy.ofRule config.policies.admission = .ok p
  router : ∃ p, RoutingPolicy.ofRule config.policies.routing config.cluster.blockSize
    config.routerSeed = .ok p

theorem promised_of_validate (valid : config.validate = .ok ()) : Promised config := by
  obtain ⟨⟨⟩, settings, valid⟩ := ok_of_bind valid
  obtain ⟨⟨⟩, policies, _⟩ := ok_of_bind valid
  obtain ⟨⟨⟩, cluster, settings⟩ := ok_of_bind (ok_of_mapError settings)
  obtain ⟨_, agree, _⟩ := ok_of_bind settings
  obtain ⟨admission, admits, policies⟩ := ok_of_bind (ok_of_mapError policies)
  obtain ⟨_, _, policies⟩ := ok_of_bind policies
  obtain ⟨router, routes, _⟩ := ok_of_bind policies
  exact ⟨ClusterSettings.valid_of_validate cluster,
    of_decide_eq_true (ClusterSettings.holds_of_ensure agree), ⟨_, admits⟩,
    ⟨_, routes⟩⟩

/-- A cluster before its run: no request has moved yet. -/
structure Loaded (config : Config) (rs : List Request) (c : Cluster) : Prop where
  coherent : Coherent config rs [] c {}
  logged : Logged config rs c {}
  clock : c.now = 0
  calm : c.events.actions.countP Action.isRefresh = 0

theorem of_new {roles : List Role} {spec : InstanceSpec} {rule : SchedulerRule} {id : Nat}
    {i : Instance}
    (found : (roles.zipIdx.map fun x => Instance.new x.2 x.1 spec rule)[id]? = some i) :
    ∃ role, roles[id]? = some role ∧ i = .new id role spec rule := by
  rw [List.getElem?_map, List.getElem?_zipIdx, Nat.zero_add] at found
  obtain ⟨⟨role, id'⟩, same, rfl⟩ := Option.map_eq_some_iff.mp found
  obtain ⟨role', here, both⟩ := Option.map_eq_some_iff.mp same
  obtain ⟨rfl, rfl⟩ := Prod.mk.inj both
  exact ⟨role', here, rfl⟩

theorem coherent_of_new (promised : Promised config) (trace : DecisionTrace)
    {admission : AdmissionPolicy} {routing : RoutingPolicy}
    (admits : AdmissionPolicy.ofRule config.policies.admission = .ok admission)
    (routes : RoutingPolicy.ofRule config.policies.routing config.cluster.blockSize
      config.routerSeed = .ok routing) {members : List Member}
    (servers : members.map (·.server) = config.cluster.roles.zipIdx.map fun x =>
      Instance.new x.2 x.1 config.cluster.spec config.policies.scheduler) :
    Coherent config [] [] {
      config, members, admission, routing, trace
      board := .new config.snapshot config.cluster.roles, log := .new config.run.warmup } {} := by
  constructor
  case settings | clock => rfl
  case size =>
    rw [instances, servers, List.length_map, List.length_zipIdx, ClusterSettings.length_roles]
  case ordered => exact ⟨List.forall_mem_nil _, .nil⟩
  case proper => exact List.forall_mem_nil _
  case refreshes => exact Nat.zero_le _
  case employs =>
    intro id i at'
    rw [instances, servers] at at'
    obtain ⟨role, here, rfl⟩ := of_new at'
    exact ⟨rfl, here, Instance.new_coherent promised.valid.usable id role _, .refl _,
      List.forall_mem_nil _⟩
  case owners =>
    have none : (members.map (·.server)).flatMap Instance.requests = [] := by
      rw [servers, List.flatMap_eq_nil_iff]
      intro i hi
      obtain ⟨x, _, rfl⟩ := List.mem_map.mp hi
      rfl
    rw [instances, none]
    exact .refl _
  case ledger => exact ⟨List.forall_mem_nil _, List.forall_mem_nil _, fun _ => rfl, fun _ => rfl⟩
  case counted =>
    rw [instances, servers, List.map_map]
    refine totalOf_zero fun n hn => ?_
    obtain ⟨x, _, rfl⟩ := List.mem_map.mp hn
    rfl
  case board => exact Posted.new _ _
  case routing => rw [promised.routing, RoutingPolicy.splits_ofRule routes]
  case admission =>
    intro all
    rw [all] at admits
    exact (Except.ok.inj admits).symm

theorem new_ok (valid : config.validate = .ok ()) (trace : DecisionTrace) :
    ∃ c, new config trace = .ok c ∧ Loaded config [] c := by
  have promised := promised_of_validate valid
  obtain ⟨admission, admits⟩ := promised.admission
  obtain ⟨router, routes⟩ := promised.router
  have servers : (config.cluster.roles.zipIdx.map fun x => Member.mk
      (.new x.2 x.1 config.cluster.spec config.policies.scheduler) 0 0).map (·.server) =
      config.cluster.roles.zipIdx.map fun x =>
        Instance.new x.2 x.1 config.cluster.spec config.policies.scheduler := List.map_map
  refine ⟨_, ?_, coherent_of_new promised trace admits routes servers,
    ⟨rfl, rfl, rfl, rfl, rfl, rfl⟩, rfl, rfl⟩
  simp only [new, valid, admits, routes, bind, Except.bind, mapError_ok]
  rfl

theorem Coherent.bring {rs' : List Request} {a : Action} (k : Coherent config rs hand c l)
    (proper : a.Proper config.cluster.spec config.cluster.instances)
    (asleep : ∀ id, a.wakes id = false)
    (refreshes : (a :: hand ++ c.events.actions).countP Action.isRefresh ≤ 1)
    (owners : ((carried [a]).map Request.origin ++ rs).Perm rs') :
    Coherent config rs' (a :: hand) c l :=
  { k with
    proper := by
      intro b hb
      rcases List.mem_cons.mp hb with rfl | before
      · exact proper
      · exact k.proper b before
    refreshes := refreshes
    employs := by
      intro id i at'
      have employed := k.employs id i at'
      refine { employed with awaited := ?_ }
      rw [List.cons_append, List.filter_cons, asleep id]
      exact employed.awaited
    owners := by
      refine .trans ?_ ((k.owners.append_left _).trans owners)
      rw [← List.append_assoc, ← List.map_append, ← List.append_assoc]
      refine .of_eq ?_
      rw [carried, carried, carried, ← List.filterMap_append]
      rfl }

theorem inject_ok (k : Loaded config rs c) (fresh : r.Fresh) :
    ∃ d, c.inject r = .ok d ∧ Loaded config (rs ++ [r]) d := by
  have state : r.state = .arrived ∧ r.progress = 0 := by
    rw [fresh]
    exact ⟨rfl, rfl⟩
  have joined : ([r.origin] ++ rs).Perm (rs ++ [r]) := by
    rw [← show r = r.origin from fresh]
    exact List.perm_append_comm
  have calm : ([Action.clusterArrival r] ++ c.events.actions).countP Action.isRefresh ≤ 1 := by
    rw [List.countP_append, k.calm]
    exact Nat.zero_le 1
  have k' := k.coherent.bring (a := .clusterArrival r) state (fun _ => rfl) calm joined
  obtain ⟨n, q, scheduled, pending, coherent⟩ := k'.schedule
    (show c.now ≤ r.arrivalTime from k.clock ▸ Nat.zero_le _)
  refine ⟨{ c with events := q, injected := c.injected + 1 }, ?_, ?_, ?_, k.clock, ?_⟩
  · simp only [inject, scheduled]
    rfl
  · exact coherent.note ⟨rfl, rfl, rfl, rfl⟩ rfl rfl rfl
  · have g := k.logged
    refine ⟨?_, g.warmup, g.completed, g.refused, g.misrouted, g.unserved⟩
    rw [List.length_append, ← g.injected]
    rfl
  · rw [EventQueue.actions, (pending.map Event.action).countP_eq]
    exact k.calm

theorem injectAll_ok {todo : List Request} (k : Loaded config rs c)
    (fresh : ∀ r ∈ todo, r.Fresh) :
    ∃ d, c.injectAll todo = .ok d ∧ Loaded config (rs ++ todo) d := by
  induction todo generalizing rs c with
  | nil => exact ⟨c, rfl, (List.append_nil rs).symm ▸ k⟩
  | cons r rest ih =>
      obtain ⟨d, injected, k'⟩ := inject_ok k (fresh r List.mem_cons_self)
      obtain ⟨e, all, k''⟩ := ih k' fun s hs => fresh s (List.mem_cons_of_mem r hs)
      refine ⟨e, ?_, ?_⟩
      · rw [injectAll, List.foldlM_cons, injected]
        exact all
      · rw [List.append_assoc] at k''
        exact k''

theorem start_ok (k : Loaded config rs c) :
    ∃ d, c.start = .ok d ∧ Coherent config rs [] d {} ∧ Logged config rs d {} := by
  cases every : c.config.snapshot.eventInterval with
  | none => exact ⟨c, by rw [start, every], k.coherent, k.logged⟩
  | some interval =>
      have once : ([Action.snapshotRefresh] ++ c.events.actions).countP Action.isRefresh ≤ 1 := by
        rw [List.countP_append, k.calm]
        exact Nat.le_refl 1
      have k' := k.coherent.bring (a := .snapshotRefresh) trivial (fun _ => rfl) once (.refl rs)
      obtain ⟨n, q, scheduled, _, coherent⟩ := k'.schedule (Nat.le_add_right c.now interval)
      refine ⟨_, ?_, coherent, k.logged.note rfl rfl⟩
      rw [start, every]
      exact scheduled

/-- Fresh requests are brought into a run. -/
theorem launch_ok (valid : config.validate = .ok ()) (trace : DecisionTrace)
    (fresh : ∀ r ∈ rs, r.Fresh) :
    ∃ c d e, new config trace = .ok c ∧ c.injectAll rs = .ok d ∧ d.start = .ok e ∧
      Loaded config rs d ∧ Coherent config rs [] e {} ∧ Logged config rs e {} := by
  obtain ⟨c, made, empty⟩ := new_ok valid trace
  obtain ⟨d, injected, loaded⟩ := injectAll_ok empty fresh
  obtain ⟨e, started, coherent, logged⟩ := start_ok loaded
  exact ⟨c, d, e, made, injected, started, loaded, coherent, logged⟩

end Cluster
end InferenceSim
