import InferenceSim.Proofs.Cluster.Burden

/-! The way of a request to an instance: arrival, admission and routing. None of them
fails, and the request goes on unless admission turns it away. -/
namespace InferenceSim
namespace Cluster
variable {config : Config} {rs : List Request} {c d : Cluster} {l : Ledger} {a b : Action}
  {r s : Request}

namespace Coherent

theorem forward (k : Coherent config rs [a] d l) (g : Logged config rs d l)
    (instances : d.instances = c.instances) (events : d.events = c.events)
    (own : a.request? = some r) (own' : b.request? = some s) (origin : s.origin = r.origin)
    (proper : b.Proper config.cluster.spec config.cluster.instances) {time : Nat}
    (later : d.now ≤ time)
    (less : config.policies.admission = .acceptAll → b.weight < a.weight) :
    ∃ e, d.schedule time b = .ok e ∧ Handled config rs a c e l := by
  have k' := k.carry proper own own' origin
  obtain ⟨n, q, scheduled, joined, coherent⟩ := k'.schedule later
  refine ⟨_, scheduled, coherent, g.note rfl rfl, fun all _ => .inl ?_⟩
  have weight := less all
  rw [burden_schedule joined, burden, burden, instances, events, loadOf, loadOf]
  simp only [List.singleton_append, List.map_cons, totalOf_cons]
  omega

theorem observe_ok (k : Coherent config rs [a] c l) :
    ∃ view board, c.observe = (view, { c with board }) ∧ Posted config.cluster.roles board ∧
      Seen config.cluster.roles view.snapshots := by
  have inside : ∀ m ∈ c.members, m.server.id < config.cluster.roles.length := by
    intro m hm
    obtain ⟨i, at'⟩ := List.getElem?_of_mem hm
    have at'' : c.instances[i]? = some m.server := by rw [instances, List.getElem?_map, at']; rfl
    rw [(k.employs i m.server at'').own, ClusterSettings.length_roles, ← k.size]
    exact (List.getElem?_eq_some_iff.mp at'').1
  obtain ⟨known, ids, posted⟩ := k.board.readBoard c.now c.members inside
  refine ⟨_, _, rfl, posted, known, fun i below => ?_⟩
  obtain ⟨s, at'⟩ := k.exists_instance (config.cluster.length_roles ▸ below)
  obtain ⟨m, hm, same⟩ := List.mem_map.mp (List.mem_of_getElem? at')
  have listed : i ∈ (readBoard c.now c.members c.board).1.map (·.id) := by
    rw [ids, ← (k.employs i s at').own, ← same]
    exact List.mem_map_of_mem (f := fun m => m.server.id) hm
  exact List.mem_map.mp listed

theorem arrival_ok (k : Coherent config rs [.clusterArrival r] c l) (g : Logged config rs c l) :
    ∃ d, c.dispatch (.clusterArrival r) = .ok d ∧ Handled config rs (.clusterArrival r) c d l := by
  have fresh : r.state = .arrived ∧ r.progress = 0 := k.proper (.clusterArrival r) List.mem_cons_self
  exact k.forward g rfl rfl (b := .admission r) rfl rfl rfl fresh (Nat.le_add_right _ _)
    fun _ => Nat.lt_succ_self 6

theorem admission_ok (k : Coherent config rs [.admission r] c l) (g : Logged config rs c l) :
    ∃ d l', c.dispatch (.admission r) = .ok d ∧ Handled config rs (.admission r) c d l' := by
  have fresh : r.state = .arrived ∧ r.progress = 0 := k.proper (.admission r) List.mem_cons_self
  obtain ⟨view, board, seen, posted, _⟩ := k.observe_ok
  obtain ⟨verdict, admission, judged⟩ : ∃ verdict admission,
    c.admission.judge r.view view = (verdict, admission) := ⟨_, _, rfl⟩
  have all : c.admission = .acceptAll →
      admission = .acceptAll ∧ verdict = .accept "always-admit" := by
    intro rule
    rw [rule] at judged
    obtain ⟨rfl, rfl⟩ := Prod.mk.inj judged
    exact ⟨rfl, rfl⟩
  have k' := k.consult admission c.routing posted rfl fun rule => (all rule).1
  cases verdict with
  | accept reason =>
      have k' := k'.note (d := { c with board, admission }.record
        (.admission r.id c.now true reason)) ⟨rfl, rfl, rfl, rfl⟩ rfl rfl rfl
      obtain ⟨d, done, handled⟩ := k'.forward (c := c) (b := .routing r)
        (g.note rfl rfl) rfl rfl rfl rfl rfl fresh (Nat.le_add_right _ _)
        fun _ => Nat.lt_succ_self 5
      refine ⟨d, l, ?_, handled⟩
      simp only [dispatch, handleAdmission, seen, judged]
      exact done
  | reject reason =>
      have rule : config.policies.admission ≠ .acceptAll := fun rule => by
        cases (all (k.admission rule)).2
      have k' := (k'.refuse rfl rule).note (d := { c with
        board, admission, log := c.log.rejectAtAdmission
        trace := (c.trace.record (.admission r.id c.now false reason)).record
          (.rejection r.id c.now .admission reason) }) ⟨rfl, rfl, rfl, rfl⟩ rfl rfl rfl
      refine ⟨_, _, ?_, k', ⟨g.injected, g.warmup, g.completed, congrArg (· + 1) g.refused,
        g.misrouted, g.unserved⟩, fun rule' _ => absurd rule' rule⟩
      simp only [dispatch, handleAdmission, seen, judged, reject, fresh.1]
      rfl
  | delay duration reason =>
      have k' := k'.note (d := { c with board, admission, log := c.log.delay })
        ⟨rfl, rfl, rfl, rfl⟩ rfl rfl rfl
      obtain ⟨d, done, handled⟩ := k'.forward (c := c) (b := .admission r)
        ⟨g.injected, g.warmup, g.completed, g.refused, g.misrouted, g.unserved⟩ rfl rfl rfl rfl rfl
        fresh (Nat.le_add_right _ _)
        fun rule => by cases (all (k.admission rule)).2
      refine ⟨d, l, ?_, handled⟩
      simp only [dispatch, handleAdmission, seen, judged]
      exact done

theorem send_ok (k : Coherent config rs [.routing s] d l) (g : Logged config rs d l)
    (instances : d.instances = c.instances) (events : d.events = c.events)
    (origin : r.origin = s.origin) (fresh : r.state = .arrived ∧ r.progress = 0) {host : Nat}
    (inside : host < config.cluster.instances) (decode : Option Nat)
    (targets : ∀ target, decode = some target → target < config.cluster.instances) (route : Route)
    (view : ClusterView) :
    ∃ e, d.send r host decode route view = .ok e ∧ Handled config rs (.routing s) c e l := by
  have unmoved := d.instances_count host
    (f := fun m => { m with pending := m.pending + 1, inFlight := m.inFlight + 1 }) fun _ => rfl
  obtain ⟨candidates, regret, judged⟩ : ∃ candidates regret, counterfactual host route.scores
    view.snapshots d.trace.topK = (candidates, regret) := ⟨_, _, rfl⟩
  have k' := k.note (d := (d.change host fun m =>
      { m with pending := m.pending + 1, inFlight := m.inFlight + 1 }).record
    (.routing r.id d.now host decode route.reason route.scores candidates regret))
    ⟨rfl, rfl, rfl, rfl⟩ unmoved rfl rfl
  obtain ⟨e, done, handled⟩ := k'.forward (c := c)
    (b := .instanceArrival host { r with
      priority := route.priorityHint.getD r.priority, decodeTarget := decode })
    (g.note rfl rfl)
    (unmoved.trans instances) events rfl rfl origin ⟨inside, fresh.1, fresh.2, targets⟩
    (Nat.le_add_right _ _) fun _ => Nat.lt_succ_self 4
  refine ⟨e, ?_, handled⟩
  unfold send
  dsimp only
  rw [show counterfactual host route.scores view.snapshots
    (d.change host _).trace.topK = _ from judged]
  exact done

theorem reject_routed (state : r.state = .arrived) (reason : String) :
    c.reject r .routing reason = .ok { c with
      log := c.log.rejectAtRouting
      trace := c.trace.record (.rejection r.id c.now .routing reason) } := by
  simp only [reject, state]
  rfl

theorem lighter_routed (instances : d.instances = c.instances) (events : d.events = c.events) :
    Lighter [.routing r] c [] d := by
  refine .inl ?_
  rw [burden, burden, instances, events, loadOf, loadOf]
  simp only [List.singleton_append, List.nil_append, List.map_cons, totalOf_cons]
  exact Nat.add_lt_add_right (Nat.lt_add_of_pos_left (show 0 < 5 by decide)) _

theorem routing_ok (valid : config.cluster.Valid) (k : Coherent config rs [.routing r] c l)
    (g : Logged config rs c l) :
    ∃ d l', c.dispatch (.routing r) = .ok d ∧ Handled config rs (.routing r) c d l' := by
  have fresh : r.state = .arrived ∧ r.progress = 0 := k.proper (.routing r) List.mem_cons_self
  obtain ⟨s, hs⟩ : ∃ s : Request, s =
    { r with priority := c.config.policies.priority.score r.view c.now } := ⟨_, rfl⟩
  obtain ⟨view, board, looked, posted, seen⟩ := k.observe_ok
  obtain ⟨route, routing, chosen⟩ : ∃ route routing,
    c.routing.route s.view view = (route, routing) := ⟨_, _, rfl⟩
  have target := target_assigned valid k.routing seen s.view
  have splits := c.routing.splits_route s.view view
  rw [chosen] at target splits
  dsimp only at target splits
  have k' := k.consult c.admission routing posted splits fun rule => rule
  have roles : ({ c with board, routing } : Cluster).instances.map (·.role) =
      config.cluster.roles := k'.roles_eq
  have g' : Logged config rs { c with board, routing } l := g.note rfl rfl
  have origin : s.origin = r.origin := by rw [hs]; rfl
  have fresh' : s.state = .arrived ∧ s.progress = 0 := by rw [hs]; exact fresh
  rcases target with ⟨host, decode, assigned, towards⟩ | ⟨unpaired, rejected⟩
  · have sound := assigned.sound
    obtain ⟨inside, inside'⟩ := assigned.inside
    obtain ⟨d, done, handled⟩ := k'.send_ok g' (c := c) rfl rfl origin fresh' inside decode inside'
      route view
    refine ⟨d, l, ?_, handled⟩
    cases decode with
    | none =>
        simp only [Target.towards] at towards sound
        simp only [dispatch, handleRouting, looked, ← hs, chosen, roles, sound, towards]
        exact done
    | some decode =>
        simp only [Target.towards] at towards sound
        simp only [dispatch, handleRouting, looked, ← hs, chosen, roles, sound, towards]
        exact done
  · have left := (k'.misroute rfl unpaired).note (d := { c with
      board, routing, log := c.log.rejectAtRouting
      trace := c.trace.record (.rejection r.id c.now .routing route.reason) })
      ⟨rfl, rfl, rfl, rfl⟩ rfl rfl rfl
    refine ⟨_, _, ?_, left, ⟨g.injected, g.warmup, g.completed, g.refused,
      congrArg (· + 1) g.misrouted, g.unserved⟩, fun _ _ => lighter_routed rfl rfl⟩
    simp only [dispatch, handleRouting, looked, ← hs, chosen, rejected, Target.misroute?]
    rw [reject_routed fresh'.1, hs]
    rfl

theorem refresh_ok (k : Coherent config rs [.snapshotRefresh] c l) (g : Logged config rs c l) :
    ∃ d, c.dispatch .snapshotRefresh = .ok d ∧ Coherent config rs [] d l ∧ Logged config rs d l ∧
      d.instances = c.instances ∧ (d.events.pending = c.events.pending ∨
        ∃ interval n, 0 < interval ∧ c.events.pending ≠ [] ∧
          d.events.pending.Perm (⟨c.now + interval, n, .snapshotRefresh⟩ :: c.events.pending)) := by
  obtain ⟨board, hboard⟩ : ∃ board, board =
    c.board.refreshAll (c.instances.map Instance.load) c.now := ⟨_, rfl⟩
  have posted : Posted config.cluster.roles board := hboard ▸ k.board.refreshAll _ _
  have k' := k.consult c.admission c.routing posted rfl fun rule => rule
  have g' : Logged config rs { c with board } l := g.note rfl rfl
  have left : Coherent config rs [] { c with board } l :=
    k'.exchange (List.forall_mem_nil _) (Nat.zero_le _) (fun _ => .refl _) (.refl _)
      k.ledger rfl
  cases every : c.config.snapshot.eventInterval with
  | none =>
      refine ⟨{ c with board }, ?_, left, g', rfl, .inl rfl⟩
      simp only [dispatch, handleRefresh, ← hboard, every]
  | some interval =>
      by_cases last : c.events.pending.isEmpty = true
      · refine ⟨{ c with board }, ?_, left, g', rfl, .inl rfl⟩
        simp only [dispatch, handleRefresh, ← hboard, every, last, if_true]
      · obtain ⟨n, q, scheduled, joined, coherent⟩ :=
          k'.schedule (Nat.le_add_right c.now interval)
        have positive : 0 < interval := by
          have kept := (Option.filter_eq_some_iff.mp every).2
          rw [Bool.and_eq_true, decide_eq_true_eq] at kept
          exact kept.2
        refine ⟨{ c with board, events := q }, ?_, coherent, g.note rfl rfl, rfl,
          .inr ⟨interval, n, positive, fun none => last (List.isEmpty_iff.mpr none), joined⟩⟩
        simp only [dispatch, handleRefresh, ← hboard, every, last]
        exact scheduled

end Coherent
end Cluster
end InferenceSim
