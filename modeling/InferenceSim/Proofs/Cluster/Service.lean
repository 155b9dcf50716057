import InferenceSim.Proofs.Cluster.Burden

/-! The service of requests: their arrival at the queue of an instance and its steps.
Neither fails, and a request is turned away only if it can never be served. -/
namespace InferenceSim

namespace Cluster
variable {config : Config} {rs : List Request} {c d : Cluster} {l : Ledger} {a : Action}
  {r : Request} {host : Nat} {i : Instance}

namespace Coherent

/-- The request in hand is in no instance. -/
theorem apart (distinct : (rs.map (·.id)).Nodup) (k : Coherent config rs [a] c l)
    (own : a.request? = some r) (at' : c.instances[host]? = some i) :
    r.id ∉ i.requests.map (·.id) := by
  intro inside
  obtain ⟨s, hs, same⟩ := List.mem_map.mp inside
  have nodup := (k.owners.map (·.id)).nodup_iff.mpr distinct
  rw [List.map_append, List.map_map, List.map_append] at nodup
  have whole : carried ([a] ++ c.events.actions) = r :: carried c.events.actions := by
    simp only [carried, List.singleton_append, List.filterMap_cons, own]
  rw [whole] at nodup
  have fresh := (List.nodup_cons.mp (List.nodup_append.mp nodup).1).1
  refine fresh (List.mem_append_right _ (List.mem_map.mpr ⟨s, ?_, same⟩))
  exact List.mem_flatMap.mpr ⟨i, List.mem_of_getElem? at', hs⟩

theorem enqueue_served (distinct : (rs.map (·.id)).Nodup) (k : Coherent config rs [a] c l)
    (g : Logged config rs c l) (own : a.request? = some r)
    (inside : host < config.cluster.instances) (state : r.state = .arrived ∨ r.state = .queued)
    (start : r.progress = 0 ∨ r.inputTokens ≤ r.progress)
    (resident : Resident config.cluster.spec r)
    (targets : ∀ target, r.decodeTarget = some target → target < config.cluster.instances)
    (less : r.weight < a.weight) :
    ∃ d, c.handleEnqueue host r = .ok d ∧ Handled config rs a c d l := by
  obtain ⟨i, at'⟩ := k.exists_instance inside
  have employed := k.employs host i at'
  obtain ⟨m, found, server⟩ := member_ok at'
  obtain ⟨j, q, s, queued, coherent, moved, requests, stem, stats⟩ :=
    Instance.enqueue_ok employed.coherent state start resident (k.apart distinct own at')
      (show c.events.now ≤ c.now from Nat.le_of_eq k.clock)
  obtain ⟨d, hd⟩ : ∃ d, d = ({ c with events := q } : Cluster).change host fun n =>
    { n with server := j, pending := m.pending - 1 } := ⟨_, rfl⟩
  have replaces : Replaces c host j d := hd ▸ .change c host q fun _ => rfl
  have events : d.events = q := hd ▸ rfl
  have weight : weightOf j.requests = weightOf i.requests + r.weight := by
    rw [requests, weightOf_append, ← Request.weight_of_stem stem]
    rfl
  refine ⟨d, ?_, ?_, ?_, fun _ _ => ?_⟩
  · simp only [handleEnqueue, found, server, bind, Except.bind, queued, hd]
    rfl
  · refine k.replace at' replaces (events ▸ moved) coherent ?_ (List.forall_mem_nil _) rfl
      (List.forall_mem_nil _) ?_ ?_
      k.ledger (by rw [stats])
    · intro p hp target
      rw [requests] at hp
      rcases List.mem_append.mp hp with before | last
      · exact employed.targets p before target
      · rw [List.mem_singleton.mp last, Request.decodeTarget_of_stem stem]
        exact targets target
    · intro id
      rw [List.filter_cons, Action.asleep_of_carries own]
      exact .refl _
    · simp only [carried, List.filterMap_cons, own, requests, List.map_append, List.map_cons,
        Request.origin_of_stem stem]
      exact (List.perm_append_singleton _ _).append_right _
  · rw [hd]
    exact g.note rfl rfl
  · refine lighter_replace at' replaces (events ▸ moved) (.inl ?_)
    rw [weight, show loadOf [a] = a.weight from rfl, show loadOf [] = 0 from rfl]
    omega

theorem enqueue_unserved (k : Coherent config rs [.instanceArrival host r] c l)
    (g : Logged config rs c l) (unserved : config.cluster.spec.serves r = false) :
    ∃ d, c.handleEnqueue host r = .ok d ∧ Handled config rs (.instanceArrival host r) c d
      { l with unserved := r.origin :: l.unserved } := by
  obtain ⟨inside, state, start, _⟩ : (Action.instanceArrival host r).Proper config.cluster.spec
    config.cluster.instances := k.proper _ List.mem_cons_self
  obtain ⟨i, at'⟩ := k.exists_instance inside
  have employed := k.employs host i at'
  obtain ⟨m, found, server⟩ := member_ok at'
  obtain ⟨s, reason, refused, rejected, origin⟩ :=
    Instance.enqueue_refused employed.coherent state start unserved c.now c.events
  obtain ⟨j, hj⟩ : ∃ j : Instance, j =
    { i with stats := { i.stats with rejected := i.stats.rejected + 1 } } := ⟨_, rfl⟩
  obtain ⟨d, hd⟩ : ∃ d : Cluster, d = { c.change host (fun n =>
      { n with server := j, pending := m.pending - 1, inFlight := n.inFlight - 1 }) with
    log := c.log.rejectAtInstance
    trace := c.trace.record (.rejection s.id c.now .host reason.message) } := ⟨_, rfl⟩
  have replaces : Replaces c host j d :=
    ⟨⟨hd ▸ rfl, hd ▸ rfl, hd ▸ rfl, hd ▸ rfl⟩, hd ▸ rfl, hd ▸ instances_change c host fun _ => rfl⟩
  have moved : i.Moved c.events [] j d.events := by
    rw [hd, hj]
    exact ⟨rfl, rfl, [], .refl, .refl _, List.forall_mem_nil _⟩
  have coherent := employed.coherent
  have requests : j.requests = i.requests := by rw [hj]; rfl
  refine ⟨d, ?_, ?_, ?_, fun _ _ => ?_⟩
  · simp only [handleEnqueue, found, server, bind, Except.bind, refused, reject, rejected, hd, hj]
    rfl
  · refine k.replace at' replaces moved ?_ ?_ (List.forall_mem_nil _) rfl
      (List.forall_mem_nil _) (fun _ => .refl _) ?_
      ⟨k.ledger.completed, fun p hp => ?_, k.ledger.refused, k.ledger.misrouted⟩ (by rw [hj])
    · rw [hj]
      exact ⟨coherent.limits, coherent.fitting, coherent.flight, coherent.idle⟩
    · rw [requests]
      exact employed.targets
    · rw [requests]
      classical
      refine List.perm_iff_count.mpr fun q => ?_
      simp only [carried, List.filterMap_cons, List.filterMap_nil, Action.request?, Ledger.all,
        List.nil_append, List.cons_append, List.map_cons, List.count_append, List.count_cons]
      omega
    · rcases List.mem_cons.mp hp with rfl | later
      · exact unserved
      · exact k.ledger.unserved p later
  · rw [hd]
    exact ⟨g.injected, g.warmup, g.completed, g.refused, g.misrouted,
      congrArg (· + 1) g.unserved⟩
  · refine lighter_replace at' replaces moved (.inl ?_)
    rw [requests]
    exact Nat.add_lt_add_right (show 0 < 4 by decide) _

theorem instanceArrival_ok (distinct : (rs.map (·.id)).Nodup)
    (k : Coherent config rs [.instanceArrival host r] c l) (g : Logged config rs c l) :
    ∃ d l', c.dispatch (.instanceArrival host r) = .ok d ∧
      Handled config rs (.instanceArrival host r) c d l' := by
  obtain ⟨inside, state, start, targets⟩ : (Action.instanceArrival host r).Proper
    config.cluster.spec config.cluster.instances := k.proper _ List.mem_cons_self
  cases served : config.cluster.spec.serves r with
  | true =>
      have prompt := InstanceSpec.prompt_of_serves served
      have unfinished : r.progress < r.span :=
        start ▸ Nat.lt_of_lt_of_le prompt r.inputTokens_le_span
      have weight : r.weight < 4 := by
        rw [Request.weight]
        split <;> decide
      obtain ⟨d, done, handled⟩ := k.enqueue_served distinct g rfl inside (.inl state) (.inl start)
        ⟨served, unfinished⟩ targets weight
      exact ⟨d, l, done, handled⟩
  | false =>
      obtain ⟨d, done, handled⟩ := k.enqueue_unserved g served
      exact ⟨d, _, done, handled⟩

theorem kvTransferComplete_ok (distinct : (rs.map (·.id)).Nodup)
    (k : Coherent config rs [.kvTransferComplete host r] c l) (g : Logged config rs c l) :
    ∃ d, c.dispatch (.kvTransferComplete host r) = .ok d ∧
      Handled config rs (.kvTransferComplete host r) c d l := by
  obtain ⟨inside, off⟩ : (Action.kvTransferComplete host r).Proper config.cluster.spec
    config.cluster.instances := k.proper _ List.mem_cons_self
  have weight : r.weight < 2 := by
    rw [Request.weight, off.target]
    decide
  exact k.enqueue_served distinct g rfl inside (.inr off.state) (.inr off.prompt) off.resident
    (fun t some => absurd (some.symm.trans off.target) (Option.some_ne_none t)) weight

theorem queued_of_handed (distinct : (rs.map (·.id)).Nodup)
    (k : Coherent config rs [.kvTransferComplete host r] c l) (at' : c.instances[host]? = some i)
    {out : Enqueued} {j : Instance} {q : EventQueue}
    (done : i.enqueue r c.now c.events = (.ok out, j, q)) : out = .queued := by
  have off : HandedOff config.cluster.spec r := (k.proper _ List.mem_cons_self).2
  obtain ⟨_, _, _, queued, _⟩ := Instance.enqueue_ok (k.employs _ _ at').coherent (.inr off.state)
    (.inr off.prompt) off.resident (k.apart distinct rfl at') (Nat.le_of_eq k.clock)
  exact (Except.ok.inj (Prod.mk.inj (queued.symm.trans done)).1).symm

/-- An instance whose event is in hand waits for it. -/
theorem awaits (k : Coherent config rs [a] c l) (at' : c.instances[host]? = some i)
    (own : a.wakes host = true) : a ∈ i.awaited := by
  refine (k.employs host i at').awaited.mem_iff.mp (List.mem_filter.mpr ⟨?_, own⟩)
  exact List.mem_append_left _ List.mem_cons_self

theorem counted_at {hand : List Action} (k : Coherent config rs hand c l)
    (counted : ∀ r ∈ rs, r.Counted) (at' : c.instances[host]? = some i) :
    ∀ r ∈ i.requests, r.Counted := by
  intro r hr
  refine counted r.origin (k.owners.mem_iff.mp (List.mem_append_left _ (List.mem_map_of_mem ?_)))
  exact List.mem_append_right _ (List.mem_flatMap.mpr ⟨i, List.mem_of_getElem? at', hr⟩)

theorem step_ok (valid : config.cluster.Valid) (k : Coherent config rs [.step host] c l)
    (g : Logged config rs c l) :
    ∃ d, c.dispatch (.step host) = .ok d ∧ Handled config rs (.step host) c d l := by
  obtain ⟨i, at'⟩ := k.exists_instance (k.proper (.step host) List.mem_cons_self)
  have employed := k.employs host i at'
  obtain ⟨m, found, server⟩ := member_ok at'
  obtain ⟨busy, ready⟩ := Instance.ready_of_awaited (k.awaits at' (decide_eq_true rfl))
  obtain ⟨j, q, stepped, coherent, moved, stems, count, nearer⟩ :=
    Instance.step_ok valid.usable employed.coherent busy ready c.config.latency
      (show c.events.now ≤ c.now from Nat.le_of_eq k.clock)
  rw [employed.own] at moved
  obtain ⟨d, hd⟩ : ∃ d, d = ({ c with events := q } : Cluster).change host fun n =>
    { n with server := j } := ⟨_, rfl⟩
  have replaces : Replaces c host j d := hd ▸ .change c host q fun _ => rfl
  have events : d.events = q := hd ▸ rfl
  refine ⟨d, ?_, ?_, ?_, fun _ counted => ?_⟩
  · simp only [dispatch, handleStep, found, server, bind, Except.bind, stepped, hd]
    rfl
  · refine k.replace at' replaces (events ▸ moved) coherent ?_ (List.forall_mem_nil _) rfl ?_
      (fun _ => .refl _) ?_
      k.ledger (by rw [count])
    · exact Instance.targets_of_stems stems employed.targets
    · intro b hb
      rw [List.mem_singleton.mp hb]
      exact decide_eq_true rfl
    · refine List.Perm.append_right _ ?_
      have origins := stems.map Request.origin
      rw [List.map_map, List.map_map] at origins
      exact origins
  · rw [hd]
    exact g.note rfl rfl
  · refine lighter_replace at' replaces (events ▸ moved) (.inr ⟨?_, nearer (k.counted_at counted at')⟩)
    rw [weightOf_stems stems]
    rfl

end Coherent
end Cluster
end InferenceSim
