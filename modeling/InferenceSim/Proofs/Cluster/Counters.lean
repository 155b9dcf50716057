import InferenceSim.Proofs.Cluster.Laws

/-! The router's counters for each instance. They follow the requests that are on their way to
it, wait there and run there, and what is taken off them was counted before. -/
namespace InferenceSim

/-- Whether an action brings a request to the queue of an instance. -/
def Action.reaches (host : Nat) : Action → Bool
  | .instanceArrival id _ | .kvTransferComplete id _ => id = host
  | _ => false

theorem Action.reaches_bare {a : Action} (bare : a.request? = none) (host : Nat) :
    a.reaches host = false := by
  cases a with
  | step | stepComplete | snapshotRefresh => rfl
  | _ => cases bare

namespace Cluster

/-- The counters of members by id: how many requests are arriving at each, and how many it
has let go that are not yet taken off. -/
def Tally (arriving leaving : Nat → Nat) (ms : List Member) : Prop :=
  ∀ (id : Nat) (m : Member), ms[id]? = some m →
    m.pending = arriving id ∧ m.inFlight = m.pending + m.server.requests.length + leaving id

/-- The counters are exact, where `actions` are all that are to come. -/
def Exact (actions : List Action) (ms : List Member) : Prop :=
  Tally (fun id => actions.countP (·.reaches id)) (fun _ => 0) ms

/-- What an event that has begun takes off the counters was counted, and policies are shown
how many requests are on their way to each instance. -/
structure Covered (a : Action) (b : Cluster) : Prop where
  arrival : ∀ (host : Nat) (r : Request),
    a = .instanceArrival host r ∨ a = .kvTransferComplete host r →
    ∃ m, b.member host = .ok m ∧ 0 < m.pending ∧ 0 < m.inFlight
  ending : ∀ host, a = .stepComplete host →
    ∃ m report j q, b.member host = .ok m ∧
      m.server.complete b.now b.events = (.ok report, j, q) ∧
      report.completed.length + report.handoffs.length ≤ m.inFlight
  shown : ∀ r, a = .admission r ∨ a = .routing r →
    ∀ s ∈ b.observe.1.snapshots, s.pending = b.events.actions.countP (·.reaches s.id)

namespace Tally
variable {arriving more leaving less : Nat → Nat} {ms : List Member} {host : Nat}

theorem congr (k : Tally arriving leaving ms) (same : ∀ id, more id = arriving id)
    (same' : ∀ id, less id = leaving id) : Tally more less ms := fun id m at' => by
  rw [same, same']
  exact k id m at'

/-- Only the member changes that the counts change for. -/
theorem modify {f : Member → Member} (k : Tally arriving leaving ms)
    (other : ∀ id, host ≠ id → more id = arriving id ∧ less id = leaving id)
    (own : ∀ m, ms[host]? = some m → m.pending = arriving host →
      m.inFlight = m.pending + m.server.requests.length + leaving host →
      (f m).pending = more host ∧
        (f m).inFlight = (f m).pending + (f m).server.requests.length + less host) :
    Tally more less (ms.modify host f) := by
  intro id m at'
  by_cases same : host = id
  · obtain rfl := same
    rw [List.getElem?_modify_eq] at at'
    obtain ⟨n, before, rfl⟩ := Option.map_eq_some_iff.mp at'
    exact own n before (k host n before).1 (k host n before).2
  · rw [List.getElem?_modify_ne _ _ same] at at'
    rw [(other id same).1, (other id same).2]
    exact k id m at'

theorem expect (host : Nat) (k : Tally arriving leaving ms) :
    Tally (fun id => arriving id + if host = id then 1 else 0) leaving
      (ms.modify host Member.expecting) := by
  refine k.modify (fun id other => ⟨by rw [if_neg other]; rfl, rfl⟩) fun m _ pending inFlight => ?_
  rw [if_pos rfl, ← pending]
  refine ⟨rfl, ?_⟩
  simp only [Member.expecting, inFlight]
  omega

theorem part (k : Tally arriving (fun id => leaving id + if host = id then 1 else 0) ms) :
    Tally arriving leaving (ms.modify host Member.parting) := by
  refine k.modify (fun id other => ⟨rfl, by rw [if_neg other]; rfl⟩) fun m _ pending inFlight => ?_
  refine ⟨pending, ?_⟩
  simp only [if_pos] at inFlight
  simp only [Member.parting, inFlight]
  omega

theorem part_one {n : Nat}
    (k : Tally arriving (fun id => leaving id + if host = id then n + 1 else 0) ms) :
    Tally arriving (fun id => leaving id + if host = id then n else 0)
      (ms.modify host Member.parting) := by
  refine part (k.congr (fun _ => rfl) fun id => ?_)
  split <;> omega

theorem finish (rs : List Request)
    (k : Tally arriving (fun id => leaving id + if host = id then rs.length else 0) ms) :
    Tally arriving leaving (countFinished host rs ms) := by
  induction rs generalizing ms with
  | nil => exact k.congr (fun _ => rfl) fun id => by simp
  | cons r rest ih => exact ih k.part_one

theorem handOff (hs : List Handoff)
    (k : Tally arriving (fun id => leaving id + if host = id then hs.length else 0) ms) :
    Tally (fun id => arriving id + hs.countP (·.decode = id)) leaving (countHanded host hs ms) := by
  induction hs generalizing arriving ms with
  | nil => exact k.congr (fun _ => rfl) fun id => by simp
  | cons h rest ih =>
      refine (ih (k.part_one.expect h.decode)).congr (fun id => ?_) fun _ => rfl
      rw [List.countP_cons, Nat.add_right_comm, Nat.add_assoc]
      simp only [decide_eq_true_eq]

end Tally

variable {config : Config} {rs : List Request} {b c d : Cluster} {l : Ledger} {a : Action}
  {e : Event} {sent : List Action} {notes : List DecisionRecord} {ms : List Member}

theorem countP_bare {rings : List Action} (bare : ∀ x ∈ rings, x.request? = none) (host : Nat) :
    rings.countP (·.reaches host) = 0 :=
  List.countP_eq_zero.mpr fun x hx => by
    rw [Action.reaches_bare (bare x hx)]
    exact Bool.false_ne_true

theorem countP_arrival {host : Nat} {r : Request}
    (own : a = .instanceArrival host r ∨ a = .kvTransferComplete host r) (id : Nat) :
    [a].countP (·.reaches id) = if host = id then 1 else 0 := by
  rw [List.countP_singleton]
  rcases own with rfl | rfl <;> simp only [Action.reaches, decide_eq_true_eq]

theorem countP_handoffs (hs : List Handoff) (id : Nat) :
    (hs.map Handoff.action).countP (·.reaches id) = hs.countP (·.decode = id) := by
  rw [List.countP_map]
  rfl

theorem tally_of_deed (usable : config.cluster.spec.Usable) (k : Coherent config rs [a] b l)
    (deed : Deed b a sent notes ms) {coming : Nat → Nat}
    (before : Tally (fun id => coming id + [a].countP (·.reaches id)) (fun _ => 0) b.members) :
    Tally (fun id => coming id + sent.countP (·.reaches id)) (fun _ => 0) ms := by
  cases deed with
  | accept | grant | refuse | delay | forgo | misroute =>
      exact before.congr (fun _ => rfl) fun _ => rfl
  | refresh bare => exact before.congr (fun id => by rw [countP_bare bare]; rfl) fun _ => rfl
  | send =>
      exact (before.expect _).congr (fun id => by rw [countP_arrival (.inl rfl)]; rfl) fun _ => rfl
  | join own at' done bare =>
      obtain ⟨s, _, rfl⟩ := Instance.queued_inv done
      refine before.modify (fun id other => ⟨?_, rfl⟩) fun n here pending inFlight => ?_
      · rw [countP_bare bare, countP_arrival own, if_neg other]
      · obtain rfl := Option.some.inj (at'.symm.trans here)
        rw [countP_arrival own, if_pos rfl] at pending
        rw [countP_bare bare]
        simp only [Instance.requests, List.length_append, List.length_singleton] at inFlight ⊢
        omega
  | turnAway own at' done bare =>
      obtain ⟨_, rfl⟩ := Instance.rejected_inv done
      refine before.modify (fun id other => ⟨?_, rfl⟩) fun n here pending inFlight => ?_
      · rw [countP_bare bare, countP_arrival own, if_neg other]
      · obtain rfl := Option.some.inj (at'.symm.trans here)
        rw [countP_arrival own, if_pos rfl] at pending
        rw [countP_bare bare]
        simp only [Instance.requests, List.length_append] at inFlight ⊢
        omega
  | step at' done bare =>
      have stems := (k.stems_step usable (k.host_eq at').1 done).2.length_eq
      refine before.modify (fun id _ => ⟨by rw [countP_bare bare]; rfl, rfl⟩)
        fun n here pending inFlight => ?_
      obtain rfl := Option.some.inj (at'.symm.trans here)
      rw [List.length_map, List.length_map] at stems
      rw [countP_bare bare, stems]
      exact ⟨pending, inFlight⟩
  | @complete host m report j i q rings at' done rescored bare =>
      have stems := (k.ended_complete (k.host_eq at').1 done rescored).2.stems.length_eq
      simp only [List.length_map, List.length_append] at stems
      have left : Tally coming (fun id => (0 + if host = id then report.handoffs.length else 0) +
          if host = id then report.completed.length else 0)
          (b.members.modify host fun n => { n with server := i }) := by
        refine before.modify (fun id other => ⟨rfl, ?_⟩) fun n here pending inFlight => ?_
        · rw [if_neg other, if_neg other]
        · obtain rfl := Option.some.inj (at'.symm.trans here)
          refine ⟨pending, ?_⟩
          simp only [if_true, inFlight]
          omega
      refine (Tally.handOff _ (Tally.finish _ left)).congr (fun id => ?_) fun _ => rfl
      rw [List.countP_append, countP_bare bare, countP_handoffs]
      rfl

theorem Exact.perm {actions more : List Action} (k : Exact actions ms)
    (same : more.Perm actions) : Exact more ms :=
  k.congr (fun _ => same.countP_eq _) fun _ => rfl

theorem Exact.counts {actions : List Action} (k : Exact actions ms) {id : Nat} {m : Member}
    (at' : ms[id]? = some m) : m.pending = actions.countP (·.reaches id) ∧
      m.inFlight = m.pending + m.server.requests.length := k id m at'

theorem Exact.begins (k : Coherent config rs [] c l) (g : Logged config rs c l) {q : EventQueue}
    (popped : c.events.pop? = some (e, q)) (begun : c.begin e q = .ok b)
    (exact : Exact c.events.actions c.members) :
    Coherent config rs [e.action] b l ∧ Exact ([e.action] ++ b.events.actions) b.members := by
  obtain ⟨b', begun', k', _, _, events, _, pending⟩ := begin_ok k g popped
  obtain rfl := Except.ok.inj (begun.symm.trans begun')
  have same : c.events.actions = [e.action] ++ b.events.actions := by
    rw [EventQueue.actions, pending, events]
    rfl
  have members : b.members = c.members := by rw [begin_inv begun]
  exact ⟨k', members ▸ exact.perm (.of_eq same.symm)⟩

/-- One event keeps the counters exact. -/
theorem Exact.ran (usable : config.cluster.spec.Usable) (k : Coherent config rs [] c l)
    (g : Logged config rs c l) (ran : Ran c e b d) (exact : Exact c.events.actions c.members) :
    Exact d.events.actions d.members := by
  obtain ⟨q, popped, begun⟩ := ran.popped
  obtain ⟨k', exact⟩ := exact.begins k g popped begun
  obtain ⟨sent, notes, deed, leaves⟩ := ran.does
  have split : ∀ (x y : List Action) (id : Nat), (x ++ y).countP (·.reaches id) =
      y.countP (·.reaches id) + x.countP (·.reaches id) := fun x y id => by
    rw [List.countP_append, Nat.add_comm]
  have after := tally_of_deed usable k' deed (exact.congr (fun id => (split _ _ id).symm) fun _ => rfl)
  exact Exact.perm (after.congr (fun id => split _ _ id) fun _ => rfl) leaves.actions

theorem Exact.shown {actions : List Action} (k : Coherent config rs [a] b l)
    (exact : Exact actions b.members) :
    ∀ s ∈ b.observe.1.snapshots, s.pending = actions.countP (·.reaches s.id) := by
  have own : ∀ m ∈ b.members, b.members[m.server.id]? = some m := fun m hm => by
    obtain ⟨id, at'⟩ := List.getElem?_of_mem hm
    rwa [(k.host_eq at').2]
  have inside : ∀ m ∈ b.members, m.server.id < config.cluster.roles.length := fun m hm => by
    rw [ClusterSettings.length_roles, ← k.size, instances, List.length_map]
    exact (List.getElem?_eq_some_iff.mp (own m hm)).1
  intro s hs
  obtain ⟨m, hm, same, pending⟩ := k.board.shows b.now b.members inside s hs
  rw [pending, ← same]
  exact (exact.counts (own m hm)).1

theorem Exact.covered (k : Coherent config rs [a] b l)
    (exact : Exact ([a] ++ b.events.actions) b.members) : Covered a b where
  arrival host r own := by
    have inside : host < config.cluster.instances := by
      rcases own with rfl | rfl <;> exact (k.proper _ List.mem_cons_self).1
    obtain ⟨i, at'⟩ := k.exists_instance inside
    obtain ⟨m, found, _⟩ := member_ok at'
    have counted := exact.counts (member_inv found)
    rw [List.countP_append, countP_arrival own, if_pos rfl] at counted
    exact ⟨m, found, by omega, by omega⟩
  ending host own := by
    subst own
    obtain ⟨i, at'⟩ := k.exists_instance (k.proper (.stepComplete host) List.mem_cons_self)
    obtain ⟨m, found, rfl⟩ := member_ok at'
    obtain ⟨busy, o, flight⟩ := Instance.flight_of_awaited (k.awaits at' (decide_eq_true rfl))
    obtain ⟨report, j, q, done, _, _, ended⟩ := Instance.complete_ok
      (k.employs host m.server at').coherent busy flight (Nat.le_of_eq k.clock)
    have counted := (exact.counts (member_inv found)).2
    have stems := ended.stems.length_eq
    simp only [List.length_map, List.length_append] at stems
    exact ⟨m, report, j, q, found, done, by omega⟩
  shown r own := by
    intro s hs
    rw [exact.shown k s hs, List.countP_append]
    rcases own with rfl | rfl <;> exact Nat.zero_add _

theorem exact_of_launch {trace : DecisionTrace} {launched : Cluster}
    (made : new config trace = .ok c) (injected : c.injectAll rs = .ok d)
    (started : d.start = .ok launched) (awaits : Awaits config rs launched) :
    Exact launched.events.actions launched.members := by
  obtain ⟨_, _, rfl⟩ := new_inv made
  obtain ⟨_, _, rfl⟩ := injectAll_inv injected
  obtain ⟨_, rfl⟩ := start_inv started
  intro id m at'
  obtain ⟨⟨role, n⟩, _, rfl⟩ := List.mem_map.mp (List.mem_of_getElem? at')
  refine ⟨(List.countP_eq_zero.mpr fun x hx => ?_).symm, rfl⟩
  obtain ⟨e, he, rfl⟩ := List.mem_map.mp hx
  rcases awaits.arrivals e he with refresh | ⟨r, _, _, arrives⟩
  · rw [refresh]
    exact Bool.false_ne_true
  · rw [arrives]
    exact Bool.false_ne_true

/-- However far a run has come, each instance has as many requests pending as there are events
to come that bring one to its queue, and as many in flight as are pending, queued or running
there. So nothing is ever taken off a counter that is at zero, and policies see how many
requests have been routed to each instance and are not in its queue. -/
theorem counters_exact (valid : config.validate = .ok ()) (trace : DecisionTrace)
    (fresh : ∀ r ∈ rs, r.Fresh) (distinct : (rs.map (·.id)).Nodup) :
    ∃ c d e, new config trace = .ok c ∧ c.injectAll rs = .ok d ∧ d.start = .ok e ∧
      ∀ limit, ∃ f, e.runEvents limit = (.ok (), f) ∧
        (∀ id m, f.members[id]? = some m →
          m.pending = f.events.actions.countP (·.reaches id) ∧
          m.inFlight = m.pending + m.server.queueDepth + m.server.batchSize) ∧
        ∀ x q b, f.events.pop? = some (x, q) → f.begin x q = .ok b → Covered x.action b := by
  have promised := promised_of_validate valid
  obtain ⟨c, d, e, made, injected, started, _, coherent, logged⟩ := launch_ok valid trace fresh
  have awaits : Awaits config rs e := ((awaits_of_new made).injectAll injected).start started
  refine ⟨c, d, e, made, injected, started, fun limit => ?_⟩
  -- that the counters are exact is the invariant; an event keeps it, so a run does
  obtain ⟨f, l, ran, k, g⟩ := runEvents_ok promised.valid distinct coherent logged limit
  have exact := run_keeps (fun _ c => Exact c.events.actions c.members) promised.valid
    distinct (fun k g ran _ before => before.ran promised.valid.usable k g ran) coherent logged
    [] (exact_of_launch made injected started awaits) limit
  rw [ran] at exact
  refine ⟨f, ran, fun id m at' => ?_, fun x q b popped begun => ?_⟩
  · obtain ⟨pending, inFlight⟩ := exact.counts at'
    refine ⟨pending, ?_⟩
    rw [inFlight, Instance.requests, List.length_append, Instance.queueDepth, Instance.batchSize]
    omega
  · obtain ⟨k', exact⟩ := exact.begins k g popped begun
    exact exact.covered k'

theorem default_counters_exact : ∃ c d e, new {} .off = .ok c ∧
    c.injectAll [{ id := 4, arrivalTime := 2, inputTokens := 20, outputTokens := 3 },
      { id := 1, arrivalTime := 2, inputTokens := 0, outputTokens := 1 }] = .ok d ∧
    d.start = .ok e ∧
    ∀ limit, ∃ f, e.runEvents limit = (.ok (), f) ∧
      (∀ id m, f.members[id]? = some m →
        m.pending = f.events.actions.countP (·.reaches id) ∧
        m.inFlight = m.pending + m.server.queueDepth + m.server.batchSize) ∧
      ∀ x q b, f.events.pop? = some (x, q) → f.begin x q = .ok b → Covered x.action b :=
  counters_exact rfl .off
    (List.forall_mem_cons.mpr ⟨rfl, List.forall_mem_singleton.mpr rfl⟩) (by decide)

end Cluster
end InferenceSim
