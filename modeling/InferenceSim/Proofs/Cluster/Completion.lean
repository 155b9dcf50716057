import InferenceSim.Proofs.Cluster.Service

/-! The ends of steps. The requests of the step are logged if they are done, and are on
their way to another instance if they were handed off; the others go on. -/
namespace InferenceSim

/-- The event that brings a request that was handed off to its next instance. -/
def Handoff.action (h : Handoff) : Action := .kvTransferComplete h.decode h.request

section
variable (hs : List Handoff)

theorem carried_actions : carried (hs.map Handoff.action) = hs.map (·.request) := by
  rw [carried, List.filterMap_map]
  exact congrFun List.filterMap_eq_map hs

theorem carried_handoffs :
    (carried (hs.map Handoff.action)).map Request.origin =
      (hs.map Handoff.source).map Request.origin := by
  rw [carried_actions, List.map_map, List.map_map]
  rfl

theorem loadOf_handoffs :
    loadOf (hs.map Handoff.action) + hs.length = weightOf (hs.map Handoff.source) := by
  induction hs with
  | nil => rfl
  | cons h rest ih =>
      have one : h.action.weight + 1 = h.source.weight := rfl
      simp only [loadOf, weightOf, List.map_cons, totalOf_cons, List.length_cons] at ih ⊢
      omega

end

theorem length_le_weightOf (rs : List Request) : rs.length ≤ weightOf rs := by
  induction rs with
  | nil => exact Nat.le_refl 0
  | cons r rest ih =>
      have one : 1 ≤ r.weight := by
        rw [Request.weight]
        split <;> decide
      simp only [weightOf, List.map_cons, totalOf_cons, List.length_cons] at ih ⊢
      omega

namespace Cluster
variable {config : Config} {rs : List Request} {c d : Cluster} {l : Ledger} {host now : Nat}
  {i j : Instance} {report : StepReport}

theorem finish_ok {now : Nat} {completed : List Request}
    (timed : ∀ r ∈ completed, r.timing.completionTime = some now) (host : Nat) (c : Cluster) :
    ∃ members log trace, completed.foldl (finishRequest host) c = { c with members, log, trace } ∧
      members.map (·.server) = c.members.map (·.server) ∧
      log.all.toList.map (·.request) =
        c.log.all.toList.map (·.request) ++ completed.map (·.id) ∧
      { log with all := c.log.all } = c.log := by
  induction completed generalizing c with
  | nil => exact ⟨_, _, _, rfl, rfl, (List.append_nil _).symm, rfl⟩
  | cons r rest ih =>
      obtain ⟨x, complete, own⟩ : ∃ x, Completion.ofRequest? r = some x ∧ x.request = r.id := by
        rw [Completion.ofRequest?, Request.e2e, timed r List.mem_cons_self]
        exact ⟨_, rfl, rfl⟩
      have logged : (finishRequest host c r).log = { c.log with all := c.log.all.push x } := by
        show c.log.complete r = _
        rw [RunLog.complete, complete]
      obtain ⟨members, log, trace, done, servers, known, same⟩ :=
        ih (fun s hs => timed s (List.mem_cons_of_mem r hs)) (finishRequest host c r)
      refine ⟨members, log, trace, done, servers.trans ?_, ?_, ?_⟩
      · exact c.instances_count host fun _ => rfl
      · rw [known, logged, Array.toList_push, List.map_append, List.append_assoc, List.map_cons,
          own]
        rfl
      · have same := congrArg (fun log : RunLog => { log with all := c.log.all }) same
        rw [logged] at same
        exact same

theorem Logged.complete {completed : List Request} (g : Logged config rs c l)
    (injected : d.injected = c.injected)
    (known : d.log.all.toList.map (·.request) =
      c.log.all.toList.map (·.request) ++ completed.map (·.id))
    (same : { d.log with all := c.log.all } = c.log) :
    Logged config rs d { l with completed := l.completed ++ completed.map Request.origin } where
  injected := injected.trans g.injected
  warmup := (congrArg RunLog.warmup same).trans g.warmup
  completed := by
    rw [known, g.completed, List.map_append, List.map_map]
    rfl
  refused := (congrArg RunLog.rejectedAtAdmission same).trans g.refused
  misrouted := (congrArg RunLog.rejectedAtRouting same).trans g.misrouted
  unserved := (congrArg RunLog.rejectedAtInstance same).trans g.unserved

namespace Coherent

theorem handOff_ok {hs : List Handoff} (k : Coherent config rs (hs.map Handoff.action) c l)
    (host : Nat) : ∃ members events, hs.foldlM (handOff host) c = .ok { c with members, events } ∧
      members.map (·.server) = c.members.map (·.server) ∧
      Coherent config rs [] { c with members, events } l ∧
      burden [] { c with members, events } = burden (hs.map Handoff.action) c := by
  induction hs generalizing c with
  | nil => exact ⟨_, _, rfl, rfl, k, rfl⟩
  | cons h rest ih =>
      obtain ⟨inside, _⟩ : h.action.Proper config.cluster.spec config.cluster.instances :=
        k.proper _ List.mem_cons_self
      obtain ⟨i, at'⟩ := k.exists_instance inside
      obtain ⟨m, found, _⟩ := member_ok at'
      obtain ⟨d, hd⟩ : ∃ d, d = (c.change host fun n =>
          { n with inFlight := n.inFlight - 1 }).change h.decode fun n =>
        { n with pending := n.pending + 1, inFlight := n.inFlight + 1 } := ⟨_, rfl⟩
      have unmoved : d.instances = c.instances := by
        rw [hd]
        refine (instances_count _ _ ?_).trans (instances_count _ _ ?_) <;> exact fun _ => rfl
      have k' := k.note (d := d) ⟨hd ▸ rfl, hd ▸ rfl, hd ▸ rfl, hd ▸ rfl⟩ unmoved
        (hd ▸ rfl) (hd ▸ rfl)
      obtain ⟨n, q, scheduled, joined, coherent⟩ := k'.schedule (Nat.le_add_right d.now
        (d.config.cluster.disaggregated.transferLatency h.blocks d.config.cluster.blockSize))
      have first : handOff host c h = .ok { d with events := q } := by
        simp only [handOff, found, ← hd, bind, Except.bind]
        exact scheduled
      have weight : burden (rest.map Handoff.action) { d with events := q } =
          burden (h.action :: rest.map Handoff.action) c := by
        rw [burden_schedule joined]
        exact burden_rearrange unmoved (by rw [hd]; rfl)
      obtain ⟨members, events, done, servers, coherent, same⟩ := ih coherent
      have whole : ({ d with members, events } : Cluster) = { c with members, events } := by
        rw [hd]
        rfl
      refine ⟨members, events, ?_, servers.trans unmoved, ?_, ?_⟩
      · rw [List.foldlM_cons, first, ← whole]
        exact done
      · exact whole ▸ coherent
      · rw [← whole]
        exact same.trans weight

theorem lighter_ended (ended : Instance.Ended config.cluster.spec now i report j) :
    loadOf (report.handoffs.map Handoff.action) + weightOf j.requests <
        loadOf [.stepComplete host] + weightOf i.requests ∨
      loadOf (report.handoffs.map Handoff.action) + weightOf j.requests =
        loadOf [.stepComplete host] + weightOf i.requests ∧ j.potential < i.potential := by
  have weight := weightOf_stems ended.stems
  rw [weightOf_append, weightOf_append, ← loadOf_handoffs] at weight
  rw [show loadOf [.stepComplete host] = 0 from rfl]
  have done := length_le_weightOf report.completed
  by_cases none : report.completed = [] ∧ report.handoffs = []
  · refine .inr ⟨?_, ended.further none.1 none.2⟩
    rw [none.1, none.2, show weightOf [] = 0 from rfl, List.length_nil] at weight
    rw [none.2]
    omega
  · refine .inl ?_
    have some : 0 < report.completed.length + report.handoffs.length := by
      rcases Nat.eq_zero_or_pos (report.completed.length + report.handoffs.length) with zero | pos
      · refine absurd ⟨List.length_eq_zero_iff.mp ?_, List.length_eq_zero_iff.mp ?_⟩ none <;> omega
      · exact pos
    omega

theorem served_of_ended {spec : InstanceSpec} (k : i.Coherent spec)
    (ended : Instance.Ended spec now i report j) :
    ∀ r ∈ report.completed.map Request.origin, spec.serves r := by
  intro r hr
  obtain ⟨s, hs, rfl⟩ := List.mem_map.mp hr
  have inside := List.mem_append_left j.requests
    (List.mem_append_left (report.handoffs.map Handoff.source) hs)
  obtain ⟨p, hp, stem⟩ := List.mem_map.mp
    (ended.stems.mem_iff.mp (List.mem_map_of_mem (f := (·.stem)) inside))
  have serves : spec.serves p := by
    rcases List.mem_append.mp hp with runs | waits
    · exact (k.fitting.runs p runs).2.serves
    · exact (k.fitting.waits p waits).2.serves
  exact InstanceSpec.serves_of_stem stem ▸ serves

theorem proper_of_ended {spec : InstanceSpec} {n : Nat}
    (targets : ∀ r ∈ i.requests, ∀ target, r.decodeTarget = some target → target < n)
    (ended : Instance.Ended spec now i report j) :
    ∀ a ∈ report.handoffs.map Handoff.action, a.Proper spec n := by
  intro a ha
  obtain ⟨h, hh, rfl⟩ := List.mem_map.mp ha
  have source := List.mem_append_left j.requests
    (List.mem_append_right report.completed (List.mem_map_of_mem (f := Handoff.source) hh))
  have inside := Instance.targets_of_stems ended.stems targets h.source source h.decode rfl
  exact ⟨inside, ended.handoffs h hh⟩

theorem owners_of_ended {spec : InstanceSpec} (ended : Instance.Ended spec now i report j)
    (l : Ledger) :
    ((carried (report.handoffs.map Handoff.action) ++ j.requests).map Request.origin ++
      (l.completed ++ report.completed.map Request.origin ++ l.refused ++ l.misrouted ++
        l.unserved)).Perm
        (i.requests.map Request.origin ++ l.all) := by
  have origins : ((report.completed ++ report.handoffs.map Handoff.source ++ j.requests).map
      Request.origin).Perm (i.requests.map Request.origin) := by
    have stems := ended.stems.map Request.origin
    rw [List.map_map, List.map_map] at stems
    exact stems
  rw [List.map_append, carried_handoffs]
  classical
  refine List.perm_iff_count.mpr fun r => ?_
  have origins := origins.count_eq r
  simp only [List.map_append, List.count_append, Ledger.all] at origins ⊢
  omega

/-- An instance whose step has ended gives up the requests that are done or handed off. -/
theorem settled (k : Coherent config rs [.stepComplete host] c l)
    (at' : c.instances[host]? = some i) (replaces : Replaces c host j d)
    (moved : i.Moved c.events [.stepComplete host] j d.events)
    (coherent : j.Coherent config.cluster.spec)
    (ended : Instance.Ended config.cluster.spec c.now i report j) :
    Coherent config rs (report.handoffs.map Handoff.action) d
      { l with completed := l.completed ++ report.completed.map Request.origin } := by
  have employed := k.employs host i at'
  have targets := Instance.targets_of_stems ended.stems employed.targets
  refine k.replace at' replaces moved coherent ?_ (proper_of_ended employed.targets ended) ?_ ?_
    (fun id => ?_) (owners_of_ended ended l) ⟨?_, k.ledger.unserved, k.ledger.refused,
      k.ledger.misrouted⟩ ?_
  · exact fun r hr => targets r (List.mem_append_right _ hr)
  · refine List.countP_eq_zero.mpr fun a ha => ?_
    obtain ⟨h, _, rfl⟩ := List.mem_map.mp ha
    exact Bool.false_ne_true
  · intro a ha
    rw [List.mem_singleton.mp ha]
    exact decide_eq_true rfl
  · have none : (report.handoffs.map Handoff.action).filter (·.wakes id) = [] := by
      refine List.filter_eq_nil_iff.mpr fun a ha => ?_
      obtain ⟨h, _, rfl⟩ := List.mem_map.mp ha
      exact Bool.false_ne_true
    rw [List.filter_append, none, List.append_nil]
  · intro r hr
    rcases List.mem_append.mp hr with before | new
    · exact k.ledger.completed r before
    · exact served_of_ended employed.coherent ended r new
  · rw [ended.count, List.length_append, List.length_map]
    omega

theorem stepComplete_ok (k : Coherent config rs [.stepComplete host] c l)
    (g : Logged config rs c l) :
    ∃ d l', c.dispatch (.stepComplete host) = .ok d ∧
      Handled config rs (.stepComplete host) c d l' := by
  obtain ⟨i, at'⟩ := k.exists_instance (k.proper (.stepComplete host) List.mem_cons_self)
  have employed := k.employs host i at'
  obtain ⟨m, found, server⟩ := member_ok at'
  obtain ⟨busy, o, flight⟩ := Instance.flight_of_awaited (k.awaits at' (decide_eq_true rfl))
  obtain ⟨report, j, q, complete, coherent, moved, ended⟩ := Instance.complete_ok
    employed.coherent busy flight (show c.events.now ≤ c.now from Nat.le_of_eq k.clock)
  rw [employed.own] at moved
  obtain ⟨rule, hrule⟩ : ∃ rule, rule = c.config.policies.priority := ⟨_, rfl⟩
  obtain ⟨p, hp, coherent', moved', ended'⟩ : ∃ p,
      p = (if rule.isConstant then j else j.reprioritize rule c.now) ∧
      p.Coherent config.cluster.spec ∧ i.Moved c.events [.stepComplete host] p q ∧
      Instance.Ended config.cluster.spec c.now i report p := by
    by_cases constant : rule.isConstant = true
    · exact ⟨j, (if_pos constant).symm, coherent, moved, ended⟩
    · exact ⟨_, (if_neg constant).symm, ended.rescore coherent moved rule c.now⟩
  obtain ⟨d, hd⟩ : ∃ d, d = ({ c with events := q } : Cluster).change host fun n =>
    { n with server := p } := ⟨_, rfl⟩
  have replaces : Replaces c host p d := hd ▸ .change c host q fun _ => rfl
  have events : d.events = q := hd ▸ rfl
  have left := k.settled at' replaces (events ▸ moved') coherent' ended'
  have lighter : Lighter [.stepComplete host] c (report.handoffs.map Handoff.action) d :=
    lighter_replace at' replaces (events ▸ moved') (lighter_ended ended')
  obtain ⟨members, log, trace, finished, servers, known, same⟩ :=
    finish_ok ended'.completed host d
  obtain ⟨e, he⟩ : ∃ e : Cluster, e = { d with members, log, trace } := ⟨_, rfl⟩
  have unmoved : e.instances = d.instances := he ▸ servers
  have left' := left.note (d := e) ⟨he ▸ rfl, he ▸ rfl, he ▸ rfl, he ▸ rfl⟩ unmoved
    (he ▸ rfl) (he ▸ rfl)
  obtain ⟨members', events', handed, servers', off, weight⟩ := left'.handOff_ok host
  have log' : e.log = log := he ▸ rfl
  have old : d.log = c.log := hd ▸ rfl
  rw [old] at known same
  refine ⟨{ e with members := members', events := events' }, _, ?_, off, ?_, fun _ _ => ?_⟩
  · have sound : p.kv.check = .ok () := coherent'.fitting.sound.check
    have sound' : j.kv.check = .ok () := coherent.fitting.sound.check
    simp only [dispatch, handleStepComplete, found, server, bind, Except.bind, complete, sound',
      mapError_ok, ← hrule, ← hp, ← hd, finished, ← he]
    exact handed
  · exact g.complete (d := { e with members := members', events := events' })
      (by rw [he, hd]; rfl) (log' ▸ known) (log' ▸ same)
  · refine lighter.trans_eq (servers'.trans unmoved) (weight.trans ?_)
    exact burden_rearrange unmoved (by rw [he])

end Coherent
end Cluster
end InferenceSim
