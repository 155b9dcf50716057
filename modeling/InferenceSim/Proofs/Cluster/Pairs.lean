import InferenceSim.Proofs.Cluster.Bursts

/-! Bursts of requests that are decoded apart from their prompts. The prompts are spread over their
instances as whole requests are. The instance that decodes is chosen together with the one for the
prompt, but it counts a request only once the prompt is done. So a whole burst is decoded by one
instance, however far that one gets ahead of the others. -/
namespace InferenceSim

/-- Whether an action brings a request to its prompt that an instance is to decode. -/
def Action.books (host : Nat) : Action → Bool
  | .instanceArrival _ r => r.decodeTarget = some host
  | _ => false

theorem towards_of_pdSplit {view : RequestView} {seen : ClusterView} {host : Nat}
    {decode : Option Nat}
    (target : (RoutingPolicy.pdSplit.route view seen).1.target = .towards host decode) :
    ∃ s t, leastLoaded (withRole .prefill seen.snapshots) = some s ∧
      leastLoaded (withRole .decode seen.snapshots) = some t ∧ host = s.id ∧ decode = some t.id := by
  rw [RoutingPolicy.route] at target
  split at target
  · next s t first second =>
    have towards : Target.towards s.id (some t.id) = .towards host decode := target
    obtain ⟨rfl, rfl⟩ := Target.towards_inj towards
    exact ⟨s, t, first, second, rfl, rfl⟩
  · cases decode <;> cases target

theorem picks_pdSplit (roles : List Role) :
    RoutingPolicy.pdSplit.Picks roles fun i => roles[i]? = some .prefill := by
  intro view seen host decode known target
  obtain ⟨s, _, chosen, _, rfl, _⟩ := towards_of_pdSplit target
  obtain ⟨inside, role⟩ := List.mem_filter.mp (mem_of_leastLoaded chosen)
  refine ⟨s, inside, rfl, of_decide_eq_true role ▸ known.known s inside, fun u hu prefill => ?_⟩
  refine leastLoaded_le chosen u (List.mem_filter.mpr ⟨hu, decide_eq_true ?_⟩)
  exact Option.some.inj ((known.known u hu).symm.trans prefill)

namespace Cluster
variable {config : Config} {roles : List Role} {policy : RoutingPolicy} {b c d : Cluster}
  {e : Event} {r : Request} {time : Nat}

/-- How many requests are on their way to their prompts that an instance is to decode. -/
def booked (c : Cluster) (host : Nat) : Nat := c.events.actions.countP (·.books host)

/-- The instances with a role, as the router would see them at some time. -/
def poolAt (c : Cluster) (time : Nat) (role : Role) : List Snapshot :=
  withRole role (c.seenAt time).snapshots

theorem booked_of_sent {host : Nat} {s : Request} {rest : List Action}
    (was : c.events.actions = .routing r :: rest)
    (sent : d.events.actions.Perm (.instanceArrival host s :: rest)) (i : Nat) :
    d.booked i = c.booked i + if s.decodeTarget = some i then 1 else 0 := by
  rw [booked, booked, sent.countP_eq, was, List.countP_cons, List.countP_cons]
  simp only [Action.books, decide_eq_true_eq, Bool.false_eq_true, if_false, Nat.add_zero]

namespace Levels

theorem roles_eq (k : Levels roles policy c) : c.instances.map (·.role) = roles :=
  map_eq_of_getElem? k.size k.role

theorem standings (k : Levels roles policy c) (time : Nat) (role : Role) :
    (c.poolAt time role).map Snapshot.standing =
      ((c.loadsAt time).zipIdx.map Prod.swap).filter fun p => roles[p.1]? = some role := by
  have listed : (c.members.map fun m => (m.server.id, c.loadAt time m)) =
      (c.loadsAt time).zipIdx.map Prod.swap := by
    refine map_eq_of_getElem? ?_ fun i m at' => ?_
    · rw [List.length_map, List.length_zipIdx, loadsAt, List.length_map]
    · have own := k.own i m.server (by rw [instances, List.getElem?_map, at']; rfl)
      rw [List.getElem?_map, List.getElem?_zipIdx, loadsAt, List.getElem?_map, at', own, Nat.zero_add]
      rfl
  rw [← listed, ← k.shows, List.filter_map]
  refine congrArg _ (List.filter_congr fun s hs => ?_)
  show decide (s.role = role) = decide (roles[s.id]? = some role)
  simp only [(k.seen time).known s hs, Option.some.injEq]

theorem pool_eq_nil (k : Levels roles policy c) {role : Role}
    (none : ∀ i : Nat, roles[i]? ≠ some role) (time : Nat) : c.poolAt time role = [] := by
  refine List.filter_eq_nil_iff.mpr fun s hs own => ?_
  exact none s.id (((k.seen time).known s hs).trans (congrArg some (of_decide_eq_true own)))

theorem standings_modify (k : Levels roles policy c) (k' : Levels roles policy d) {host : Nat}
    {role : Role} (other : roles[host]? ≠ some role)
    (loads : d.loadsAt time = (c.loadsAt time).modify host (· + 1)) :
    (d.poolAt time role).map Snapshot.standing = (c.poolAt time role).map Snapshot.standing := by
  rw [k'.standings, k.standings, loads, zipIdx_modify,
    map_modify (g := fun p => (p.1, p.2 + 1)) (h := Prod.swap) fun _ => rfl]
  refine filter_modify fun p entry => ?_
  rw [List.getElem?_map, List.getElem?_zipIdx] at entry
  obtain ⟨q, here, rfl⟩ := Option.map_eq_some_iff.mp entry
  obtain ⟨x, _, rfl⟩ := Option.map_eq_some_iff.mp here
  have out : decide (roles[0 + host]? = some role) = false :=
    decide_eq_false (by rwa [Nat.zero_add])
  exact ⟨out, out⟩

end Levels

/-- A cluster within a burst after `n` requests. All of them are to be decoded by an instance that
was chosen at first, and the others look no different for it. -/
structure Booked (roles : List Role) (time : Nat) (pool : List Snapshot) (host : Nat)
    (before : Nat → Nat) (n : Nat) (c : Cluster) : Prop where
  levels : Levels roles .pdSplit c
  pool : (c.poolAt time .decode).map Snapshot.standing = pool.map Snapshot.standing
  booked : ∀ i, c.booked i = before i + if host = i then n else 0

theorem unbooked_ran (levels : Levels roles .pdSplit c) (none : ∀ i : Nat, roles[i]? ≠ some .decode)
    (ran : Ran c e b d) (own : e.action = .routing r) :
    Levels roles .pdSplit d ∧ ∀ i, d.booked i = c.booked i := by
  obtain ⟨_, rest, was, routes⟩ := levels.routes ran own
  refine ⟨levels.ran RoutingPolicy.steady_pdSplit ran, fun i => ?_⟩
  cases routes with
  | away view unfit loads less =>
      rw [booked, booked, less.countP_eq, was]
      exact (List.countP_cons_of_neg Bool.false_ne_true).symm
  | send view host s target =>
      obtain ⟨_, t, _, decodes, _⟩ := towards_of_pdSplit target
      have inside := mem_of_leastLoaded decodes
      rw [← poolAt, levels.pool_eq_nil none] at inside
      cases inside

theorem Booked.ran {pool : List Snapshot} {s : Snapshot} {before : Nat → Nat} {n : Nat}
    (k : Booked config.cluster.roles time pool s.id before n c) (valid : config.cluster.Valid)
    (phases : config.cluster.disaggregated.enabled = true) (paired : config.cluster.Paired)
    (chosen : leastLoaded pool = some s) (ran : Ran c e b d) (due : e.time = time)
    (own : e.action = .routing r) :
    Booked config.cluster.roles time pool s.id before (n + 1) d := by
  subst due
  have levels := k.levels.ran RoutingPolicy.steady_pdSplit ran
  obtain ⟨_, rest, was, routes⟩ := k.levels.routes ran own
  have assigned := target_assigned (p := .pdSplit) valid phases.symm (k.levels.seen e.time)
  cases routes with
  | away view unfit =>
      obtain ⟨host, decode, assigns, target⟩ :=
        (assigned view).resolve_right fun none => none.1 paired
      rw [target, k.levels.roles_eq] at unfit
      rcases unfit with reject | ⟨m, wrong⟩
      · cases decode <;> cases reject
      · cases assigns.sound.symm.trans wrong
  | send view host r target loads sent =>
      obtain ⟨first, t, prefills, decodes, rfl, decode⟩ := towards_of_pdSplit target
      obtain ⟨_, _, _, prefill, _⟩ := picks_pdSplit _ (k.levels.seen e.time) target
      have next : t.id = s.id := by
        have least := leastLoaded_congr k.pool
        rw [chosen, poolAt, decodes] at least
        exact congrArg Prod.fst (Option.some.inj least)
      refine ⟨levels, ?_, fun i => ?_⟩
      · rw [k.levels.standings_modify levels (by rw [prefill]; simp) loads, k.pool]
      · rw [booked_of_sent was sent, k.booked, decode, next]
        simp only [Option.some.injEq]
        split <;> rfl

/-- The loads of the instances that decode, with what was booked on them since, are even: one that
was chosen is at most one ahead of any other. -/
def DecodesEven (time : Nat) (c d : Cluster) : Prop :=
  ∀ t ∈ c.poolAt time .decode, c.booked t.id < d.booked t.id →
    ∀ u ∈ c.poolAt time .decode, u.id ≠ t.id →
      t.effectiveLoad + (d.booked t.id - c.booked t.id) ≤
        u.effectiveLoad + (d.booked u.id - c.booked u.id) + 1

theorem decodesEven_iff (k : Levels roles policy c) {s : Snapshot} {n : Nat}
    (hs : s ∈ c.poolAt time .decode)
    (booked : ∀ i, d.booked i = c.booked i + if s.id = i then n else 0) :
    DecodesEven time c d ↔ ∀ u ∈ c.poolAt time .decode, u.id ≠ s.id →
      n = 0 ∨ s.effectiveLoad + n ≤ u.effectiveLoad + 1 := by
  have own : d.booked s.id = c.booked s.id + n := by rw [booked, if_pos rfl]
  have other : ∀ {i : Nat}, i ≠ s.id → d.booked i = c.booked i := fun ne => by
    rw [booked, if_neg ne.symm, Nat.add_zero]
  constructor
  · intro even u hu ne
    refine or_iff_not_imp_left.mpr fun more => ?_
    have close := even s hs (by omega) u hu ne
    rwa [own, other ne, Nat.add_sub_cancel_left, Nat.sub_self, Nat.add_zero] at close
  · intro behind t ht more u hu ne
    obtain same : t.id = s.id := by
      refine Decidable.byContradiction fun differs => ?_
      exact Nat.lt_irrefl _ (other differs ▸ more)
    have load : t.effectiveLoad = s.effectiveLoad := by
      have here := k.loadsAt_shown (List.mem_filter.mp ht).1
      rw [same, k.loadsAt_shown (List.mem_filter.mp hs).1] at here
      exact (Option.some.inj here).symm
    rw [same] at more ne ⊢
    rw [load, own, other ne, Nat.add_sub_cancel_left, Nat.sub_self, Nat.add_zero]
    exact (behind u hu ne).resolve_left (by omega)

/-- After any number of events that route requests at one time to pairs of instances, the prompts
are spread over their instances. But all of the requests are to be decoded by the instance that was
the least loaded one before, and no load shows any of them. So what is to be decoded stays even only
if there are no more requests than every other instance was ahead of it, and one. If no instance
decodes, all of the requests are turned away. -/
theorem bursts_share_decode (reached : Reachable config c)
    (phases : config.cluster.disaggregated.enabled = true) {burst time : Nat}
    (ran : c.runEvents burst = (.ok (), d)) (routes : ∀ b ∈ c.path burst, b.RoutesAt time) :
    (∀ host, c.arriving host < d.arriving host → ∃ s ∈ d.poolAt time .prefill, s.id = host ∧
      ∀ u ∈ d.poolAt time .prefill, s.effectiveLoad ≤ u.effectiveLoad + 1) ∧
    ((∃ s, leastLoaded (c.poolAt time .decode) = some s ∧
      (∀ i, d.booked i = c.booked i + if s.id = i then (c.path burst).length else 0) ∧
      (d.poolAt time .decode).map Snapshot.standing =
        (c.poolAt time .decode).map Snapshot.standing ∧
      (DecodesEven time c d ↔ ∀ u ∈ c.poolAt time .decode, u.id ≠ s.id →
        (c.path burst).length = 0 ∨
          s.effectiveLoad + (c.path burst).length ≤ u.effectiveLoad + 1)) ∨
      ¬config.cluster.Paired ∧ c.poolAt time .decode = [] ∧ ∀ i, d.booked i = c.booked i) := by
  have promised := reached.promised
  have starts : RoutingPolicy.ofRule config.policies.routing config.cluster.blockSize
      config.routerSeed = .ok .pdSplit := by
    have split := promised.routing.symm.trans phases
    cases rule : config.policies.routing with
    | pdSplit => rfl
    | _ =>
        rw [rule] at split
        cases split
  have levels := reached.levels starts RoutingPolicy.steady_pdSplit
  constructor
  · intro host received
    have spread := (Spread.begins levels _ time).run RoutingPolicy.steady_pdSplit
      (picks_pdSplit _) ran routes
    have prefill : ∀ {s : Snapshot}, s ∈ (d.seenAt time).snapshots →
        (s ∈ d.poolAt time .prefill ↔ config.cluster.roles[s.id]? = some .prefill) := fun hs => by
      rw [poolAt, withRole, List.mem_filter, (spread.levels.seen time).known _ hs]
      simp [hs]
    obtain ⟨inside, s, hs, rfl, close⟩ := spread.shows received
    refine ⟨s, (prefill hs).mpr inside, rfl, fun u hu => ?_⟩
    have seen := (List.mem_filter.mp hu).1
    exact close u seen ((prefill seen).mp hu)
  · by_cases paired : config.cluster.Paired
    case neg =>
      obtain ⟨_, none⟩ := ClusterSettings.roles_unpaired paired
      have after := burst_keeps
        (fun _ b => Levels config.cluster.roles .pdSplit b ∧ ∀ i, b.booked i = c.booked i)
        (fun ran _ own k => (unbooked_ran k.1 none ran own).imp_right fun same i =>
          (same i).trans (k.2 i)) (n := 0) ⟨levels, fun _ => rfl⟩ ran routes
      exact .inr ⟨paired, levels.pool_eq_nil none time, after.2⟩
    left
    obtain ⟨host, decode, assigns, target⟩ := (target_assigned (p := .pdSplit) promised.valid
      phases.symm (levels.seen time) default).resolve_right fun none => none.1 paired
    obtain ⟨_, s, _, chosen, _⟩ := towards_of_pdSplit target
    have start : Booked config.cluster.roles time (c.poolAt time .decode) s.id c.booked 0 c :=
      ⟨levels, rfl, fun i => by rw [ite_self, Nat.add_zero]⟩
    have after := burst_keeps
      (Booked config.cluster.roles time (c.poolAt time .decode) s.id c.booked)
      (fun ran due own k => k.ran promised.valid phases paired chosen ran due own) start ran routes
    rw [Nat.zero_add] at after
    exact ⟨s, chosen, after.booked, after.pool,
      decodesEven_iff levels (mem_of_leastLoaded chosen) after.booked⟩

/-- One instance for prompts and two that decode. -/
def pairedThree : Config where
  cluster := {
    instances := 3
    disaggregated := { enabled := true, prefillInstances := 1, decodeInstances := 2 } }
  policies := { routing := .pdSplit }
  latency := .throughput {}

/-- Two requests at once are both to be decoded by the same one of them, which is uneven. -/
theorem paired_burst_shares : ∃ c d e f g, new pairedThree .off = .ok c ∧
    c.injectAll [{ id := 0, arrivalTime := 2, inputTokens := 16, outputTokens := 2 },
      { id := 1, arrivalTime := 2, inputTokens := 16, outputTokens := 2 }] = .ok d ∧
    d.start = .ok e ∧ e.runEvents 4 = (.ok (), f) ∧ f.runEvents 2 = (.ok (), g) ∧
    (∀ b ∈ f.path 2, b.RoutesAt 2) ∧ (∀ i, g.booked i = f.booked i + if 1 = i then 2 else 0) ∧
    ¬DecodesEven 2 f g := by
  obtain ⟨c, d, e, f, made, injected, started, before, done, routes, two, first, second⟩ :
      ∃ c d e f, new pairedThree .off = .ok c ∧
      c.injectAll [{ id := 0, arrivalTime := 2, inputTokens := 16, outputTokens := 2 },
        { id := 1, arrivalTime := 2, inputTokens := 16, outputTokens := 2 }] = .ok d ∧
      d.start = .ok e ∧ e.runEvents 4 = (.ok (), f) ∧ (f.runEvents 2).1 = .ok () ∧
      (∀ b ∈ f.path 2, b.RoutesAt 2) ∧ (f.path 2).length = 2 ∧
      (leastLoaded (f.poolAt 2 .decode)).map Snapshot.standing = some (1, 0) ∧
      (2, 0) ∈ (f.poolAt 2 .decode).map Snapshot.standing :=
    ⟨_, _, _, _, rfl, rfl, rfl, rfl, by decide +kernel, by decide +kernel, by decide +kernel,
      by decide +kernel, by decide +kernel⟩
  have reached : Reachable pairedThree f := by
    have after := (((Reachable.new made).injectAll injected).start started).runEvents 4
    rwa [before] at after
  have ran : f.runEvents 2 = (.ok (), (f.runEvents 2).2) := Prod.ext done rfl
  obtain ⟨_, ⟨s, chosen, booked, _, even⟩ | ⟨unpaired, _⟩⟩ :=
    bursts_share_decode reached rfl ran routes
  case inr => exact absurd (by decide) unpaired
  rw [chosen] at first
  obtain ⟨own, load⟩ := Prod.mk.inj (Option.some.inj first)
  rw [two, own] at booked
  refine ⟨c, d, e, f, _, made, injected, started, before, ran, routes, booked, fun still => ?_⟩
  obtain ⟨u, hu, other⟩ := List.mem_map.mp second
  obtain ⟨own', load'⟩ := Prod.mk.inj other
  rcases even.mp still u hu (by omega) with none | behind
  · omega
  · omega

end Cluster
end InferenceSim
