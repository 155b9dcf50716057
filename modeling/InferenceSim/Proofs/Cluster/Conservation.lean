import InferenceSim.Proofs.Cluster.Draining
import InferenceSim.Proofs.Cluster.Journeys
import InferenceSim.Proofs.Instance.Shares
import Mathlib.Algebra.BigOperators.Ring.Finset

/-! Conservation of work. Every token that an instance computes is in the share of a request, which
takes it along from instance to instance until it is complete. Without a preemption no token is
computed twice, so in the end the instances have computed what the requests required. -/
namespace InferenceSim
namespace Cluster

/-- The tokens that some instances have computed beyond the shares of their requests, and of those
that some actions carry. -/
def surplus (blockSize : Nat) (prompt : Bool) (actions : List Action) (instances : List Instance) :
    Int :=
  (instances.map (·.surplus blockSize prompt)).sum - sharesOf blockSize prompt (carried actions)

/-- Requests are poised where they wait, as long as nobody is preempted there: they have not run
before they arrive, and have their prompts computed when they are handed off. -/
def poising : Law where
  server _ i := i.Poising
  arrived _ r := r.Untouched
  handed _ r := r.inputTokens ≤ r.progress
  completed _ := True

theorem poising_kept (spec : InstanceSpec) : poising.Kept spec where
  new id role rule := .new id role rule
  fresh _ fresh := .of_fresh fresh
  wait _ holds := holds
  travel _ untouched := untouched
  transfer _ computed := computed
  route _ _ untouched := untouched.routed
  enqueue _ holds new done := by
    rcases new with untouched | computed
    · exact holds.enqueue untouched.poised done
    · exact holds.enqueue (.past computed) done
  step _ holds _ done := holds.step done
  complete coherent holds flight done :=
    ⟨holds.complete coherent flight done, fun _ _ => trivial,
      Instance.handed_past coherent flight done⟩
  rescore rule holds := holds.rescore rule

def Calm (instances : List Instance) : Prop := ∀ i ∈ instances, i.stats.preemptions = 0

section
variable {blockSize : Nat} {prompt : Bool} {a x : Action} {actions others : List Action}
  {c : Cluster} {host : Nat} {n : Member} {r s : Request}

theorem surplus_cons (own : a.request? = some r) (instances : List Instance) :
    surplus blockSize prompt (a :: actions) instances =
      surplus blockSize prompt actions instances - r.share blockSize prompt := by
  rw [surplus, surplus, carried, List.filterMap_cons, own]
  dsimp only
  rw [sharesOf_cons, carried]
  omega

theorem surplus_carry (own : a.request? = some r) (own' : x.request? = some s)
    (same : s.share blockSize prompt = r.share blockSize prompt) (instances : List Instance) :
    surplus blockSize prompt (x :: actions) instances =
      surplus blockSize prompt (a :: actions) instances := by
  rw [surplus_cons own, surplus_cons own', same]

theorem surplus_append (actions others : List Action) (instances : List Instance) :
    surplus blockSize prompt (actions ++ others) instances =
      surplus blockSize prompt others instances - sharesOf blockSize prompt (carried actions) := by
  rw [surplus, surplus, carried, List.filterMap_append, sharesOf_append, carried, carried]
  omega

theorem carried_bare (bare : ∀ x ∈ actions, x.request? = none) : carried actions = [] :=
  List.filterMap_eq_nil_iff.mpr bare

theorem surplus_bare (bare : ∀ x ∈ actions, x.request? = none) (instances : List Instance) :
    surplus blockSize prompt (actions ++ others) instances =
      surplus blockSize prompt others instances := by
  rw [surplus_append, carried_bare bare]
  exact Int.sub_zero _

theorem surplus_perm (same : actions.Perm others) (instances : List Instance) :
    surplus blockSize prompt actions instances = surplus blockSize prompt others instances := by
  rw [surplus, surplus, carried, sharesOf_perm (same.filterMap _), carried]

theorem surplus_modify (actions : List Action) (f : Member → Member)
    (at' : c.members[host]? = some n) :
    surplus blockSize prompt actions ((c.members.modify host f).map (·.server)) =
      surplus blockSize prompt actions c.instances +
        ((f n).server.surplus blockSize prompt - n.server.surplus blockSize prompt) := by
  have total : ((c.members.modify host f).map (·.server.surplus blockSize prompt)).sum +
      n.server.surplus blockSize prompt = (c.members.map (·.server.surplus blockSize prompt)).sum +
        (f n).server.surplus blockSize prompt := sum_modify f _ at'
  rw [surplus, surplus, instances, List.map_map, List.map_map]
  dsimp only [Function.comp_def]
  omega

end

variable {config : Config} {rs : List Request} {b c d : Cluster} {l m : Ledger} {a : Action}
  {e : Event} {past : List Cluster} {host : Nat} {i j : Instance} {sent : List Action}
  {notes : List DecisionRecord} {ms : List Member} {prompt : Bool}

theorem surplus_of_deed (distinct : (rs.map (·.id)).Nodup) (counted : ∀ r ∈ rs, r.Counted)
    (k : Coherent config rs [a] b l) (deed : Deed b a sent notes ms)
    (servers : ∀ i ∈ b.instances, i.Poising) (hand : poising.action b.now a)
    (calm : Calm (ms.map (·.server))) (prompt : Bool) (actions : List Action) :
    surplus config.cluster.spec.blockSize prompt (sent ++ actions) (ms.map (·.server)) =
      surplus config.cluster.spec.blockSize prompt (a :: actions) b.instances +
        sharesOf config.cluster.spec.blockSize prompt (b.finishing a) := by
  have only : ∀ {x y : Int}, x = y → x = y + 0 := fun same => same.trans (Int.add_zero _).symm
  cases deed with
  | accept r | grant r | delay r => exact only (surplus_carry rfl rfl rfl _)
  | refuse r | forgo | misroute =>
      have untouched : Request.Untouched _ := hand
      refine only ?_
      rw [surplus_cons rfl, untouched.share, Int.sub_zero]
      rfl
  | @send _ _ _ host =>
      have servers : (b.members.modify host Member.expecting).map (·.server) = b.instances :=
        servers_modify _ _ fun _ => rfl
      rw [servers]
      refine only (surplus_carry rfl rfl ?_ _)
      exact Request.share_congr rfl rfl rfl
  | @join _ _ r _ _ _ _ own at' done bare =>
      have brings : a.request? = some r := by rcases own with rfl | rfl <;> rfl
      have finishes : b.finishing a = [] := by rcases own with rfl | rfl <;> rfl
      rw [surplus_bare bare, surplus_modify _ _ at', Instance.surplus_queued done,
        surplus_cons brings, finishes, sharesOf_nil]
      omega
  | @turnAway _ _ r _ _ _ _ _ _ own at' done bare =>
      rcases own with rfl | rfl
      · have untouched : Request.Untouched r := hand
        refine only ?_
        rw [surplus_bare bare, surplus_modify _ _ at', Instance.surplus_rejected done,
          surplus_cons rfl, untouched.share]
        omega
      · cases k.queued_of_handed distinct (k.host_eq at').1 done
  | @step host m j _ _ at' done bare =>
      have found := (k.host_eq at').1
      have ready := (Instance.ready_of_awaited (k.awaits found (decide_eq_true rfl))).2
      have after : (b.members.modify host fun n => { n with server := j })[host]? =
          some { m with server := j } := by
        rw [List.getElem?_modify_eq, at']
        rfl
      have calm' := calm j (List.mem_map.mpr ⟨_, List.mem_of_getElem? after, rfl⟩)
      have small : ∀ r ∈ m.server.queue, r.inputTokens < 4294967296 := fun r hr =>
        (k.counted_at counted found r (List.mem_append_right _ hr)).inputTokens_lt
      refine only ?_
      rw [surplus_bare bare, surplus_modify _ _ at', Instance.surplus_step
        (k.employs host _ found).coherent ready (servers _ (List.mem_of_getElem? found)) small done calm',
        Int.sub_self, Int.add_zero]
      exact (surplus_bare (List.forall_mem_singleton.mpr rfl) _).symm
  | @complete host _ _ j i _ _ at' done rescored bare =>
      have found := (k.host_eq at').1
      obtain ⟨_, o, flight⟩ := Instance.flight_of_awaited (k.awaits found (decide_eq_true rfl))
      have same : i.surplus config.cluster.spec.blockSize prompt =
          j.surplus config.cluster.spec.blockSize prompt := by
        rcases rescored with rfl | ⟨rule, rfl⟩
        · rfl
        · exact Instance.surplus_reprioritize rule
      have here : surplus config.cluster.spec.blockSize prompt (.stepComplete host :: actions)
          b.instances = surplus config.cluster.spec.blockSize prompt actions b.instances :=
        surplus_bare (List.forall_mem_singleton.mpr rfl) _
      rw [servers_countHanded, servers_countFinished, List.append_assoc, surplus_append,
        carried_actions, surplus_bare bare, surplus_modify _ _ at', finishing_eq at' done, here, same,
        Instance.surplus_complete (k.employs host _ found).coherent flight done]
      omega
  | refresh bare =>
      refine only ?_
      rw [surplus_bare bare]
      exact (surplus_bare (List.forall_mem_singleton.mpr rfl) _).symm

/-- Only the beginning of a step preempts requests. -/
theorem Turn.preempts (turn : Turn b host i a j) : j.stats.preemptions = i.stats.preemptions ∨
    a = .step host ∧ ∃ q, i.step b.now b.config.latency b.events = .ok (j, q) := by
  cases turn with
  | rest => exact .inl rfl
  | arrive done | transfer done =>
      rcases Instance.enqueue_cases done with rfl | ⟨_, _, rfl⟩ <;> exact .inl rfl
  | step done => exact .inr ⟨rfl, _, done⟩
  | @complete _ j' _ _ done rescored =>
      obtain ⟨_, _, _, _, same⟩ := Instance.complete_stats done
      have kept : j'.stats.preemptions = i.stats.preemptions := by rw [same]
      rcases rescored with rfl | ⟨rule, rfl⟩ <;> exact .inl kept

theorem Effect.calm (effect : Effect b a d) (calm : Calm d.instances) : Calm b.instances := by
  intro i hi
  obtain ⟨host, at'⟩ := List.getElem?_of_mem hi
  obtain ⟨j, after, turn⟩ := effect.turns at'
  have none := calm j (List.mem_of_getElem? after)
  rcases turn.preempts with same | ⟨_, q, done⟩
  · exact same.symm.trans none
  · exact Nat.le_zero.mp (none ▸ Instance.preemptions_le_step done)

theorem Turn.calm_of_alone (valid : config.cluster.Valid) (counted : ∀ r ∈ rs, r.Counted)
    (k : Coherent config rs [a] b l) (alone : rs.length ≤ 1) (at' : b.instances[host]? = some i)
    (turn : Turn b host i a j) :
    j.stats.preemptions = i.stats.preemptions := by
  rcases turn.preempts with same | ⟨_, q, done⟩
  · exact same
  · refine Instance.calm_step valid.usable (k.employs host i at').coherent ?_
      (k.counted_at counted at') done
    have inside : i.requests.length ≤ (b.instances.flatMap Instance.requests).length := by
      rw [List.flatMap_def]
      exact (List.sublist_flatten_of_mem (List.mem_map_of_mem (List.mem_of_getElem? at'))).length_le
    have owners := k.owners.length_eq
    rw [List.length_append, List.length_map, List.length_append] at owners
    omega

theorem calm_of_alone (valid : config.cluster.Valid) (distinct : (rs.map (·.id)).Nodup)
    (counted : ∀ r ∈ rs, r.Counted) (alone : rs.length ≤ 1) (k : Coherent config rs [] c l)
    (g : Logged config rs c l)
    (calm : Calm c.instances) (limit : Nat) : Calm (c.runEvents limit).2.instances := by
  refine run_keeps (fun _ c => Calm c.instances) valid distinct (fun k g ran _ before j hj => ?_)
    k g [] calm limit
  obtain ⟨k', instances, _⟩ := ran.begins k g
  obtain ⟨host, after⟩ := List.getElem?_of_mem hj
  obtain ⟨i, at', turn⟩ := ran.effect.turned after
  rw [turn.calm_of_alone valid counted k' alone at']
  exact before i (instances ▸ List.mem_of_getElem? at')

/-- As long as no request is preempted, the surplus is the share of the requests that were
completed in the states that a run has passed through. -/
def Conserved (blockSize : Nat) (past : List Cluster) (c : Cluster) : Prop :=
  Calm c.instances → ∀ prompt, surplus blockSize prompt c.events.actions c.instances =
    sharesOf blockSize prompt (past.flatMap completing)

/-- One event conserves the work. -/
theorem Conserved.ran (distinct : (rs.map (·.id)).Nodup) (counted : ∀ r ∈ rs, r.Counted)
    (k : Coherent config rs [] c l) (g : Logged config rs c l) (ran : Ran c e b d)
    (poised : poising.Holds c) (before : Conserved config.cluster.spec.blockSize past c) :
    Conserved config.cluster.spec.blockSize (past ++ [c]) d := by
  intro calm prompt
  obtain ⟨k', instances, now, _, pending, _⟩ := ran.begins k g
  obtain ⟨sent, notes, deed, leaves⟩ := ran.does
  have hand : poising.action b.now e.action :=
    now ▸ poised.actions e (pending ▸ List.mem_cons_self)
  have went := surplus_of_deed distinct counted k' deed (instances ▸ poised.servers) hand calm prompt
    b.events.actions
  rw [instances, ← ran.actions k g, before (instances ▸ ran.effect.calm calm) prompt, ← ran.completing_eq]
    at went
  rw [surplus_perm leaves.actions, List.flatMap_append, List.flatMap_singleton, sharesOf_append]
  exact went

theorem Conserved.of_awaits {blockSize : Nat} (awaits : Awaits config rs c)
    (poised : poising.Holds c) : Conserved blockSize [] c := by
  intro _ prompt
  have idle : (c.instances.map (·.surplus blockSize prompt)).sum = 0 := by
    refine List.sum_eq_zero (List.forall_mem_map.mpr fun i hi => ?_)
    obtain ⟨id, role, rule, rfl⟩ := awaits.servers i hi
    exact Instance.surplus_new id role rule
  have untouched : ∀ r ∈ carried c.events.actions, r.share blockSize prompt = 0 := by
    intro r hr
    obtain ⟨a, ha, own⟩ := List.mem_filterMap.mp hr
    obtain ⟨e, he, rfl⟩ := List.mem_map.mp ha
    have law := poised.actions e he
    rcases awaits.arrivals e he with refresh | ⟨s, _, _, arrives⟩
    · rw [refresh] at own
      cases own
    · rw [arrives] at own law
      obtain rfl := Option.some.inj own
      exact Request.Untouched.share law
  rw [surplus, idle, sharesOf_zero untouched]
  rfl

/-- Requests complete between the progress that is counted as their end and their end. -/
def reaching : Law where
  server _ _ := True
  arrived _ _ := True
  handed _ _ := True
  completed r := r.completionProgress ≤ r.progress ∧ r.progress ≤ r.span ∧
    r.timing.completionTime.isSome

theorem reaching_kept (spec : InstanceSpec) : reaching.Kept spec where
  new _ _ _ := trivial
  fresh _ _ := trivial
  wait _ _ := trivial
  travel _ _ := trivial
  transfer _ _ := trivial
  route _ _ _ := trivial
  enqueue _ _ _ _ := trivial
  step _ _ _ _ := trivial
  complete coherent _ flight done := by
    refine ⟨trivial, fun r hr => ?_, fun _ _ => trivial⟩
    obtain ⟨reached, within, noted⟩ := Instance.completed_inv coherent flight done r hr
    exact ⟨reached, within, noted ▸ rfl⟩
  rescore _ _ := trivial

theorem cast_totalOf (counts : List Nat) : (totalOf counts : Int) = (counts.map Nat.cast).sum :=
  Nat.cast_list_sum counts

/-- The tokens that a request of the log required in a phase, less what was found in caches. -/
def required (blockSize : Nat) (x : Completion) : (prompt : Bool) → Int
  | true => x.inputTokens - blockSize * x.cacheHitBlocks
  | false => (max x.outputTokens 1 - 1 : Nat)

theorem required_of_completed {blockSize : Nat} {r : Request} (reached : reaching.completed r)
    (counted : r.Counted) (prompt : Bool) :
    (Completion.ofRequest? r).map (required blockSize · prompt) = some (r.share blockSize prompt) := by
  obtain ⟨reached, within, noted⟩ := reached
  obtain ⟨time, noted⟩ := Option.isSome_iff_exists.mp noted
  rw [Request.completionProgress_eq counted.span_lt] at reached
  have reached : r.progress = r.span := Nat.le_antisymm within reached
  have whole : r.span = r.inputTokens + max r.outputTokens 1 - 1 := rfl
  rw [Completion.ofRequest?, Request.e2e, noted]
  refine congrArg some ?_
  cases prompt <;> simp only [required, Request.share, reached, whole] <;> omega

theorem required_sum {blockSize : Nat} (reached : ∀ r ∈ rs, reaching.completed r)
    (counted : ∀ r ∈ rs, r.Counted) (prompt : Bool) :
    ((rs.filterMap Completion.ofRequest?).map (required blockSize · prompt)).sum =
      sharesOf blockSize prompt rs := by
  have logged : ∀ r ∈ rs, (Completion.ofRequest? r).map (required blockSize · prompt) =
      some (r.share blockSize prompt) := fun r hr =>
      required_of_completed (reached r hr) (counted r hr) prompt
  rw [List.map_filterMap, List.filterMap_congr logged, sharesOf]
  exact congrArg List.sum (congrFun List.filterMap_eq_map rs)

theorem Coherent.surplus_of_pending {blockSize : Nat} (k : Coherent config rs [] c l)
    (counted : ∀ r ∈ rs, r.Counted) (none : c.events.pending = []) (prompt : Bool) :
    surplus blockSize prompt c.events.actions c.instances =
      (totalOf (c.instances.map (·.stats.tokens prompt)) : Nat) := by
  have own : ∀ i ∈ c.instances,
      i.surplus blockSize prompt = (i.stats.tokens prompt : Nat) := by
    intro i hi
    obtain ⟨running, queue⟩ := k.idle_of_pending counted none hi
    rw [Instance.surplus, Instance.ahead, running, queue]
    exact Int.sub_zero _
  have total := cast_totalOf (c.instances.map (·.stats.tokens prompt))
  rw [List.map_map] at total
  rw [surplus, EventQueue.actions, none, List.map_congr_left own, total]
  exact Int.sub_zero _

/-- Work is conserved: if a run has emptied its events and preempted no request, its instances have
computed the prompts of the complete requests, without what was found of them in caches, and their
output, without the first tokens, with which prompts end. The tokens of each request are to be
counted in 32 bits. -/
theorem work_conserved (valid : config.validate = .ok ()) (trace : DecisionTrace)
    (fresh : ∀ r ∈ rs, r.Fresh) (distinct : (rs.map (·.id)).Nodup)
    (counted : ∀ r ∈ rs, r.Counted) :
    ∃ c d e, new config trace = .ok c ∧ c.injectAll rs = .ok d ∧ d.start = .ok e ∧
      ∀ limit, ∃ f, e.runEvents limit = (.ok (), f) ∧
        (f.events.pending = [] → (∀ i ∈ f.instances, i.stats.preemptions = 0) →
          (totalOf (f.instances.map (·.stats.prefillTokens)) : Int) =
              (f.log.all.toList.map fun x =>
                (x.inputTokens - config.cluster.blockSize * x.cacheHitBlocks : Int)).sum ∧
            totalOf (f.instances.map (·.stats.decodeTokens)) =
              totalOf (f.log.all.toList.map fun x => max x.outputTokens 1 - 1)) := by
  have promised := promised_of_validate valid
  have kept := poising_kept config.cluster.spec
  obtain ⟨c, d, e, made, injected, started, coherent, logged, awaits, reached⟩ :=
    valid_run_keeps (reaching_kept config.cluster.spec) valid trace fresh distinct
  refine ⟨c, d, e, made, injected, started, fun limit => ?_⟩
  obtain ⟨f, l, ran, coherent', _⟩ := runEvents_ok promised.valid distinct coherent logged limit
  refine ⟨f, ran, fun empty calm => ?_⟩
  have conserved := (run_keeps (fun past c => poising.Holds c ∧
      Conserved config.cluster.spec.blockSize past c) promised.valid distinct
    (fun k g ran _ before =>
      ⟨(kept.ran k g ran before.1).1, before.2.ran distinct counted k g ran before.1⟩)
    coherent logged [] ⟨awaits.holds kept fresh, .of_awaits awaits (awaits.holds kept fresh)⟩ limit).2
  rw [ran] at conserved
  have log := runEvents_logs promised.valid distinct coherent logged limit
  rw [ran, awaits.log, List.nil_append] at log
  have whole : ∀ prompt, (totalOf (f.instances.map (·.stats.tokens prompt)) : Int) =
      (f.log.all.toList.map (required config.cluster.blockSize · prompt)).sum := by
    intro prompt
    rw [← coherent'.surplus_of_pending counted empty, conserved calm prompt, log]
    exact (required_sum (fun r hr => (reached limit).2 r hr |>.2)
      (fun r hr => show r.origin.Counted from counted _ ((reached limit).2 r hr).1) prompt).symm
  have output := cast_totalOf (f.log.all.toList.map fun x => max x.outputTokens 1 - 1)
  rw [List.map_map] at output
  exact ⟨whole true, Int.ofNat.inj ((whole false).trans output.symm)⟩

theorem default_work_conserved : ∃ c d e n f, new {} .off = .ok c ∧
    c.injectAll [{ id := 4, arrivalTime := 0, inputTokens := 35, outputTokens := 6 }] = .ok d ∧
    d.start = .ok e ∧ e.runEvents n = (.ok (), f) ∧ f.events.pending = [] ∧
    (∀ i ∈ f.instances, i.stats.preemptions = 0) ∧
    (totalOf (f.instances.map (·.stats.prefillTokens)) : Int) =
      (f.log.all.toList.map fun x => (x.inputTokens - 16 * x.cacheHitBlocks : Int)).sum ∧
    totalOf (f.instances.map (·.stats.decodeTokens)) =
      totalOf (f.log.all.toList.map fun x => max x.outputTokens 1 - 1) := by
  have fresh : ∀ r ∈ [{ id := 4, arrivalTime := 0, inputTokens := 35, outputTokens := 6 }],
      Request.Fresh r := List.forall_mem_singleton.mpr rfl
  have valid := (@promised_of_validate {} rfl).valid
  obtain ⟨c, d, e, made, injected, started, conserved⟩ :=
    @work_conserved {} _ rfl .off fresh (by decide) (by decide)
  obtain ⟨c', d', e', made', injected', started', coherent, logged, awaits, _⟩ :=
    @valid_run_keeps {} _ reaching (reaching_kept _) rfl .off fresh (by decide)
  obtain rfl := Except.ok.inj (made.symm.trans made')
  obtain rfl := Except.ok.inj (injected.symm.trans injected')
  obtain rfl := Except.ok.inj (started.symm.trans started')
  obtain ⟨n, f, _, done, empty, _⟩ :=
    runEvents_drains valid (by decide) (by decide) rfl rfl coherent logged
  obtain ⟨f', ran, conserved⟩ := conserved n
  obtain rfl := (Prod.mk.inj ((done n (Nat.le_refl n)).symm.trans ran)).2
  have start : Calm e.instances := by
    intro i hi
    obtain ⟨id, role, rule, rfl⟩ := awaits.servers i hi
    rfl
  have calm := calm_of_alone valid (by decide) (by decide) (by decide) coherent logged start n
  rw [ran] at calm
  exact ⟨c, d, e, n, f, made, injected, started, ran, empty, calm, conserved empty calm⟩

end Cluster
end InferenceSim
