import InferenceSim.Proofs.Cluster.Accounting

/-! The end of a run. If admission accepts all and no horizon cuts the run short, then every
event leaves less to happen, so at some time nothing is left and each request has met its
fate. -/
namespace InferenceSim
namespace Cluster

/-- A run that is over: every request that can be served was completed, and the others
were turned away by an instance. -/
structure Drained (spec : InstanceSpec) (rs : List Request) (c : Cluster) : Prop where
  pending : c.events.pending = []
  idle : ∀ i ∈ c.instances, i.running = [] ∧ i.queue = []
  finished : c.finished.Perm ((rs.filter spec.serves).map (·.id))
  unserved : c.log.rejectedAtInstance = (rs.filter fun r => !spec.serves r).length
  admitted : c.log.rejectedAtAdmission = 0
  routed : c.log.rejectedAtRouting = 0

variable {config : Config} {rs : List Request} {c d : Cluster} {l : Ledger}

theorem nearer_wellFounded : WellFounded fun d c : Cluster => Nearer c d := by
  have lexical : WellFounded (Prod.Lex Nat.lt (Prod.Lex Nat.lt Nat.lt)) :=
    (Prod.lex Nat.lt_wfRel (Prod.lex Nat.lt_wfRel Nat.lt_wfRel)).wf
  refine Subrelation.wf ?_ (InvImage.wf (fun c : Cluster =>
    (burden [] c, potential c, c.events.refreshing)) lexical)
  rintro d c ((lighter | ⟨same, nearer⟩) | ⟨same, still, fewer⟩)
  · exact .left _ _ lighter
  · show Prod.Lex _ _ (burden [] d, _) (burden [] c, _)
    rw [same]
    exact .right _ (.left _ _ nearer)
  · show Prod.Lex _ _ (burden [] d, potential d, _) (burden [] c, potential c, _)
    rw [same, still]
    exact .right _ (.right _ fewer)

theorem pending_of_step (unbounded : c.config.run.horizon = none) (stopped : c.step = none) :
    c.events.pending = [] := by
  cases pending : c.events.pending with
  | nil => rfl
  | cons e rest =>
      have popped : c.events.pop? = some (e, { c.events with pending := rest, now := e.time }) := by
        rw [EventQueue.pop?, pending]
      have within : c.withinHorizon e.time = true := by rw [withinHorizon, unbounded]
      rw [step, popped] at stopped
      dsimp only at stopped
      rw [if_pos within] at stopped
      split at stopped
      · cases stopped
      · split at stopped <;> cases stopped

theorem runEvents_drains (valid : config.cluster.Valid) (distinct : (rs.map (·.id)).Nodup)
    (counted : ∀ r ∈ rs, r.Counted) (all : config.policies.admission = .acceptAll)
    (unbounded : config.run.horizon = none) (k : Coherent config rs [] c l) (g : Logged config rs c l) :
    ∃ n d l', (∀ limit, n ≤ limit → c.runEvents limit = (.ok (), d)) ∧
      d.events.pending = [] ∧ Coherent config rs [] d l' ∧ Logged config rs d l' := by
  -- each event leaves less to happen, however many more events it brings
  induction c using nearer_wellFounded.induction generalizing l with
  | _ c ih =>
      rcases step_ok valid distinct k g with stopped | ⟨d, m, stepped, k', g', nearer⟩
      · refine ⟨0, c, l, fun limit _ => ?_, ?_, k, g⟩
        · cases limit with
          | zero => rfl
          | succ limit => rw [runEvents, stopped]
        · exact pending_of_step (k.settings ▸ unbounded) stopped
      · obtain ⟨n, e, m, done, ended⟩ := ih d (nearer all counted) k' g'
        refine ⟨n + 1, e, m, fun limit enough => ?_, ended⟩
        obtain ⟨limit, rfl⟩ : ∃ m, limit = m + 1 := ⟨limit - 1, by omega⟩
        rw [runEvents, stepped]
        exact done limit (Nat.le_of_succ_le_succ enough)

namespace Coherent

theorem idle_of_pending (k : Coherent config rs [] c l) (counted : ∀ r ∈ rs, r.Counted)
    (none : c.events.pending = []) {i : Instance} (hi : i ∈ c.instances) :
    i.running = [] ∧ i.queue = [] := by
  obtain ⟨id, at'⟩ := List.getElem?_of_mem hi
  have employed := k.employs id i at'
  have awaited := employed.awaited
  rw [EventQueue.actions, none] at awaited
  have asleep : i.busy = false := by
    cases busy : i.busy with
    | false => rfl
    | true =>
        have nothing : i.awaited = [] := List.Perm.nil_eq awaited |>.symm
        unfold Instance.awaited at nothing
        rw [if_pos busy] at nothing
        split at nothing <;> cases nothing
  obtain ⟨_, running, queue⟩ := employed.coherent.idle asleep
  exact ⟨running, queue fun r hr => k.counted_at counted at' r (List.mem_append_right _ hr)⟩

theorem drained (k : Coherent config rs [] c l) (g : Logged config rs c l)
    (counted : ∀ r ∈ rs, r.Counted) (paired : config.cluster.Paired)
    (all : config.policies.admission = .acceptAll) (none : c.events.pending = []) :
    Drained config.cluster.spec rs c := by
  have idle : ∀ i ∈ c.instances, i.running = [] ∧ i.queue = [] := fun i hi =>
    k.idle_of_pending counted none hi
  have none' : c.instances.flatMap Instance.requests = [] :=
    List.flatMap_eq_nil_iff.mpr fun i hi => List.append_eq_nil_iff.mpr (idle i hi)
  have refused := k.ledger.refused all
  have parted : (l.completed ++ l.unserved).Perm rs := by
    have owners := k.owners
    rw [EventQueue.actions, none, none', List.append_nil, Ledger.all, refused,
      k.ledger.misrouted paired, List.append_nil, List.append_nil] at owners
    exact owners
  have served : (l.completed ++ l.unserved).filter config.cluster.spec.serves = l.completed := by
    rw [List.filter_append, List.filter_eq_self.mpr k.ledger.completed, List.filter_eq_nil_iff.mpr
      fun r hr => Bool.eq_false_iff.mp (k.ledger.unserved r hr), List.append_nil]
  have others : (l.completed ++ l.unserved).filter (fun r => !config.cluster.spec.serves r) =
      l.unserved := by
    rw [List.filter_append, List.filter_eq_nil_iff.mpr fun r hr => by
      rw [k.ledger.completed r hr]; exact Bool.false_ne_true, List.filter_eq_self.mpr fun r hr => by
      rw [k.ledger.unserved r hr]; rfl, List.nil_append]
  refine ⟨none, idle, ?_, ?_, ?_, ?_⟩
  · rw [finished, g.completed, ← served]
    exact (parted.filter _).map _
  · rw [g.unserved, ← others]
    exact (parted.filter _).length_eq
  · rw [g.refused, refused]
    rfl
  · rw [g.misrouted, k.ledger.misrouted paired]
    rfl

end Coherent

/-- Under a valid configuration that turns no request away at admission, and where 32 bits count the
instances and the tokens of each request, every run is over after some number of events. Then the
requests that can be served are complete, the others were turned away by an instance, and none is
left. -/
theorem valid_runs_drain (valid : config.validate = .ok ()) (trace : DecisionTrace)
    (fresh : ∀ r ∈ rs, r.Fresh) (distinct : (rs.map (·.id)).Nodup)
    (counted : ∀ r ∈ rs, r.Counted) (paired : config.cluster.Paired)
    (all : config.policies.admission = .acceptAll) (unbounded : config.run.horizon = none) :
    ∃ c d e n f, new config trace = .ok c ∧ c.injectAll rs = .ok d ∧ d.start = .ok e ∧
      (∀ limit, n ≤ limit → e.runEvents limit = (.ok (), f)) ∧
      (n ≤ eventLimit → d.run = (.ok f.summary, f.recordAnomalies f.summary)) ∧
      Drained config.cluster.spec rs f := by
  have promised := promised_of_validate valid
  obtain ⟨c, d, e, made, injected, started, loaded, coherent, logged⟩ :=
    launch_ok valid trace fresh
  obtain ⟨n, f, l, done, none, coherent, logged⟩ :=
    runEvents_drains promised.valid distinct counted all unbounded coherent logged
  refine ⟨c, d, e, n, f, made, injected, started, done, fun enough => ?_,
    coherent.drained logged counted paired all none⟩
  rw [run, started]
  dsimp only
  rw [done eventLimit enough]

theorem default_run_drains : ∃ c d e n f, new {} .off = .ok c ∧
    c.injectAll [{ id := 5, arrivalTime := 8, inputTokens := 30, outputTokens := 4 },
      { id := 1, arrivalTime := 0, inputTokens := 0, outputTokens := 2 }] = .ok d ∧
    d.start = .ok e ∧ (∀ limit, n ≤ limit → e.runEvents limit = (.ok (), f)) ∧
    (n ≤ eventLimit → d.run = (.ok f.summary, f.recordAnomalies f.summary)) ∧
    Drained (ClusterSettings.spec {})
      [{ id := 5, arrivalTime := 8, inputTokens := 30, outputTokens := 4 },
        { id := 1, arrivalTime := 0, inputTokens := 0, outputTokens := 2 }] f :=
  valid_runs_drain rfl .off
    (List.forall_mem_cons.mpr ⟨rfl, List.forall_mem_singleton.mpr rfl⟩) (by decide) (by decide)
    (fun split => by cases split) rfl rfl

end Cluster
end InferenceSim
