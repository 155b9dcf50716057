import InferenceSim.Proofs.Cluster.Draining
import InferenceSim.Proofs.Cluster.Guises

/-! Horizons. A run with a horizon is the run without one in a guise, until its next event would
come after the horizon. All events that would have followed are later still. -/
namespace InferenceSim

variable {config : Config} {rs : List Request} {b c d e launched : Cluster} {l : Ledger} {h : Nat}

namespace Guise

/-- A horizon is set, and nothing else looks different. -/
def limited (h : Nat) : Guise where
  horizon _ := some h
  event := id
  time _ := rfl
  action _ := rfl
  later _ _ := rfl
  entry := id
  logged _ := rfl

theorem queue_limited (h : Nat) (q : EventQueue) : (limited h).queue q = q := by
  unfold queue limited
  rw [List.map_id]

theorem entries_limited (h : Nat) (c : Cluster) : ((limited h).wear c).entries = c.entries :=
  ((limited h).entries c).trans (List.map_id _)

theorem new_limited (h : Nat) (config : Config) (trace : DecisionTrace) :
    Cluster.new (config.withHorizon (some h)) trace
      = (Cluster.new config trace).map (limited h).wear := by
  unfold Cluster.new
  rw [Config.withHorizon_validate]
  cases config.validate with
  | error e => rfl
  | ok =>
      simp only [bind, Except.bind]
      rw [Config.withHorizon_policies, Config.withHorizon_cluster, Config.withHorizon_routerSeed]
      cases (AdmissionPolicy.ofRule config.policies.admission).mapError ConfigError.policy with
      | error e => rfl
      | ok admission =>
          cases (RoutingPolicy.ofRule config.policies.routing config.cluster.blockSize
            config.routerSeed).mapError ConfigError.policy <;> rfl

theorem withEventLog (g : Guise) (c : Cluster) : g.wear c.withEventLog = (g.wear c).withEventLog := by
  simp [wear, Cluster.withEventLog]

theorem inject_limited (h : Nat) (c : Cluster) (r : Request) :
    ((limited h).wear c).inject r = (c.inject r).map (limited h).wear := by
  unfold Cluster.inject Cluster.schedule
  rw [wear_events, queue_limited]
  cases c.events.schedule r.arrivalTime (.clusterArrival r) with
  | error v => rfl
  | ok next => simp only [bind, Except.bind, pure, Except.pure, Except.map, wear, queue_limited]

theorem injectAll_limited (h : Nat) (rs : List Request) (c : Cluster) :
    ((limited h).wear c).injectAll rs = (c.injectAll rs).map (limited h).wear := by
  induction rs generalizing c with
  | nil => rfl
  | cons r rest ih =>
      unfold Cluster.injectAll at ih ⊢
      rw [List.foldlM_cons, List.foldlM_cons, inject_limited]
      cases c.inject r with
      | error f => rfl
      | ok d => exact ih d

section Steps
variable {x : Event} {q : EventQueue} (popped : c.events.pop? = some (x, q))
include popped

theorem step_within (free : c.config.run.horizon = none) (soon : x.time ≤ h) :
    ((limited h).wear c).step = c.step.map (Prod.map id (limited h).wear) := by
  refine step fun y q' popped' => ?_
  obtain ⟨rfl, _⟩ := Prod.mk.inj (Option.some.inj (popped.symm.trans popped'))
  rw [Cluster.withinHorizon, Cluster.withinHorizon, free]
  exact decide_eq_true soon

theorem step_beyond (late : h < x.time) : ((limited h).wear c).step = none := by
  have popped' : ((limited h).wear c).events.pop? = some (x, q) := by
    rw [wear_events, queue_limited, popped]
  rw [Cluster.step, popped']
  exact if_neg (Bool.eq_false_iff.mp (decide_eq_false (Nat.not_le.mpr late)))

end Steps

end Guise

namespace Cluster

/-- Beyond a horizon only later events follow. -/
structure Beyond (h : Nat) (before : List LoggedEvent) (c : Cluster) : Prop where
  now : h < c.now
  logging : c.eventLog.isSome
  added : ∃ more, c.entries = before ++ more ∧ ∀ x ∈ more, h < x.time

theorem Beyond.filter {before : List LoggedEvent} (k : Beyond h before c)
    (all : ∀ x ∈ before, x.time ≤ h) : c.entries.filter (·.time ≤ h) = before := by
  obtain ⟨more, same, later⟩ := k.added
  rw [same, List.filter_append, List.filter_eq_self.mpr fun x hx => decide_eq_true (all x hx),
    List.filter_eq_nil_iff.mpr fun x hx => by simpa using later x hx, List.append_nil]

theorem Beyond.ran {before : List LoggedEvent} {x : Event} (k : Coherent config rs [] c l)
    (g : Logged config rs c l) (ran : Ran c x b d) (beyond : Beyond h before c) :
    Beyond h before d := by
  obtain ⟨logging, added, later, now⟩ := ran.adds k g beyond.logging
  obtain ⟨more, same, after⟩ := beyond.added
  have late : h < x.time := Nat.lt_of_lt_of_le beyond.now later
  refine ⟨now ▸ late, logging, more ++ [.ofEvent x], by rw [added, same, List.append_assoc], ?_⟩
  intro y hy
  rcases List.mem_append.mp hy with old | new
  · exact after y old
  · rw [List.mem_singleton.mp new]
    exact late

theorem runEvents_beyond (valid : config.cluster.Valid) (distinct : (rs.map (·.id)).Nodup)
    (k : Coherent config rs [] d l) (g : Logged config rs d l) {before : List LoggedEvent}
    (beyond : Beyond h before d) (all : ∀ x ∈ before, x.time ≤ h) (limit : Nat) :
    (d.runEvents limit).2.entries.filter (·.time ≤ h) = before :=
  (run_keeps (fun _ => Beyond h before) valid distinct
    (fun k g ran _ before => before.ran k g ran) k g [] beyond limit).filter all

theorem runEvents_limited (valid : config.cluster.Valid) (distinct : (rs.map (·.id)).Nodup)
    (unbounded : config.run.horizon = none) (k : Coherent config rs [] c l)
    (g : Logged config rs c l) (logging : c.eventLog.isSome) (within : ∀ x ∈ c.entries, x.time ≤ h)
    (limit : Nat) :
    (((Guise.limited h).wear c).runEvents limit).2.entries
      = (c.runEvents limit).2.entries.filter (·.time ≤ h) := by
  have whole : ∀ {c : Cluster}, (∀ x ∈ c.entries, x.time ≤ h) →
      c.entries = c.entries.filter (·.time ≤ h) := fun within =>
    (List.filter_eq_self.mpr fun x hx => decide_eq_true (within x hx)).symm
  induction limit generalizing c l with
  | zero => exact (Guise.entries_limited h c).trans (whole within)
  | succ limit ih =>
      have free : c.config.run.horizon = none := k.settings ▸ unbounded
      rcases step_ok valid distinct k g with ended | ⟨d, l', stepped, k', g', _⟩
      · have worn : ((Guise.limited h).wear c).step = none := by
          have drained : ((Guise.limited h).wear c).events.pop? = none := by
            rw [Guise.wear_events, Guise.queue_limited, EventQueue.pop?.eq_def,
              pending_of_step free ended]
          rw [step, drained]
        rw [runEvents, runEvents, worn, ended]
        exact (Guise.entries_limited h c).trans (whole within)
      · obtain ⟨x, b, ran⟩ := ran_of_step stepped
        obtain ⟨q, popped, _⟩ := ran.popped
        obtain ⟨logging', added, later, now⟩ := ran.adds k g logging
        rcases Nat.lt_or_ge h x.time with late | soon
        · have beyond : Beyond h c.entries d :=
            ⟨now ▸ late, logging', [.ofEvent x], added, List.forall_mem_singleton.mpr late⟩
          rw [runEvents, runEvents, Guise.step_beyond popped late, stepped]
          exact (Guise.entries_limited h c).trans
            (runEvents_beyond valid distinct k' g' beyond within limit).symm
        · have worn := Guise.step_within popped free soon
          rw [stepped] at worn
          rw [runEvents, runEvents, worn, stepped]
          refine ih k' g' logging' ?_
          rw [added]
          exact List.forall_mem_append.mpr ⟨within, List.forall_mem_singleton.mpr soon⟩

theorem filter_time_prefix {log : List LoggedEvent} {h₁ h₂ : Nat} (le : h₁ ≤ h₂)
    (sorted : log.Pairwise fun a b => a.time ≤ b.time) :
    log.filter (·.time ≤ h₁) <+: log.filter (·.time ≤ h₂) := by
  induction log with
  | nil => exact List.prefix_rfl
  | cons x rest ih =>
      obtain ⟨first, sorted⟩ := List.pairwise_cons.mp sorted
      by_cases soon : x.time ≤ h₁
      · rw [List.filter_cons_of_pos (by simpa using soon),
          List.filter_cons_of_pos (by simpa using Nat.le_trans soon le)]
        exact List.cons_prefix_cons.mpr ⟨rfl, ih sorted⟩
      · have none : (x :: rest).filter (·.time ≤ h₁) = [] := by
          refine List.filter_eq_nil_iff.mpr (List.forall_mem_cons.mpr ⟨by simpa using soon, ?_⟩)
          intro y hy
          have := first y hy
          simpa using show h₁ < y.time by omega
        rw [none]
        exact List.nil_prefix

/-- The log of a run over some requests, after each number of events and at its end. -/
def Logs (config : Config) (trace : DecisionTrace) (rs : List Request)
    (log : Nat → List LoggedEvent) : Prop :=
  ∃ c d e, new config trace = .ok c ∧ c.withEventLog.injectAll rs = .ok d ∧ d.start = .ok e ∧
    (∀ limit, ∃ f, e.runEvents limit = (.ok (), f) ∧ f.eventLog.isSome ∧ f.entries = log limit) ∧
    ∃ s f, d.run = (.ok s, f) ∧ f.eventLog.isSome ∧ f.entries = log eventLimit

theorem logs_of_launch {trace : DecisionTrace} (valid : config.cluster.Valid)
    (distinct : (rs.map (·.id)).Nodup) (made : new config trace = .ok c)
    (injected : c.withEventLog.injectAll rs = .ok d) (started : d.start = .ok launched)
    (k : Coherent config rs [] launched l) (g : Logged config rs launched l) :
    Logs config trace rs fun limit => (launched.runEvents limit).2.entries := by
  have recalls : Recalls launched := .of_launch made injected started
  refine ⟨c, d, launched, made, injected, started, fun limit => ?_,
    logged_run_ok valid distinct started k g recalls⟩
  obtain ⟨f, _, ran, _, _⟩ := runEvents_ok valid distinct k g limit
  have logging := (recalls.run valid distinct k g limit).logging
  rw [ran] at logging
  exact ⟨f, ran, logging, congrArg (·.2.entries) ran.symm⟩

/-- A horizon only cuts a run. Of the log of the same run without one it leaves the entries up to
the horizon, as they are; these come before all others, and before those that a later horizon
leaves as well. -/
theorem horizon_cuts (valid : config.validate = .ok ()) (trace : DecisionTrace)
    (fresh : ∀ r ∈ rs, r.Fresh) (distinct : (rs.map (·.id)).Nodup) :
    ∃ log, Logs (config.withHorizon none) trace rs log ∧
      (∀ limit, (log limit).Pairwise fun a b => a.time ≤ b.time) ∧
      (∀ h, Logs (config.withHorizon (some h)) trace rs fun limit =>
        (log limit).filter (·.time ≤ h)) ∧
      ∀ h₁ h₂, h₁ ≤ h₂ → ∀ limit,
        (log limit).filter (·.time ≤ h₁) <+: (log limit).filter (·.time ≤ h₂) := by
  have valid' : ∀ horizon, (config.withHorizon horizon).cluster.Valid := fun _ =>
    (promised_of_validate valid).valid
  obtain ⟨c, d, e, made, injected, started, k, g, recalls⟩ :=
    @logged_launch_ok (config.withHorizon none) rs valid trace fresh
  have sorted : ∀ limit, (e.runEvents limit).2.entries.Pairwise fun a b => a.time ≤ b.time :=
    fun limit => (recalls.run (valid' none) distinct k g limit).sorted
  refine ⟨_, logs_of_launch (valid' none) distinct made injected started k g, sorted,
    fun h => ?_, fun h₁ h₂ le limit => filter_time_prefix le (sorted limit)⟩
  obtain ⟨c', d', e', made', injected', started', k', g', _⟩ :=
    @logged_launch_ok (config.withHorizon (some h)) rs valid trace fresh
  have limited := logs_of_launch (valid' (some h)) distinct made' injected' started' k' g'
  have new := Guise.new_limited h (config.withHorizon none) trace
  obtain rfl : (Guise.limited h).wear c = c' :=
    Except.ok.inj ((congrArg _ made).symm.trans (new.symm.trans made'))
  have injectAll := Guise.injectAll_limited h rs c.withEventLog
  rw [Guise.withEventLog] at injectAll
  obtain rfl : (Guise.limited h).wear d = d' :=
    Except.ok.inj ((congrArg _ injected).symm.trans (injectAll.symm.trans injected'))
  obtain rfl : (Guise.limited h).wear e = e' :=
    Except.ok.inj ((congrArg _ started).symm.trans ((Guise.start d).symm.trans started'))
  have none : e.entries = [] := by rw [entries, eventLog_of_launch made injected started]; rfl
  have cut := runEvents_limited (h := h) (valid' _) distinct rfl k g recalls.logging
    (none ▸ List.forall_mem_nil _)
  rwa [funext cut] at limited

theorem default_horizon_cuts : ∃ log,
    Logs (({} : Config).withHorizon none) { topK := 2 }
      [{ id := 8, arrivalTime := 4, inputTokens := 33, outputTokens := 2 },
        { id := 1, arrivalTime := 0, inputTokens := 17, outputTokens := 5 }] log ∧
      (∀ limit, (log limit).Pairwise fun a b => a.time ≤ b.time) ∧
      (∀ h, Logs (({} : Config).withHorizon (some h)) { topK := 2 }
        [{ id := 8, arrivalTime := 4, inputTokens := 33, outputTokens := 2 },
          { id := 1, arrivalTime := 0, inputTokens := 17, outputTokens := 5 }] fun limit =>
        (log limit).filter (·.time ≤ h)) ∧
      ∀ h₁ h₂, h₁ ≤ h₂ → ∀ limit,
        (log limit).filter (·.time ≤ h₁) <+: (log limit).filter (·.time ≤ h₂) :=
  horizon_cuts rfl { topK := 2 } (List.forall_mem_cons.mpr ⟨rfl, List.forall_mem_singleton.mpr rfl⟩)
    (by decide)

end Cluster

end InferenceSim
