import InferenceSim.Proofs.Batch.Budget
import InferenceSim.Proofs.Cluster.Completion
import InferenceSim.Proofs.Cluster.Pipeline
import InferenceSim.Proofs.Cluster.Starting

/-! The steps of a run. No event fails, so a run goes on until nothing is left to do. -/
namespace InferenceSim

namespace EventQueue

/-- The time that is left to the pending events, and one tick more for each. -/
def patience (pending : List Event) (now : Nat) : Nat :=
  totalOf (pending.map fun e => e.time + 1 - now)

/-- For how long refreshes may go on: not longer than until the last other event. -/
def refreshing (q : EventQueue) : Nat :=
  totalOf ((q.pending.filter (·.action.isRefresh)).map fun e => patience q.pending e.time + 1)

variable {q : EventQueue} {pending : List Event} {now later : Nat}

theorem patience_lt (some : pending ≠ []) (ahead : ∀ e ∈ pending, now ≤ e.time)
    (h : now < later) : patience pending later < patience pending now := by
  induction pending with
  | nil => exact absurd rfl some
  | cons e rest ih =>
      have first := ahead e List.mem_cons_self
      have others : patience rest later ≤ patience rest now := by
        by_cases none : rest = []
        · rw [none]
          exact Nat.le_refl 0
        · exact Nat.le_of_lt (ih none fun e he => ahead e (List.mem_cons_of_mem _ he))
      simp only [patience, List.map_cons, totalOf_cons] at others ⊢
      omega

theorem refreshing_of_calm (calm : ∀ e ∈ q.pending, e.action.isRefresh = false) :
    q.refreshing = 0 := by
  have none : q.pending.filter (·.action.isRefresh) = [] := by
    refine List.filter_eq_nil_iff.mpr fun e he => ?_
    rw [calm e he]
    exact Bool.false_ne_true
  rw [refreshing, none]
  rfl

theorem refreshing_of_refresh {e : Event} {rest : List Event} (refreshes : e.action.isRefresh)
    (calm : ∀ e ∈ rest, e.action.isRefresh = false) (same : q.pending.Perm (e :: rest)) :
    q.refreshing = patience rest e.time + 2 := by
  have none : rest.filter (·.action.isRefresh) = [] := by
    refine List.filter_eq_nil_iff.mpr fun e he => ?_
    rw [calm e he]
    exact Bool.false_ne_true
  have only := (same.filter (·.action.isRefresh)).map fun e => patience q.pending e.time + 1
  have whole : patience q.pending e.time = patience (e :: rest) e.time :=
    totalOf_perm (same.map _)
  rw [List.filter_cons, none, if_pos refreshes] at only
  rw [refreshing, totalOf_perm only, List.map_singleton, totalOf_cons, whole]
  simp only [patience, List.map_cons, totalOf_cons, totalOf_nil]
  omega

end EventQueue

namespace Cluster
variable {config : Config} {rs : List Request} {c d : Cluster} {l : Ledger} {a : Action} {e : Event}
  {q : EventQueue}

theorem begin_ok (k : Coherent config rs [] c l) (g : Logged config rs c l)
    (popped : c.events.pop? = some (e, q)) :
    ∃ d, c.begin e q = .ok d ∧ Coherent config rs [e.action] d l ∧ Logged config rs d l ∧
      d.instances = c.instances ∧ d.events = q ∧ d.now = e.time ∧
      c.events.pending = e :: q.pending := by
  obtain ⟨later, now, pending, ordered⟩ := EventQueue.pop_ok k.ordered popped
  have forward : ¬ e.time < c.clock.now := Nat.not_lt.mpr (k.clock ▸ later)
  have same : ([e.action] ++ q.actions).Perm ([] ++ c.events.actions) := by
    rw [EventQueue.actions, EventQueue.actions, pending]
    exact .refl _
  refine ⟨{ c with
    clock := { now := e.time }, events := q
    eventLog := c.eventLog.map fun log => log.push (.ofEvent e) }, ?_, ?_,
    g.note rfl rfl, rfl, rfl, rfl, pending⟩
  · simp only [begin, Clock.advanceTo, if_neg forward]
  · exact k.rearrange ⟨rfl, rfl, rfl, rfl⟩ rfl now ordered same

theorem dispatch_ok (valid : config.cluster.Valid) (distinct : (rs.map (·.id)).Nodup)
    (k : Coherent config rs [a] c l) (g : Logged config rs c l) (calm : a.isRefresh = false) :
    ∃ d l', c.dispatch a = .ok d ∧ Handled config rs a c d l' := by
  cases a with
  | clusterArrival r =>
      obtain ⟨d, done, handled⟩ := k.arrival_ok g
      exact ⟨d, l, done, handled⟩
  | admission r => exact k.admission_ok g
  | routing r => exact k.routing_ok valid g
  | instanceArrival host r => exact k.instanceArrival_ok distinct g
  | kvTransferComplete host r =>
      obtain ⟨d, done, handled⟩ := k.kvTransferComplete_ok distinct g
      exact ⟨d, l, done, handled⟩
  | stepComplete host => exact k.stepComplete_ok g
  | step host =>
      obtain ⟨d, done, handled⟩ := k.step_ok valid g
      exact ⟨d, l, done, handled⟩
  | snapshotRefresh => cases calm

def Nearer (c d : Cluster) : Prop :=
  Lighter [] c [] d ∨ burden [] d = burden [] c ∧ potential d = potential c ∧
    d.events.refreshing < c.events.refreshing

theorem event_ok (valid : config.cluster.Valid) (distinct : (rs.map (·.id)).Nodup)
    (k : Coherent config rs [] c l) (g : Logged config rs c l)
    (popped : c.events.pop? = some (e, q)) (calm : e.action.isRefresh = false) :
    ∃ b d l', c.begin e q = .ok b ∧ b.dispatch e.action = .ok d ∧ Coherent config rs [] d l' ∧
      Logged config rs d l' ∧
        (config.policies.admission = .acceptAll → (∀ r ∈ rs, r.Counted) → Nearer c d) := by
  obtain ⟨b, begun, k', g', instances, events, _, pending⟩ := begin_ok k g popped
  obtain ⟨d, l', done, handled⟩ := dispatch_ok valid distinct k' g' calm
  refine ⟨b, d, l', begun, done, handled.coherent, handled.logged, fun all counted => .inl ?_⟩
  have same : burden [e.action] b = burden [] c := by
    refine burden_rearrange instances ?_
    rw [events, EventQueue.actions, EventQueue.actions, pending]
    exact .refl _
  have lighter := handled.lighter all counted
  rw [Lighter, same, potential, potential, instances] at lighter
  exact lighter

theorem refresh_ok (k : Coherent config rs [] c l) (g : Logged config rs c l)
    (popped : c.events.pop? = some (e, q)) (refreshes : e.action = .snapshotRefresh) :
    ∃ b d, c.begin e q = .ok b ∧ b.dispatch e.action = .ok d ∧ Coherent config rs [] d l ∧
      Logged config rs d l ∧ Nearer c d := by
  obtain ⟨b, begun, k', g', instances, events, now, pending⟩ := begin_ok k g popped
  rw [refreshes] at k'
  obtain ⟨d, done, coherent, logged, unmoved, left⟩ := k'.refresh_ok g'
  have calm : ∀ e ∈ q.pending, e.action.isRefresh = false := by
    have one := k'.refreshes
    rw [List.countP_append, show [Action.snapshotRefresh].countP Action.isRefresh = 1 from rfl] at one
    have none : b.events.actions.countP Action.isRefresh = 0 := by omega
    intro e he
    refine Bool.eq_false_iff.mpr ?_
    exact List.countP_eq_zero.mp none e.action (List.mem_map_of_mem (f := Event.action) (events ▸ he))
  have before := EventQueue.refreshing_of_refresh (by rw [refreshes]; rfl) calm (.of_eq pending)
  have moved : potential d = potential c := by rw [potential, potential, unmoved, instances]
  have same : burden [.snapshotRefresh] b = burden [] c := by
    refine burden_rearrange instances ?_
    rw [events, EventQueue.actions, EventQueue.actions, pending, List.map_cons, refreshes]
    exact .refl _
  refine ⟨b, d, begun, by rw [refreshes, done], coherent, logged, .inr ⟨?_, moved, ?_⟩⟩
  · refine Eq.trans ?_ same
    rcases left with kept | ⟨interval, n, _, _, joined⟩
    · rw [burden, burden, unmoved, EventQueue.actions, kept]
      exact congrArg (· + _) (Nat.zero_add _).symm
    · exact burden_rearrange unmoved (joined.map Event.action)
  · rw [before]
    rcases left with kept | ⟨interval, n, positive, some, joined⟩
    · rw [EventQueue.refreshing_of_calm (by rw [kept, events]; exact calm)]
      exact Nat.succ_pos _
    · rw [events] at some joined
      rw [EventQueue.refreshing_of_refresh rfl calm joined]
      refine Nat.add_lt_add_right (EventQueue.patience_lt some (fun f hf => ?_) ?_) 2
      · have ahead := k'.ordered.ahead f (events ▸ hf)
        rw [k'.clock] at ahead
        exact now ▸ ahead
      · exact now ▸ Nat.lt_add_of_pos_right positive

/-- An event runs, if there is one within the horizon. -/
theorem step_ok (valid : config.cluster.Valid) (distinct : (rs.map (·.id)).Nodup)
    (k : Coherent config rs [] c l) (g : Logged config rs c l) :
    c.step = none ∨ ∃ d l', c.step = some (.ok (), d) ∧ Coherent config rs [] d l' ∧
      Logged config rs d l' ∧
        (config.policies.admission = .acceptAll → (∀ r ∈ rs, r.Counted) → Nearer c d) := by
  cases popped : c.events.pop? with
  | none => exact .inl (by rw [step, popped])
  | some next =>
      obtain ⟨e, q⟩ := next
      by_cases within : c.withinHorizon e.time = true
      · obtain ⟨b, d, l', begun, done, coherent, logged, nearer⟩ : ∃ b d l',
            c.begin e q = .ok b ∧ b.dispatch e.action = .ok d ∧ Coherent config rs [] d l' ∧
            Logged config rs d l' ∧
        (config.policies.admission = .acceptAll → (∀ r ∈ rs, r.Counted) → Nearer c d) := by
          cases action : e.action with
          | snapshotRefresh =>
              obtain ⟨b, d, begun, done, coherent, logged, nearer⟩ := refresh_ok k g popped action
              exact ⟨b, d, l, begun, action ▸ done, coherent, logged, fun _ _ => nearer⟩
          | _ => exact action ▸ event_ok valid distinct k g popped (by rw [action]; rfl)
        refine .inr ⟨{ d with processed := d.processed + 1 }, l', ?_, ?_, ?_, nearer⟩
        · simp only [step, popped, if_pos within, begun, done]
        · exact coherent.note ⟨rfl, rfl, rfl, rfl⟩ rfl rfl rfl
        · exact logged.note rfl rfl
      · exact .inl (by rw [step, popped]; exact if_neg within)

theorem runEvents_ok (valid : config.cluster.Valid) (distinct : (rs.map (·.id)).Nodup)
    (k : Coherent config rs [] c l) (g : Logged config rs c l) (limit : Nat) :
    ∃ d l', c.runEvents limit = (.ok (), d) ∧ Coherent config rs [] d l' ∧
      Logged config rs d l' := by
  induction limit generalizing c l with
  | zero => exact ⟨c, l, rfl, k, g⟩
  | succ limit ih =>
      rcases step_ok valid distinct k g with none | ⟨d, l', stepped, k', g', _⟩
      · exact ⟨c, l, by rw [runEvents, none], k, g⟩
      · obtain ⟨e, m, done, left⟩ := ih k' g'
        exact ⟨e, m, by rw [runEvents, stepped]; exact done, left⟩

theorem run_ok (valid : config.cluster.Valid) (distinct : (rs.map (·.id)).Nodup)
    (k : Loaded config rs c) :
    ∃ d m, Coherent config rs [] d m ∧ Logged config rs d m ∧
      c.run = (.ok d.summary, d.recordAnomalies d.summary) := by
  obtain ⟨b, started, k', g⟩ := start_ok k
  obtain ⟨d, m, done, coherent, logged⟩ := runEvents_ok valid distinct k' g eventLimit
  refine ⟨d, m, coherent, logged, ?_⟩
  rw [run, started]
  dsimp only
  rw [done]

/-- Under a valid configuration nothing fails: neither the start of a run nor any number
of its steps nor, whatever the time, the next batch of an instance, which keeps within the
budget of a step. -/
theorem valid_runs_succeed (valid : config.validate = .ok ()) (trace : DecisionTrace)
    (fresh : ∀ r ∈ rs, r.Fresh) (distinct : (rs.map (·.id)).Nodup) :
    ∃ c d e, new config trace = .ok c ∧ c.injectAll rs = .ok d ∧ d.start = .ok e ∧
      (∀ limit, ∃ f, e.runEvents limit = (.ok (), f) ∧
        ∀ i ∈ f.instances, ∀ now, ∃ o t, formBatch i.limits i.scheduler now
            ⟨i.running, i.queue, i.kv.setClock now⟩ = .ok (o, t) ∧
          tokensOf o.scheduled ≤ i.limits.maxTokens) ∧
      ∃ s f, d.run = (.ok s, f) := by
  have promised := promised_of_validate valid
  obtain ⟨c, d, e, made, injected, started, loaded, coherent, logged⟩ :=
    launch_ok valid trace fresh
  obtain ⟨f, _, _, _, done⟩ := run_ok promised.valid distinct loaded
  refine ⟨c, d, e, made, injected, started, fun limit => ?_, _, _, done⟩
  obtain ⟨f, l, ran, coherent, _⟩ := runEvents_ok promised.valid distinct coherent logged limit
  refine ⟨f, ran, fun i hi now => ?_⟩
  obtain ⟨id, at'⟩ := List.getElem?_of_mem hi
  have k := (coherent.employs id i at').coherent
  obtain ⟨o, t, formed, _⟩ := formBatch_ok promised.valid.usable i.scheduler now
    (s := ⟨i.running, i.queue, i.kv.setClock now⟩)
    (k.fitting.recache (k.fitting.sound.setClock now) rfl rfl rfl)
  rw [← k.limits] at formed
  exact ⟨o, t, formed, formBatch_le formed⟩

theorem default_run_succeeds : ∃ c d e, new {} .off = .ok c ∧
    c.injectAll [{ id := 7, arrivalTime := 3, inputTokens := 40, outputTokens := 5 },
      { id := 2, arrivalTime := 0, inputTokens := 0, outputTokens := 1 }] = .ok d ∧
    d.start = .ok e ∧
    (∀ limit, ∃ f, e.runEvents limit = (.ok (), f) ∧
      ∀ i ∈ f.instances, ∀ now, ∃ o t, formBatch i.limits i.scheduler now
          ⟨i.running, i.queue, i.kv.setClock now⟩ = .ok (o, t) ∧
        tokensOf o.scheduled ≤ i.limits.maxTokens) ∧
    ∃ s f, d.run = (.ok s, f) :=
  valid_runs_succeed rfl .off
    (List.forall_mem_cons.mpr ⟨rfl, List.forall_mem_singleton.mpr rfl⟩) (by decide)

end Cluster
end InferenceSim
