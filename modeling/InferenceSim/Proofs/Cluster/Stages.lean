import InferenceSim.Proofs.Cluster.Entries
import InferenceSim.Proofs.Cluster.Reaching
import InferenceSim.Proofs.Scheduling

/-! The stages of a tick. However short the latencies are, the events of a tick that bring requests
to instances have all run before the first event of that tick at an instance: an action sends on
only what comes after it. -/
namespace InferenceSim

namespace EventLabel

/-- Whether events of a kind bring a fresh request further on its way to an instance. -/
def leads : EventLabel → Bool
  | .clusterArrival | .admission | .routing | .instanceArrival => true
  | .kvTransferComplete | .stepComplete | .step | .snapshotRefresh => false

theorem leads_iff (l : EventLabel) : l.leads = true ↔ l.priority < 4 := by
  cases l <;> decide

theorem ofName?_name (l : EventLabel) : ofName? l.name = some l := by
  cases l <;> rfl

theorem name_inj {k l : EventLabel} (same : k.name = l.name) : k = l := by
  apply Option.some.inj
  rw [← ofName?_name k, ← ofName?_name l, same]

end EventLabel

/-- What runs before an event that leads to an instance has the lower key. -/
def Event.Clears (a b : Event) : Prop := b.action.label.leads → a.key < b.key

/-- Two entries of a log that are of one time. If the later one leads to an instance, then so does
the earlier one, and it has the lower priority, or the lower number among equals. -/
def LoggedEvent.Clears (a b : LoggedEvent) : Prop :=
  a.time = b.time → ∀ k l : EventLabel, a.kind = k.name → b.kind = l.name → l.leads →
    k.leads ∧ (k.priority < l.priority ∨ k.priority = l.priority ∧ a.seq < b.seq)

theorem Event.Clears.logged {a b : Event} (h : a.Clears b) :
    (LoggedEvent.ofEvent a).Clears (.ofEvent b) := by
  intro time k l kind kind' leads
  have own : a.action.label = k := EventLabel.name_inj kind
  have own' : b.action.label = l := EventLabel.name_inj kind'
  subst own own'
  have before := h leads
  rw [key_lt_iff] at before
  rw [EventLabel.leads_iff] at leads ⊢
  simp only [LoggedEvent.ofEvent, Action.priority] at time before leads ⊢
  omega

/-- The log of a run in which the stages of every tick are in order. -/
structure Staged (log : List LoggedEvent) : Prop where
  kinds : ∀ x ∈ log, ∃ l : EventLabel, x.kind = l.name
  times : log.Pairwise fun a b => a.time ≤ b.time
  stages : log.Pairwise LoggedEvent.Clears

namespace Cluster

/-- An event that has begun, whether it failed or not: it is logged, and of the events that it
sends on only those lead to an instance that come after it. -/
structure Advances (c : Cluster) (e : Event) (d : Cluster) : Prop where
  sends : ∃ q added, c.events.pop? = some (e, q) ∧ q.Joins added d.events ∧
    ∀ y ∈ added, y.action.label.leads →
      e.action.label.leads ∧ e.action.priority ≤ y.action.priority
  logged : d.eventLog = c.eventLog.map fun log => log.push (.ofEvent e)

/-- What has run of late is logged behind what was there before. No event that leads to an
instance is to come that belongs before one of them. -/
structure Stages (before : List LoggedEvent) (done : List Event) (c : Cluster) : Prop where
  ranked : c.events.Ranked
  logging : c.eventLog.isSome
  logged : c.entries = before ++ done.map .ofEvent
  past : ∀ x ∈ done, x.time ≤ c.events.now
  times : done.Pairwise fun a b => a.time ≤ b.time
  order : done.Pairwise Event.Clears
  ahead : ∀ x ∈ done, ∀ y ∈ c.events.pending, x.Clears y

/-- At some time nothing leads to an instance any more, and nothing has since some entries. -/
structure Shut (time : Nat) (before : List LoggedEvent) (c : Cluster) : Prop where
  ranked : c.events.Ranked
  logging : c.eventLog.isSome
  added : ∃ done : List Event, c.entries = before ++ done.map .ofEvent ∧
    ∀ x ∈ done, x.action.label.leads → time < x.time
  pending : ∀ y ∈ c.events.pending, y.action.label.leads → time < y.time

variable {config : Config} {c d : Cluster} {a b : Action} {e : Event} {rs : List Request}
  {before : List LoggedEvent} {done : List Event}

theorem Sent.leads (sent : Sent c a b) (leads : b.label.leads) :
    a.label.leads ∧ a.priority ≤ b.priority := by
  cases sent with
  | accept | delay | route | send => exact ⟨rfl, Nat.le_of_ble_eq_true rfl⟩
  | handoff => cases leads
  | bare _ none =>
      cases b with
      | stepComplete | step | snapshotRefresh => cases leads
      | _ => cases none

theorem entries_congr (same : d.eventLog = c.eventLog) : d.entries = c.entries := by
  rw [entries, entries, same]

theorem step_advances {out : Except Fault Unit} (stepped : c.step = some (out, d)) :
    d = c ∨ ∃ e, Advances c e d := by
  rcases step_cases stepped with ⟨f, _, same | ⟨e, q, popped, begun⟩⟩ | ⟨_, e, b, ran⟩
  · exact .inl same
  · rw [begin_inv begun]
    exact .inr ⟨e, ⟨q, [], popped, .refl, List.forall_mem_nil _⟩, rfl⟩
  · obtain ⟨q, popped, begun⟩ := ran.popped
    obtain ⟨added, joins, sent⟩ := ran.effect.sent
    obtain ⟨_, _, _, leaves⟩ := ran.does
    have same := begin_inv begun
    rw [same] at joins
    refine .inr ⟨e, ⟨q, added, popped, joins, fun y hy leads => (sent y hy).leads leads⟩, ?_⟩
    rw [leaves.eventLog, same]

theorem runEvents_advances (holds : Cluster → Prop)
    (keeps : ∀ {c e d}, Advances c e d → holds c → holds d) (start : holds c) (limit : Nat) :
    holds (c.runEvents limit).2 := by
  refine runEvents_always holds (fun stepped before => ?_) start limit
  rcases step_advances stepped with rfl | ⟨e, advances⟩
  · exact before
  · exact keeps advances before

namespace Advances

theorem entries (k : Advances c e d) (logging : c.eventLog.isSome) :
    d.eventLog.isSome ∧ d.entries = c.entries ++ [.ofEvent e] := by
  obtain ⟨log, same⟩ := Option.isSome_iff_exists.mp logging
  rw [Cluster.entries, Cluster.entries, k.logged, same]
  exact ⟨rfl, Array.toList_push⟩

/-- The event was the first one, and all that lead to an instance come after it. -/
theorem steps (k : Advances c e d) (ranked : c.events.Ranked) :
    d.events.Ranked ∧ d.events.now = e.time ∧ c.events.now ≤ e.time ∧ e ∈ c.events.pending ∧
      ∀ y ∈ d.events.pending, y.action.label.leads →
        e.key < y.key ∧ (y ∈ c.events.pending ∨ e.action.label.leads) := by
  obtain ⟨q, added, popped, joins, sends⟩ := k.sends
  obtain ⟨pending, now, nextSeq⟩ := EventQueue.pop?_inv popped
  have here : e ∈ c.events.pending := pending ▸ List.mem_cons_self
  refine ⟨joins.ranked (ranked.pop popped), joins.now.trans now, ranked.ahead e here, here,
    fun y hy leads => ?_⟩
  rcases joins.mem_iff.mp hy with new | old
  · obtain ⟨first, priority⟩ := sends y new leads
    have later := joins.later y new
    have newer := joins.newer y new
    have older := ranked.numbered e here
    refine ⟨?_, .inr first⟩
    rw [Event.key_lt_iff]
    omega
  · have sorted := ranked.sorted
    rw [pending] at sorted ⊢
    exact ⟨(List.pairwise_cons.mp sorted).1 y old, .inl (List.mem_cons_of_mem e old)⟩

end Advances

namespace Stages

theorem nil (ranked : c.events.Ranked) (logging : c.eventLog.isSome) :
    Stages c.entries [] c :=
  ⟨ranked, logging, (List.append_nil _).symm, List.forall_mem_nil _, .nil, .nil,
    List.forall_mem_nil _⟩

/-- One event keeps the stages in order. -/
theorem advance (k : Stages before done c) (advances : Advances c e d) :
    Stages before (done ++ [e]) d := by
  obtain ⟨logging, added⟩ := advances.entries k.logging
  obtain ⟨ranked, now, later, here, behind⟩ := advances.steps k.ranked
  constructor
  case ranked => exact ranked
  case logging => exact logging
  case logged => rw [added, k.logged, List.map_append, List.append_assoc, List.map_singleton]
  case past =>
    rw [now]
    refine List.forall_mem_append.mpr ⟨fun x hx => Nat.le_trans (k.past x hx) later, ?_⟩
    exact List.forall_mem_singleton.mpr (Nat.le_refl _)
  case times =>
    refine List.pairwise_append.mpr ⟨k.times, List.pairwise_singleton _ _, fun x hx => ?_⟩
    exact List.forall_mem_singleton.mpr (Nat.le_trans (k.past x hx) later)
  case order =>
    refine List.pairwise_append.mpr ⟨k.order, List.pairwise_singleton _ _, fun x hx => ?_⟩
    exact List.forall_mem_singleton.mpr (k.ahead x hx e here)
  case ahead =>
    refine List.forall_mem_append.mpr ⟨fun x hx y hy leads => ?_, ?_⟩
    · obtain ⟨next, old | first⟩ := behind y hy leads
      · exact k.ahead x hx y old leads
      · exact lt_trans (k.ahead x hx e here first) next
    · exact List.forall_mem_singleton.mpr fun y hy leads => (behind y hy leads).1

theorem staged (k : Stages before done c) : Staged (done.map .ofEvent) where
  kinds := List.forall_mem_map.mpr fun e _ => ⟨e.action.label, rfl⟩
  times := List.pairwise_map.mpr k.times
  stages := List.pairwise_map.mpr (k.order.imp Event.Clears.logged)

end Stages

namespace Shut
variable {time : Nat}

theorem of_work {x : Event} {q : EventQueue} (ranked : c.events.Ranked)
    (logging : c.eventLog.isSome) (popped : c.events.pop? = some (x, q))
    (work : x.action.label.leads = false) : Shut x.time c.entries c := by
  refine ⟨ranked, logging, ⟨[], (List.append_nil _).symm, List.forall_mem_nil _⟩,
    fun y hy leads => ?_⟩
  obtain ⟨pending, _, _⟩ := EventQueue.pop?_inv popped
  have sorted := ranked.sorted
  rw [pending] at sorted hy
  rcases List.mem_cons.mp hy with rfl | behind
  · cases work.symm.trans leads
  · have first := (List.pairwise_cons.mp sorted).1 y behind
    have later : ¬x.action.priority < 4 := fun low => by
      cases work.symm.trans ((EventLabel.leads_iff _).mpr low)
    have sooner : y.action.priority < 4 := (EventLabel.leads_iff _).mp leads
    rw [Event.key_lt_iff] at first
    omega

theorem advance (k : Shut time before c) (advances : Advances c e d) : Shut time before d := by
  obtain ⟨logging, added⟩ := advances.entries k.logging
  obtain ⟨ranked, now, later, here, behind⟩ := advances.steps k.ranked
  obtain ⟨done, logged, leading⟩ := k.added
  refine ⟨ranked, logging, ⟨done ++ [e], ?_, ?_⟩, fun y hy leads => ?_⟩
  · rw [added, logged, List.map_append, List.append_assoc, List.map_singleton]
  · exact List.forall_mem_append.mpr ⟨leading, List.forall_mem_singleton.mpr (k.pending e here)⟩
  · obtain ⟨next, old | first⟩ := behind y hy leads
    · exact k.pending y old leads
    · exact Nat.lt_of_lt_of_le (k.pending e here first) (Event.time_le_of_key_lt next)

/-- What leads to an instance at this time was logged before. -/
theorem logged (k : Shut time before c) : ∀ z ∈ c.entries, z.time = time →
    (∃ l : EventLabel, z.kind = l.name ∧ l.leads) → z ∈ before := by
  rintro z hz same ⟨l, kind, leads⟩
  obtain ⟨done, entries, leading⟩ := k.added
  rw [entries] at hz
  rcases List.mem_append.mp hz with old | new
  · exact old
  · obtain ⟨x, hx, rfl⟩ := List.mem_map.mp new
    have own : x.action.label = l := EventLabel.name_inj kind
    exact absurd same (Nat.ne_of_gt (leading x hx (own ▸ leads)))

end Shut

/-- Whenever a run is about to let an instance work, nothing is on its way to an instance at this
time, and whatever the run logs of it that leads to an instance is logged already. -/
def WorksLast (c : Cluster) : Prop :=
  ∀ limit d x q, c.runEvents limit = (.ok (), d) → d.events.pop? = some (x, q) →
    x.action.label.leads = false →
    (∀ y ∈ q.pending, y.time = x.time → y.action.label.leads = false) ∧
    ∀ later, limit ≤ later → ∀ z ∈ (c.runEvents later).2.entries, z.time = x.time →
      (∃ l : EventLabel, z.kind = l.name ∧ l.leads) → z ∈ d.entries

namespace Reachable

theorem ranked (k : Reachable config c) : c.events.Ranked := by
  induction k with
  | new made =>
      obtain ⟨_, _, rfl⟩ := new_inv made
      exact ⟨List.forall_mem_nil _, List.forall_mem_nil _, .nil⟩
  | log _ ih => exact ih
  | inject _ done ih =>
      obtain ⟨_, _, rfl, joins⟩ := inject_inv done
      exact joins.ranked ih
  | start _ done ih =>
      unfold Cluster.start at done
      split at done
      · obtain ⟨_, _, rfl, joins⟩ := schedule_inv done
        exact joins.ranked ih
      · obtain rfl := Except.ok.inj done
        exact ih
  | step _ stepped ih =>
      rcases step_advances stepped with rfl | ⟨e, advances⟩
      · exact ih
      · exact (advances.steps ih).1
  | note _ s ih =>
      obtain ⟨_, same, _⟩ := recordAnomalies_inv _ s
      rw [same]
      exact ih

theorem stages (k : Reachable config c) (logging : c.eventLog.isSome) (limit : Nat) :
    ∃ done, Stages c.entries done (c.runEvents limit).2 :=
  runEvents_advances (fun d => ∃ done, Stages c.entries done d)
    (fun advances ⟨_, stages⟩ => ⟨_, stages.advance advances⟩) ⟨[], .nil k.ranked logging⟩ limit

theorem run_logs (k : Reachable config c) (logging : c.eventLog.isSome) :
    ∃ done : List Event, c.run.2.entries = c.entries ++ done.map .ofEvent ∧
      Staged (done.map .ofEvent) := by
  unfold Cluster.run
  cases started : c.start with
  | error f => exact ⟨[], (List.append_nil _).symm, List.forall_mem_nil _, .nil, .nil⟩
  | ok d =>
      have same : d.eventLog = c.eventLog := by
        obtain ⟨_, rfl⟩ := start_inv started
        rfl
      obtain ⟨done, stages⟩ := (k.start started).stages (same ▸ logging) eventLimit
      refine ⟨done, ?_, stages.staged⟩
      rw [← entries_congr same, ← stages.logged]
      obtain ⟨out, f, ran⟩ : ∃ out f, d.runEvents eventLimit = (out, f) := ⟨_, _, rfl⟩
      simp only [ran]
      cases out with
      | error v => rfl
      | ok =>
          obtain ⟨_, noted, _⟩ := recordAnomalies_inv f f.summary
          simp only [noted]
          rfl

theorem runWith_logs (k : Reachable config c) (logging : c.eventLog.isSome) (rs : List Request) :
    ∃ done : List Event, (c.runWith rs).2.entries = c.entries ++ done.map .ofEvent ∧
      Staged (done.map .ofEvent) := by
  unfold Cluster.runWith
  cases injected : c.injectAll rs with
  | error f => exact ⟨[], (List.append_nil _).symm, List.forall_mem_nil _, .nil, .nil⟩
  | ok d =>
      have same : d.eventLog = c.eventLog := by
        obtain ⟨_, _, rfl⟩ := injectAll_inv injected
        rfl
      rw [← entries_congr same]
      exact (k.injectAll injected).run_logs (same ▸ logging)

theorem worksLast (k : Reachable config c) (logging : c.eventLog.isSome) : WorksLast c := by
  intro limit d x q ran popped work
  obtain ⟨_, stages⟩ := k.stages logging limit
  rw [ran] at stages
  have shut := Shut.of_work stages.ranked stages.logging popped work
  constructor
  · intro y hy same
    refine Bool.eq_false_iff.mpr fun leads => ?_
    have inside : y ∈ d.events.pending := by
      rw [(EventQueue.pop?_inv popped).1]
      exact List.mem_cons_of_mem x hy
    exact absurd same (Nat.ne_of_gt (shut.pending y inside leads))
  · intro later le
    obtain ⟨more, rfl⟩ := Nat.exists_eq_add_of_le le
    rw [runEvents_add ran]
    exact (runEvents_advances (Shut x.time d.entries)
      (fun advances shut => shut.advance advances) shut more).logged

end Reachable

/-- In the log of every run the stages of a tick are in order, whatever the latencies are: what
leads to an instance comes first, by priority and number, and then the work of the instances. -/
theorem stages_in_order (reached : Reachable config c) (logging : c.eventLog.isSome)
    (rs : List Request) :
    (∃ log, (c.runWith rs).2.entries = c.entries ++ log ∧ Staged log) ∧ WorksLast c := by
  obtain ⟨done, entries, staged⟩ := reached.runWith_logs logging rs
  exact ⟨⟨_, entries, staged⟩, reached.worksLast logging⟩

theorem default_stages_in_order : ∃ c d e, new {} .off = .ok c ∧
    c.withEventLog.injectAll [{ id := 4, arrivalTime := 2, inputTokens := 20, outputTokens := 3 },
      { id := 1, arrivalTime := 2, inputTokens := 0, outputTokens := 1 }] = .ok d ∧
    d.start = .ok e ∧ e.eventLog.isSome ∧ WorksLast e ∧
    ∃ log, (e.runWith [{ id := 7, arrivalTime := 2, inputTokens := 5, outputTokens := 1 }]).2.entries =
      e.entries ++ log ∧ Staged log := by
  have fresh : ∀ r ∈ [{ id := 4, arrivalTime := 2, inputTokens := 20, outputTokens := 3 },
      { id := 1, arrivalTime := 2, inputTokens := 0, outputTokens := 1 }], Request.Fresh r :=
    List.forall_mem_cons.mpr ⟨rfl, List.forall_mem_singleton.mpr rfl⟩
  obtain ⟨c, d, e, made, injected, started, _, _, recalls⟩ := @logged_launch_ok {} _ rfl .off fresh
  have reached : Reachable {} e := ((Reachable.new made).log.injectAll injected).start started
  obtain ⟨logged, last⟩ := stages_in_order reached recalls.logging
    [{ id := 7, arrivalTime := 2, inputTokens := 5, outputTokens := 1 }]
  exact ⟨c, d, e, made, injected, started, recalls.logging, last, logged⟩

end Cluster
end InferenceSim
