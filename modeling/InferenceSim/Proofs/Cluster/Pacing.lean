import InferenceSim.Proofs.Cluster.Laws
import InferenceSim.Proofs.Timing
import Mathlib.Data.List.Forall2

/-! Latencies over a run. The times of a request stay in order from event to event, so the
figures of every request that completes add up. -/
namespace InferenceSim

/-- The requests of an instance are in good time, and so is the work in flight. -/
structure Instance.OnTime (now : Nat) (i : Instance) : Prop where
  timed : ∀ r ∈ i.requests, r.Timed now
  scheduled : ∀ r ∈ i.running, r.timing.firstScheduled.isSome
  works : WorksFor i.running i.works
  single : (i.works.map (·.request)).Nodup

namespace Instance.OnTime
variable {spec : InstanceSpec} {i j : Instance} {r : Request} {now later : Nat} {q d : EventQueue}

theorem wait (k : i.OnTime now) (le : now ≤ later) : i.OnTime later :=
  { k with timed := fun r hr => (k.timed r hr).mono le }

theorem rescore (k : i.OnTime now) (rule : PriorityRule) : (i.reprioritize rule now).OnTime now where
  timed s hs := by
    rcases List.mem_append.mp hs with runs | waits
    · obtain ⟨r, hr, rfl⟩ := List.mem_map.mp runs
      exact (k.timed r (List.mem_append_left _ hr)).rescored _
    · obtain ⟨r, hr, rfl⟩ := List.mem_map.mp waits
      exact (k.timed r (List.mem_append_right _ hr)).rescored _
  scheduled s hs := by
    obtain ⟨r, hr, rfl⟩ := List.mem_map.mp hs
    exact k.scheduled r hr
  works := k.works.map fun r => ⟨rfl, rfl, rfl⟩
  single := k.single

theorem enqueue {out : Enqueued} (k : i.OnTime now) (new : r.Arrived now ∨ r.Timed now)
    (done : i.enqueue r now q = (.ok out, j, d)) : j.OnTime now := by
  rcases Instance.enqueue_cases done with rfl | ⟨s, joined, rfl⟩
  · exact ⟨k.timed, k.scheduled, k.works, k.single⟩
  · refine ⟨fun p hp => ?_, k.scheduled, k.works, k.single⟩
    rcases List.mem_append.mp hp with runs | waits
    · exact k.timed p (List.mem_append_left _ runs)
    · rcases List.mem_append.mp waits with before | last
      · exact k.timed p (List.mem_append_right _ before)
      · rw [List.mem_singleton.mp last]
        rcases new with arrived | timed
        · exact arrived.joined joined
        · exact timed.joined joined

theorem step {latency : LatencyModel} (usable : spec.Usable) (coherent : i.Coherent spec)
    (k : i.OnTime now) (ready : i.inFlight = none) (done : i.step now latency q = .ok (j, d)) :
    j.OnTime now := by
  obtain ⟨o, t, formed, stepped⟩ := Instance.step_cases done
  have forms := forms_of_ok formed
  have runs : ∀ r ∈ t.running, r.Timed now ∧ r.timing.firstScheduled.isSome := by
    intro r hr
    rcases forms.running_cases r hr with before | ⟨s, hs, m, entered⟩
    · exact ⟨k.timed r (List.mem_append_left _ before), k.scheduled r before⟩
    · exact (k.timed s (List.mem_append_right _ hs)).entered entered
  have timed : ∀ r ∈ t.running ++ t.queue, r.Timed now := by
    intro r hr
    rcases List.mem_append.mp hr with inBatch | waits
    · exact (runs r inBatch).1
    · rcases forms.queue_cases r waits with before | ⟨s, hs, rfl⟩
      · exact k.timed r (List.mem_append_right _ before)
      · exact (k.timed s (List.mem_append_left _ hs)).preempted
  cases stepped with
  | rest empty ticks rings =>
      have idle := Instance.works_of_ready ready
      exact ⟨timed, fun r hr => (runs r hr).2,
        show WorksFor t.running i.works from idle ▸ List.forall_mem_nil _, k.single⟩
  | begin works ticks joins =>
      obtain ⟨o', t', formed', f⟩ := coherent.formed usable now
      obtain ⟨rfl, rfl⟩ := Prod.mk.inj (Except.ok.inj (formed.symm.trans formed'))
      exact ⟨timed, fun r hr => (runs r hr).2, forms.works,
        forms.works_sublist.nodup f.fitting.nodup_running⟩

theorem fate {o : BatchOutcome} (coherent : i.Coherent spec) (k : i.OnTime now)
    (flight : i.inFlight = some o) (hr : r ∈ i.running) :
    ((advanced now o.scheduled r).isDone = false → (advanced now o.scheduled r).Timed now ∧
        (advanced now o.scheduled r).timing.firstScheduled.isSome) ∧
      ((advanced now o.scheduled r).isDone = true → r.span < 4294967296 →
        ∃ x, ((advanced now o.scheduled r).completedAt now).Told x) := by
  have works := Instance.works_of_flight flight
  have reach := works ▸ k.works
  have single := works ▸ k.single
  have timed := k.timed r (List.mem_append_left _ hr)
  have resident := (coherent.fitting.runs r hr).2
  have nodup := coherent.fitting.nodup_running
  by_cases some : ∃ w ∈ o.scheduled, w.request = r.id
  · obtain ⟨w, hw, own⟩ := some
    rw [advanced_work single hw own]
    refine timed.advance (k.scheduled r hr) ?_ ?_
    · obtain ⟨s, hs, named, reaches⟩ := reach w hw
      rw [Request.eq_of_id nodup hs hr (named.symm.trans own)] at reaches
      have level := timed.level (InstanceSpec.prompt_of_serves resident.serves)
      rcases reaches with inPrompt | next
      · omega
      · omega
    · obtain ⟨s, hs, named, _, upto⟩ := (coherent.flight o flight).1 w hw
      rwa [Request.eq_of_id nodup hs hr (named.symm.trans own)] at upto
  · have none : advanced now o.scheduled r = r :=
      advanced_none fun w hw own => some ⟨w, hw, own⟩
    rw [none]
    refine ⟨fun _ => ⟨timed, k.scheduled r hr⟩, fun done fits => ?_⟩
    have reached : r.completionProgress ≤ r.progress := of_decide_eq_true done
    rw [Request.completionProgress_eq fits] at reached
    exact absurd reached (Nat.not_le.mpr resident.unfinished)

theorem complete {o : BatchOutcome} {report : StepReport} (coherent : i.Coherent spec)
    (k : i.OnTime now) (flight : i.inFlight = some o)
    (done : i.complete now q = (.ok report, j, d)) :
    j.OnTime now ∧ (∀ r ∈ report.completed, ∃ x, r.Recorded x) ∧
      ∀ h ∈ report.handoffs, h.request.Timed now := by
  obtain ⟨s, stats, busy, settled, rfl, rfl, _⟩ := Instance.complete_cases coherent flight done
  have fates := (settles_of_ok settled).fates
  refine ⟨⟨fun r hr => ?_, fun r hr => ?_, List.forall_mem_nil _, List.nodup_nil⟩, fun r hr => ?_,
    fun h hh => ?_⟩
  · rcases List.mem_append.mp hr with runs | waits
    · obtain ⟨inside, unfinished⟩ := fates.stays r runs
      obtain ⟨p, hp, rfl⟩ := List.mem_map.mp inside
      exact ((k.fate coherent flight hp).1 unfinished).1
    · exact k.timed r (List.mem_append_right _ waits)
  · obtain ⟨inside, unfinished⟩ := fates.stays r hr
    obtain ⟨p, hp, rfl⟩ := List.mem_map.mp inside
    exact ((k.fate coherent flight hp).1 unfinished).2
  · obtain ⟨p', inside, reached, rfl⟩ := fates.completed r hr
    obtain ⟨p, hp, rfl⟩ := List.mem_map.mp inside
    refine Request.exists_recorded rfl fun fits => (k.fate coherent flight hp).2 reached ?_
    exact Request.span_of_stem (advanced_stem now o.scheduled p) ▸ fits
  · obtain ⟨p', inside, unfinished, same⟩ := fates.handoffs h hh
    obtain ⟨p, hp, rfl⟩ := List.mem_map.mp inside
    rw [same]
    exact ((k.fate coherent flight hp).1 unfinished).1.handed

end Instance.OnTime

theorem forall₂_filterMap {α β : Type} {f : α → Option β} {P : α → β → Prop} {as : List α}
    (all : ∀ a ∈ as, ∃ b, f a = some b ∧ P a b) : List.Forall₂ P as (as.filterMap f) := by
  induction as with
  | nil => exact .nil
  | cons a rest ih =>
      obtain ⟨b, known, holds⟩ := all a List.mem_cons_self
      rw [List.filterMap_cons_some known]
      exact .cons holds (ih fun a ha => all a (List.mem_cons_of_mem _ ha))

namespace Cluster

/-- Requests are in good time wherever they are, and those that are done are recorded. -/
def pacing : Law where
  server now i := i.OnTime now
  arrived now r := r.Arrived now
  handed now r := r.Timed now
  completed r := ∃ x, r.Recorded x

theorem pacing_kept {spec : InstanceSpec} (usable : spec.Usable) : pacing.Kept spec where
  new _ _ _ :=
    ⟨List.forall_mem_nil _, List.forall_mem_nil _, List.forall_mem_nil _, List.nodup_nil⟩
  fresh _ fresh :=
    ⟨congrArg Request.timing fresh, congrArg Request.emittedTokens fresh,
      congrArg Request.progress fresh, Nat.le_refl _⟩
  wait le holds := holds.wait le
  travel le arrived := arrived.mono le
  transfer le timed := timed.mono le
  route _ _ arrived := ⟨arrived.timing, arrived.silent, arrived.start, arrived.before⟩
  enqueue _ holds new done := holds.enqueue new done
  step coherent holds ready done := holds.step usable coherent ready done
  complete coherent holds flight done := holds.complete coherent flight done
  rescore rule holds := holds.rescore rule

variable {config : Config} {rs : List Request}

/-- However far a run has come, the log has one record for each request that was completed. If 32
bits count the tokens of this request until its end, they came out one by one, its times are in
order, and its figures are the differences between them. -/
theorem latencies_add_up (valid : config.validate = .ok ()) (trace : DecisionTrace)
    (fresh : ∀ r ∈ rs, r.Fresh) (distinct : (rs.map (·.id)).Nodup) :
    ∃ c d e, new config trace = .ok c ∧ c.injectAll rs = .ok d ∧ d.start = .ok e ∧
      ∀ limit, (∀ r ∈ e.completions limit, r.origin ∈ rs) ∧
        List.Forall₂ Request.Recorded (e.completions limit) (e.runEvents limit).2.log.all.toList := by
  have promised := promised_of_validate valid
  obtain ⟨c, d, e, made, injected, started, coherent, logged, awaits, holds⟩ :=
    valid_run_keeps (pacing_kept promised.valid.usable) valid trace fresh distinct
  refine ⟨c, d, e, made, injected, started, fun limit => ?_⟩
  obtain ⟨_, completed⟩ := holds limit
  refine ⟨fun r hr => (completed r hr).1, ?_⟩
  rw [runEvents_logs promised.valid distinct coherent logged, awaits.log, List.nil_append]
  refine forall₂_filterMap fun r hr => ?_
  obtain ⟨x, recorded⟩ := (completed r hr).2
  exact ⟨x, recorded.figures, recorded⟩

theorem default_latencies_add_up : ∃ c d e, new {} .off = .ok c ∧
    c.injectAll [{ id := 5, arrivalTime := 3, inputTokens := 30, outputTokens := 4 },
      { id := 1, arrivalTime := 7, inputTokens := 12, outputTokens := 0 }] = .ok d ∧
    d.start = .ok e ∧
    ∀ limit, (∀ r ∈ e.completions limit, r.origin ∈
        [{ id := 5, arrivalTime := 3, inputTokens := 30, outputTokens := 4 },
          { id := 1, arrivalTime := 7, inputTokens := 12, outputTokens := 0 }]) ∧
      List.Forall₂ Request.Recorded (e.completions limit) (e.runEvents limit).2.log.all.toList :=
  latencies_add_up rfl .off
    (List.forall_mem_cons.mpr ⟨rfl, List.forall_mem_singleton.mpr rfl⟩) (by decide)

end Cluster
end InferenceSim
