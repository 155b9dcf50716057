import InferenceSim.Proofs.Batch.Budget
import InferenceSim.Proofs.Instance.Stepping
import InferenceSim.Proofs.Results

/-! What an instance looks like after each of its turns, read off the turn itself: the arrival
of a request, the beginning of a step and its end. The events that a turn schedules carry no
request. -/
namespace InferenceSim

/-- A request as it waits in a queue that it joined at some time. -/
structure Request.Joined (now : Nat) (r s : Request) : Prop where
  same : ∃ state host, s = { r with
    state, host, timing := { r.timing with enqueueTime := some (r.timing.enqueueTime.getD now) } }

/-- The tokens that an instance has computed in the phase of prompts, or in that of output. -/
def InstanceStats.tokens (s : InstanceStats) : (prompt : Bool) → Nat
  | true => s.prefillTokens
  | false => s.decodeTokens

namespace Instance
variable {spec : InstanceSpec} {i j : Instance} {r s : Request} {now time : Nat}
  {q d : EventQueue}

/-- The work of the batch in flight. -/
def works (i : Instance) : List ScheduledWork :=
  match i.inFlight with
  | some o => o.scheduled
  | none => []

theorem works_of_ready (ready : i.inFlight = none) : i.works = [] := by rw [works, ready]

theorem works_of_flight {o : BatchOutcome} (flight : i.inFlight = some o) :
    i.works = o.scheduled := by rw [works, flight]

theorem receive_inv (done : i.receive r = .ok s) : ∃ state host, s = { r with state, host } := by
  unfold receive at done
  dsimp only at done
  split at done
  · split at done
    · next w moved =>
      obtain rfl := Request.transition_inv moved
      exact ⟨_, _, (Except.ok.inj done).symm⟩
    · cases done
  · exact ⟨_, _, (Except.ok.inj done).symm⟩

theorem wake_awake (i : Instance) (time : Nat) (a : Action) (q : EventQueue) :
    (i.wake time a q).2.1 = { i with busy := true } := by
  unfold wake
  split <;> rfl

theorem enqueue_inv {out : Enqueued} (done : i.enqueue r now q = (.ok out, j, d)) :
    (∃ s reason, out = .rejected s reason ∧ s.origin = r.origin ∧
        j = { i with stats := { i.stats with rejected := i.stats.rejected + 1 } }) ∨
      (out = .queued ∧
        ∃ s, r.Joined now s ∧ j = { i with queue := i.queue ++ [s], busy := true }) := by
  unfold enqueue at done
  split at done
  · cases done
  · next w received =>
    obtain ⟨state, host, rfl⟩ := receive_inv received
    split at done
    · cases done
    · split at done
      · cases done
      · next s moved =>
        obtain rfl := Request.transition_inv moved
        exact .inl ⟨_, _, (Except.ok.inj (Prod.mk.inj done).1).symm, rfl,
          (Prod.mk.inj (Prod.mk.inj done).2).1.symm⟩
    · refine .inr ?_
      dsimp only at done
      split at done
      · next busy =>
        refine ⟨(Except.ok.inj (Prod.mk.inj done).1).symm, _, ⟨state, host, rfl⟩, ?_⟩
        rw [← (Prod.mk.inj (Prod.mk.inj done).2).1, ← busy]
      · obtain ⟨⟨⟩, _, rfl⟩ := ok_of_map (Prod.mk.inj done).1
        refine ⟨rfl, _, ⟨state, host, rfl⟩, ?_⟩
        rw [← (Prod.mk.inj (Prod.mk.inj done).2).1]
        exact wake_awake _ now _ q

theorem queued_inv (done : i.enqueue r now q = (.ok .queued, j, d)) :
    ∃ s, r.Joined now s ∧ j = { i with queue := i.queue ++ [s], busy := true } := by
  rcases enqueue_inv done with ⟨_, _, other, _⟩ | ⟨_, joined⟩
  · cases other
  · exact joined

theorem rejected_inv {reason : Unfit} (done : i.enqueue r now q = (.ok (.rejected s reason), j, d)) :
    s.origin = r.origin ∧
      j = { i with stats := { i.stats with rejected := i.stats.rejected + 1 } } := by
  rcases enqueue_inv done with ⟨_, _, same, origin, after⟩ | ⟨other, _⟩
  · obtain ⟨rfl, rfl⟩ := Enqueued.rejected.inj same
    exact ⟨origin, after⟩
  · cases other

/-- An arrival is counted as turned away, or joins the queue of an instance that is awake. -/
theorem enqueue_cases {out : Enqueued} (done : i.enqueue r now q = (.ok out, j, d)) :
    j = { i with stats := { i.stats with rejected := i.stats.rejected + 1 } } ∨
      ∃ s, r.Joined now s ∧ j = { i with queue := i.queue ++ [s], busy := true } := by
  rcases enqueue_inv done with ⟨_, _, _, _, same⟩ | ⟨_, joined⟩
  · exact .inl same
  · exact .inr joined

/-- What an instance does with the batch that it has formed. The reloads for a batch are in
the time of its end. -/
inductive Stepped (i : Instance) (now : Nat) (latency : LatencyModel) (q : EventQueue)
    (o : BatchOutcome) (t : BatchState) : Instance → EventQueue → Prop
  | rest {stats : InstanceStats} {busy : Bool} {d : EventQueue} (empty : o.isEmpty = true)
      (ticks : stats.busyTicks = i.stats.busyTicks) (rings : q.Rings d)
      (tokens : ∀ prompt, stats.tokens prompt = i.stats.tokens prompt)
      (preempts : stats.preemptions = i.stats.preemptions + o.preempted.length) :
      Stepped i now latency q o t
        { i with running := t.running, queue := t.queue, kv := t.kv, stats, busy } d
  | begin {stats : InstanceStats} {d : EventQueue} {n : Nat} (works : o.isEmpty = false)
      (ticks : stats.busyTicks = i.stats.busyTicks)
      (joins : q.Joins [⟨now + (latency.stepTime o.shape + t.kv.takePendingLatency.1 +
        (latency.schedulingOverhead * o.admitted.length +
          latency.preemptionOverhead * o.preempted.length)), n, .stepComplete i.id⟩] d)
      (tokens : ∀ prompt, stats.tokens prompt = i.stats.tokens prompt + o.shape.tokens prompt)
      (preempts : stats.preemptions = i.stats.preemptions + o.preempted.length) :
      Stepped i now latency q o t
        { i with
          running := t.running, queue := t.queue, kv := t.kv.takePendingLatency.2, stats
          stepStarted := now, inFlight := some o } d

theorem Stepped.preempts {latency : LatencyModel} {o : BatchOutcome} {t : BatchState}
    (k : i.Stepped now latency q o t j d) :
    j.stats.preemptions = i.stats.preemptions + o.preempted.length := by
  cases k with
  | rest _ _ _ _ preempts => exact preempts
  | begin _ _ _ _ preempts => exact preempts

theorem step_cases {latency : LatencyModel} (done : i.step now latency q = .ok (j, d)) :
    ∃ o t, formBatch i.limits i.scheduler now ⟨i.running, i.queue, i.kv.setClock now⟩ =
        .ok (o, t) ∧ i.Stepped now latency q o t j d := by
  obtain ⟨⟨o, t⟩, formed, done⟩ := ok_of_bind done
  refine ⟨o, t, formed, ?_⟩
  dsimp only at done
  split at done
  · next empty =>
    split at done
    · obtain ⟨rfl, rfl⟩ := Prod.mk.inj (Except.ok.inj done)
      exact .rest empty rfl (.of_eq rfl) (fun prompt => by cases prompt <;> rfl) rfl
    · split at done
      · cases done
      · next scheduled =>
        obtain ⟨rfl, rfl⟩ := Prod.mk.inj (Except.ok.inj done)
        exact .rest empty rfl ((EventQueue.joins_of_schedule scheduled).rings rfl)
          (fun prompt => by cases prompt <;> rfl) rfl
  · next works =>
    split at done
    · cases done
    · next scheduled =>
      obtain ⟨rfl, rfl⟩ := Prod.mk.inj (Except.ok.inj done)
      exact .begin (Bool.eq_false_iff.mpr works) rfl (EventQueue.joins_of_schedule scheduled)
        (fun prompt => by cases prompt <;> rfl) rfl

/-- The end of a step settles the requests that it has brought further. -/
theorem complete_cases {o : BatchOutcome} {report : StepReport} (k : i.Coherent spec)
    (flight : i.inFlight = some o) (done : i.complete now q = (.ok report, j, d)) :
    ∃ s stats busy, settle now (i.running.map (advanced now o.scheduled)) i.kv = .ok s ∧
      report = s.report ∧
      j = { i with inFlight := none, running := s.running, kv := s.kv, stats, busy } ∧
      stats.busyTicks = i.stats.busyTicks + (now - i.stepStarted) := by
  have moved := advanceAll_ok i.id now k.fitting.nodup_running (fun w hw => by
    obtain ⟨r, hr, own, _⟩ := (k.flight o flight).1 w hw
    exact ⟨r, hr, own⟩)
  unfold complete at done
  simp only [flight, moved] at done
  split at done
  · cases done
  · next s settled =>
    refine ⟨s, ?_⟩
    split at done
    · rw [← (Prod.mk.inj (Prod.mk.inj done).2).1]
      exact ⟨_, false, settled, (Except.ok.inj (Prod.mk.inj done).1).symm, rfl, rfl⟩
    · obtain ⟨⟨⟩, _, reported⟩ := ok_of_map (Prod.mk.inj done).1
      rw [← (Prod.mk.inj (Prod.mk.inj done).2).1, wake_awake]
      exact ⟨_, true, settled, reported.symm, rfl, rfl⟩

theorem complete_keeps {out : Except Fault StepReport} (done : i.complete now q = (out, j, d)) :
    ∃ running kv busy inFlight busyTicks completed handoffs,
      j = { i with
        running, kv, busy, inFlight, stats := { i.stats with busyTicks, completed, handoffs } } := by
  obtain rfl : (i.complete now q).2.1 = j := by rw [done]
  unfold complete
  split
  · exact ⟨_, _, _, _, _, _, _, rfl⟩
  · dsimp only
    split
    · exact ⟨_, _, _, _, _, _, _, rfl⟩
    · split
      · exact ⟨_, _, _, _, _, _, _, rfl⟩
      · split
        · exact ⟨_, _, _, _, _, _, _, rfl⟩
        · rw [wake_awake]
          exact ⟨_, _, _, _, _, _, _, rfl⟩

theorem complete_stats {out : Except Fault StepReport} (done : i.complete now q = (out, j, d)) :
    j.id = i.id ∧ ∃ busyTicks completed handoffs,
      j.stats = { i.stats with busyTicks, completed, handoffs } := by
  obtain ⟨_, _, _, _, busyTicks, completed, handoffs, rfl⟩ := complete_keeps done
  exact ⟨rfl, busyTicks, completed, handoffs, rfl⟩

section
variable {a : Action}

theorem rings_of_wake (bare : a.request? = none) : q.Rings (i.wake time a q).2.2 := by
  unfold wake
  split
  · next scheduled => exact (EventQueue.joins_of_schedule scheduled).rings bare
  · exact .of_eq rfl

theorem rings_of_enqueue {out : Except Fault Enqueued} (done : i.enqueue r now q = (out, j, d)) :
    q.Rings d := by
  obtain rfl : (i.enqueue r now q).2.2 = d := by rw [done]
  unfold enqueue
  split
  · exact .of_eq rfl
  · split
    · exact .of_eq rfl
    · split <;> exact .of_eq rfl
    · dsimp only
      split
      · exact .of_eq rfl
      · exact rings_of_wake rfl

theorem rings_of_step {latency : LatencyModel} (done : i.step now latency q = .ok (j, d)) :
    q.Rings d := by
  obtain ⟨o, t, _, stepped⟩ := step_cases done
  cases stepped with
  | rest empty ticks rings => exact rings
  | begin works ticks joins => exact joins.rings rfl

theorem rings_of_complete {out : Except Fault StepReport}
    (done : i.complete now q = (out, j, d)) : q.Rings d := by
  obtain rfl : (i.complete now q).2.2 = d := by rw [done]
  unfold complete
  split
  · exact .of_eq rfl
  · dsimp only
    split
    · exact .of_eq rfl
    · split
      · exact .of_eq rfl
      · split
        · exact .of_eq rfl
        · exact rings_of_wake rfl

end

end Instance
end InferenceSim
