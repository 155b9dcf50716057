import InferenceSim.Metrics.Completion
import InferenceSim.Proofs.Batch.Rounds
import InferenceSim.Proofs.Instance.Turns
import InferenceSim.Proofs.Totals

/-! The times of a request. Its tokens come out one by one, whatever is computed again after a
preemption, and the times that are noted on its way are in order; so its figures add up. -/
namespace InferenceSim

namespace RequestTiming
variable {t : RequestTiming} {count last now s : Nat}

/-- No token came out yet. -/
structure Silent (t : RequestTiming) : Prop where
  first : t.firstTokenTime = none
  last : t.lastTokenTime = none
  gaps : t.gaps = []

/-- So many tokens came out, the latest one at `last`. -/
structure Voiced (t : RequestTiming) (count last : Nat) : Prop where
  begins : ∃ s f, t.firstScheduled = some s ∧ t.firstTokenTime = some f ∧ s ≤ f ∧
    f + totalOf t.gaps = last
  last : t.lastTokenTime = some last
  count : t.gaps.length + 1 = count

theorem Silent.record (k : t.Silent) (scheduled : t.firstScheduled = some s) (le : s ≤ now) :
    (Request.recordToken t now).Voiced 1 now := by
  simp only [Request.recordToken, k.last]
  refine ⟨⟨s, now, scheduled, rfl, le, ?_⟩, rfl, ?_⟩
  · rw [k.gaps]
    rfl
  · rw [k.gaps]
    rfl

theorem Voiced.record (k : t.Voiced count last) (le : last ≤ now) :
    (Request.recordToken t now).Voiced (count + 1) now := by
  obtain ⟨s, f, scheduled, first, order, total⟩ := k.begins
  simp only [Request.recordToken, k.last]
  refine ⟨⟨s, f, scheduled, first, order, ?_⟩, rfl, ?_⟩
  · rw [totalOf_append, totalOf_cons, totalOf_nil]
    omega
  · rw [List.length_append, ← k.count]
    rfl

theorem recordToken_same (t : RequestTiming) (now : Nat) :
    (Request.recordToken t now).enqueueTime = t.enqueueTime ∧
      (Request.recordToken t now).firstScheduled = t.firstScheduled ∧
      (Request.recordToken t now).completionTime = t.completionTime := by
  unfold Request.recordToken
  split <;> exact ⟨rfl, rfl, rfl⟩

end RequestTiming

namespace Request
variable {r s : Request} {now later progress : Nat}

/-- A request to which nothing has happened but its arrival. -/
structure Arrived (now : Nat) (r : Request) : Prop where
  timing : r.timing = {}
  silent : r.emittedTokens = 0
  start : r.progress = 0
  before : r.arrivalTime ≤ now

/-- A request that is not done, with its times in order. Its progress is not ahead of the
tokens that came out. -/
structure Timed (now : Nat) (r : Request) : Prop where
  level : 0 < r.inputTokens → r.progress < r.inputTokens + r.emittedTokens
  unfinished : r.emittedTokens < max r.outputTokens 1
  ends : r.timing.completionTime = none
  begins : ∃ t, r.timing.enqueueTime = some t ∧ r.arrivalTime ≤ t ∧ t ≤ now ∧
    ∀ s, r.timing.firstScheduled = some s → t ≤ s ∧ s ≤ now
  voice : (r.emittedTokens = 0 ∧ r.timing.Silent) ∨
    ∃ last, last ≤ now ∧ r.timing.Voiced r.emittedTokens last

/-- The figures of a completed request, and the times that they come from. -/
structure Told (r : Request) (x : Completion) : Prop where
  figures : Completion.ofRequest? r = some x
  emitted : r.emittedTokens = max r.outputTokens 1
  count : x.gaps.length = max r.outputTokens 1 - 1
  whole : x.ttft + totalOf x.gaps = x.e2e
  order : x.queueWait ≤ x.schedulingDelay ∧ x.schedulingDelay ≤ x.ttft ∧ x.ttft ≤ x.e2e
  times : ∃ q s f e, r.timing.enqueueTime = some q ∧ r.timing.firstScheduled = some s ∧
    r.timing.firstTokenTime = some f ∧ r.timing.lastTokenTime = some e ∧
    r.timing.completionTime = some e ∧
    (r.arrivalTime ≤ q ∧ q ≤ s ∧ s ≤ f ∧ f ≤ e) ∧
    q + x.queueWait = s ∧ r.arrivalTime + x.schedulingDelay = s ∧
    r.arrivalTime + x.ttft = f ∧ r.arrivalTime + x.e2e = e

/-- What is recorded of a completed request: its figures. All of them are told if 32 bits count the
tokens until its end. -/
structure Recorded (r : Request) (x : Completion) : Prop where
  figures : Completion.ofRequest? r = some x
  told : r.span < 4294967296 → r.Told x

theorem exists_recorded (noted : r.timing.completionTime.isSome)
    (told : r.span < 4294967296 → ∃ x, r.Told x) : ∃ x, r.Recorded x := by
  obtain ⟨time, noted⟩ := Option.isSome_iff_exists.mp noted
  obtain ⟨x, figures⟩ : ∃ x, Completion.ofRequest? r = some x := by
    rw [Completion.ofRequest?, e2e, noted]
    exact ⟨_, rfl⟩
  refine ⟨x, figures, fun fits => ?_⟩
  obtain ⟨y, told⟩ := told fits
  exact Option.some.inj (told.figures.symm.trans figures) ▸ told

theorem Timed.mono (k : r.Timed now) (le : now ≤ later) : r.Timed later := by
  obtain ⟨t, enqueued, arrived, before, scheduled⟩ := k.begins
  refine ⟨k.level, k.unfinished, k.ends, ⟨t, enqueued, arrived, Nat.le_trans before le, ?_⟩, ?_⟩
  · intro s some
    exact ⟨(scheduled s some).1, Nat.le_trans (scheduled s some).2 le⟩
  · refine k.voice.imp_right fun voice => ?_
    obtain ⟨last, past, voiced⟩ := voice
    exact ⟨last, Nat.le_trans past le, voiced⟩

theorem Arrived.mono (k : r.Arrived now) (le : now ≤ later) : r.Arrived later :=
  ⟨k.timing, k.silent, k.start, Nat.le_trans k.before le⟩

theorem Arrived.joined (k : r.Arrived now) (joined : r.Joined now s) : s.Timed now := by
  obtain ⟨state, host, rfl⟩ := joined.same
  have positive : 0 < max r.outputTokens 1 := Nat.lt_of_lt_of_le Nat.one_pos (Nat.le_max_right _ _)
  refine ⟨?_, ?_, ?_, ⟨now, ?_, k.before, Nat.le_refl _, ?_⟩, .inl ⟨k.silent, ?_⟩⟩
  · intro prompt
    show r.progress < r.inputTokens + r.emittedTokens
    rw [k.start]
    exact Nat.lt_of_lt_of_le prompt (Nat.le_add_right _ _)
  · show r.emittedTokens < max r.outputTokens 1
    rw [k.silent]
    exact positive
  · simp only [k.timing]
  · simp only [k.timing, Option.getD_none]
  · simp only [k.timing]
    intro s some
    cases some
  · simp only [k.timing]
    exact ⟨rfl, rfl, rfl⟩

theorem Timed.joined (k : r.Timed now) (joined : r.Joined now s) : s.Timed now := by
  obtain ⟨state, host, rfl⟩ := joined.same
  obtain ⟨t, enqueued, rest⟩ := k.begins
  refine ⟨k.level, k.unfinished, k.ends, ⟨t, ?_, rest⟩, ?_⟩
  · simp only [enqueued, Option.getD_some]
  · rcases k.voice with ⟨zero, silent⟩ | ⟨last, past, voiced⟩
    · exact .inl ⟨zero, silent.first, silent.last, silent.gaps⟩
    · exact .inr ⟨last, past, voiced.begins, voiced.last, voiced.count⟩

theorem Timed.preempted (k : r.Timed now) : (preempted r).Timed now where
  level prompt := Nat.lt_of_lt_of_le prompt (Nat.le_add_right _ _)
  unfinished := k.unfinished
  ends := k.ends
  begins := k.begins
  voice := k.voice

theorem Timed.handed (k : r.Timed now) : r.handed.Timed now :=
  ⟨k.level, k.unfinished, k.ends, k.begins, k.voice⟩

theorem Timed.rescored (k : r.Timed now) (priority : Priority) : { r with priority }.Timed now :=
  ⟨k.level, k.unfinished, k.ends, k.begins, k.voice⟩

theorem Timed.entered {m : PrefixMatch} (k : r.Timed now) (entered : enterBatch r m now = .ok s) :
    s.Timed now ∧ s.timing.firstScheduled.isSome := by
  obtain ⟨hits, misses, rfl⟩ := enterBatch_inv entered
  obtain ⟨t, enqueued, arrived, before, scheduled⟩ := k.begins
  refine ⟨⟨k.level, k.unfinished, k.ends, ⟨t, enqueued, arrived, before, ?_⟩, ?_⟩, rfl⟩
  · intro s some
    obtain rfl := Option.some.inj some
    cases first : r.timing.firstScheduled with
    | none => exact ⟨before, Nat.le_refl _⟩
    | some s => exact scheduled s first
  · rcases k.voice with ⟨zero, silent⟩ | ⟨last, past, voiced⟩
    · exact .inl ⟨zero, silent.first, silent.last, silent.gaps⟩
    · obtain ⟨s, f, first, rest⟩ := voiced.begins
      refine .inr ⟨last, past, ⟨s, f, ?_, rest⟩, voiced.last, voiced.count⟩
      simp only [first, Option.getD_some]

theorem advance_cases (r : Request) (progress now : Nat) :
    (r.advance progress now = { r with progress } ∧
      (progress < r.inputTokens ∨ progress - r.inputTokens + 1 ≤ r.emittedTokens)) ∨
    (r.advance progress now = { r with
        progress
        timing := recordToken r.timing now
        emittedTokens := progress - r.inputTokens + 1 } ∧
      r.inputTokens ≤ progress ∧ r.emittedTokens < progress - r.inputTokens + 1) := by
  unfold advance
  dsimp only
  split
  · next inPrefill => exact .inl ⟨rfl, .inl (by simpa [Request.inPrefill] using inPrefill)⟩
  · next past =>
    split
    · next known => exact .inl ⟨rfl, .inr known⟩
    · next new =>
      exact .inr ⟨rfl, by simpa [Request.inPrefill] using past, Nat.lt_of_not_le new⟩

theorem told_of_times {q s f e : Nat} (emitted : r.emittedTokens = max r.outputTokens 1)
    (count : r.timing.gaps.length + 1 = max r.outputTokens 1)
    (enqueued : r.timing.enqueueTime = some q) (scheduled : r.timing.firstScheduled = some s)
    (first : r.timing.firstTokenTime = some f) (last : r.timing.lastTokenTime = some e)
    (completed : r.timing.completionTime = some e)
    (order : r.arrivalTime ≤ q ∧ q ≤ s ∧ s ≤ f) (total : f + totalOf r.timing.gaps = e) :
    ∃ x, r.Told x := by
  refine ⟨{ request := r.id, host := r.host.getD 0, arrivalTime := r.arrivalTime
            inputTokens := r.inputTokens, outputTokens := r.outputTokens
            sloClass := r.sloClass, tenant := r.tenant, queueWait := s - q
            schedulingDelay := s - r.arrivalTime, ttft := f - r.arrivalTime
            e2e := e - r.arrivalTime, gaps := r.timing.gaps, preemptions := r.preemptions
            cacheHitBlocks := r.cacheHitBlocks, cacheMissBlocks := r.cacheMissBlocks }, ?_⟩
  constructor
  case figures =>
    simp only [Completion.ofRequest?, e2e, ttft, queueWait, enqueued, scheduled, first, completed,
      Option.map_some, Option.getD_some]
  case emitted => exact emitted
  case count => exact Nat.eq_sub_of_add_eq count
  case whole =>
    dsimp only
    omega
  case order =>
    dsimp only
    omega
  case times =>
    refine ⟨q, s, f, e, enqueued, scheduled, first, last, completed, ?_, ?_⟩
    · omega
    · dsimp only
      omega

/-- A running request that comes within reach goes on in good time, or is done and all is told, if
its end could be counted. -/
theorem Timed.advance (k : r.Timed now) (scheduled : r.timing.firstScheduled.isSome)
    (near : progress ≤ r.inputTokens + r.emittedTokens)
    (upto : progress ≤ r.span) :
    ((r.advance progress now).isDone = false → (r.advance progress now).Timed now ∧
        (r.advance progress now).timing.firstScheduled.isSome) ∧
      ((r.advance progress now).isDone = true → r.span < 4294967296 →
        ∃ x, ((r.advance progress now).completedAt now).Told x) := by
  have unfinished := k.unfinished
  have least := r.completionProgress_le
  have ending : r.span = r.inputTokens + max r.outputTokens 1 - 1 := rfl
  obtain ⟨q, enqueued, arrived, before, inOrder⟩ := k.begins
  rcases r.advance_cases progress now with ⟨same, silent⟩ | ⟨same, past, new⟩
  · rw [same]
    refine ⟨fun _ => ⟨⟨fun _ => ?_, k.unfinished, k.ends, k.begins, k.voice⟩, scheduled⟩,
      fun done fits => ?_⟩
    · show progress < r.inputTokens + r.emittedTokens
      omega
    · have reached : r.completionProgress ≤ progress := of_decide_eq_true done
      rw [Request.completionProgress_eq fits] at reached
      omega
  · obtain ⟨s, first⟩ := Option.isSome_iff_exists.mp scheduled
    obtain ⟨enqueued', scheduled', completed'⟩ := r.timing.recordToken_same now
    have one : progress - r.inputTokens + 1 = r.emittedTokens + 1 := by omega
    have voiced : (recordToken r.timing now).Voiced (progress - r.inputTokens + 1) now := by
      rw [one]
      rcases k.voice with ⟨zero, silent⟩ | ⟨last, past, voiced⟩
      · rw [zero]
        exact silent.record first (inOrder s first).2
      · exact voiced.record past
    rw [same]
    refine ⟨fun open' => ⟨⟨fun _ => ?_, ?_, ?_, ⟨q, ?_, arrived, before, ?_⟩, .inr ⟨now, Nat.le_refl _,
      voiced⟩⟩, ?_⟩, fun done fits => ?_⟩
    · show progress < r.inputTokens + (progress - r.inputTokens + 1)
      omega
    · have short : progress < r.completionProgress := Nat.lt_of_not_le (of_decide_eq_false open')
      show progress - r.inputTokens + 1 < max r.outputTokens 1
      omega
    · exact completed'.trans k.ends
    · exact enqueued'.trans enqueued
    · exact fun s some => inOrder s (scheduled'.symm.trans some)
    · exact scheduled'.symm ▸ scheduled
    · have reached : r.completionProgress ≤ progress := of_decide_eq_true done
      rw [Request.completionProgress_eq fits] at reached
      have all : progress - r.inputTokens + 1 = max r.outputTokens 1 := by omega
      obtain ⟨s', f, begins, token, le, total⟩ := voiced.begins
      obtain rfl : s = s' := Option.some.inj ((scheduled'.trans first).symm.trans begins)
      exact told_of_times (q := q) (s := s) (f := f) (e := now) all (voiced.count.trans all)
        (enqueued'.trans enqueued) begins token voiced.last rfl
        ⟨arrived, (inOrder s first).1, le⟩ total

end Request
end InferenceSim
