import InferenceSim.Proofs.Events
import InferenceSim.Proofs.Instance.Settling
import InferenceSim.Proofs.Kv.Representation

/-! What holds of an instance between two events, and the arrival of a request at its
wait queue. -/
namespace InferenceSim

/-- Whether an event is a step of an instance or the end of one. -/
def Action.wakes (host : Nat) : Action → Bool
  | .step id | .stepComplete id => id = host
  | _ => false

theorem Instance.new_kv (id : Nat) (role : Role) (spec : InstanceSpec) (rule : SchedulerRule) :
    (Instance.new id role spec rule).kv =
      KvCache.start id spec.kvBlocks spec.blockSize spec.tier := rfl

namespace Instance

def requests (i : Instance) : List Request := i.running ++ i.queue

def awaited (i : Instance) : List Action :=
  if i.busy then if i.inFlight.isSome then [.stepComplete i.id] else [.step i.id] else []

/-- What holds of an instance between two events. -/
structure Coherent (spec : InstanceSpec) (i : Instance) : Prop where
  limits : i.limits = spec.limits
  fitting : Fitting spec i.running i.queue i.kv
  flight : ∀ o, i.inFlight = some o →
    Advances i.running o.scheduled ∧ HeadWorks i.running o.scheduled
  idle : i.busy = false → i.inFlight = none ∧ i.running = [] ∧
    ((∀ r ∈ i.queue, r.Counted) → i.queue = [])

/-- An instance after something happened to it. What it waits for, and the events that
were `spent` on it, were waited for before or are new. -/
structure Moved (i : Instance) (q : EventQueue) (spent : List Action) (j : Instance)
    (d : EventQueue) : Prop where
  id : j.id = i.id
  role : j.role = i.role
  events : ∃ added, q.Gains added d ∧ (j.awaited ++ spent).Perm (i.awaited ++ added) ∧
    ∀ a ∈ added, a.wakes i.id

variable {spec : InstanceSpec} {i : Instance} {q : EventQueue} {r : Request} {now : Nat}

theorem new_coherent (usable : spec.Usable) (id : Nat) (role : Role) (rule : SchedulerRule) :
    (Instance.new id role spec rule).Coherent spec where
  limits := rfl
  fitting := by
    have cache := new_kv id role spec rule
    constructor
    case toHoused =>
      refine ⟨?_, ?_, ?_, (List.forall_mem_nil _), List.nodup_nil, ?_⟩
      · rw [cache]
        exact KvCache.start_sound id spec.kvBlocks usable.blockSize spec.tier
      · rw [cache]
        cases spec.tier <;> rfl
      · rw [cache]
        cases spec.tier <;> rfl
      · intro q h own
        rw [cache, KvCache.start_unheld] at own
        cases own
    case runs => exact List.forall_mem_nil _
  flight := fun _ none => by cases none
  idle := fun _ => ⟨rfl, rfl, fun _ => rfl⟩

theorem wake_ok (i : Instance) (later : q.now ≤ now) (a : Action) :
    ∃ d, i.wake now a q = (.ok (), { i with busy := true }, d) ∧ q.Gains [a] d := by
  obtain ⟨n, d, scheduled, gains, _⟩ := q.schedule_ok later a
  exact ⟨d, by rw [wake, scheduled], gains⟩

theorem receive_ok (i : Instance) (state : r.state = .arrived ∨ r.state = .queued) :
    ∃ s, i.receive r = .ok s ∧ s.stem = r.stem ∧ s.state = .queued ∧ s.progress = r.progress := by
  rcases state with arrived | queued
  · have legal : r.transition .queued = .ok { r with state := .queued } :=
      Request.transition_ok (by rw [arrived]; rfl)
    refine ⟨{ r with state := .queued, host := some i.id }, ?_, rfl, rfl, rfl⟩
    simp only [receive, if_pos arrived, legal]
  · have other : r.state ≠ .arrived := fun arrived => by
      cases arrived.symm.trans queued
    exact ⟨{ r with host := some i.id }, if_neg other, rfl, queued, rfl⟩

theorem unfit_eq (k : i.Coherent spec)
    (start : r.progress = 0 ∨ spec.serves r ∧ r.inputTokens ≤ r.progress) :
    ∃ reason, i.unfit? r = .ok reason ∧ reason.isNone = spec.serves r := by
  have positive : i.kv.blockSize ≠ 0 := Nat.ne_of_gt k.fitting.sound.positive
  have blocks : i.kv.blocksFor r.totalTokens =
      (r.totalTokens + spec.blockSize - 1) / spec.blockSize := by
    rw [KvCache.blocksFor, k.fitting.blockSize]
  by_cases empty : r.inputTokens = 0
  · refine ⟨some .emptyPrompt, if_pos empty, ?_⟩
    simp [InstanceSpec.serves, empty]
  · have prompt : 0 < r.inputTokens := Nat.pos_of_ne_zero empty
    by_cases exceeds : (!i.limits.chunkedPrefill && decide (i.limits.maxTokens < r.remainingPrefill))
        = true
    · refine ⟨some (.overBudget r.inputTokens i.limits.maxTokens), ?_, ?_⟩
      · rw [unfit?, if_neg empty, if_pos exceeds]
      · have whole := exceeds
        simp only [k.limits, Bool.and_eq_true, Bool.not_eq_true', decide_eq_true_eq,
          Request.remainingPrefill] at whole
        rcases start with zero | ⟨_, computed⟩
        · have tooLong : ¬ r.inputTokens ≤ spec.limits.maxTokens := by omega
          simp [InstanceSpec.serves, whole.1, tooLong]
        · omega
    · have budget : spec.limits.chunkedPrefill = true ∨ r.inputTokens ≤ spec.limits.maxTokens := by
        rcases start with zero | ⟨serves, _⟩
        · simp only [k.limits, Bool.and_eq_true, Bool.not_eq_true', decide_eq_true_eq, not_and,
            Request.remainingPrefill, Nat.not_lt] at exceeds
          cases whole : spec.limits.chunkedPrefill with
          | true => exact .inl rfl
          | false => exact .inr (by have := exceeds whole; omega)
        · cases whole : spec.limits.chunkedPrefill with
          | true => exact .inl rfl
          | false => exact .inr (InstanceSpec.budget_of_serves serves whole)
      have within : (spec.limits.chunkedPrefill || decide (r.inputTokens ≤ spec.limits.maxTokens))
          = true := by
        simpa using budget
      refine ⟨if i.kv.total < i.kv.blocksFor r.totalTokens then
        some (.tooFewBlocks (i.kv.blocksFor r.totalTokens) i.kv.total) else none, ?_, ?_⟩
      · rw [unfit?, if_neg empty, if_neg exceeds, KvCache.blocksFor?, if_neg positive]
        rfl
      · rw [blocks, k.fitting.total, InstanceSpec.serves, within]
        by_cases few : spec.kvBlocks < (r.totalTokens + spec.blockSize - 1) / spec.blockSize
        · simp [few, Nat.not_le.mpr few]
        · simp [few, Nat.le_of_not_lt few, prompt]

theorem enqueue_ok (k : i.Coherent spec)
    (state : r.state = .arrived ∨ r.state = .queued)
    (start : r.progress = 0 ∨ r.inputTokens ≤ r.progress) (resident : Resident spec r)
    (new : r.id ∉ i.requests.map (·.id)) (later : q.now ≤ now) :
    ∃ j d s, i.enqueue r now q = (.ok .queued, j, d) ∧ j.Coherent spec ∧ i.Moved q [] j d ∧
      j.requests = i.requests ++ [s] ∧ s.stem = r.stem ∧ j.stats = i.stats := by
  obtain ⟨s, received, stem, queued, progress⟩ := i.receive_ok state
  have serves : spec.serves s := InstanceSpec.serves_of_stem stem ▸ resident.serves
  have start' : s.progress = 0 ∨ spec.serves s ∧ s.inputTokens ≤ s.progress := by
    rw [progress, Request.inputTokens_of_stem stem]
    exact start.imp_right fun computed => ⟨serves, computed⟩
  obtain ⟨reason, judged, fits⟩ := unfit_eq k start'
  obtain rfl : reason = none := Option.isNone_iff_eq_none.mp (fits.trans serves)
  obtain ⟨w, hw⟩ : ∃ w : Request, w = { s with
    timing := { s.timing with enqueueTime := some (s.timing.enqueueTime.getD now) } } := ⟨_, rfl⟩
  have wstem : w.stem = r.stem := by rw [hw, ← stem]; rfl
  have waits : Fitting spec i.running (i.queue ++ [w]) i.kv := by
    refine { k.fitting with waits := fun p hp => ?_, nodup := ?_ }
    · rcases List.mem_append.mp hp with before | last
      · exact k.fitting.waits p before
      · rw [List.mem_singleton.mp last]
        refine ⟨hw ▸ queued, InstanceSpec.serves_of_stem wstem ▸ resident.serves, ?_⟩
        rw [Request.span_of_stem wstem, hw]
        exact progress ▸ resident.unfinished
    · rw [← List.append_assoc, List.map_append]
      refine List.nodup_append.mpr ⟨k.fitting.nodup, List.nodup_cons.mpr ⟨List.not_mem_nil,
        List.nodup_nil⟩, fun id known id' isNew same => ?_⟩
      have own : id = r.id := (same.trans (List.mem_singleton.mp isNew)).trans
        (Request.id_of_stem wstem)
      exact new (own ▸ known)
  have requests : i.running ++ (i.queue ++ [w]) = i.requests ++ [w] :=
    (List.append_assoc _ _ _).symm
  by_cases busy : i.busy = true
  · refine ⟨{ i with queue := i.queue ++ [w] }, q, w, ?_, ⟨k.limits, waits, k.flight, ?_⟩,
      ⟨rfl, rfl, [], .refl, .refl _, List.forall_mem_nil _⟩, requests, wstem, rfl⟩
    · simp only [enqueue, received, judged, ← hw, if_pos busy]
    · exact fun asleep => absurd (asleep.symm.trans busy) Bool.false_ne_true
  · have asleep := Bool.eq_false_iff.mpr busy
    obtain ⟨d, woken, gains⟩ :=
      wake_ok { i with queue := i.queue ++ [w] } later (.step i.id)
    refine ⟨{ i with queue := i.queue ++ [w], busy := true }, d, w, ?_,
      ⟨k.limits, waits, k.flight, fun asleep => by cases asleep⟩,
      ⟨rfl, rfl, [.step i.id], gains, .of_eq ?_, by simp [Action.wakes]⟩, requests, wstem, rfl⟩
    · simp only [enqueue, received, judged, ← hw, if_neg busy, woken]
      rfl
    · simp only [awaited, asleep, (k.idle asleep).1]
      rfl

theorem enqueue_refused (k : i.Coherent spec)
    (state : r.state = .arrived) (start : r.progress = 0) (unserved : spec.serves r = false)
    (now : Nat) (q : EventQueue) :
    ∃ s reason, i.enqueue r now q = (.ok (.rejected s reason),
        { i with stats := { i.stats with rejected := i.stats.rejected + 1 } }, q) ∧
      s.state = .rejected ∧ s.origin = r.origin := by
  obtain ⟨s, received, stem, queued, progress⟩ := i.receive_ok (.inl state)
  obtain ⟨reason, judged, unfit⟩ := unfit_eq k (.inl (progress.trans start))
  rw [InstanceSpec.serves_of_stem stem, unserved] at unfit
  obtain ⟨why, rfl⟩ : ∃ why, reason = some why := by
    cases reason with
    | none => cases unfit
    | some why => exact ⟨why, rfl⟩
  have legal : s.transition .rejected = .ok { s with state := .rejected } :=
    Request.transition_ok (by rw [queued]; rfl)
  refine ⟨{ s with state := .rejected }, why, ?_, rfl, Request.origin_of_stem stem⟩
  simp only [enqueue, received, judged, legal]

end Instance
end InferenceSim
