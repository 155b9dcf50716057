import InferenceSim.Instance.Basic

/-! What stays the same of a request while it moves through the cluster, and which
requests an instance can serve at all. -/
namespace InferenceSim

namespace Request
variable {r s : Request}

/-- The request as it was made, before anything happened to it. -/
def origin (r : Request) : Request :=
  { id := r.id, arrivalTime := r.arrivalTime, inputTokens := r.inputTokens
    outputTokens := r.outputTokens, tenant := r.tenant, sloClass := r.sloClass
    shared := r.shared }

/-- A request to which nothing has happened yet. -/
def Fresh (r : Request) : Prop := r = r.origin

/-- The request as it was made, and where it is going to be decoded. An instance keeps
both. -/
def stem (r : Request) : Request := { r.origin with decodeTarget := r.decodeTarget }

@[simp] theorem origin_id (r : Request) : r.origin.id = r.id := rfl

@[simp] theorem origin_stem (r : Request) : r.stem.origin = r.origin := rfl

theorem origin_of_stem (same : r.stem = s.stem) : r.origin = s.origin := by
  rw [← origin_stem r, same, origin_stem]

theorem id_of_origin (same : r.origin = s.origin) : r.id = s.id := by
  rw [← origin_id r, same, origin_id]

theorem id_of_stem (same : r.stem = s.stem) : r.id = s.id := id_of_origin (origin_of_stem same)

theorem inputTokens_of_stem (same : r.stem = s.stem) : r.inputTokens = s.inputTokens :=
  show r.stem.inputTokens = s.stem.inputTokens by rw [same]

theorem outputTokens_of_stem (same : r.stem = s.stem) : r.outputTokens = s.outputTokens :=
  show r.stem.outputTokens = s.stem.outputTokens by rw [same]

theorem decodeTarget_of_stem (same : r.stem = s.stem) : r.decodeTarget = s.decodeTarget :=
  show r.stem.decodeTarget = s.stem.decodeTarget by rw [same]

theorem completionProgress_of_stem (same : r.stem = s.stem) :
    r.completionProgress = s.completionProgress := by
  rw [completionProgress, inputTokens_of_stem same, outputTokens_of_stem same, completionProgress]

/-- The tokens whose KV the request computes from its first to its last one. -/
def span (r : Request) : Nat := r.inputTokens + max r.outputTokens 1 - 1

/-- A request whose tokens 32 bits can count. -/
def Counted (r : Request) : Prop := r.inputTokens + r.outputTokens < 4294967296

instance (r : Request) : Decidable r.Counted := inferInstanceAs (Decidable (_ < _))

theorem completionProgress_le (r : Request) : r.completionProgress ≤ r.span := wrap_le _

theorem completionProgress_eq (fits : r.span < 4294967296) : r.completionProgress = r.span :=
  wrap_of_lt fits

theorem inputTokens_le_span (r : Request) : r.inputTokens ≤ r.span := by
  rw [span]
  omega

theorem span_of_stem (same : r.stem = s.stem) : r.span = s.span := by
  rw [span, inputTokens_of_stem same, outputTokens_of_stem same, span]

theorem counted_of_stem (same : r.stem = s.stem) : r.Counted ↔ s.Counted := by
  rw [Counted, inputTokens_of_stem same, outputTokens_of_stem same, Counted]

namespace Counted

theorem span_lt (k : r.Counted) : r.span < 4294967296 := by
  rw [Counted] at k
  rw [span]
  omega

theorem inputTokens_lt (k : r.Counted) : r.inputTokens < 4294967296 := by
  rw [Counted] at k
  omega

theorem span_le (k : r.Counted) : r.span ≤ r.totalTokens := by
  rw [totalTokens, wrap_of_lt k, span]
  omega

end Counted

theorem transition_ok {target : RequestState} (legal : r.state.canMoveTo target) :
    r.transition target = .ok { r with state := target } := if_pos legal

theorem transition_inv {target : RequestState} (done : r.transition target = .ok s) :
    s = { r with state := target } := by
  unfold transition at done
  split at done
  · exact (Except.ok.inj done).symm
  · cases done

section
variable (r : Request) (progress now : Nat)

theorem advance_inv : ∃ timing emittedTokens,
    r.advance progress now = { r with progress, timing, emittedTokens } := by
  unfold advance
  dsimp only
  split
  · exact ⟨r.timing, r.emittedTokens, rfl⟩
  · split
    · exact ⟨r.timing, r.emittedTokens, rfl⟩
    · exact ⟨_, _, rfl⟩

@[simp] theorem advance_stem : (r.advance progress now).stem = r.stem := by
  obtain ⟨timing, emitted, same⟩ := r.advance_inv progress now
  rw [same]
  rfl

@[simp] theorem advance_state : (r.advance progress now).state = r.state := by
  obtain ⟨timing, emitted, same⟩ := r.advance_inv progress now
  rw [same]

@[simp] theorem advance_progress : (r.advance progress now).progress = progress := by
  obtain ⟨timing, emitted, same⟩ := r.advance_inv progress now
  rw [same]

end

/-- Requests with different ids are told apart by them. -/
theorem eq_of_id {rs : List Request} (nodup : (rs.map (·.id)).Nodup) (hr : r ∈ rs) (hs : s ∈ rs)
    (same : r.id = s.id) : r = s := by
  induction rs with
  | nil => cases hr
  | cons q rest ih =>
      obtain ⟨new, nodup⟩ := List.nodup_cons.mp nodup
      rcases List.mem_cons.mp hr with rfl | later
      · rcases List.mem_cons.mp hs with rfl | later'
        · rfl
        · exact absurd (List.mem_map.mpr ⟨s, later', same.symm⟩) new
      · rcases List.mem_cons.mp hs with rfl | later'
        · exact absurd (List.mem_map.mpr ⟨r, later, same⟩) new
        · exact ih nodup later later'

end Request

namespace InstanceSpec

/-- Whether an instance can serve a request: it has a prompt, the prompt fits into a
step if it may not be cut, and the blocks for all its tokens are there. -/
def serves (spec : InstanceSpec) (r : Request) : Bool :=
  decide (0 < r.inputTokens) &&
    (spec.limits.chunkedPrefill || decide (r.inputTokens ≤ spec.limits.maxTokens)) &&
    decide ((r.totalTokens + spec.blockSize - 1) / spec.blockSize ≤ spec.kvBlocks)

/-- What the batches of an instance rest on; a valid configuration provides it. -/
structure Usable (spec : InstanceSpec) : Prop where
  blockSize : 0 < spec.blockSize
  maxTokens : 0 < spec.limits.maxTokens
  maxRunning : 0 < spec.limits.maxRunning

variable {spec : InstanceSpec} {r s : Request}

theorem serves_of_stem (same : r.stem = s.stem) : spec.serves r = spec.serves s := by
  rw [serves, serves, Request.totalTokens, Request.totalTokens, Request.inputTokens_of_stem same,
    Request.outputTokens_of_stem same]

theorem prompt_of_serves (h : spec.serves r) : 0 < r.inputTokens := by
  simp only [serves, Bool.and_eq_true, decide_eq_true_eq] at h
  exact h.1.1

theorem budget_of_serves (h : spec.serves r) (whole : spec.limits.chunkedPrefill = false) :
    r.inputTokens ≤ spec.limits.maxTokens := by
  simp only [serves, Bool.and_eq_true, Bool.or_eq_true, decide_eq_true_eq, whole,
    Bool.false_eq_true, false_or] at h
  exact h.1.2

theorem blocks_of_serves (h : spec.serves r) (usable : spec.Usable) :
    r.totalTokens ≤ spec.kvBlocks * spec.blockSize := by
  simp only [serves, Bool.and_eq_true, decide_eq_true_eq] at h
  have positive := usable.blockSize
  have whole := (Nat.div_le_iff_le_mul_add_pred positive).mp h.2
  rw [Nat.mul_comm] at whole
  omega

end InstanceSpec

/-- A request on an instance: it is served here, and some of its tokens are still to be
computed. -/
structure Resident (spec : InstanceSpec) (r : Request) : Prop where
  serves : spec.serves r
  unfinished : r.progress < r.span

end InferenceSim
