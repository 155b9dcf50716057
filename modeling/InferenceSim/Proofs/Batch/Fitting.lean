import InferenceSim.Proofs.Kv.Capacity
import InferenceSim.Proofs.Requests

/-! What forming a batch starts from and ends with: the requests are in the states of
their places, each of them can be served, and only running requests hold blocks. -/
namespace InferenceSim
open KvCache

/-- Waiting requests and a cache of one instance, with the running requests that hold
its blocks. -/
structure Housed (spec : InstanceSpec) (running queue : List Request) (kv : KvCache) :
    Prop where
  sound : kv.Sound
  blockSize : kv.blockSize = spec.blockSize
  total : kv.total = spec.kvBlocks
  waits : ∀ r ∈ queue, r.state = .queued ∧ Resident spec r
  nodup : ((running ++ queue).map (·.id)).Nodup
  /-- Who holds blocks is running, and backs no more tokens than it has. -/
  held : ∀ (id : Nat) (h : Holding), kv.held[id]? = some h →
    ∃ r ∈ running, r.id = id ∧ h.tokens ≤ r.span

/-- Running and waiting requests that fit an instance and its cache. -/
structure Fitting (spec : InstanceSpec) (running queue : List Request) (kv : KvCache) : Prop
    extends Housed spec running queue kv where
  runs : ∀ r ∈ running, r.state = .running ∧ Resident spec r

theorem Housed.dismiss {spec : InstanceSpec} {before after queue : List Request} {kv d : KvCache}
    {r : Request} (k : Housed spec (before ++ r :: after) queue kv)
    (released : KvOp.Released kv r.id d) : Housed spec (before ++ after) queue d where
  sound := released.sound
  blockSize := by rw [released.blockSize, k.blockSize]
  total := by rw [released.total, k.total]
  waits := k.waits
  nodup := by
    have nodup := k.nodup
    have fewer : (before ++ after).Sublist (before ++ r :: after) :=
      (List.sublist_cons_self r after).append_left before
    exact ((fewer.append_right queue).map _).nodup nodup
  held id h own := by
    rw [released.held, Std.ExtTreeMap.getElem?_erase] at own
    split at own
    · exact absurd own (Option.some_ne_none h).symm
    · next other =>
      obtain ⟨s, hs, same, bounded⟩ := k.held id h own
      rcases List.mem_append.mp hs with earlier | later
      · exact ⟨s, List.mem_append_left _ earlier, same, bounded⟩
      · rcases List.mem_cons.mp later with rfl | later
        · exact absurd (Std.LawfulEqOrd.compare_eq_iff_eq.mpr same) other
        · exact ⟨s, List.mem_append_right _ later, same, bounded⟩

namespace Fitting
variable {spec : InstanceSpec} {running queue queue' : List Request} {kv d : KvCache}
  {r : Request}

theorem nodup_running (k : Fitting spec running queue kv) : (running.map (·.id)).Nodup := by
  have nodup := k.nodup
  rw [List.map_append] at nodup
  exact (List.nodup_append.mp nodup).1

theorem perm (k : Fitting spec running queue kv) (same : queue'.Perm queue) :
    Fitting spec running queue' kv :=
  { k with
    waits := fun r inQueue => k.waits r (same.mem_iff.mp inQueue)
    nodup := ((same.append_left running).map _).nodup_iff.mpr k.nodup }

theorem span_fits (k : Fitting spec running queue kv) (usable : spec.Usable)
    (resident : Resident spec r) (counted : r.Counted) : r.span ≤ kv.total * kv.blockSize := by
  have blocks := InstanceSpec.blocks_of_serves resident.serves usable
  have prompt := InstanceSpec.prompt_of_serves resident.serves
  rw [k.total, k.blockSize]
  exact Nat.le_trans (counted.span_le) blocks

theorem lend (k : Fitting spec running queue kv) (hr : r ∈ running)
    (lends : KvOp.Lends kv r.id r.span d) : Fitting spec running queue d where
  sound := lends.sound
  blockSize := lends.blockSize.trans k.blockSize
  total := lends.total.trans k.total
  runs := k.runs
  waits := k.waits
  nodup := k.nodup
  held id h own := by
    by_cases same : id = r.id
    · exact ⟨r, hr, same.symm, lends.own h (same ▸ own)⟩
    · exact k.held id h (lends.others id same ▸ own)

theorem allocate_running (k : Fitting spec running queue kv) (usable : spec.Usable)
    (hr : r ∈ running) {tokens : Nat} (upto : r.progress + tokens ≤ r.span) :
    (∃ a d, KvOp.allocate r r.progress (r.progress + tokens) {} kv = .ok a d ∧
      Fitting spec running queue d) ∨
    ∃ needed available, KvOp.allocate r r.progress (r.progress + tokens) {} kv =
      .error (.exhausted needed available) kv ∧ (r.Counted → running ≠ [r]) := by
  have own : ∀ h : Holding, kv.held[r.id]? = some h → h.tokens ≤ r.span := by
    intro h held
    obtain ⟨s, hs, same, bounded⟩ := k.held r.id h held
    rwa [Request.eq_of_id k.nodup_running hs hr same] at bounded
  rcases KvOp.allocate_within (m := {}) k.sound (List.forall_mem_nil _)
    (show max (r.progress + tokens) r.progress ≤ r.span by omega) (by simp) own with
    ⟨a, d, done, lends⟩ | ⟨needed, available, failed, others⟩
  · exact .inl ⟨a, d, done, k.lend hr lends⟩
  · refine .inr ⟨needed, available, failed, fun counted alone => ?_⟩
    obtain ⟨q, other, held⟩ := others (k.span_fits usable (k.runs r hr).2 counted)
    obtain ⟨h, holds⟩ := Option.ne_none_iff_exists'.mp held
    obtain ⟨s, hs, same, _⟩ := k.held q h holds
    rw [alone] at hs
    exact other (same ▸ congrArg Request.id (List.mem_singleton.mp hs))

end Fitting

def preempted (r : Request) : Request :=
  { r with progress := 0, preemptions := r.preemptions + 1, state := .queued }

theorem preempt_running {r : Request} {kv : KvCache} (sound : kv.Sound) (state : r.state = .running)
    (queue : List Request) :
    ∃ d, preempt r queue kv = .ok (preempted r :: queue, d) ∧ KvOp.Released kv r.id d := by
  obtain ⟨d, done, released⟩ := KvOp.releasing_ok sound r.id
  have legal : { r with progress := 0, preemptions := r.preemptions + 1 }.transition .queued =
      .ok (preempted r) := Request.transition_ok (by
    show r.state.canMoveTo .queued
    rw [state]
    rfl)
  refine ⟨d, ?_, released⟩
  simp only [preempt, done, bind, Except.bind, legal]
  rfl

namespace Fitting
variable {spec : InstanceSpec} {before queue : List Request} {kv : KvCache} {r : Request}

theorem preempt_ok (k : Fitting spec (before ++ [r]) queue kv) :
    ∃ d, preempt r queue kv = .ok (preempted r :: queue, d) ∧
      Fitting spec before (preempted r :: queue) d := by
  have inside : r ∈ before ++ [r] := List.mem_append_right _ List.mem_cons_self
  obtain ⟨state, resident⟩ := k.runs r inside
  obtain ⟨d, done, released⟩ := preempt_running k.sound state queue
  have dismissed := k.toHoused.dismiss released
  rw [List.append_nil] at dismissed
  have prompt := InstanceSpec.prompt_of_serves resident.serves
  refine ⟨d, done, { dismissed with waits := ?_, nodup := ?_, runs := ?_ }⟩
  · intro s hs
    rcases List.mem_cons.mp hs with rfl | later
    · refine ⟨rfl, resident.serves, ?_⟩
      exact Nat.lt_of_lt_of_le prompt r.inputTokens_le_span
    · exact k.waits s later
  · have nodup := k.nodup
    rw [List.append_assoc, List.map_append] at nodup
    rw [List.map_append]
    exact nodup
  · exact fun s hs => k.runs s (List.mem_append_left _ hs)

theorem preempt_last {todo : List Request} (k : Fitting spec (before ++ todo) queue kv)
    (some : todo ≠ []) : ∃ last d, todo.getLast some = last ∧ todo = todo.dropLast ++ [last] ∧
      preempt last queue kv = .ok (preempted last :: queue, d) ∧
      Fitting spec (before ++ todo.dropLast) (preempted last :: queue) d := by
  have split := (List.dropLast_concat_getLast some).symm
  have k' : Fitting spec ((before ++ todo.dropLast) ++ [todo.getLast some]) queue kv := by
    rw [List.append_assoc, ← split]
    exact k
  obtain ⟨d, gone, fitting⟩ := k'.preempt_ok
  exact ⟨_, d, rfl, split, gone, fitting⟩

end Fitting
end InferenceSim
