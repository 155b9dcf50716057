import InferenceSim.Instance.Batch
import Mathlib.Data.List.Nodup
import Mathlib.Data.List.Sort

/-! The order of the wait queue. Every scheduler compares requests by a total preorder, so that a
queue can be arranged in one way only without swapping equals. All but first come, first served
tell apart requests with different ids, and it does not matter to them how the queue stood. -/
namespace InferenceSim

open Std

theorem not_sublist_swap {α : Type} {xs : List α} {a b : α} (nodup : xs.Nodup)
    (ab : [a, b].Sublist xs) : ¬[b, a].Sublist xs := by
  intro ba
  induction xs with
  | nil => cases ab
  | cons x xs ih =>
      obtain ⟨new, nodup⟩ := List.nodup_cons.mp nodup
      cases ab with
      | cons _ ab =>
          cases ba with
          | cons _ ba => exact ih nodup ab ba
          | cons_cons _ ba => exact new (ab.subset (by simp))
      | cons_cons _ ab =>
          cases ba with
          | cons _ ba => exact new (ba.subset (by simp))
          | cons_cons _ ba => exact new (ba.subset (by simp))

namespace Priority

def place (p : Priority) : Int := Binary64.orderKey p.bits

theorem eq_of_compare {p q : Priority} (tied : p.compare q = .eq) : p = q := by
  have same : p.place = q.place := LawfulEqOrd.eq_of_compare tied
  have bound := p.bits.toNat_lt
  have bound' := q.bits.toNat_lt
  have bits : p.bits.toNat = q.bits.toNat := by
    simp only [place, Binary64.orderKey] at same
    split at same <;> split at same <;> omega
  exact congrArg mk (UInt64.toNat_inj.mp bits)

end Priority

namespace SchedulerRule
variable {rule : SchedulerRule}

instance : TransCmp byArrival :=
  inferInstanceAs (TransCmp (compareLex (compareOn RequestView.arrivalTime) (compareOn RequestView.id)))

/-- Every scheduler compares requests by a total preorder: by what it prefers, then by arrival and
id. -/
instance (rule : SchedulerRule) : TransCmp rule.compare := by
  let priority (r : RequestView) : Int := r.priority.place
  cases rule with
  | fcfs => exact { eq_swap := rfl, isLE_trans := fun _ _ => rfl }
  | priorityFcfs =>
      have lexicographic : compare .priorityFcfs =
          compareLex (fun a b => compareOn priority b a) byArrival := rfl
      rw [lexicographic]
      infer_instance
  | shortestFirst =>
      have lexicographic : compare .shortestFirst =
          compareLex (compareOn RequestView.inputTokens) byArrival := rfl
      rw [lexicographic]
      infer_instance
  | reversePriority =>
      have lexicographic : compare .reversePriority =
          compareLex (compareOn priority) byArrival := rfl
      rw [lexicographic]
      infer_instance

theorem id_eq_of_byArrival {a b : RequestView} (tied : byArrival a b = .eq) : a.id = b.id :=
  LawfulEqOrd.eq_of_compare (Ordering.then_eq_eq.mp tied).2

theorem id_eq_of_compare (other : rule ≠ .fcfs) {a b : RequestView}
    (tied : rule.compare a b = .eq) : a.id = b.id := by
  cases rule with
  | fcfs => exact absurd rfl other
  | priorityFcfs | shortestFirst | reversePriority =>
      exact id_eq_of_byArrival (Ordering.then_eq_eq.mp tied).2

section
variable {α : Type}

theorem sort_trans (rule : SchedulerRule) (view : α → RequestView) (a b c : α)
    (ab : (rule.compare (view a) (view b)).isLE) (bc : (rule.compare (view b) (view c)).isLE) :
    (rule.compare (view a) (view c)).isLE :=
  TransCmp.isLE_trans ab bc

theorem sort_total (rule : SchedulerRule) (view : α → RequestView) (a b : α) :
    (rule.compare (view a) (view b)).isLE || (rule.compare (view b) (view a)).isLE := by
  have swapped : rule.compare (view b) (view a) = (rule.compare (view a) (view b)).swap :=
    OrientedCmp.eq_swap
  rw [swapped, Ordering.isLE_swap]
  cases rule.compare (view a) (view b) <;> rfl

theorem sort_pairwise (rule : SchedulerRule) (view : α → RequestView) (queue : List α) :
    (rule.sort view queue).Pairwise fun a b => (rule.compare (view a) (view b)).isLE :=
  List.pairwise_mergeSort (rule.sort_trans view) (rule.sort_total view) queue

theorem map_sort {β : Type} (rule : SchedulerRule) (view : β → RequestView) (f : α → β)
    (queue : List α) :
    (rule.sort (fun a => view (f a)) queue).map f = rule.sort view (queue.map f) :=
  List.map_mergeSort fun _ _ _ _ => rfl

theorem sort_fcfs (view : α → RequestView) (queue : List α) : fcfs.sort view queue = queue :=
  List.mergeSort_of_pairwise (List.pairwise_of_forall fun _ _ => rfl)

theorem sort_eq_of_perm (view : α → RequestView) (other : rule ≠ .fcfs) {queue queue' : List α}
    (same : queue.Perm queue') (distinct : (queue.map fun a => (view a).id).Nodup) :
    rule.sort view queue' = rule.sort view queue := by
  have sorted := List.mergeSort_perm queue fun a b => (rule.compare (view a) (view b)).isLE
  have sorted' := List.mergeSort_perm queue' fun a b => (rule.compare (view a) (view b)).isLE
  refine List.Perm.eq_of_pairwise (fun a b ha hb ab ba => ?_) (rule.sort_pairwise view queue')
    (rule.sort_pairwise view queue) (sorted'.trans (same.symm.trans sorted.symm))
  have tied := id_eq_of_compare other (OrientedCmp.isLE_antisymm ab ba)
  exact List.inj_on_of_nodup_map distinct (same.mem_iff.mpr (sorted'.mem_iff.mp ha))
    (sorted.mem_iff.mp hb) tied

end

variable {queue : List RequestView}

/-- An order of the positions of a queue in which none compares greater than a later one, and
those that compare equal stay as they stand. -/
structure Arranges (rule : SchedulerRule) (queue : List RequestView) (order : List Nat) : Prop where
  positions : order.Perm (List.range queue.length)
  sorted : order.Pairwise fun i j => ∀ a ∈ queue[i]?, ∀ b ∈ queue[j]?, rule.compare a b ≠ .gt
  stable : order.Pairwise fun i j => ∀ a ∈ queue[i]?, ∀ b ∈ queue[j]?,
    rule.compare a b = .eq → i < j

theorem zipIdx_positions (queue : List RequestView) :
    queue.zipIdx.Pairwise fun a b => a.2 < b.2 := by
  have positions : (queue.zipIdx.map Prod.snd).Pairwise (· < ·) := by
    rw [List.zipIdx_map_snd]
    exact List.pairwise_lt_range'
  exact List.pairwise_map.mp positions

theorem zipIdx_nodup (queue : List RequestView) : queue.zipIdx.Nodup :=
  (zipIdx_positions queue).imp fun lt same => Nat.ne_of_lt lt (congrArg Prod.snd same)

theorem zipIdx_sublist {p q : RequestView × Nat} (hp : p ∈ queue.zipIdx) (hq : q ∈ queue.zipIdx)
    (before : p.2 < q.2) : [p, q].Sublist queue.zipIdx := by
  have : Antisymm fun a b : RequestView × Nat => a.2 < b.2 :=
    ⟨fun _ _ ab ba => absurd ab (Nat.lt_asymm ba)⟩
  have pair : [p, q].Pairwise fun a b => a.2 < b.2 := List.pairwise_pair.mpr before
  have distinct : [p, q].Nodup :=
    List.nodup_cons.mpr ⟨by simpa using fun same => Nat.ne_of_lt before (congrArg Prod.snd same),
      List.nodup_singleton q⟩
  have within : [p, q] ⊆ queue.zipIdx := by
    simp only [List.cons_subset, List.nil_subset, and_true]
    exact ⟨hp, hq⟩
  exact List.sublist_of_subperm_of_pairwise (List.subperm_of_subset distinct within) pair
    (zipIdx_positions queue)

theorem sort_stable (rule : SchedulerRule) (queue : List RequestView) :
    (rule.sort Prod.fst queue.zipIdx).Pairwise fun p q =>
      rule.compare p.1 q.1 = .eq → p.2 < q.2 := by
  have perm := List.mergeSort_perm queue.zipIdx fun a b => (rule.compare a.1 b.1).isLE
  have distinct : (rule.sort Prod.fst queue.zipIdx).Nodup :=
    perm.nodup_iff.mpr (zipIdx_nodup queue)
  rw [List.pairwise_iff_forall_sublist]
  intro p q pq tied
  have hp := perm.mem_iff.mp (pq.subset (List.mem_cons_self))
  have hq := perm.mem_iff.mp (pq.subset (List.mem_cons_of_mem p List.mem_cons_self))
  rcases Nat.lt_trichotomy p.2 q.2 with before | here | after
  · exact before
  · have same : p.1 = q.1 := by
      have at' := List.mem_zipIdx_iff_getElem?.mp hp
      rw [here, List.mem_zipIdx_iff_getElem?.mp hq] at at'
      exact (Option.some.inj at').symm
    obtain rfl : p = q := Prod.ext same here
    exact absurd pq (not_sublist_swap distinct pq)
  -- A stable sort leaves two equals in order, so that they would stand in both orders.
  · have le : (rule.compare q.1 p.1).isLE :=
      Ordering.isLE_of_eq_eq (OrientedCmp.eq_symm tied)
    have swapped := List.pair_sublist_mergeSort (rule.sort_trans Prod.fst) (rule.sort_total Prod.fst)
      le (zipIdx_sublist hq hp after)
    exact absurd swapped (not_sublist_swap distinct pq)

theorem order_arranges (rule : SchedulerRule) (queue : List RequestView) :
    rule.Arranges queue (rule.order queue) := by
  have perm := List.mergeSort_perm queue.zipIdx fun a b => (rule.compare a.1 b.1).isLE
  have entry : ∀ p ∈ rule.sort Prod.fst queue.zipIdx, ∀ a, queue[p.2]? = some a → p.1 = a := by
    intro p hp a at'
    have here := List.mem_zipIdx_iff_getElem?.mp (perm.mem_iff.mp hp)
    exact Option.some.inj (here.symm.trans at')
  constructor
  case positions =>
    have positions := perm.map Prod.snd
    rw [List.zipIdx_map_snd, ← List.range_eq_range'] at positions
    exact positions
  case sorted =>
    rw [order, List.pairwise_map]
    refine (rule.sort_pairwise Prod.fst queue.zipIdx).imp_of_mem fun hp hq le a pa b qb => ?_
    rw [← entry _ hp a pa, ← entry _ hq b qb]
    exact Ordering.isLE_iff_ne_gt.mp le
  case stable =>
    rw [order, List.pairwise_map]
    refine (rule.sort_stable queue).imp_of_mem fun hp hq stable a pa b qb tied => stable ?_
    rwa [entry _ hp a pa, entry _ hq b qb]

theorem Arranges.unique {order order' : List Nat} (k : rule.Arranges queue order)
    (k' : rule.Arranges queue order') : order = order' := by
  refine List.Perm.eq_of_pairwise (fun i j hi hj ij ji => ?_) (k.sorted.and k.stable)
    (k'.sorted.and k'.stable) (k.positions.trans k'.positions.symm)
  obtain ⟨a, pa⟩ : ∃ a, queue[i]? = some a :=
    ⟨_, List.getElem?_eq_getElem (List.mem_range.mp (k.positions.mem_iff.mp hi))⟩
  obtain ⟨b, qb⟩ : ∃ b, queue[j]? = some b :=
    ⟨_, List.getElem?_eq_getElem (List.mem_range.mp (k'.positions.mem_iff.mp hj))⟩
  have tied : rule.compare a b = .eq := OrientedCmp.isLE_antisymm
    (Ordering.isLE_iff_ne_gt.mpr (ij.1 a pa b qb)) (Ordering.isLE_iff_ne_gt.mpr (ji.1 b qb a pa))
  exact absurd (ij.2 a pa b qb tied)
    (Nat.lt_asymm (ji.2 b qb a pa (OrientedCmp.eq_symm tied)))

def served (rule : SchedulerRule) (queue : List RequestView) : List RequestView :=
  (rule.order queue).filterMap fun i => queue[i]?

theorem served_eq (rule : SchedulerRule) (queue : List RequestView) :
    rule.served queue = rule.sort id queue := by
  have perm := List.mergeSort_perm queue.zipIdx fun a b => (rule.compare a.1 b.1).isLE
  have here : ∀ p ∈ rule.sort Prod.fst queue.zipIdx, queue[p.2]? = some p.1 := fun p hp =>
    List.mem_zipIdx_iff_getElem?.mp (perm.mem_iff.mp hp)
  have sorted := rule.map_sort id Prod.fst queue.zipIdx
  rw [List.zipIdx_map_fst] at sorted
  calc rule.served queue
    _ = (rule.sort Prod.fst queue.zipIdx).filterMap fun p => queue[p.2]? := List.filterMap_map ..
    _ = (rule.sort Prod.fst queue.zipIdx).filterMap (some ∘ Prod.fst) := List.filterMap_congr here
    _ = (rule.sort Prod.fst queue.zipIdx).map Prod.fst := congrFun List.filterMap_eq_map _
    _ = rule.sort id queue := sorted

theorem formBatch_congr (other : rule ≠ .fcfs) (limits : BatchLimits) (now : Nat) {s : BatchState}
    {waiting : List Request} (same : s.queue.Perm waiting) (distinct : (s.queue.map (·.id)).Nodup) :
    formBatch limits rule now { s with queue := waiting } = formBatch limits rule now s := by
  unfold formBatch
  rw [sort_eq_of_perm Request.view other same distinct]

/-- The order of a queue is its only arrangement without swaps of equals. It is the queue as it
stands, or else the same for all queues of the same requests, and so is the batch formed of them. -/
theorem order_canonical (rule : SchedulerRule) (queue : List RequestView) :
    rule.Arranges queue (rule.order queue) ∧
    (∀ order, rule.Arranges queue order → order = rule.order queue) ∧
    (rule = .fcfs → rule.order queue = List.range queue.length) ∧
    (rule ≠ .fcfs →
      ((queue.map (·.id)).Nodup → ∀ queue', queue.Perm queue' →
        (rule.served queue').map (·.id) = (rule.served queue).map (·.id)) ∧
      ∀ (limits : BatchLimits) (now : Nat) (s : BatchState) (waiting : List Request),
        (s.queue.map (·.id)).Nodup → s.queue.Perm waiting →
        formBatch limits rule now { s with queue := waiting } = formBatch limits rule now s) := by
  have arranges := rule.order_arranges queue
  refine ⟨arranges, fun order k => k.unique arranges, ?_, fun other => ⟨fun distinct queue' same => ?_,
    fun limits now s waiting distinct same => formBatch_congr other limits now same distinct⟩⟩
  · rintro rfl
    rw [order, sort_fcfs, List.zipIdx_map_snd, ← List.range_eq_range']
  · rw [served_eq, served_eq, sort_eq_of_perm id other same distinct]

/-- Requests with the priorities 0, -0, NaN and 0 again, and NaN and infinity with their signs
turned. -/
def mixedRequests : List Request := [
  { id := 3, arrivalTime := 9, inputTokens := 4, outputTokens := 1 },
  { id := 1, arrivalTime := 2, inputTokens := 4, outputTokens := 1, priority := .ofFloat (-0.0) },
  { id := 2, arrivalTime := 9, inputTokens := 4, outputTokens := 1
    priority := .ofFloat (0.0 / 0.0) },
  { id := 0, arrivalTime := 9, inputTokens := 4, outputTokens := 1 },
  { id := 5, arrivalTime := 1, inputTokens := 4, outputTokens := 1
    priority := ⟨0xFFF8000000000000⟩ },
  { id := 4, arrivalTime := 3, inputTokens := 4, outputTokens := 1
    priority := .ofFloat (-1.0 / 0.0) }]

/-- One NaN goes first and the other last, and the equal priorities go by their ids, from either
end. -/
theorem mixed_order_canonical :
    priorityFcfs.order (mixedRequests.map Request.view) = [2, 3, 0, 1, 5, 4] ∧
    (priorityFcfs.served (mixedRequests.map Request.view).reverse).map (·.id) =
      [2, 0, 3, 1, 4, 5] ∧
    formBatch ⟨2, 8, 0, true⟩ .priorityFcfs 9 ⟨[], mixedRequests.reverse, .new 0 4 4⟩ =
      formBatch ⟨2, 8, 0, true⟩ .priorityFcfs 9 ⟨[], mixedRequests, .new 0 4 4⟩ := by
  obtain ⟨_, unique, _, others⟩ := order_canonical .priorityFcfs (mixedRequests.map Request.view)
  obtain ⟨ids, batches⟩ := others (by decide)
  have order := (unique [2, 3, 0, 1, 5, 4]
    { positions := by decide, sorted := by decide +kernel, stable := by decide +kernel }).symm
  refine ⟨order, ?_, ?_⟩
  · rw [ids (by decide) _ (List.reverse_perm _).symm, served, order]
    rfl
  · exact batches ⟨2, 8, 0, true⟩ 9 ⟨[], mixedRequests, .new 0 4 4⟩ mixedRequests.reverse
      (by decide) (List.reverse_perm _).symm

end SchedulerRule
end InferenceSim
