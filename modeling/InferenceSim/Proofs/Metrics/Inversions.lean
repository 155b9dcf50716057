import InferenceSim.Metrics.Anomaly
import Mathlib.Data.List.Nodup
import Mathlib.Data.List.Sort

/-! Priority inversions. They are a matter of the completions alone, in whatever order these were
recorded: a pair is reported if its completions follow each other in one class, by arrival and then
by id, and the earlier one took more than twice as long. -/
namespace InferenceSim

section
variable {α : Type} {r : α → α → Prop} {xs : List α} {a b : α}

theorem getElem_before_iff [Std.Asymm r] (sorted : xs.Pairwise r) {i j : Nat} (hi : i < xs.length)
    (hj : j < xs.length) : r xs[i] xs[j] ↔ i < j := by
  rw [List.pairwise_iff_getElem] at sorted
  constructor
  · intro before
    rcases Nat.lt_trichotomy i j with less | rfl | greater
    · exact less
    · exact absurd before (irrefl _)
    · exact absurd before (asymm (sorted j i hj hi greater))
  · exact sorted i j hi hj

theorem mem_zip_tail_iff [Std.Asymm r] (sorted : xs.Pairwise r) :
    (a, b) ∈ xs.zip xs.tail ↔ a ∈ xs ∧ b ∈ xs ∧ r a b ∧ ∀ c ∈ xs, ¬(r a c ∧ r c b) := by
  constructor
  · intro found
    obtain ⟨i, hi, here⟩ := List.getElem_of_mem found
    rw [List.getElem_zip, List.getElem_tail] at here
    obtain ⟨rfl, rfl⟩ := Prod.mk.inj here
    refine ⟨List.getElem_mem _, List.getElem_mem _, ?_, ?_⟩
    · exact (getElem_before_iff sorted _ _).mpr (Nat.lt_succ_self i)
    · rintro c hc ⟨after, before⟩
      obtain ⟨j, hj, rfl⟩ := List.getElem_of_mem hc
      rw [getElem_before_iff sorted] at after before
      omega
  · rintro ⟨ha, hb, ab, apart⟩
    obtain ⟨i, hi, rfl⟩ := List.getElem_of_mem ha
    obtain ⟨j, hj, rfl⟩ := List.getElem_of_mem hb
    have before : i < j := (getElem_before_iff sorted hi hj).mp ab
    obtain rfl : j = i + 1 := by
      by_contra other
      have earlier : i + 1 < j := by omega
      have next : i + 1 < xs.length := Nat.lt_trans earlier hj
      exact apart xs[i + 1] (List.getElem_mem next)
        ⟨(getElem_before_iff sorted hi next).mpr (Nat.lt_succ_self i),
          (getElem_before_iff sorted next hj).mpr earlier⟩
    have within : i < (xs.zip xs.tail).length := by
      rw [List.length_zip, List.length_tail]
      omega
    have pair : (xs.zip xs.tail)[i] = (xs[i], xs[i + 1]) := by
      rw [List.getElem_zip, List.getElem_tail]
    exact pair ▸ List.getElem_mem within

theorem zip_tail_pairwise (sorted : xs.Pairwise r) :
    (xs.zip xs.tail).Pairwise fun p q => r p.1 q.1 := by
  rw [List.pairwise_iff_getElem] at sorted ⊢
  intro i j hi hj before
  rw [List.getElem_zip, List.getElem_zip]
  exact sorted i j _ _ before

end

namespace Completion

/-- Whether a completion arrived before another, by ids among those that arrived at once. -/
def Precedes (a b : Completion) : Prop :=
  a.arrivalTime < b.arrivalTime ∨ a.arrivalTime = b.arrivalTime ∧ a.request < b.request

/-- Whether a completion took more than twice as long as another, in the arithmetic of doubles. -/
def Outlasts (a b : Completion) : Prop :=
  2.0 * Binary64.ofCount b.e2e < Binary64.ofCount a.e2e

/-- Whether a completion is reported on before another: the more urgent class first, then by
arrival. -/
def Ahead (a b : Completion) : Prop :=
  a.sloClass.rank < b.sloClass.rank ∨ a.sloClass = b.sloClass ∧ a.Precedes b

instance (a b : Completion) : Decidable (a.Precedes b) := inferInstanceAs (Decidable (_ ∨ _))

instance (a b : Completion) : Decidable (a.Outlasts b) := inferInstanceAs (Decidable (_ < _))

instance (a b : Completion) : Decidable (a.Ahead b) := inferInstanceAs (Decidable (_ ∨ _))

instance : Std.Asymm Precedes where
  asymm a b ab ba := by
    unfold Precedes at ab ba
    omega

instance : Std.Asymm Ahead where
  asymm a b ab ba := by
    rcases ab with ab | ⟨same, ab⟩
    · rcases ba with ba | ⟨same, _⟩
      · exact Nat.lt_asymm ab ba
      · exact Nat.ne_of_gt ab (congrArg SloClass.rank same)
    · rcases ba with ba | ⟨_, ba⟩
      · exact Nat.ne_of_gt ba (congrArg SloClass.rank same)
      · exact asymm ab ba

theorem arrivedBefore_iff {a b : Completion} : a.arrivedBefore b ↔
    a.arrivalTime < b.arrivalTime ∨ a.arrivalTime = b.arrivalTime ∧ a.request ≤ b.request := by
  simp only [arrivedBefore, Bool.or_eq_true, Bool.and_eq_true, decide_eq_true_eq]

theorem arrivedBefore_trans (a b c : Completion) (ab : a.arrivedBefore b) (bc : b.arrivedBefore c) :
    a.arrivedBefore c := by
  rw [arrivedBefore_iff] at ab bc ⊢
  omega

theorem arrivedBefore_total (a b : Completion) : a.arrivedBefore b || b.arrivedBefore a := by
  rw [Bool.or_eq_true, arrivedBefore_iff, arrivedBefore_iff]
  omega

theorem precedes_of_arrivedBefore {a b : Completion} (before : a.arrivedBefore b)
    (other : a.request ≠ b.request) : a.Precedes b := by
  rw [arrivedBefore_iff] at before
  unfold Precedes
  omega

end Completion

variable {cs others : List Completion} {a b c : Completion} {sloClass : SloClass}
  {pairs pairs' : List (Completion × Completion)}

def Neighbours (cs : List Completion) (a b : Completion) : Prop :=
  a.sloClass = b.sloClass ∧ a.Precedes b ∧
    ∀ c ∈ cs, c.sloClass = a.sloClass → ¬(a.Precedes c ∧ c.Precedes b)

instance (cs : List Completion) (a b : Completion) : Decidable (Neighbours cs a b) :=
  inferInstanceAs (Decidable (_ ∧ _))

/-- All pairs of neighbours of which the earlier one took more than twice as long, each once. -/
structure ListsInversions (cs : List Completion) (pairs : List (Completion × Completion)) :
    Prop where
  among : ∀ p ∈ pairs, p.1 ∈ cs ∧ p.2 ∈ cs
  inverted : ∀ a ∈ cs, ∀ b ∈ cs, (a, b) ∈ pairs ↔ Neighbours cs a b ∧ a.Outlasts b
  ordered : pairs.Pairwise fun p q => p.1.Ahead q.1

def inversion (p : Completion × Completion) : Anomaly :=
  .priorityInversion p.1.sloClass p.1.request p.2.request p.1.e2e p.2.e2e

theorem Neighbours.congr (same : ∀ c, c ∈ cs ↔ c ∈ others) :
    Neighbours cs a b ↔ Neighbours others a b := by
  simp only [Neighbours, same]

namespace ListsInversions

theorem congr (k : ListsInversions cs pairs) (same : ∀ c, c ∈ cs ↔ c ∈ others) :
    ListsInversions others pairs where
  among p hp := ⟨(same p.1).mp (k.among p hp).1, (same p.2).mp (k.among p hp).2⟩
  inverted a ha b hb := by
    rw [k.inverted a ((same a).mpr ha) b ((same b).mpr hb), Neighbours.congr same]
  ordered := k.ordered

theorem subset (k : ListsInversions cs pairs) (k' : ListsInversions cs pairs') :
    pairs ⊆ pairs' := by
  rintro ⟨a, b⟩ found
  obtain ⟨ha, hb⟩ := k.among (a, b) found
  exact (k'.inverted a ha b hb).mpr ((k.inverted a ha b hb).mp found)

theorem unique (k : ListsInversions cs pairs) (k' : ListsInversions cs pairs') :
    pairs = pairs' := by
  have : Std.Asymm fun p q : Completion × Completion => p.1.Ahead q.1 :=
    ⟨fun _ _ pq qp => asymm pq qp⟩
  exact List.Subset.antisymm_of_pairwise k.ordered k'.ordered (k.subset k') (k'.subset k)

end ListsInversions

theorem mem_ofClass : c ∈ ofClass sloClass cs ↔ c ∈ cs ∧ c.sloClass = sloClass := by
  rw [ofClass, List.mem_mergeSort, List.mem_filter, decide_eq_true_iff]

theorem ofClass_sorted (distinct : (cs.map Completion.request).Nodup) (sloClass : SloClass) :
    (ofClass sloClass cs).Pairwise Completion.Precedes := by
  have sorted : (ofClass sloClass cs).Pairwise fun a b => a.arrivedBefore b :=
    List.pairwise_mergeSort Completion.arrivedBefore_trans Completion.arrivedBefore_total _
  have ids : (cs.filter fun c => c.sloClass = sloClass).Pairwise fun a b => a.request ≠ b.request :=
    (List.pairwise_map.mp distinct).filter _
  have ids' : (ofClass sloClass cs).Pairwise fun a b => a.request ≠ b.request :=
    ids.perm (List.mergeSort_perm _ _).symm Ne.symm
  exact (sorted.and ids').imp fun both => Completion.precedes_of_arrivedBefore both.1 both.2

theorem mem_neighbours_iff (distinct : (cs.map Completion.request).Nodup) :
    (a, b) ∈ (ofClass sloClass cs).zip (ofClass sloClass cs).tail ↔
      a ∈ cs ∧ b ∈ cs ∧ a.sloClass = sloClass ∧ Neighbours cs a b := by
  rw [mem_zip_tail_iff (ofClass_sorted distinct sloClass)]
  simp only [mem_ofClass]
  constructor
  · rintro ⟨⟨ha, rfl⟩, ⟨hb, same⟩, ab, apart⟩
    exact ⟨ha, hb, rfl, same.symm, ab, fun c hc own => apart c ⟨hc, own⟩⟩
  · rintro ⟨ha, hb, rfl, same, ab, apart⟩
    exact ⟨⟨ha, rfl⟩, ⟨hb, same.symm⟩, ab, fun c hc => apart c hc.1 hc.2⟩

def invertedOfClass (sloClass : SloClass) (cs : List Completion) : List (Completion × Completion) :=
  ((ofClass sloClass cs).zip (ofClass sloClass cs).tail).filter fun p => p.1.Outlasts p.2

def invertedPairs (cs : List Completion) : List (Completion × Completion) :=
  SloClass.all.flatMap fun sloClass => invertedOfClass sloClass cs

theorem inversionsOfClass_eq (sloClass : SloClass) (cs : List Completion) :
    inversionsOfClass sloClass cs = (invertedOfClass sloClass cs).map inversion := by
  rw [invertedOfClass, ← List.filterMap_eq_map, List.filterMap_filter, inversionsOfClass]
  refine List.filterMap_congr ?_
  rintro ⟨a, b⟩ found
  have own : a.sloClass = sloClass := (mem_ofClass.mp (List.of_mem_zip found).1).2
  subst own
  simp only [inversionOf?, decide_eq_true_eq]
  rfl

theorem priorityInversions_eq (cs : List Completion) :
    priorityInversions cs = (invertedPairs cs).map inversion := by
  rw [invertedPairs, List.map_flatMap, priorityInversions]
  exact List.flatMap_congr fun sloClass _ => inversionsOfClass_eq sloClass cs

theorem mem_invertedOfClass (distinct : (cs.map Completion.request).Nodup) :
    (a, b) ∈ invertedOfClass sloClass cs ↔
      a ∈ cs ∧ b ∈ cs ∧ a.sloClass = sloClass ∧ Neighbours cs a b ∧ a.Outlasts b := by
  rw [invertedOfClass, List.mem_filter, mem_neighbours_iff distinct, decide_eq_true_iff]
  simp only [and_assoc]

theorem mem_invertedPairs (distinct : (cs.map Completion.request).Nodup) :
    (a, b) ∈ invertedPairs cs ↔ a ∈ cs ∧ b ∈ cs ∧ Neighbours cs a b ∧ a.Outlasts b := by
  have known : a.sloClass ∈ SloClass.all := by cases a.sloClass <;> decide
  simp only [invertedPairs, List.mem_flatMap, mem_invertedOfClass distinct]
  constructor
  · rintro ⟨_, _, ha, hb, _, both⟩
    exact ⟨ha, hb, both⟩
  · rintro ⟨ha, hb, both⟩
    exact ⟨a.sloClass, known, ha, hb, rfl, both⟩

theorem invertedPairs_ordered (distinct : (cs.map Completion.request).Nodup) :
    (invertedPairs cs).Pairwise fun p q => p.1.Ahead q.1 := by
  have urgency : SloClass.all.Pairwise fun k l => k.rank < l.rank := by decide
  refine List.pairwise_flatMap.mpr ⟨?_, urgency.imp ?_⟩
  · intro sloClass _
    have sorted := (zip_tail_pairwise (ofClass_sorted distinct sloClass)).filter
      fun p => p.1.Outlasts p.2
    refine sorted.imp_of_mem ?_
    rintro ⟨a, _⟩ ⟨b, _⟩ ha hb before
    have ha := ((mem_invertedOfClass distinct).mp ha).2.2.1
    have hb := ((mem_invertedOfClass distinct).mp hb).2.2.1
    exact .inr ⟨ha.trans hb.symm, before⟩
  · rintro k l before ⟨a, _⟩ ha ⟨b, _⟩ hb
    obtain ⟨_, _, rfl, _⟩ := (mem_invertedOfClass distinct).mp ha
    obtain ⟨_, _, rfl, _⟩ := (mem_invertedOfClass distinct).mp hb
    exact .inl before

theorem invertedPairs_lists (distinct : (cs.map Completion.request).Nodup) :
    ListsInversions cs (invertedPairs cs) where
  among := by
    rintro ⟨a, b⟩ found
    obtain ⟨ha, hb, _⟩ := (mem_invertedPairs distinct).mp found
    exact ⟨ha, hb⟩
  inverted a ha b hb := by
    rw [mem_invertedPairs distinct]
    exact ⟨fun found => found.2.2, fun both => ⟨ha, hb, both⟩⟩
  ordered := invertedPairs_ordered distinct

/-- The inversions of some completions do not depend on how these stand. They are reported of the
inverted pairs of neighbours, by class and then by arrival, and there is one such list only. -/
theorem inversions_canonical (distinct : (cs.map Completion.request).Nodup) :
    (∀ others, others.Perm cs → priorityInversions others = priorityInversions cs) ∧
    ∃ pairs, ListsInversions cs pairs ∧ (∀ pairs', ListsInversions cs pairs' → pairs' = pairs) ∧
      priorityInversions cs = pairs.map inversion := by
  have lists := invertedPairs_lists distinct
  refine ⟨?_, invertedPairs cs, lists, fun pairs' k => k.unique lists, priorityInversions_eq cs⟩
  intro others same
  have distinct' : (others.map Completion.request).Nodup :=
    (same.map Completion.request).nodup_iff.mpr distinct
  have pairs : invertedPairs others = invertedPairs cs :=
    ((invertedPairs_lists distinct').congr fun _ => same.mem_iff).unique lists
  rw [priorityInversions_eq, priorityInversions_eq, pairs]

def completed (request arrivalTime e2e : Nat) (sloClass : SloClass) : Completion :=
  { (default : Completion) with request, arrivalTime, e2e, sloClass }

/-- Completions of four classes. Two pairs arrive at once, and in the last of them the earlier one
took more than twice as long by less than doubles can tell. -/
def scattered : List Completion := [
  completed 4 30 3000 .standard, completed 6 7 100 .critical, completed 2 10 1000 .batch,
  completed 8 40 (Nat.pow 2 53) .background, completed 3 20 4000 .standard,
  completed 5 7 900 .critical, completed 1 0 9000 .standard,
  completed 7 40 (Nat.pow 2 54 + 1) .background]

/-- The inversions are those of requests 5 and 6 and of 1 and 3, from either end. -/
theorem scattered_inversions :
    (scattered.map Completion.request).Nodup ∧ priorityInversions scattered.reverse =
      [.priorityInversion .critical 5 6 900 100, .priorityInversion .standard 1 3 9000 4000] := by
  have distinct : (scattered.map Completion.request).Nodup := by decide
  obtain ⟨same, pairs, _, unique, reported⟩ := inversions_canonical distinct
  have found := unique
    [(completed 5 7 900 .critical, completed 6 7 100 .critical),
      (completed 1 0 9000 .standard, completed 3 20 4000 .standard)]
    { among := by decide, inverted := by decide +kernel, ordered := by decide }
  refine ⟨distinct, ?_⟩
  rw [same _ (List.reverse_perm scattered), reported, ← found]
  rfl

end InferenceSim
