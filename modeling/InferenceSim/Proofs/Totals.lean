import InferenceSim.Counting
import Mathlib.Algebra.Group.Basic
import Mathlib.Algebra.Group.Nat.Defs

/-! Totals, and what changes in them when one member of a list changes. -/
namespace InferenceSim

/-- A count as it was kept in 32 bits, or as the sum of such: it has lost nothing but whole laps, so
nothing at all if it is small. -/
def Lapped (count kept : Nat) : Prop := ∃ laps, count = kept + laps * 4294967296

namespace Lapped
variable {m n k l : Nat}

theorem refl (n : Nat) : Lapped n n := ⟨0, by omega⟩

theorem wrap (n : Nat) : Lapped n (InferenceSim.wrap n) :=
  ⟨n / 4294967296, (Nat.mod_add_div' n 4294967296).symm⟩

theorem trans (first : Lapped m n) (second : Lapped n k) : Lapped m k := by
  obtain ⟨some, rfl⟩ := first
  obtain ⟨more, rfl⟩ := second
  exact ⟨more + some, by omega⟩

theorem add (left : Lapped m n) (right : Lapped k l) : Lapped (m + k) (n + l) := by
  obtain ⟨some, rfl⟩ := left
  obtain ⟨more, rfl⟩ := right
  exact ⟨some + more, by omega⟩

end Lapped

theorem totalOf_perm {l m : List Nat} (same : l.Perm m) : totalOf l = totalOf m := same.sum_nat

theorem le_totalOf {n : Nat} {counts : List Nat} (inside : n ∈ counts) : n ≤ totalOf counts := by
  induction counts with
  | nil => cases inside
  | cons m rest ih =>
      rcases List.mem_cons.mp inside with rfl | later
      · exact Nat.le_add_right _ _
      · exact Nat.le_trans (ih later) (Nat.le_add_left _ _)

theorem totalOf_zero {counts : List Nat} (none : ∀ n ∈ counts, n = 0) : totalOf counts = 0 := by
  induction counts with
  | nil => rfl
  | cons n rest ih =>
      rw [totalOf_cons, none n List.mem_cons_self,
        ih fun m hm => none m (List.mem_cons_of_mem n hm)]

section
variable {α β : Type} {l : List α} {i : Nat} {a : α}

theorem sum_modify {M : Type} [AddCommMonoid M] (f : α → α) (g : α → M) (at' : l[i]? = some a) :
    ((l.modify i f).map g).sum + g a = (l.map g).sum + g (f a) := by
  induction l generalizing i with
  | nil => cases at'
  | cons b rest ih =>
      cases i with
      | zero =>
          obtain rfl : b = a := Option.some.inj at'
          rw [List.modify_zero_cons, List.map_cons, List.map_cons, List.sum_cons, List.sum_cons,
            add_right_comm, add_comm (g (f b)), add_right_comm, add_comm (g b)]
      | succ i =>
          rw [List.modify_succ_cons, List.map_cons, List.map_cons, List.sum_cons, List.sum_cons,
            add_assoc, ih (i := i) at', ← add_assoc]

theorem totalOf_modify (f : α → α) (g : α → Nat) (at' : l[i]? = some a) :
    totalOf ((l.modify i f).map g) + g a = totalOf (l.map g) + g (f a) := sum_modify f g at'

theorem flatMap_modify (f : α → α) (g : α → List β) (at' : l[i]? = some a) :
    ((l.modify i f).flatMap g ++ g a).Perm (l.flatMap g ++ g (f a)) := by
  induction l generalizing i with
  | nil => cases at'
  | cons b rest ih =>
      cases i with
      | zero =>
          obtain rfl : b = a := Option.some.inj at'
          rw [List.modify_zero_cons, List.flatMap_cons, List.flatMap_cons]
          refine List.perm_append_comm.trans ?_
          rw [List.append_assoc]
          exact List.perm_append_comm.append_left (g b)
      | succ i =>
          rw [List.modify_succ_cons, List.flatMap_cons, List.flatMap_cons, List.append_assoc,
            List.append_assoc]
          exact (ih at').append_left (g b)

theorem map_modify {f : α → α} {g : β → β} {h : α → β} (same : ∀ a, h (f a) = g (h a))
    (l : List α) (i : Nat) : (l.modify i f).map h = (l.map h).modify i g := by
  induction l generalizing i with
  | nil => simp
  | cons a rest ih =>
      cases i with
      | zero => rw [List.modify_zero_cons, List.map_cons, List.map_cons, List.modify_zero_cons, same]
      | succ i =>
          rw [List.modify_succ_cons, List.map_cons, List.map_cons, List.modify_succ_cons, ih]

theorem map_eq_of_getElem? {f : α → β} {l : List α} {m : List β} (size : l.length = m.length)
    (each : ∀ (i : Nat) (a : α), l[i]? = some a → m[i]? = some (f a)) : l.map f = m := by
  refine List.ext_getElem? fun i => ?_
  rw [List.getElem?_map]
  cases at' : l[i]? with
  | some a => exact (each i a at').symm
  | none => exact (List.getElem?_eq_none (size ▸ List.getElem?_eq_none_iff.mp at')).symm

theorem filter_modify {p : α → Bool} {f : α → α}
    (out : ∀ a, l[i]? = some a → p a = false ∧ p (f a) = false) :
    (l.modify i f).filter p = l.filter p := by
  induction l generalizing i with
  | nil => rw [List.modify_nil]
  | cons a rest ih =>
      cases i with
      | zero =>
          obtain ⟨before, after⟩ := out a rfl
          rw [List.modify_zero_cons, List.filter_cons_of_neg (Bool.eq_false_iff.mp after),
            List.filter_cons_of_neg (Bool.eq_false_iff.mp before)]
      | succ i => rw [List.modify_succ_cons, List.filter_cons, List.filter_cons, ih out]

theorem zipIdx_modify (f : α → α) (l : List α) (i : Nat) :
    (l.modify i f).zipIdx = l.zipIdx.modify i fun p => (f p.1, p.2) := by
  refine List.ext_getElem? fun j => ?_
  rw [List.getElem?_zipIdx, List.getElem?_modify, List.getElem?_modify, List.getElem?_zipIdx]
  cases l[j]? with
  | none => rfl
  | some a =>
      simp only [Option.map_some]
      split <;> rfl

theorem perm_balance {hand spent left pending waited gained after later : List α}
    (given : hand.Perm (spent ++ left)) (before : (hand ++ pending).Perm waited)
    (moved : (after ++ spent).Perm (waited ++ gained)) (queued : later.Perm (gained ++ pending)) :
    (left ++ later).Perm after := by
  classical
  refine List.perm_iff_count.mpr fun a => ?_
  have given := given.count_eq a
  have before := before.count_eq a
  have moved := moved.count_eq a
  have queued := queued.count_eq a
  simp only [List.count_append] at *
  omega

end
end InferenceSim
