import InferenceSim.Document.Fields
import Mathlib.Algebra.Group.Nat.Defs

/-! Fields of a record found again. A table that names known fields once gives them all, and a
field is read as the value that was written for it, or as missing. -/
namespace InferenceSim
namespace Document

theorem fields?_table {names : List String} {ms : List (String × Document)}
    (known : (ms.map (·.1)).Sublist names) (distinct : names.Nodup) :
    fields? names (.table ms) = some { found := ms, positional := false } := by
  have all : ms.filter (fun m => names.contains m.1) = ms := by
    refine List.filter_eq_self.mpr fun m hm => ?_
    exact List.contains_iff_mem.mpr (known.subset (List.mem_map_of_mem hm))
  have once : ∀ n, ms.countP (fun m => m.1 = n) ≤ 1 := by
    intro n
    have count := List.nodup_iff_count.mp (distinct.sublist known) n
    rw [List.count, List.countP_map] at count
    refine Nat.le_trans (Nat.le_of_eq (List.countP_congr fun m _ => ?_)) count
    simp
  rw [fields?, all]
  exact if_pos (List.all_eq_true.mpr fun n _ => decide_eq_true (once n))

theorem asCount?_count {bits n : Nat} (narrow : n < 2 ^ bits) :
    asCount? bits (.count n) = some n := by
  have below : (n : Int) < Nat.pow 2 bits := Int.ofNat_lt.mpr narrow
  change asCount? bits (.integer n) = some n
  rw [asCount?, if_pos ⟨Int.natCast_nonneg n, below⟩, Int.toNat_natCast]

theorem count_found {f : Fields} {bits n : Nat} {name : String}
    (found : f.get? name = some (.count n)) (narrow : n < 2 ^ bits) :
    f.count bits name = some n := by
  rw [Fields.count, Fields.required, found]
  exact asCount?_count narrow

theorem asOption?_some {α : Type} {read : Document → Option α} {d : Document} {a : α}
    (null : read .null = none) (value : read d = some a) : asOption? read d = some (some a) := by
  cases d with
  | null => cases null.symm.trans value
  | _ => exact congrArg (Option.map some) value

theorem lookup_cons {α : Type} (name other : String) (a : α) (ms : List (String × α)) :
    ((name, a) :: ms).lookup other = if other = name then some a else ms.lookup other := by
  rw [List.lookup_cons]
  by_cases same : other = name
  · rw [beq_iff_eq.mpr same, if_pos same]
  · rw [beq_false_of_ne same, if_neg same]

theorem withDefault_map {α : Type} {f : Fields} {name : String} {o : Option α}
    {write : α → Document} {read : Document → Option α} (found : f.get? name = o.map write)
    (null : read .null = none) (reads : ∀ a ∈ o, read (write a) = some a) :
    f.withDefault name (asOption? read) none = some o := by
  rw [Fields.withDefault, found]
  cases o with
  | none => rfl
  | some a => exact asOption?_some null (reads a rfl)

end Document
end InferenceSim
