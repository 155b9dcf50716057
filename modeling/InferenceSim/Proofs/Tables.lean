import Std.Data.DTreeMap.Internal.Model
import Std.Data.ExtTreeMap.Lemmas
import Std.Data.ExtTreeSet.Lemmas

/-! Sorted tables as lists of their entries: the least entry heads the list, and
a change of one key changes one entry of it. -/
namespace InferenceSim.Table
open Std

open DTreeMap.Internal in
private theorem minEntry?_impl {α β : Type} (t : Impl α fun _ => β) :
    Impl.Const.minEntry? t = (Impl.Const.toList t).head? := by
  rw [Impl.Const.toList_eq_toListModel_map]
  induction t with
  | leaf => simp [Impl.Const.minEntry?]
  | inner _ k v left right ihLeft ihRight =>
      cases left with
      | leaf => simp [Impl.Const.minEntry?]
      | inner _ k' v' left' right' =>
          rw [Impl.Const.minEntry?, ihLeft]
          simp

section
variable {α β : Type} [Ord α] [TransOrd α]

theorem minEntry?_eq_head?_toList (t : ExtTreeMap α β) : t.minEntry? = t.toList.head? := by
  obtain ⟨⟨q⟩⟩ := t
  induction q using Quotient.ind with
  | _ m => exact minEntry?_impl m.inner

theorem exists_minEntry? (t : ExtTreeMap α β) (h : 0 < t.size) :
    ∃ k v, t.minEntry? = some (k, v) := by
  rw [minEntry?_eq_head?_toList]
  rw [← ExtTreeMap.length_toList] at h
  obtain ⟨e, rest, he⟩ := List.exists_cons_of_length_pos h
  exact ⟨e.1, e.2, by simp [he]⟩

variable [LawfulEqOrd α]

theorem getElem?_of_minEntry? {t : ExtTreeMap α β} {k : α} {v : β}
    (h : t.minEntry? = some (k, v)) : t[k]? = some v := by
  rw [minEntry?_eq_head?_toList] at h
  exact ExtTreeMap.mem_toList_iff_getElem?_eq_some.mp (List.mem_of_mem_head? h)

theorem nodup_toList (t : ExtTreeMap α β) : t.toList.Nodup :=
  t.distinct_keys_toList.imp fun distinct same =>
    distinct (LawfulEqOrd.compare_eq_iff_eq.mpr (congrArg Prod.fst same))

theorem toList_perm_erase {t : ExtTreeMap α β} {k : α} {v : β} (h : t[k]? = some v) :
    t.toList.Perm ((k, v) :: (t.erase k).toList) := by
  have absent : (k, v) ∉ (t.erase k).toList := by
    rw [ExtTreeMap.mem_toList_iff_getElem?_eq_some, ExtTreeMap.getElem?_erase_self]
    exact Option.some_ne_none (v : β) ∘ Eq.symm
  refine (List.perm_ext_iff_of_nodup (nodup_toList t)
    (List.nodup_cons.mpr ⟨absent, nodup_toList _⟩)).mpr ?_
  rintro ⟨k', v'⟩
  simp only [List.mem_cons, ExtTreeMap.mem_toList_iff_getElem?_eq_some, ExtTreeMap.getElem?_erase]
  by_cases same : k = k'
  · subst same
    simp [h, eq_comm]
  · simp [same, Ne.symm same]

theorem erase_insert (t : ExtTreeMap α β) (k : α) (v : β) : (t.insert k v).erase k = t.erase k := by
  apply ExtTreeMap.ext_getElem?
  intro k'
  simp only [ExtTreeMap.getElem?_erase, ExtTreeMap.getElem?_insert]
  split <;> rfl

theorem toList_insert_perm (t : ExtTreeMap α β) (k : α) (v : β) :
    (t.insert k v).toList.Perm ((k, v) :: (t.erase k).toList) := by
  have inserted : (t.insert k v)[k]? = some v := ExtTreeMap.getElem?_insert_self
  exact erase_insert t k v ▸ toList_perm_erase inserted

theorem toList_erase_of_none {t : ExtTreeMap α β} {k : α} (h : t[k]? = none) :
    t.erase k = t := by
  apply ExtTreeMap.ext_getElem?
  intro k'
  rw [ExtTreeMap.getElem?_erase]
  by_cases same : k = k'
  · subst same
    simp [h]
  · simp [same]

theorem toList_erase [DecidableEq α] (t : ExtTreeMap α β) (k : α) :
    (t.erase k).toList = t.toList.filter fun e => e.1 ≠ k := by
  have filtered : t.erase k = t.filter fun k' _ => k' ≠ k := by
    apply ExtTreeMap.ext_getElem?
    intro k'
    rw [ExtTreeMap.getElem?_erase, ExtTreeMap.getElem?_filter']
    by_cases same : k = k'
    · subst same
      cases t[k]? <;> simp
    · cases t[k']? <;> simp [same, Ne.symm same, Option.filter_some]
  rw [filtered, ExtTreeMap.toList_filter]

theorem insert_insert (t : ExtTreeMap α β) (k : α) (v w : β) :
    (t.insert k v).insert k w = t.insert k w := by
  apply ExtTreeMap.ext_getElem?
  intro k'
  simp only [ExtTreeMap.getElem?_insert]
  split <;> rfl

theorem toList_of_minEntry? {t : ExtTreeMap α β} {k : α} {v : β}
    (h : t.minEntry? = some (k, v)) : t.toList = (k, v) :: (t.erase k).toList := by
  classical
  rw [minEntry?_eq_head?_toList] at h
  obtain ⟨rest, split⟩ := List.head?_eq_some_iff.mp h
  have distinct := t.distinct_keys_toList
  rw [split, List.pairwise_cons] at distinct
  have others : ∀ e ∈ rest, e.1 ≠ k := fun e inside same =>
    distinct.1 e inside (LawfulEqOrd.compare_eq_iff_eq.mpr same.symm)
  rw [toList_erase, split, List.filter_cons_of_neg (by simp), List.filter_eq_self.mpr]
  simpa using others

theorem toList_insert_last {t : ExtTreeMap α β} {k : α} {v : β}
    (last : ∀ j ∈ t, compare j k = .lt) : (t.insert k v).toList = t.toList ++ [(k, v)] := by
  have before : ∀ e ∈ t.toList, compare e.1 k = .lt := fun e inside =>
    last e.1 (ExtTreeMap.mem_iff_isSome_getElem?.mpr (by
      rw [ExtTreeMap.mem_toList_iff_getElem?_eq_some.mp inside]
      rfl))
  have absent : t[k]? = none := ExtTreeMap.getElem?_eq_none fun inside =>
    absurd (last k inside) (by rw [LawfulEqOrd.compare_eq_iff_eq.mpr rfl]; decide)
  have same : (t.insert k v).toList.Perm (t.toList ++ [(k, v)]) := by
    refine (toList_insert_perm t k v).trans ?_
    rw [toList_erase_of_none absent]
    exact (List.perm_append_singleton _ _).symm
  refine same.eq_of_pairwise (fun a b _ _ ab ba => ?_) ExtTreeMap.ordered_keys_toList ?_
  · have back : compare b.1 a.1 = .gt := OrientedCmp.gt_iff_lt.mpr ab
    cases back.symm.trans ba
  · rw [List.pairwise_append]
    exact ⟨ExtTreeMap.ordered_keys_toList, List.pairwise_singleton _ _,
      fun e inside e' single => List.mem_singleton.mp single ▸ before e inside⟩

/-- A table in which the key of every value can be told from the value. -/
def KeyedBy (t : ExtTreeMap α β) (keyOf : β → Option α) : Prop :=
  ∀ k v, t[k]? = some v ↔ keyOf v = some k

namespace KeyedBy
variable {t : ExtTreeMap α β} {keyOf : β → Option α}

theorem mem_values (h : KeyedBy t keyOf) (v : β) :
    v ∈ t.toList.map Prod.snd ↔ (keyOf v).isSome := by
  rw [List.mem_map, Option.isSome_iff_exists]
  constructor
  · rintro ⟨⟨k, v⟩, inside, rfl⟩
    exact ⟨k, (h k v).mp (ExtTreeMap.mem_toList_iff_getElem?_eq_some.mp inside)⟩
  · rintro ⟨k, key⟩
    exact ⟨(k, v), ExtTreeMap.mem_toList_iff_getElem?_eq_some.mpr ((h k v).mpr key), rfl⟩

theorem nodup_values (h : KeyedBy t keyOf) : (t.toList.map Prod.snd).Nodup := by
  rw [List.Nodup, List.pairwise_map]
  refine t.distinct_keys_toList.imp_of_mem fun first second distinct same => ?_
  have key := (h _ _).mp (ExtTreeMap.mem_toList_iff_getElem?_eq_some.mp first)
  have key' := (h _ _).mp (ExtTreeMap.mem_toList_iff_getElem?_eq_some.mp second)
  rw [same, key'] at key
  exact distinct (LawfulEqOrd.compare_eq_iff_eq.mpr (Option.some.inj key).symm)

theorem values_erase [DecidableEq α] [DecidableEq β] (h : KeyedBy t keyOf) {k : α} {v : β}
    (key : keyOf v = some k) :
    (t.erase k).toList.map Prod.snd = (t.toList.map Prod.snd).filter (· ≠ v) := by
  rw [toList_erase, List.filter_map]
  congr 1
  refine List.filter_congr fun entry inside => ?_
  obtain ⟨k', v'⟩ := entry
  have key' := (h k' v').mp (ExtTreeMap.mem_toList_iff_getElem?_eq_some.mp inside)
  refine decide_eq_decide.mpr (not_congr ⟨fun same => ?_, fun same => ?_⟩)
  · obtain rfl : k' = k := same
    exact Option.some.inj (((h k' v').mpr key').symm.trans ((h k' v).mpr key))
  · obtain rfl : v' = v := same
    exact Option.some.inj (key'.symm.trans key)

end KeyedBy

theorem insert_erase (t : ExtTreeMap α β) (k : α) (v : β) : (t.erase k).insert k v = t.insert k v := by
  apply ExtTreeMap.ext_getElem?
  intro k'
  simp only [ExtTreeMap.getElem?_erase, ExtTreeMap.getElem?_insert]
  split <;> rfl

/-- Two tables, each of which has the entries of the other one turned round. -/
def Inverse [Ord β] [TransOrd β] (t : ExtTreeMap α β) (u : ExtTreeMap β α) : Prop :=
  ∀ (k : α) (v : β), t[k]? = some v ↔ u[v]? = some k

namespace Inverse
variable [Ord β] [TransOrd β] [LawfulEqOrd β] {t : ExtTreeMap α β} {u : ExtTreeMap β α}
  {k : α} {v : β}

theorem erase (h : Inverse t u) (key : u[v]? = some k) : Inverse (t.erase k) (u.erase v) := by
  classical
  intro k' v'
  simp only [ExtTreeMap.getElem?_erase, LawfulEqOrd.compare_eq_iff_eq]
  have own : t[k]? = some v := (h k v).mpr key
  by_cases same : k = k'
  · subst same
    by_cases same' : v = v'
    · simp [same']
    · rw [if_pos rfl, if_neg same', ← h k v', own]
      simp [same']
  · by_cases same' : v = v'
    · subst same'
      rw [if_neg same, if_pos rfl, h k' v, key]
      simp [same]
    · rw [if_neg same, if_neg same']
      exact h k' v'

theorem insert (h : Inverse t u) (free : t[k]? = none) (absent : u[v]? = none) :
    Inverse (t.insert k v) (u.insert v k) := by
  classical
  intro k' v'
  simp only [ExtTreeMap.getElem?_insert, LawfulEqOrd.compare_eq_iff_eq]
  by_cases same : k = k'
  · subst same
    by_cases same' : v = v'
    · simp [same']
    · rw [if_pos rfl, if_neg same', ← h k v', free]
      simp [same']
  · by_cases same' : v = v'
    · subst same'
      rw [if_neg same, if_pos rfl, h k' v, absent]
      simp [same]
    · rw [if_neg same, if_neg same']
      exact h k' v'

end Inverse

theorem size_erase_of_some {t : ExtTreeMap α β} {k : α} {v : β} (h : t[k]? = some v) :
    (t.erase k).size + 1 = t.size := by
  rw [← ExtTreeMap.length_toList, ← ExtTreeMap.length_toList, (toList_perm_erase h).length_eq]
  rfl

theorem size_insert_of_none {t : ExtTreeMap α β} {k : α} (v : β) (h : t[k]? = none) :
    (t.insert k v).size = t.size + 1 := by
  rw [← ExtTreeMap.length_toList, ← ExtTreeMap.length_toList, (toList_insert_perm t k v).length_eq,
    toList_erase_of_none h]
  rfl

end

section
variable {α : Type} [Ord α] [TransOrd α]

theorem size_eq_zero_of_min? {s : ExtTreeSet α} (h : s.min? = none) : s.size = 0 := by
  rw [ExtTreeSet.min?_eq_none_iff.mp h]
  exact ExtTreeSet.size_empty

theorem toList_of_min? [LawfulEqOrd α] {s : ExtTreeSet α} {a : α} (h : s.min? = some a) :
    s.toList = a :: (s.erase a).toList := by
  classical
  have filtered : s.erase a = s.filter fun b => b ≠ a := by
    apply ExtTreeSet.ext_mem
    intro b
    rw [ExtTreeSet.mem_erase, ExtTreeSet.mem_filter]
    rw [Ne, LawfulEqOrd.compare_eq_iff_eq]
    simp only [ExtTreeSet.get_eq, decide_eq_true_eq]
    exact ⟨fun ⟨other, inside⟩ => ⟨inside, Ne.symm other⟩,
      fun ⟨inside, other⟩ => ⟨Ne.symm other, inside⟩⟩
  rw [ExtTreeSet.min?_eq_head?_toList] at h
  obtain ⟨rest, split⟩ := List.head?_eq_some_iff.mp h
  have distinct := s.distinct_toList
  rw [split, List.pairwise_cons] at distinct
  have others : ∀ b ∈ rest, b ≠ a := fun b inside same =>
    distinct.1 b inside (LawfulEqOrd.compare_eq_iff_eq.mpr same.symm)
  rw [filtered, ExtTreeSet.toList_filter, split, List.filter_cons_of_neg (by simp),
    List.filter_eq_self.mpr]
  simpa using others

theorem size_erase_of_mem {s : ExtTreeSet α} {a : α} (h : a ∈ s) :
    (s.erase a).size + 1 = s.size := by
  have positive : 0 < s.size := by
    refine Nat.pos_of_ne_zero fun zero => ?_
    have empty : s = ∅ := ExtTreeSet.eq_empty_iff_size_eq_zero.mpr zero
    exact ExtTreeSet.not_mem_empty (empty ▸ h)
  rw [ExtTreeSet.size_erase, if_pos (ExtTreeSet.mem_iff_contains.mp h)]
  omega

theorem size_insert_of_not_mem {s : ExtTreeSet α} {a : α} (h : a ∉ s) :
    (s.insert a).size = s.size + 1 := by
  rw [ExtTreeSet.size_insert, if_neg (fun contained => h (ExtTreeSet.mem_iff_contains.mpr contained))]

end

end InferenceSim.Table
