import InferenceSim.Proofs.Kv.Ownership

/-! How many blocks are in use. The free blocks are those in the two free tables, each
of them once; all others have a holder. -/
namespace InferenceSim
namespace KvCache
variable {c : KvCache} {loose : List Nat}

def isFree (c : KvCache) (id : Nat) : Bool := c.refs? id = some 0

theorem isFree_of_block {id : Nat} {b : Block} (h : c.block? id = some b) :
    c.isFree id = decide (b.refs = 0) := by
  rw [isFree, refs?, h, Option.map_some]
  simp

namespace Consistent

theorem clean_perm (k : c.Consistent loose) : c.clean.toList.Perm
    ((List.range c.total).filter fun id => c.isFree id && (c.hashAt id).isNone) := by
  refine (List.perm_ext_iff_of_nodup ?_ (List.Pairwise.filter _ List.nodup_range)).mpr fun id => ?_
  · exact c.clean.distinct_toList.imp fun distinct same =>
      distinct (Std.LawfulEqOrd.compare_eq_iff_eq.mpr same)
  · rw [Std.ExtTreeSet.mem_toList, k.mem_clean_iff, List.mem_filter, List.mem_range]
    constructor
    · rintro ⟨b, hb, free, unhashed⟩
      simp [lt_total hb, isFree_of_block hb, hashAt_of_block hb, free, unhashed]
    · rintro ⟨inside, both⟩
      obtain ⟨b, hb⟩ := exists_block inside
      simp only [isFree_of_block hb, hashAt_of_block hb, Bool.and_eq_true, decide_eq_true_eq,
        Option.isNone_iff_eq_none] at both
      exact ⟨b, hb, both⟩

theorem evictable_perm (k : c.Consistent loose) : (c.evictable.toList.map Prod.snd).Perm
    ((List.range c.total).filter fun id => c.isFree id && (c.hashAt id).isSome) := by
  refine (List.perm_ext_iff_of_nodup ?_ (List.Pairwise.filter _ List.nodup_range)).mpr fun id => ?_
  · refine List.pairwise_map.mpr ((Table.nodup_toList c.evictable).imp_of_mem ?_)
    intro x y hx hy distinct same
    obtain ⟨b, hb, _, _, first⟩ := (k.evictable_iff x.1 x.2).mp
      (Std.ExtTreeMap.mem_toList_iff_getElem?_eq_some.mp hx)
    obtain ⟨b', hb', _, _, second⟩ := (k.evictable_iff y.1 y.2).mp
      (Std.ExtTreeMap.mem_toList_iff_getElem?_eq_some.mp hy)
    rw [← same, hb] at hb'
    obtain rfl := Option.some.inj hb'
    exact distinct (Prod.ext (first.symm.trans second) same)
  · rw [List.mem_map, List.mem_filter, List.mem_range]
    constructor
    · rintro ⟨x, hx, rfl⟩
      obtain ⟨b, hb, free, hashed, _⟩ := (k.evictable_iff x.1 x.2).mp
        (Std.ExtTreeMap.mem_toList_iff_getElem?_eq_some.mp hx)
      simp [lt_total hb, isFree_of_block hb, hashAt_of_block hb, free, hashed]
    · rintro ⟨inside, both⟩
      obtain ⟨b, hb⟩ := exists_block inside
      simp only [isFree_of_block hb, hashAt_of_block hb, Bool.and_eq_true,
        decide_eq_true_eq] at both
      exact ⟨(b.recency, id), Std.ExtTreeMap.mem_toList_iff_getElem?_eq_some.mpr
        ((k.evictable_iff b.recency id).mpr ⟨b, hb, both.1, both.2, rfl⟩), rfl⟩

theorem free_eq (k : c.Consistent loose) : c.free = (List.range c.total).countP c.isFree := by
  have clean := k.clean_perm.length_eq
  have evictable := k.evictable_perm.length_eq
  rw [Std.ExtTreeSet.length_toList, ← List.countP_eq_length_filter] at clean
  rw [List.length_map, Std.ExtTreeMap.length_toList, ← List.countP_eq_length_filter] at evictable
  rw [free, clean, evictable]
  induction List.range c.total with
  | nil => rfl
  | cons id rest ih =>
      simp only [List.countP_cons]
      cases c.isFree id <;> cases c.hashAt id <;> simp <;> omega

theorem used_eq (k : c.Consistent loose) :
    c.used = (List.range c.total).countP fun id => !c.isFree id := by
  have split := List.length_eq_countP_add_countP c.isFree (l := List.range c.total)
  have all := k.conserved
  rw [k.free_eq] at all
  rw [List.length_range] at split
  simp only [Bool.not_eq_true, Bool.decide_eq_false] at split
  omega

theorem isFree_iff (k : c.Consistent loose) {id : Nat} (inside : id < c.total) :
    c.isFree id ↔ id ∉ c.heldIds ++ loose := by
  obtain ⟨b, hb⟩ := exists_block inside
  rw [isFree_of_block hb, decide_eq_true_eq, k.refs_eq id b hb]
  exact List.count_eq_zero

theorem used_pos (k : c.Consistent loose) {id : Nat} (held : id ∈ c.heldIds ++ loose) :
    0 < c.used := by
  rw [k.used_eq]
  have inside := k.inBounds id held
  refine List.countP_pos_iff.mpr ⟨id, List.mem_range.mpr inside, ?_⟩
  rw [Bool.not_eq_true', Bool.eq_false_iff]
  exact fun free => (k.isFree_iff inside).mp free held

theorem used_le_of_subset {covering : List Nat} (k : c.Consistent loose)
    (covers : c.heldIds ++ loose ⊆ covering) : c.used ≤ covering.length := by
  rw [k.used_eq, List.countP_eq_length_filter]
  refine List.Nodup.length_le_of_subset (List.Pairwise.filter _ List.nodup_range) fun id inUse => ?_
  obtain ⟨inside, used⟩ := List.mem_filter.mp inUse
  refine covers (Decidable.not_not.mp fun unheld => ?_)
  rw [(k.isFree_iff (List.mem_range.mp inside)).mpr unheld] at used
  exact absurd used Bool.false_ne_true

theorem used_le (k : c.Consistent loose) : c.used ≤ (c.heldIds ++ loose).length :=
  k.used_le_of_subset (List.Subset.refl _)

end Consistent
end KvCache
end InferenceSim
