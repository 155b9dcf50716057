import InferenceSim.Kv.Cache
import InferenceSim.Proofs.Kv.TierAccounts

/-! Who holds the blocks of a cache. The tables of a cache say the same thing five
times: how often a block is held, whether it is free with or without content, and
which hash it is indexed under. In the middle of an operation some references
belong to no request yet; they are counted as loose. -/
namespace InferenceSim
namespace KvCache

/-- The ids in the holdings of all requests, as often as they are held. -/
def heldIds (c : KvCache) : List Nat := c.held.toList.flatMap fun entry => entry.2.blocks

/-- The tables agree, with the loose references counted among the holders. -/
structure Consistent (c : KvCache) (loose : List Nat) : Prop where
  refs_eq : ∀ (id : Nat) (b : Block), c.block? id = some b →
    b.refs = (c.heldIds ++ loose).count id
  inBounds : ∀ id ∈ c.heldIds ++ loose, id < c.total
  mem_clean_iff : ∀ id : Nat,
    id ∈ c.clean ↔ ∃ b : Block, c.block? id = some b ∧ b.refs = 0 ∧ b.hash = none
  evictable_iff : ∀ r id : Nat, c.evictable[r]? = some id ↔
    ∃ b : Block, c.block? id = some b ∧ b.refs = 0 ∧ b.hash.isSome ∧ b.recency = r
  index_iff : ∀ (h : BlockHash) (id : Nat),
    c.index[h]? = some id ↔ ∃ b : Block, c.block? id = some b ∧ b.hash = some h
  conserved : c.used + c.free = c.total
  recency_le : ∀ (id : Nat) (b : Block), c.block? id = some b → b.recency ≤ c.stamp
  /-- A block that is indexed, or held more than once, is full. -/
  full : ∀ (id : Nat) (b : Block), c.block? id = some b →
    b.hash.isSome ∨ 2 ≤ b.refs → b.filled = c.blockSize
  tier : ∀ t : HostTier, c.tier = some t → t.Sound

theorem block?_eq_none_iff {c : KvCache} {id : Nat} : c.block? id = none ↔ c.total ≤ id := by
  unfold block?
  split
  · next h => simp [Nat.not_le.mpr h]
  · next h => simp [Nat.not_lt.mp h]

theorem exists_block {c : KvCache} {id : Nat} (h : id < c.total) : ∃ b, c.block? id = some b :=
  ⟨_, if_pos h⟩

theorem lt_total {c : KvCache} {id : Nat} {b : Block} (h : c.block? id = some b) :
    id < c.total :=
  Nat.lt_of_not_le fun out => Option.some_ne_none b (h.symm.trans (block?_eq_none_iff.mpr out))

theorem changeBlock_of_some {c : KvCache} {id : Nat} {b : Block} (h : c.block? id = some b)
    (f : Block → Block) :
    c.changeBlock id f = { c with blocks := c.blocks.insert id (f b) } := by
  simp [changeBlock, h]

theorem block?_insert {c d : KvCache} {id : Nat} {b e : Block} (h : c.block? id = some b)
    (blocks : d.blocks = c.blocks.insert id e) (total : d.total = c.total) (j : Nat) :
    d.block? j = if j = id then some e else c.block? j := by
  have bound := lt_total h
  unfold block?
  rw [blocks, total, Std.ExtTreeMap.getElem?_insert]
  simp only [Std.LawfulEqOrd.compare_eq_iff_eq]
  by_cases same : j = id
  · subst same
    simp [bound]
  · simp [same, Ne.symm same]

/-- What no operation on blocks changes. -/
structure Frame (c d : KvCache) : Prop where
  host : d.host = c.host
  blockSize : d.blockSize = c.blockSize
  total : d.total = c.total
  now : d.now = c.now
  held : d.held = c.held

namespace Frame
variable {c₁ c₂ c₃ : KvCache}

theorem refl : Frame c₁ c₁ := ⟨rfl, rfl, rfl, rfl, rfl⟩

theorem trans (h : Frame c₁ c₂) (k : Frame c₂ c₃) : Frame c₁ c₃ where
  host := k.host.trans h.host
  blockSize := k.blockSize.trans h.blockSize
  total := k.total.trans h.total
  now := k.now.trans h.now
  held := k.held.trans h.held

theorem heldIds (h : Frame c₁ c₂) : c₂.heldIds = c₁.heldIds := by
  rw [KvCache.heldIds, h.held, KvCache.heldIds]

end Frame

namespace Consistent
variable {c d : KvCache} {loose loose' : List Nat} {id : Nat} {b e : Block}

/-- Only the counts of the loose references matter. -/
theorem perm (h : Consistent c loose) (same : loose.Perm loose') : Consistent c loose' where
  refs_eq j x hx := (h.refs_eq j x hx).trans ((same.append_left _).count_eq j)
  inBounds j hj := h.inBounds j ((same.append_left _).mem_iff.mpr hj)
  mem_clean_iff := h.mem_clean_iff
  evictable_iff := h.evictable_iff
  index_iff := h.index_iff
  conserved := h.conserved
  recency_le := h.recency_le
  full := h.full
  tier := h.tier

theorem refs_pos (h : Consistent c loose) (hb : c.block? id = some b)
    (held : id ∈ c.heldIds ++ loose) : 0 < b.refs := by
  rw [h.refs_eq id b hb]
  exact List.count_pos_iff.mpr held

theorem not_mem_of_refs (h : Consistent c loose) (hb : c.block? id = some b)
    (free : b.refs = 0) : id ∉ c.heldIds ++ loose := fun held =>
  absurd free (Nat.ne_of_gt (h.refs_pos hb held))

theorem clean_same (h : Consistent c loose) (hb : c.block? id = some b)
    (same : d.clean = c.clean)
    (iff : (e.refs = 0 ∧ e.hash = none) ↔ (b.refs = 0 ∧ b.hash = none)) (j : Nat) :
    j ∈ d.clean ↔ if j = id then e.refs = 0 ∧ e.hash = none else j ∈ c.clean := by
  rw [same]
  split
  · next here => rw [here, h.mem_clean_iff, hb, iff]; simp
  · rfl

theorem clean_erased (same : d.clean = c.clean.erase id) (used : e.refs ≠ 0) (j : Nat) :
    j ∈ d.clean ↔ if j = id then e.refs = 0 ∧ e.hash = none else j ∈ c.clean := by
  rw [same, Std.ExtTreeSet.mem_erase]
  by_cases here : j = id
  · simp [here, used]
  · simp [here, Ne.symm here]

theorem clean_inserted (same : d.clean = c.clean.insert id)
    (free : e.refs = 0 ∧ e.hash = none) (j : Nat) :
    j ∈ d.clean ↔ if j = id then e.refs = 0 ∧ e.hash = none else j ∈ c.clean := by
  rw [same, Std.ExtTreeSet.mem_insert]
  by_cases here : j = id
  · simp [here, free]
  · simp [here, Ne.symm here]

theorem evictable_same (h : Consistent c loose) (hb : c.block? id = some b)
    (same : d.evictable = c.evictable)
    (iff : ∀ r, (e.refs = 0 ∧ e.hash.isSome ∧ e.recency = r) ↔
      (b.refs = 0 ∧ b.hash.isSome ∧ b.recency = r)) (r j : Nat) :
    d.evictable[r]? = some j ↔
      if j = id then e.refs = 0 ∧ e.hash.isSome ∧ e.recency = r
      else c.evictable[r]? = some j := by
  rw [same]
  split
  · next here => rw [here, h.evictable_iff, hb, iff]; simp
  · rfl

theorem evictable_erased (h : Consistent c loose) (hb : c.block? id = some b)
    (listed : c.evictable[b.recency]? = some id)
    (same : d.evictable = c.evictable.erase b.recency)
    (gone : ¬ (e.refs = 0 ∧ e.hash.isSome)) (r j : Nat) :
    d.evictable[r]? = some j ↔
      if j = id then e.refs = 0 ∧ e.hash.isSome ∧ e.recency = r
      else c.evictable[r]? = some j := by
  have out : ¬ (e.refs = 0 ∧ e.hash.isSome ∧ e.recency = r) := fun all => gone ⟨all.1, all.2.1⟩
  rw [same, Std.ExtTreeMap.getElem?_erase]
  simp only [Std.LawfulEqOrd.compare_eq_iff_eq, out]
  by_cases age : b.recency = r
  · subst age
    simp only [if_true, reduceCtorEq, listed, Option.some.injEq, false_iff]
    split
    · exact not_false
    · next other => exact Ne.symm other
  · simp only [age, if_false]
    split
    · next here =>
      rw [here, h.evictable_iff, hb]
      simp [age]
    · rfl

theorem evictable_inserted (h : Consistent c loose) (hb : c.block? id = some b)
    (held : b.refs ≠ 0) (same : d.evictable = c.evictable.insert e.recency id)
    (free : e.refs = 0 ∧ e.hash.isSome) (newer : c.stamp < e.recency) (r j : Nat) :
    d.evictable[r]? = some j ↔
      if j = id then e.refs = 0 ∧ e.hash.isSome ∧ e.recency = r
      else c.evictable[r]? = some j := by
  rw [same, Std.ExtTreeMap.getElem?_insert]
  simp only [Std.LawfulEqOrd.compare_eq_iff_eq, free, true_and]
  by_cases age : e.recency = r
  · subst age
    simp only [if_true, Option.some.injEq]
    split
    · next here => simp [here]
    · next other =>
      simp only [Ne.symm other, false_iff, h.evictable_iff]
      rintro ⟨x, hx, _, _, old⟩
      have bound := h.recency_le j x hx
      omega
  · simp only [age, if_false]
    split
    · next here =>
      rw [here, h.evictable_iff, hb]
      simp [held]
    · rfl

theorem index_same (h : Consistent c loose) (hb : c.block? id = some b)
    (same : d.index = c.index) (hash : e.hash = b.hash) (a : BlockHash) (j : Nat) :
    d.index[a]? = some j ↔ if j = id then e.hash = some a else c.index[a]? = some j := by
  rw [same]
  split
  · next here => rw [here, h.index_iff, hb, hash]; simp
  · rfl

theorem index_erased {x : BlockHash} (h : Consistent c loose) (hb : c.block? id = some b)
    (hashed : b.hash = some x) (same : d.index = c.index.erase x) (hash : e.hash = none)
    (a : BlockHash) (j : Nat) :
    d.index[a]? = some j ↔ if j = id then e.hash = some a else c.index[a]? = some j := by
  have listed := (h.index_iff x id).mpr ⟨b, hb, hashed⟩
  rw [same, Std.ExtTreeMap.getElem?_erase]
  simp only [Std.LawfulEqOrd.compare_eq_iff_eq, hash, reduceCtorEq]
  by_cases key : x = a
  · subst key
    simp only [if_true, reduceCtorEq, listed, Option.some.injEq, false_iff]
    split
    · exact not_false
    · next other => exact Ne.symm other
  · simp only [key, if_false]
    split
    · next here =>
      rw [here, h.index_iff, hb]
      simp [hashed, key]
    · rfl

theorem index_inserted {x : BlockHash} (h : Consistent c loose) (hb : c.block? id = some b)
    (unhashed : b.hash = none) (absent : c.index[x]? = none)
    (same : d.index = c.index.insert x id) (hash : e.hash = some x) (a : BlockHash) (j : Nat) :
    d.index[a]? = some j ↔ if j = id then e.hash = some a else c.index[a]? = some j := by
  rw [same, Std.ExtTreeMap.getElem?_insert]
  simp only [Std.LawfulEqOrd.compare_eq_iff_eq, hash, Option.some.injEq]
  by_cases key : x = a
  · subst key
    simp [absent, eq_comm]
  · simp only [key, if_false]
    split
    · next here =>
      rw [here, h.index_iff, hb]
      simp [unhashed]
    · rfl

/-- A change of one block keeps the tables in agreement if each of them follows it. -/
theorem change (h : Consistent c loose) (hb : c.block? id = some b)
    (blocks : ∀ j, d.block? j = if j = id then some e else c.block? j)
    (frame : Frame c d)
    (refs : e.refs = (c.heldIds ++ loose').count id)
    (others : ∀ j, j ≠ id → loose'.count j = loose.count j)
    (clean : ∀ j, j ∈ d.clean ↔
      if j = id then e.refs = 0 ∧ e.hash = none else j ∈ c.clean)
    (evictable : ∀ r j, d.evictable[r]? = some j ↔
      if j = id then e.refs = 0 ∧ e.hash.isSome ∧ e.recency = r else c.evictable[r]? = some j)
    (index : ∀ (a : BlockHash) j, d.index[a]? = some j ↔
      if j = id then e.hash = some a else c.index[a]? = some j)
    (conserved : d.used + d.free = c.used + c.free)
    (stamp : c.stamp ≤ d.stamp) (recency : e.recency ≤ d.stamp)
    (full : e.hash.isSome ∨ 2 ≤ e.refs → e.filled = c.blockSize)
    (tier : ∀ t : HostTier, d.tier = some t → t.Sound) : Consistent d loose' := by
  -- each clause is given for the changed block, and holds of the others as it did in `c`
  have ids := frame.heldIds
  constructor
  case refs_eq =>
    intro j x hx
    rw [blocks] at hx
    rw [ids]
    split at hx
    · next same =>
      obtain rfl := Option.some.inj hx
      rw [refs, same]
    · next other =>
      rw [h.refs_eq j x hx, List.count_append, List.count_append, others j other]
  case inBounds =>
    intro j hj
    rw [ids, List.mem_append] at hj
    rw [frame.total]
    by_cases same : j = id
    · exact same ▸ lt_total hb
    · refine h.inBounds j (List.mem_append.mpr (hj.imp_right fun inLoose => ?_))
      have counted := List.count_pos_iff.mpr inLoose
      rw [others j same] at counted
      exact List.count_pos_iff.mp counted
  case mem_clean_iff =>
    intro j
    rw [clean, blocks]
    split
    · simp
    · exact h.mem_clean_iff j
  case evictable_iff =>
    intro r j
    rw [evictable, blocks]
    split
    · simp
    · exact h.evictable_iff r j
  case index_iff =>
    intro a j
    rw [index, blocks]
    split
    · simp
    · exact h.index_iff a j
  case conserved => rw [conserved, h.conserved, frame.total]
  case recency_le =>
    intro j x hx
    rw [blocks] at hx
    split at hx
    · exact Option.some.inj hx ▸ recency
    · exact Nat.le_trans (h.recency_le j x hx) stamp
  case full =>
    intro j x hx
    rw [blocks] at hx
    rw [frame.blockSize]
    split at hx
    · exact Option.some.inj hx ▸ full
    · exact h.full j x hx
  case tier => exact tier

end Consistent

def level (c : KvCache) (id : Nat) : Option Nat := (c.block? id).map (·.filled)

def hashAt (c : KvCache) (id : Nat) : Option BlockHash := (c.block? id).bind (·.hash)

theorem level_of_block {c : KvCache} {id : Nat} {b : Block} (h : c.block? id = some b) :
    c.level id = some b.filled := by rw [level, h]; rfl

theorem hashAt_of_block {c : KvCache} {id : Nat} {b : Block} (h : c.block? id = some b) :
    c.hashAt id = b.hash := by rw [hashAt, h]; rfl

/-- An operation within an allocation: it takes references on blocks, and leaves alone
what is held by anyone. -/
structure Grows (c : KvCache) (loose : List Nat) (d : KvCache) (loose' : List Nat) : Prop where
  consistent : d.Consistent loose'
  subset : ∀ id ∈ loose, id ∈ loose'
  frame : Frame c d
  level : ∀ id ∈ c.heldIds ++ loose, d.level id = c.level id
  hashAt : ∀ id ∈ c.heldIds ++ loose, ∀ a, c.hashAt id = some a → d.hashAt id = some a

namespace Grows
variable {c₁ c₂ c₃ : KvCache} {l₁ l₂ l₃ : List Nat}

theorem refl (h : c₁.Consistent l₁) : Grows c₁ l₁ c₁ l₁ :=
  ⟨h, fun _ h => h, .refl, fun _ _ => rfl, fun _ _ _ h => h⟩

theorem mem (h : Grows c₁ l₁ c₂ l₂) {id : Nat} (held : id ∈ c₁.heldIds ++ l₁) :
    id ∈ c₂.heldIds ++ l₂ := by
  rw [h.frame.heldIds]
  exact List.mem_append.mpr ((List.mem_append.mp held).imp_right (h.subset id))

theorem trans (h : Grows c₁ l₁ c₂ l₂) (k : Grows c₂ l₂ c₃ l₃) : Grows c₁ l₁ c₃ l₃ where
  consistent := k.consistent
  subset id held := k.subset id (h.subset id held)
  frame := h.frame.trans k.frame
  level id held := (k.level id (h.mem held)).trans (h.level id held)
  hashAt id held a same := k.hashAt id (h.mem held) a (h.hashAt id held a same)

theorem perm (h : Grows c₁ l₁ c₂ l₂) (same : l₂.Perm l₃) : Grows c₁ l₁ c₂ l₃ :=
  { h with
    consistent := h.consistent.perm same
    subset := fun id held => same.mem_iff.mp (h.subset id held) }

end Grows

/-- A consistent change of one block grows the references if the block was free, or
keeps what it holds. -/
theorem Consistent.grows {c d : KvCache} {loose loose' : List Nat} {id : Nat} {e : Block}
    (consistent : (∀ j, d.block? j = if j = id then some e else c.block? j) → Frame c d →
      d.Consistent loose')
    (blocks : ∀ j, d.block? j = if j = id then some e else c.block? j) (frame : Frame c d)
    (subset : ∀ j ∈ loose, j ∈ loose')
    (same : id ∈ c.heldIds ++ loose →
      c.level id = some e.filled ∧ ∀ a, c.hashAt id = some a → e.hash = some a) :
    Grows c loose d loose' where
  consistent := consistent blocks frame
  subset := subset
  frame := frame
  level j held := by
    by_cases here : j = id
    · subst here
      rw [level, blocks, if_pos rfl, (same held).1]
      rfl
    · rw [level, blocks, if_neg here, level]
  hashAt j held a found := by
    by_cases here : j = id
    · subst here
      rw [hashAt, blocks, if_pos rfl]
      exact (same held).2 a found
    · rw [hashAt, blocks, if_neg here]
      exact found

end KvCache
end InferenceSim
