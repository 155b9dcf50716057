import InferenceSim.Proofs.Kv.Allocation
import InferenceSim.Proofs.Kv.Usage

/-! Letting go of blocks, and evicting them. Neither concerns a block that is held by
someone else. -/
namespace InferenceSim
open KvCache

namespace KvOp
variable {c d e : KvCache} {loose kept : List Nat} {id r : Nat} {b : Block}

/-- An operation that drops references, and keeps the content of what is still held. -/
structure Drops (c d : KvCache) (kept : List Nat) : Prop where
  consistent : d.Consistent kept
  frame : Frame c d
  level : ∀ id ∈ c.heldIds ++ kept, d.level id = c.level id
  hashAt : d.hashAt = c.hashAt
  tier : d.tier = c.tier

theorem Drops.of_change {x : Block}
    (consistent : (∀ j, d.block? j = if j = id then some x else c.block? j) → Frame c d →
      d.Consistent kept)
    (hb : c.block? id = some b) (blocks : ∀ j, d.block? j = if j = id then some x else c.block? j)
    (frame : Frame c d) (hash : x.hash = b.hash)
    (level : id ∈ c.heldIds ++ kept → x.filled = b.filled) (tier : d.tier = c.tier) :
    Drops c d kept where
  consistent := consistent blocks frame
  frame := frame
  level j held := by
    rw [KvCache.level, blocks]
    split
    · next here =>
      rw [here] at held ⊢
      rw [level_of_block hb]
      exact congrArg some (level held)
    · rfl
  hashAt := by
    funext j
    rw [KvCache.hashAt, blocks]
    split
    · next here =>
      rw [here, hashAt_of_block hb]
      exact hash
    · rfl
  tier := tier

theorem refs_eq_succ (k : c.Consistent (id :: loose)) (hb : c.block? id = some b) :
    b.refs = (c.heldIds ++ loose).count id + 1 := by
  have refs := k.refs_eq id b hb
  rwa [List.count_append, List.count_cons_self, ← Nat.add_assoc, ← List.count_append] at refs

theorem count_others {j : Nat} (other : j ≠ id) : loose.count j = (id :: loose).count j :=
  (List.count_cons_of_ne (Ne.symm other)).symm

theorem releaseBlock_cached (k : c.Consistent (id :: loose)) (hb : c.block? id = some b)
    (last : b.refs = 1) (hashed : b.hash.isSome) :
    ∃ d, releaseBlock id c = .ok () d ∧ Drops c d loose := by
  have used := k.used_pos (List.mem_append_right _ List.mem_cons_self)
  have refs := refs_eq_succ k hb
  have found : ({ c with stamp := c.stamp + 1 } : KvCache).block? id = some b := hb
  have unlisted : ∀ j : Nat, c.evictable[c.stamp + 1]? ≠ some j := by
    intro j listed
    obtain ⟨b', hb', _, _, recency⟩ := (k.evictable_iff _ j).mp listed
    have bound := k.recency_le j b' hb'
    omega
  have grown := Table.size_insert_of_none id (Option.eq_none_iff_forall_ne_some.mpr unlisted)
  have blocks := block?_insert (e := { b with refs := 0, recency := c.stamp + 1 })
    (d := { c with
      stamp := c.stamp + 1
      used := c.used - 1
      blocks := c.blocks.insert id { b with refs := 0, recency := c.stamp + 1 }
      evictable := c.evictable.insert (c.stamp + 1) id }) hb rfl rfl
  refine ⟨_, ?_, Drops.of_change (fun blocks frame => ?_) hb blocks ⟨rfl, rfl, rfl, rfl, rfl⟩
    rfl (fun _ => rfl) rfl⟩
  · simp only [releaseBlock, modify_bind, get_bind, found, last, hashed, if_true, if_false,
      Nat.one_ne_zero, modify_apply]
    rw [changeBlock_of_some (b := b)]
    exact hb
  · refine k.change hb blocks frame (show 0 = _ by omega) (fun _ => count_others)
      (k.clean_same hb rfl (by simp [Option.isSome_iff_ne_none.mp hashed]))
      (k.evictable_inserted hb (by omega) rfl ⟨rfl, hashed⟩ (Nat.lt_succ_self _))
      (k.index_same hb rfl rfl) ?_ (Nat.le_succ _) (Nat.le_refl _)
      (fun _ => k.full id b hb (.inl hashed)) k.tier
    simp only [KvCache.free]
    omega

theorem releaseBlock_clean (k : c.Consistent (id :: loose)) (hb : c.block? id = some b)
    (last : b.refs = 1) (unhashed : b.hash = none) :
    ∃ d, releaseBlock id c = .ok () d ∧ Drops c d loose := by
  have used := k.used_pos (List.mem_append_right _ List.mem_cons_self)
  have refs := refs_eq_succ k hb
  have found : ({ c with stamp := c.stamp + 1 } : KvCache).block? id = some b := hb
  have hashed : ¬ b.hash.isSome := Option.not_isSome_iff_eq_none.mpr unhashed
  have gone : id ∉ c.heldIds ++ loose := fun held => by
    have counted := List.count_pos_iff.mpr held
    omega
  have absent : id ∉ c.clean := by
    intro listed
    obtain ⟨b', hb', free, _⟩ := (k.mem_clean_iff id).mp listed
    rw [hb] at hb'
    rw [← Option.some.inj hb'] at free
    omega
  have grown := Table.size_insert_of_not_mem absent
  have blocks := block?_insert (e := { b with refs := 0, recency := c.stamp + 1, filled := 0 })
    (d := { c with
      stamp := c.stamp + 1
      used := c.used - 1
      blocks := c.blocks.insert id { b with refs := 0, recency := c.stamp + 1, filled := 0 }
      clean := c.clean.insert id }) hb rfl rfl
  refine ⟨_, ?_, Drops.of_change (fun blocks frame => ?_) hb blocks ⟨rfl, rfl, rfl, rfl, rfl⟩
    rfl (fun held => absurd held gone) rfl⟩
  · simp only [releaseBlock, modify_bind, get_bind, found, last, hashed, if_true, if_false,
      Nat.one_ne_zero, modify_apply, Bool.false_eq_true]
    rw [changeBlock_of_some (b := b)]
    exact hb
  · refine k.change hb blocks frame (show 0 = _ by omega) (fun _ => count_others)
      (Consistent.clean_inserted rfl ⟨rfl, unhashed⟩)
      (k.evictable_same hb rfl (by simp [unhashed]))
      (k.index_same hb rfl rfl) ?_ (Nat.le_succ _) (Nat.le_refl _)
      (fun shared => by simp [unhashed] at shared) k.tier
    simp only [KvCache.free]
    omega

theorem releaseBlock_shared (k : c.Consistent (id :: loose)) (hb : c.block? id = some b)
    (more : 1 < b.refs) : ∃ d, releaseBlock id c = .ok () d ∧ Drops c d loose := by
  have refs := refs_eq_succ k hb
  have found : ({ c with stamp := c.stamp + 1 } : KvCache).block? id = some b := hb
  have some : b.refs ≠ 0 := by omega
  have some' : b.refs - 1 ≠ 0 := by omega
  have blocks := block?_insert (e := { b with refs := b.refs - 1 })
    (d := { c with
      stamp := c.stamp + 1
      blocks := c.blocks.insert id { b with refs := b.refs - 1 } }) hb rfl rfl
  refine ⟨_, ?_, Drops.of_change (fun blocks frame => ?_) hb blocks ⟨rfl, rfl, rfl, rfl, rfl⟩
    rfl (fun _ => rfl) rfl⟩
  · simp only [releaseBlock, modify_bind, get_bind, found, some, Nat.ne_of_gt more, if_false,
      modify_apply]
    rw [changeBlock_of_some (b := b)]
    exact hb
  · exact k.change hb blocks frame (show b.refs - 1 = _ by omega) (fun _ => count_others)
      (k.clean_same hb rfl (by simp [some, some']))
      (k.evictable_same hb rfl (by simp [some, some']))
      (k.index_same hb rfl rfl) rfl (Nat.le_succ _) (Nat.le_succ_of_le (k.recency_le id b hb))
      (fun _ => k.full id b hb (.inr (by omega))) k.tier

theorem releaseBlock_drops (k : c.Consistent (id :: loose)) :
    ∃ d, releaseBlock id c = .ok () d ∧ Drops c d loose := by
  obtain ⟨b, hb⟩ := exists_block (k.inBounds id (List.mem_append_right _ List.mem_cons_self))
  have refs := refs_eq_succ k hb
  by_cases last : b.refs = 1
  · cases hash : b.hash with
    | some x => exact releaseBlock_cached k hb last (Option.isSome_iff_exists.mpr ⟨x, hash⟩)
    | none => exact releaseBlock_clean k hb last hash
  · exact releaseBlock_shared k hb (by omega)

theorem Drops.trans (k : Drops c d (kept ++ loose)) (l : Drops d e loose) : Drops c e loose where
  consistent := l.consistent
  frame := k.frame.trans l.frame
  level id held := by
    have held' : id ∈ d.heldIds ++ loose := k.frame.heldIds.symm ▸ held
    rw [l.level id held', k.level id]
    rcases List.mem_append.mp held with other | inLoose
    · exact List.mem_append_left _ other
    · exact List.mem_append_right _ (List.mem_append_right _ inLoose)
  hashAt := l.hashAt.trans k.hashAt
  tier := l.tier.trans k.tier

theorem releaseBlocks_drops (k : c.Consistent (kept ++ loose)) :
    ∃ d, releaseBlocks kept c = .ok () d ∧ Drops c d loose := by
  induction kept generalizing c with
  | nil => exact ⟨c, rfl, k, .refl, fun _ _ => rfl, rfl, rfl⟩
  | cons id rest ih =>
      obtain ⟨c₁, done, drops⟩ := releaseBlock_drops k
      obtain ⟨d, done', drops'⟩ := ih drops.consistent
      refine ⟨d, ?_, drops.trans drops'⟩
      rw [releaseBlocks, bind_ok done]
      exact done'

/-- A cache after the references of one request are dropped, or a block without holders
is evicted. -/
structure Released (c : KvCache) (r : Nat) (d : KvCache) : Prop where
  sound : d.Sound
  host : d.host = c.host
  blockSize : d.blockSize = c.blockSize
  total : d.total = c.total
  now : d.now = c.now
  held : d.held = c.held.erase r
  hashAt : d.hashAt = c.hashAt
  level : ∀ q : Nat, q ≠ r → ∀ id ∈ c.heldBy q, d.level id = c.level id
  tier : d.tier = c.tier

theorem Released.unheld {r : Nat} (gone : Released c r d)
    (others : ∀ q : Nat, q ≠ r → c.held[q]? = none) (q : Nat) : d.held[q]? = none := by
  rw [gone.held, Std.ExtTreeMap.getElem?_erase]
  split
  · rfl
  · next other =>
    exact others q fun same => other (Std.LawfulEqOrd.compare_eq_iff_eq.mpr same.symm)

/-- Every reference of a request is dropped, and no one else's. -/
theorem release_ok (k : c.Sound) (r : Nat) : ∃ d, release r c = .ok () d ∧ Released c r d := by
  cases own : c.held[r]? with
  | none =>
      refine ⟨c, ?_, k, rfl, rfl, rfl, rfl, (Table.toList_erase_of_none own).symm, rfl,
        fun _ _ _ _ => rfl, rfl⟩
      simp only [release, get_bind, own, pure_apply]
  | some h =>
      obtain ⟨c₀, hc₀⟩ : ∃ c₀, c₀ = { c with held := c.held.erase r } := ⟨_, rfl⟩
      have order : c.heldIds.Perm (h.blocks ++ c₀.heldIds) := heldIds_erase own (by rw [hc₀])
      have consistent : c₀.Consistent (h.blocks.reverse ++ []) := by
        rw [hc₀] at order ⊢
        refine k.consistent.rehold ?_ rfl rfl rfl rfl rfl rfl rfl rfl k.consistent.tier
        rw [List.append_nil, List.append_nil]
        refine (List.perm_append_comm.trans ?_).trans order.symm
        exact (List.reverse_perm h.blocks).append_right _
      obtain ⟨d, done, drops⟩ := releaseBlocks_drops consistent
      have frame := drops.frame
      have held : d.held = c.held.erase r := by rw [frame.held, hc₀]
      have blockSize : d.blockSize = c.blockSize := by rw [frame.blockSize, hc₀]
      have level : ∀ q : Nat, q ≠ r → ∀ id ∈ c.heldBy q, d.level id = c.level id := by
        intro q other id inside
        have still : id ∈ c₀.heldIds :=
          mem_heldIds_of_heldBy ((heldBy_erase (c := c) (d := c₀) other (by rw [hc₀])).symm ▸ inside)
        rw [drops.level id (List.mem_append_left _ still), hc₀]
        rfl
      have sound : d.Sound := by
        refine ⟨blockSize ▸ k.positive, drops.consistent, fun q h' found => ?_⟩
        rw [held, Std.ExtTreeMap.getElem?_erase] at found
        simp only [Std.LawfulEqOrd.compare_eq_iff_eq] at found
        split at found
        · exact absurd found (Option.some_ne_none h').symm
        · next other =>
          obtain ⟨tokens, backed⟩ := k.backed q h' found
          exact ⟨tokens, backed.congr blockSize fun id inside =>
            level q (Ne.symm other) id (by rw [heldBy, found]; exact inside)⟩
      refine ⟨d, ?_, sound, by rw [frame.host, hc₀], blockSize, by rw [frame.total, hc₀],
        by rw [frame.now, hc₀], held, ?_, level, by rw [drops.tier, hc₀]⟩
      · simp only [release, get_bind, own, modify_bind, ← hc₀]
        rw [bind_ok done]
        exact check_apply sound.check
      · rw [drops.hashAt, hc₀]
        rfl

theorem releasing_ok (k : c.Sound) (r : Nat) : ∃ d, c.releasing r = .ok d ∧ Released c r d := by
  obtain ⟨d, done, released⟩ := release_ok k r
  refine ⟨d, ?_, released⟩
  rw [KvCache.releasing, done]

/-- The cache after a block with the hash `x` was evicted. -/
def evicted (c : KvCache) (id : Nat) (b : Block) (x : BlockHash) : KvCache :=
  { c with
    evictable := c.evictable.erase b.recency
    blocks := c.blocks.insert id { b with hash := none, filled := 0 }
    evictions := c.evictions + 1
    index := c.index.erase x
    tier := c.tier.map fun t => (t.offload x c.now).2
    clean := c.clean.insert id }

theorem evict_cached {x : BlockHash} (k : c.Sound) (hb : c.block? id = some b)
    (free : b.refs = 0) (hash : b.hash = some x) :
    ∃ d, evict id c = .ok () d ∧ d.Sound ∧ Frame c d ∧
      ∀ j, j ≠ id → d.block? j = c.block? j := by
  have hashed : b.hash.isSome := by rw [hash]; rfl
  have listed := (k.consistent.evictable_iff b.recency id).mpr ⟨b, hb, free, hashed, rfl⟩
  have indexed := (k.consistent.index_iff x id).mpr ⟨b, hb, hash⟩
  have absent := k.consistent.not_mem_of_refs hb free
  have unclean : id ∉ c.clean := by
    intro inClean
    obtain ⟨b', hb', _, unhashed⟩ := (k.consistent.mem_clean_iff id).mp inClean
    rw [hb] at hb'
    rw [← Option.some.inj hb', hash] at unhashed
    exact Option.some_ne_none x unhashed
  have shrunk := Table.size_erase_of_some listed
  have grown := Table.size_insert_of_not_mem unclean
  have dropped := dropContent_apply (c := { c with evictable := c.evictable.erase b.recency })
    hb hash indexed k.consistent.tier
  have blocks := block?_insert (d := evicted c id b x) hb rfl rfl
  have others : ∀ j, j ≠ id → (evicted c id b x).block? j = c.block? j := fun j other =>
    (blocks j).trans (if_neg other)
  have sound : (evicted c id b x).Sound := by
    refine ⟨k.positive, k.consistent.change hb blocks ⟨rfl, rfl, rfl, rfl, rfl⟩
      (k.consistent.refs_eq id b hb) (fun _ _ => rfl)
      (Consistent.clean_inserted rfl ⟨free, rfl⟩)
      (k.consistent.evictable_erased hb listed rfl (by simp))
      (k.consistent.index_erased hb hash rfl rfl) ?_ (Nat.le_refl _)
      (k.consistent.recency_le id b hb) (fun shared => by simp [free] at shared) ?_, ?_⟩
    · simp only [KvCache.free, evicted]
      omega
    · intro t found
      obtain ⟨t', ht', rfl⟩ := Option.map_eq_some_iff.mp found
      exact ((k.consistent.tier t' ht').offload x c.now).2
    · intro q h own
      obtain ⟨tokens, backed⟩ := k.backed q h own
      refine ⟨tokens, backed.congr rfl fun j inside => ?_⟩
      have held := mem_heldIds own inside
      rw [KvCache.level, others j, KvCache.level]
      exact fun same => absent (List.mem_append_left _ (same ▸ held))
  refine ⟨_, ?_, sound, ⟨rfl, rfl, rfl, rfl, rfl⟩, others⟩
  simp only [evict, get_bind, hb, free, Nat.lt_irrefl, if_false, listed, if_true, set_bind]
  rw [bind_ok dropped, modify_bind]
  exact check_apply sound.check

theorem evict_cases (k : c.Sound) (id : Nat) :
    (c.block? id = none ∧ evict id c = .error (.fault (.violation (.unknownBlock c.host id))) c) ∨
    ∃ b, c.block? id = some b ∧
      ((0 < b.refs ∧
        evict id c = .error (.fault (.violation (.evictReferenced c.host id b.refs))) c) ∨
      (b.refs = 0 ∧ ∃ d, evict id c = .ok () d ∧ d.Sound ∧ Frame c d ∧
        ∀ j, j ≠ id → d.block? j = c.block? j)) := by
  cases hb : c.block? id with
  | none =>
      refine .inl ⟨rfl, ?_⟩
      simp only [evict, get_bind, hb]
      rfl
  | some b =>
      refine .inr ⟨b, rfl, ?_⟩
      rcases Nat.eq_zero_or_pos b.refs with free | held
      · refine .inr ⟨free, ?_⟩
        cases hash : b.hash with
        | some x => exact evict_cached k hb free hash
        | none =>
            have unlisted : c.evictable[b.recency]? ≠ some id := by
              intro listed
              obtain ⟨b', hb', _, hashed, _⟩ := (k.consistent.evictable_iff _ id).mp listed
              rw [hb] at hb'
              rw [← Option.some.inj hb', hash] at hashed
              exact Bool.false_ne_true hashed
            refine ⟨c, ?_, k, .refl, fun _ _ => rfl⟩
            simp only [evict, get_bind, hb, free, Nat.lt_irrefl, if_false, unlisted]
            exact check_apply k.check
      · refine .inl ⟨held, ?_⟩
        simp only [evict, get_bind, hb, held, if_true]
        rfl

end KvOp
end InferenceSim
