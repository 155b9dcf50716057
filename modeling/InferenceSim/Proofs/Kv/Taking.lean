import InferenceSim.Proofs.Kv.Ownership

/-! The operations that an allocation is made of, one by one: taking a reference on a
block that is there, taking a free block and filling it, indexing a full block, and
filling the rest of a block. -/
namespace InferenceSim
open KvCache

namespace KvOp
variable {α β : Type} {c d : KvCache}

@[simp] theorem pure_apply (a : α) : (pure a : KvOp α) c = .ok a c := rfl

@[simp] theorem modify_apply (f : KvCache → KvCache) : (modify f : KvOp PUnit) c = .ok ⟨⟩ (f c) :=
  rfl

theorem bind_ok {x : KvOp α} {a : α} (h : x c = .ok a d) (f : α → KvOp β) :
    (x >>= f) c = f a d := by
  simp only [bind, EStateM.bind, h]

theorem bind_error {x : KvOp α} {e : KvError} (h : x c = .error e d) (f : α → KvOp β) :
    (x >>= f) c = .error e d := by
  simp only [bind, EStateM.bind, h]

@[simp] theorem get_bind (f : KvCache → KvOp β) : (get >>= f : KvOp β) c = f c c := rfl

@[simp] theorem set_bind (f : PUnit → KvOp β) : (set d >>= f : KvOp β) c = f ⟨⟩ d := rfl

@[simp] theorem modify_bind (g : KvCache → KvCache) (f : PUnit → KvOp β) :
    (modify g >>= f : KvOp β) c = f ⟨⟩ (g c) := rfl

/-- A step that is taken under a condition, and what follows in any case. -/
theorem when_bind (cond : Prop) [Decidable cond] (x : KvOp PUnit) (f : KvOp β) :
    (if cond then x >>= fun _ => f else f) = (if cond then x else pure ⟨⟩) >>= fun _ => f := by
  split <;> rfl

theorem check_apply (h : c.check = .ok ()) : check c = .ok () c := by
  simp only [check, get_bind, h, pure_apply]

variable {loose : List Nat} {id : Nat} {b : Block}

theorem acquire_free (hb : c.block? id = some b) (free : b.refs = 0) :
    acquire id c = .ok () { c with
      stamp := c.stamp + 1
      evictable := c.evictable.erase b.recency
      used := c.used + 1
      blocks := c.blocks.insert id { b with refs := b.refs + 1, recency := c.stamp + 1 } } := by
  have found : ({ c with stamp := c.stamp + 1 } : KvCache).block? id = some b := hb
  simp only [acquire, modify_bind, get_bind, found, free, if_true, modify_apply]
  rw [changeBlock_of_some (b := b)]
  · simp [free]
  · exact hb

theorem acquire_held (hb : c.block? id = some b) (held : b.refs ≠ 0) :
    acquire id c = .ok () { c with
      stamp := c.stamp + 1
      blocks := c.blocks.insert id { b with refs := b.refs + 1, recency := c.stamp + 1 } } := by
  have found : ({ c with stamp := c.stamp + 1 } : KvCache).block? id = some b := hb
  simp only [acquire, modify_bind, get_bind, found, held, if_false, modify_apply]
  rw [changeBlock_of_some (b := b)]
  exact hb

theorem acquire_grows (h : c.Consistent loose) (hb : c.block? id = some b)
    (hashed : b.hash.isSome) :
    ∃ d, acquire id c = .ok () d ∧ Grows c loose d (id :: loose) ∧
      (∀ j, d.block? j = if j = id
        then some { b with refs := b.refs + 1, recency := c.stamp + 1 } else c.block? j) ∧
      d.free + (if b.refs = 0 then 1 else 0) = c.free := by
  have full := h.full id b hb (.inl hashed)
  have refs : b.refs + 1 = (c.heldIds ++ id :: loose).count id := by
    rw [h.refs_eq id b hb, List.count_append, List.count_append, List.count_cons_self]
    rfl
  have others : ∀ j, j ≠ id → (id :: loose).count j = loose.count j := fun j other =>
    List.count_cons_of_ne (Ne.symm other)
  have subset : ∀ j ∈ loose, j ∈ id :: loose := fun j held => List.mem_cons_of_mem id held
  have kept : id ∈ c.heldIds ++ loose →
      c.level id = some b.filled ∧ ∀ a, c.hashAt id = some a → b.hash = some a :=
    fun _ => ⟨level_of_block hb, fun a found => hashAt_of_block hb ▸ found⟩
  have unclean : (b.refs + 1 = 0 ∧ b.hash = none) ↔ (b.refs = 0 ∧ b.hash = none) := by
    cases hash : b.hash <;> simp_all
  by_cases free : b.refs = 0
  · have listed := (h.evictable_iff b.recency id).mpr ⟨b, hb, free, hashed, rfl⟩
    have freed := Table.size_erase_of_some listed
    refine ⟨_, acquire_free hb free, Consistent.grows (fun blocks frame => ?_)
      (block?_insert hb rfl rfl) ⟨rfl, rfl, rfl, rfl, rfl⟩ subset kept,
      block?_insert hb rfl rfl, ?_⟩
    · refine h.change hb blocks frame refs others (h.clean_same hb rfl unclean)
        (h.evictable_erased hb listed rfl fun none => Nat.succ_ne_zero b.refs none.1)
        (h.index_same hb rfl rfl) ?_ (Nat.le_succ _) (Nat.le_refl _) (fun _ => full) h.tier
      simp only [KvCache.free]; omega
    · simp only [KvCache.free, free, if_true]; omega
  · refine ⟨_, acquire_held hb free, Consistent.grows (fun blocks frame => ?_)
      (block?_insert hb rfl rfl) ⟨rfl, rfl, rfl, rfl, rfl⟩ subset kept,
      block?_insert hb rfl rfl, ?_⟩
    · exact h.change hb blocks frame refs others (h.clean_same hb rfl unclean)
        (h.evictable_same hb rfl fun r => by simp [free])
        (h.index_same hb rfl rfl) rfl (Nat.le_succ _) (Nat.le_refl _) (fun _ => full) h.tier
    · simp only [KvCache.free, free, if_false]; rfl

theorem onTier_apply (f : HostTier → Nat → Except Violation Unit × HostTier)
    (fine : ∀ t : HostTier, c.tier = some t → (f t c.now).1 = .ok ()) :
    onTier f c = .ok () { c with tier := c.tier.map fun t => (f t c.now).2 } := by
  simp only [onTier, get_bind]
  cases found : c.tier with
  | none =>
      have same : ({ c with tier := none } : KvCache) = c := by rw [← found]
      exact (congrArg (EStateM.Result.ok ()) same).symm
  | some t =>
      simp only [set_bind, fine t found, pure_apply, Option.map_some]

theorem dropContent_apply {x : BlockHash} (hb : c.block? id = some b) (hashed : b.hash = some x)
    (listed : c.index[x]? = some id) (sound : ∀ t : HostTier, c.tier = some t → t.Sound) :
    dropContent id c = .ok () { c with
      blocks := c.blocks.insert id { b with hash := none, filled := 0 }
      evictions := c.evictions + 1
      index := c.index.erase x
      tier := c.tier.map fun t => (t.offload x c.now).2 } := by
  simp only [dropContent, get_bind, hb, Option.bind_some, hashed, modify_bind,
    changeBlock_of_some hb, listed, if_true]
  exact onTier_apply _ fun t found => ((sound t found).offload x c.now).1

theorem takeFree_clean (least : c.clean.min? = some id) :
    takeFree c = .ok (id, false) { c with clean := c.clean.erase id, used := c.used + 1 } := by
  simp only [takeFree, get_bind, least, modify_bind, pure_apply]

theorem takeFree_evict {x : BlockHash} {r : Nat} (h : c.Consistent loose)
    (none_clean : c.clean.min? = none) (oldest : c.evictable.minEntry? = some (r, id))
    (hb : c.block? id = some b) (hashed : b.hash = some x) :
    takeFree c = .ok (id, true) { c with
      evictable := c.evictable.erase r
      blocks := c.blocks.insert id { b with hash := none, filled := 0 }
      evictions := c.evictions + 1
      index := c.index.erase x
      tier := c.tier.map fun t => (t.offload x c.now).2
      used := c.used + 1 } := by
  have listed := (h.index_iff x id).mpr ⟨b, hb, hashed⟩
  have dropped := dropContent_apply (c := { c with evictable := c.evictable.erase r })
    hb hashed listed h.tier
  simp only [takeFree, get_bind, none_clean, oldest, modify_bind]
  rw [bind_ok dropped]
  rfl

theorem fill_of_block (hb : c.block? id = some b) (tokens : Nat) :
    c.fill id tokens = { c with
      stamp := c.stamp + 1
      blocks := c.blocks.insert id ⟨none, 1, tokens, c.stamp + 1⟩ } := by
  rw [KvCache.fill, changeBlock_of_some (b := b)]
  exact hb

theorem fill_grows {e : Block} (h : c.Consistent loose) (hb : c.block? id = some b)
    (free : b.refs = 0) (blocks : ∀ j, d.block? j = if j = id then some e else c.block? j)
    (frame : Frame c d) (stamp : d.stamp = c.stamp)
    (clean : ∀ j, j ∈ d.clean ↔ if j = id then False else j ∈ c.clean)
    (evictable : ∀ r j : Nat, d.evictable[r]? = some j ↔
      if j = id then False else c.evictable[r]? = some j)
    (index : ∀ (a : BlockHash) j, d.index[a]? = some j ↔
      if j = id then False else c.index[a]? = some j)
    (conserved : d.used + d.free = c.used + c.free)
    (tier : ∀ t : HostTier, d.tier = some t → t.Sound) (tokens : Nat) :
    Grows c loose (d.fill id tokens) (id :: loose) ∧
      (∀ j, (d.fill id tokens).block? j =
        if j = id then some ⟨none, 1, tokens, c.stamp + 1⟩ else c.block? j) ∧
      (d.fill id tokens).free = d.free := by
  have absent := h.not_mem_of_refs hb free
  have refs : 1 = (c.heldIds ++ id :: loose).count id := by
    have zero := h.refs_eq id b hb
    rw [List.count_append] at zero
    rw [List.count_append, List.count_cons_self]
    omega
  have here : d.block? id = some e := (blocks id).trans (if_pos rfl)
  rw [fill_of_block here, stamp]
  have filled : ∀ j, _ = if j = id then some ⟨none, 1, tokens, c.stamp + 1⟩ else c.block? j :=
    fun j => (block?_insert (d := { d with
      stamp := c.stamp + 1
      blocks := d.blocks.insert id ⟨none, 1, tokens, c.stamp + 1⟩ }) here rfl rfl j).trans (by
        rw [blocks]
        split <;> rfl)
  refine ⟨Consistent.grows (fun blocks frame => ?_) filled
    ⟨frame.host, frame.blockSize, frame.total, frame.now, frame.held⟩
    (fun j held => List.mem_cons_of_mem id held) (fun held => absurd held absent), filled, rfl⟩
  exact h.change hb blocks frame refs (fun j other => List.count_cons_of_ne (Ne.symm other))
    (fun j => (clean j).trans (by simp)) (fun r j => (evictable r j).trans (by simp))
    (fun a j => (index a j).trans (by simp)) conserved (Nat.le_succ _) (Nat.le_refl _)
    (fun impossible => by simp at impossible) tier

/-- A free block that was taken. It had no holder, and as soon as it is filled it has one. -/
structure Takeable (c : KvCache) (loose : List Nat) (id : Nat) (c₁ : KvCache) : Prop where
  unheld : id ∉ c.heldIds ++ loose
  frame : Frame c c₁
  fills : ∀ tokens : Nat, Grows c loose (c₁.fill id tokens) (id :: loose) ∧
    (∀ j, (c₁.fill id tokens).block? j =
      if j = id then some ⟨none, 1, tokens, c.stamp + 1⟩ else c.block? j) ∧
    (c₁.fill id tokens).free + 1 = c.free

theorem takeFree_takes_clean (h : c.Consistent loose) (least : c.clean.min? = some id) :
    ∃ c₁, takeFree c = .ok (id, false) c₁ ∧ Takeable c loose id c₁ := by
  have inClean := Std.ExtTreeSet.min?_mem least
  obtain ⟨b, hb, free, unhashed⟩ := (h.mem_clean_iff id).mp inClean
  have size := Table.size_erase_of_mem inClean
  refine ⟨_, takeFree_clean least, h.not_mem_of_refs hb free, ⟨rfl, rfl, rfl, rfl, rfl⟩, ?_⟩
  intro tokens
  have same : ∀ j, c.block? j = if j = id then some b else c.block? j := by
    intro j
    split
    · next here => exact here ▸ hb
    · rfl
  obtain ⟨grows, filled, left⟩ := fill_grows
    (d := { c with clean := c.clean.erase id, used := c.used + 1 }) h hb free same
    ⟨rfl, rfl, rfl, rfl, rfl⟩ rfl
    (fun j => (Consistent.clean_erased (e := ⟨none, 1, 0, 0⟩) rfl Nat.one_ne_zero j).trans
      (by simp))
    (fun r j => (h.evictable_same (e := ⟨none, 1, 0, 0⟩) hb rfl
      (fun r => by simp [unhashed]) r j).trans (by simp))
    (fun a j => (h.index_same (e := ⟨none, 1, 0, 0⟩) hb rfl unhashed.symm a j).trans (by simp))
    (by simp only [KvCache.free]; omega) h.tier tokens
  refine ⟨grows, filled, ?_⟩
  rw [left]
  simp only [KvCache.free]
  omega

theorem takeFree_takes_cached (h : c.Consistent loose) (least : c.clean.min? = none)
    (room : 0 < c.free) :
    ∃ id c₁, takeFree c = .ok (id, true) c₁ ∧ Takeable c loose id c₁ := by
  have someEvictable : 0 < c.evictable.size := by
    have zero := Table.size_eq_zero_of_min? least
    simp only [KvCache.free] at room
    omega
  obtain ⟨r, id, oldest⟩ := Table.exists_minEntry? c.evictable someEvictable
  have listed := Table.getElem?_of_minEntry? oldest
  obtain ⟨b, hb, free, hashed, rfl⟩ := (h.evictable_iff r id).mp listed
  obtain ⟨x, hash⟩ := Option.isSome_iff_exists.mp hashed
  have size := Table.size_erase_of_some listed
  have sound : ∀ t : HostTier, c.tier.map (fun t => (t.offload x c.now).2) = some t → t.Sound := by
    intro t found
    obtain ⟨t', ht', rfl⟩ := Option.map_eq_some_iff.mp found
    exact ((h.tier t' ht').offload x c.now).2
  refine ⟨id, _, takeFree_evict h least oldest hb hash, h.not_mem_of_refs hb free,
    ⟨rfl, rfl, rfl, rfl, rfl⟩, ?_⟩
  intro tokens
  have dropped := block?_insert (e := { b with hash := none, filled := 0 })
    (d := { c with
      evictable := c.evictable.erase b.recency
      blocks := c.blocks.insert id { b with hash := none, filled := 0 }
      evictions := c.evictions + 1
      index := c.index.erase x
      tier := c.tier.map fun t => (t.offload x c.now).2
      used := c.used + 1 }) hb rfl rfl
  obtain ⟨grows, filled, left⟩ := fill_grows h hb free dropped ⟨rfl, rfl, rfl, rfl, rfl⟩ rfl
    (fun j => (h.clean_same (e := ⟨none, 1, 0, 0⟩) hb rfl (by simp [hash]) j).trans (by simp))
    (fun r j => (h.evictable_erased (e := ⟨none, 1, 0, 0⟩) hb listed rfl (by simp) r j).trans
      (by simp))
    (fun a j => (h.index_erased (e := ⟨none, 1, 0, 0⟩) hb hash rfl rfl a j).trans (by simp))
    (by simp only [KvCache.free]; omega) sound tokens
  refine ⟨grows, filled, ?_⟩
  rw [left]
  simp only [KvCache.free]
  omega

theorem takeFree_ok (h : c.Consistent loose) (room : 0 < c.free) :
    ∃ id evicting c₁, takeFree c = .ok (id, evicting) c₁ ∧ Takeable c loose id c₁ := by
  cases least : c.clean.min? with
  | some id =>
      obtain ⟨c₁, done, taken⟩ := takeFree_takes_clean h least
      exact ⟨id, false, c₁, done, taken⟩
  | none =>
      obtain ⟨id, c₁, done, taken⟩ := takeFree_takes_cached h least room
      exact ⟨id, true, c₁, done, taken⟩

theorem hashAt_register (c : KvCache) (id : Nat) (x : BlockHash) (j : Nat) :
    (c.register id x).hashAt j = c.hashAt j ∨
      j = id ∧ (c.register id x).hashAt j = some x := by
  unfold KvCache.register
  split
  · exact .inl rfl
  · cases hb : c.block? id with
    | none =>
        have same : c.changeBlock id (fun b => { b with hash := some x }) = c := by
          simp only [changeBlock, hb]
        rw [same]
        exact .inl rfl
    | some b =>
        rw [changeBlock_of_some hb]
        have blocks := block?_insert (e := { b with hash := some x })
          (d := { c with
            blocks := c.blocks.insert id { b with hash := some x }
            index := c.index.insert x id }) hb rfl rfl j
        by_cases here : j = id
        · rw [if_pos here] at blocks
          exact .inr ⟨here, hashAt_of_block blocks⟩
        · rw [if_neg here] at blocks
          rw [hashAt, blocks]
          exact .inl rfl

theorem hashAt_registerAt (c : KvCache) (hashes : List BlockHash) (place id j : Nat) :
    (c.registerAt hashes place id).hashAt j = c.hashAt j ∨
      j = id ∧ (c.registerAt hashes place id).hashAt j = hashes[place]? := by
  unfold KvCache.registerAt
  split
  · next x found =>
    rw [found]
    exact hashAt_register c id x j
  · exact .inl rfl

theorem register_grows (h : c.Consistent loose) (hb : c.block? id = some b)
    (unhashed : b.hash = none) (held : b.refs ≠ 0) (full : b.filled = c.blockSize)
    (x : BlockHash) :
    Grows c loose (c.register id x) loose ∧
      (∀ j, (c.register id x).level j = c.level j) ∧ (c.register id x).free = c.free := by
  unfold KvCache.register
  split
  · exact ⟨.refl h, fun _ => rfl, rfl⟩
  · next absent =>
    have missing : c.index[x]? = none := Std.ExtTreeMap.getElem?_eq_none fun found =>
      absent (Std.ExtTreeMap.contains_iff_mem.mpr found)
    rw [changeBlock_of_some hb]
    have blocks := block?_insert (e := { b with hash := some x })
      (d := { c with
        blocks := c.blocks.insert id { b with hash := some x }
        index := c.index.insert x id }) hb rfl rfl
    refine ⟨Consistent.grows (fun blocks frame => ?_) blocks ⟨rfl, rfl, rfl, rfl, rfl⟩
      (fun _ inLoose => inLoose) (fun _ => ⟨(level_of_block hb).trans rfl, fun a found => ?_⟩),
      ?_, rfl⟩
    · exact h.change hb blocks frame (h.refs_eq id b hb) (fun _ _ => rfl)
        (h.clean_same hb rfl (by simp [held])) (h.evictable_same hb rfl (by simp [held]))
        (h.index_inserted hb unhashed missing rfl rfl) rfl (Nat.le_refl _)
        (h.recency_le id b hb) (fun _ => full) h.tier
    · rw [hashAt_of_block hb, unhashed] at found
      exact absurd found (Option.some_ne_none a).symm
    · intro j
      rw [level, blocks, level]
      split
      · next here => rw [here, hb]; rfl
      · rfl

theorem registerAt_grows (h : c.Consistent loose) (hb : c.block? id = some b)
    (unhashed : b.hash = none) (held : b.refs ≠ 0) (full : b.filled = c.blockSize)
    (hashes : List BlockHash) (place : Nat) :
    Grows c loose (c.registerAt hashes place id) loose ∧
      (∀ j, (c.registerAt hashes place id).level j = c.level j) ∧
      (c.registerAt hashes place id).free = c.free := by
  unfold KvCache.registerAt
  split
  · exact register_grows h hb unhashed held full _
  · exact ⟨.refl h, fun _ => rfl, rfl⟩

end KvOp
end InferenceSim
