import InferenceSim.Proofs.Kv.Labels
import InferenceSim.Proofs.Kv.Taking
import Mathlib.Data.List.Forall2

/-! How a holding backs its tokens. Its blocks are filled in order, all but the last of
them to the brim; an allocation fills the last block first and then takes new ones. -/
namespace InferenceSim
open KvCache

/-- The blocks of a holding are as many as its tokens need, and filled in order. -/
structure Backed (c : KvCache) (h : Holding) : Prop where
  enough : h.tokens ≤ h.blocks.length * c.blockSize
  tight : h.blocks.length * c.blockSize < h.tokens + c.blockSize
  level : ∀ i id : Nat, h.blocks[i]? = some id →
    c.level id = some (min c.blockSize (h.tokens - i * c.blockSize))

namespace Backed
variable {c d : KvCache} {h : Holding}

theorem congr (k : Backed c h) (blockSize : d.blockSize = c.blockSize)
    (level : ∀ id ∈ h.blocks, d.level id = c.level id) : Backed d h where
  enough := blockSize ▸ k.enough
  tight := blockSize ▸ k.tight
  level i id place := by
    rw [level id (List.mem_of_getElem? place), blockSize]
    exact k.level i id place

theorem level_full (k : Backed c h) {i id : Nat} (place : h.blocks[i]? = some id)
    (beyond : (i + 1) * c.blockSize ≤ h.tokens) : c.level id = some c.blockSize := by
  rw [k.level i id place]
  rw [Nat.succ_mul] at beyond
  congr 1
  omega

theorem snoc (k : Backed c h) (full : h.tokens = h.blocks.length * c.blockSize)
    {id add : Nat} (blockSize : d.blockSize = c.blockSize)
    (level : ∀ j ∈ h.blocks, d.level j = c.level j) (here : d.level id = some add)
    (positive : 0 < add) (bounded : add ≤ c.blockSize) :
    Backed d ⟨h.blocks ++ [id], h.tokens + add⟩ where
  enough := by
    rw [List.length_append, List.length_singleton, Nat.succ_mul, blockSize]
    simp only
    omega
  tight := by
    rw [List.length_append, List.length_singleton, Nat.succ_mul, blockSize]
    simp only
    omega
  level i j place := by
    rw [blockSize]
    rcases Nat.lt_or_ge i h.blocks.length with inside | last
    · rw [List.getElem?_append_left inside] at place
      have upto := Nat.mul_le_mul_right c.blockSize (Nat.succ_le_of_lt inside)
      rw [level j (List.mem_of_getElem? place), k.level_full place (full ▸ upto)]
      rw [Nat.succ_mul] at upto
      simp only
      congr 1
      omega
    · rw [List.getElem?_append_right last, List.getElem?_singleton] at place
      split at place
      · next atEnd =>
        have same : i = h.blocks.length := by omega
        rw [← Option.some.inj place, here, same, ← full]
        simp only
        congr 1
        omega
      · exact absurd place (Option.some_ne_none j).symm

theorem last_place {first : List Nat} {last i : Nat} (k : Backed c h)
    (blocks : h.blocks = first ++ [last]) (room : h.tokens < h.blocks.length * c.blockSize)
    (place : h.blocks[i]? = some last) : i = first.length := by
  have tight := k.tight
  have here := k.level first.length last (by simp [blocks])
  have inside := (List.getElem?_eq_some_iff.mp place).1
  rw [blocks, List.length_append, List.length_singleton] at inside
  rw [blocks, List.length_append, List.length_singleton, Nat.succ_mul] at room tight
  rcases Nat.lt_or_ge i first.length with before | atEnd
  · have upto : (i + 1) * c.blockSize ≤ first.length * c.blockSize :=
      Nat.mul_le_mul_right c.blockSize before
    have levels := Option.some.inj ((k.level_full place (by omega)).symm.trans here)
    omega
  · omega

theorem fillLast {first : List Nat} {last add : Nat} (k : Backed c h)
    (blocks : h.blocks = first ++ [last]) (fits : h.tokens + add ≤ h.blocks.length * c.blockSize)
    (blockSize : d.blockSize = c.blockSize)
    (level : ∀ j, d.level j = if j = last then some (h.tokens - first.length * c.blockSize + add)
      else c.level j)
    (room : h.tokens < h.blocks.length * c.blockSize) :
    Backed d ⟨h.blocks, h.tokens + add⟩ where
  enough := blockSize ▸ fits
  tight := by
    have tight := k.tight
    rw [blockSize]
    simp only
    omega
  level i j place := by
    have tight := k.tight
    rw [blocks, List.length_append, List.length_singleton, Nat.succ_mul] at fits room tight
    simp only [blocks] at place
    show d.level j = some (min d.blockSize (h.tokens + add - i * d.blockSize))
    rw [level, blockSize]
    rcases Nat.lt_or_ge i first.length with inside | atEnd
    · have upto : (i + 1) * c.blockSize ≤ first.length * c.blockSize :=
        Nat.mul_le_mul_right c.blockSize inside
      have full := k.level_full (show h.blocks[i]? = some j by rw [blocks]; exact place) (by omega)
      have other : j ≠ last := fun same =>
        Nat.ne_of_lt inside (k.last_place blocks
          (by rw [blocks, List.length_append, List.length_singleton, Nat.succ_mul]; omega)
          (by rw [blocks]; exact same ▸ place))
      rw [if_neg other, full]
      rw [Nat.succ_mul] at upto
      congr 1
      omega
    · rw [List.getElem?_append_right atEnd, List.getElem?_singleton] at place
      split at place
      · next here =>
        have same : i = first.length := by omega
        rw [if_pos (Option.some.inj place).symm, same]
        congr 1
        omega
      · exact absurd place (Option.some_ne_none j).symm

end Backed

namespace KvOp
variable {c d e : KvCache} {loose taken : List Nat} {h : Holding}

/-- A step within an allocation that takes free blocks. -/
structure Takes (c : KvCache) (loose : List Nat) (d : KvCache) (taken : List Nat) : Prop where
  grows : Grows c loose d (taken ++ loose)
  nodup : taken.Nodup
  unheld : ∀ id ∈ taken, id ∉ c.heldIds ++ loose
  hashAt : ∀ id ∈ c.heldIds ++ loose, d.hashAt id = c.hashAt id
  free : d.free + taken.length = c.free

theorem Takes.refl (k : c.Consistent loose) : Takes c loose c [] :=
  ⟨.refl k, List.nodup_nil, fun _ inNil => absurd inNil List.not_mem_nil, fun _ _ => rfl, rfl⟩

theorem Takes.trans {more : List Nat} (k : Takes c loose d taken)
    (l : Takes d (taken ++ loose) e more) : Takes c loose e (more ++ taken) where
  grows := List.append_assoc more taken loose ▸ k.grows.trans l.grows
  nodup := by
    refine List.nodup_append.mpr ⟨l.nodup, k.nodup, fun id new id' old same => ?_⟩
    subst same
    refine l.unheld id new ?_
    exact List.mem_append_right _ (List.mem_append_left _ old)
  unheld id inBoth := by
    rcases List.mem_append.mp inBoth with new | old
    · exact fun held => l.unheld id new (k.grows.mem held)
    · exact k.unheld id old
  hashAt id held := (l.hashAt id (k.grows.mem held)).trans (k.hashAt id held)
  free := by
    have first := k.free
    have second := l.free
    rw [List.length_append]
    omega

/-- An operation of one request that leaves what the others hold as it is. -/
structure Spares (c : KvCache) (loose : List Nat) (d : KvCache) (kept : List Nat) : Prop where
  consistent : d.Consistent kept
  subset : ∀ id ∈ loose, id ∈ kept
  frame : Frame c d
  level : ∀ id ∈ c.heldIds, d.level id = c.level id
  same : ∀ id ∈ c.heldIds, d.hashAt id = c.hashAt id
  hashAt : ∀ id ∈ c.heldIds ++ loose, ∀ a, c.hashAt id = some a → d.hashAt id = some a

theorem Spares.of_grows {kept : List Nat} (k : Grows c loose d kept)
    (same : ∀ id ∈ c.heldIds ++ loose, d.hashAt id = c.hashAt id) : Spares c loose d kept :=
  ⟨k.consistent, k.subset, k.frame, fun id held => k.level id (List.mem_append_left _ held),
    fun id held => same id (List.mem_append_left _ held), k.hashAt⟩

theorem Spares.mem {kept : List Nat} {id : Nat} (k : Spares c loose d kept)
    (inside : id ∈ c.heldIds ++ loose) : id ∈ d.heldIds ++ kept := by
  rw [k.frame.heldIds]
  exact List.mem_append.mpr ((List.mem_append.mp inside).imp_right (k.subset id))

theorem Spares.trans {kept more : List Nat} (k : Spares c loose d kept)
    (l : Spares d kept e more) : Spares c loose e more where
  consistent := l.consistent
  subset id inLoose := l.subset id (k.subset id inLoose)
  frame := k.frame.trans l.frame
  level id held := (l.level id (k.frame.heldIds.symm ▸ held)).trans (k.level id held)
  same id held := (l.same id (k.frame.heldIds.symm ▸ held)).trans (k.same id held)
  hashAt id inAll a found := l.hashAt id (k.mem inAll) a (k.hashAt id inAll a found)

theorem takeFree_takes (k : c.Consistent loose) (room : 0 < c.free) :
    ∃ id evicting c₁, takeFree c = .ok (id, evicting) c₁ ∧ Frame c c₁ ∧
      (∀ tokens : Nat, (c₁.fill id tokens).hashAt id = none) ∧
      ∀ d : KvCache, ∀ tokens : Nat,
        (d = c₁.fill id tokens ∨ (∃ x, d = (c₁.fill id tokens).register id x) ∧
          tokens = c.blockSize) →
        Takes c loose d [id] ∧ d.level id = some tokens := by
  obtain ⟨id, evicting, c₁, done, unheld, frame, filled⟩ := takeFree_ok k room
  refine ⟨id, evicting, c₁, done, frame,
    fun tokens => hashAt_of_block (((filled tokens).2.1 id).trans (if_pos rfl)), ?_⟩
  intro d tokens made
  obtain ⟨grows, blocks, free⟩ := filled tokens
  have block := (blocks id).trans (if_pos rfl)
  have alone : ∀ j ∈ [id], j ∉ c.heldIds ++ loose := by
    intro j same
    rw [List.mem_singleton.mp same]
    exact unheld
  have same : ∀ j ∈ c.heldIds ++ loose, (c₁.fill id tokens).hashAt j = c.hashAt j := by
    intro j held
    rw [hashAt, blocks, if_neg fun here : j = id => unheld (here ▸ held), hashAt]
  rcases made with rfl | ⟨⟨x, rfl⟩, full⟩
  · exact ⟨⟨grows, List.pairwise_singleton _ id, alone, same, free⟩, level_of_block block⟩
  · obtain ⟨indexed, level, free'⟩ := register_grows grows.consistent block rfl Nat.one_ne_zero
      (full.trans grows.frame.blockSize.symm) x
    refine ⟨⟨grows.trans indexed, List.pairwise_singleton _ id, alone, ?_, ?_⟩, ?_⟩
    · intro j held
      rcases hashAt_register (c₁.fill id tokens) id x j with kept | ⟨rfl, _⟩
      · exact kept.trans (same j held)
      · exact absurd held unheld
    · rw [free']
      exact free
    · rw [level]
      exact level_of_block block

/-- The blocks on the device among the matched ones. -/
def deviceIds (attach : List MatchedBlock) : List Nat :=
  attach.filterMap fun m => match m with
    | .device id => some id
    | .offloaded _ => none

/-- The hashes in the host tier among the matched blocks. -/
def offloadedHashes (attach : List MatchedBlock) : List BlockHash :=
  attach.filterMap fun m => match m with
    | .offloaded hash => some hash
    | .device _ => none

theorem acquireMatched_grows {attach : List MatchedBlock} (k : c.Consistent loose)
    (matched : ∀ id ∈ deviceIds attach, (c.hashAt id).isSome) :
    ∃ d, acquireMatched attach c = .ok () d ∧
      Grows c loose d ((deviceIds attach).reverse ++ loose) ∧
      c.free ≤ d.free + c.reserved attach ∧ d.hashAt = c.hashAt ∧
      ∀ id ∈ deviceIds attach, d.level id = some c.blockSize := by
  induction attach generalizing c loose with
  | nil => exact ⟨c, rfl, .refl k, Nat.le_refl _, rfl, List.forall_mem_nil _⟩
  | cons m rest ih =>
      cases m with
      | offloaded x =>
          obtain ⟨d, done, grows, free, hashes, level⟩ := ih k matched
          have same : c.reserved (.offloaded x :: rest) = c.reserved rest := by
            rw [reserved, reserved, List.countP_cons_of_neg (by simp)]
          exact ⟨d, done, grows, Nat.le_trans free (Nat.add_le_add_left
            (Nat.le_of_eq same.symm) _), hashes, level⟩
      | device id =>
          obtain ⟨x, hash⟩ := Option.isSome_iff_exists.mp (matched id List.mem_cons_self)
          obtain ⟨b, hb, hashed⟩ := Option.bind_eq_some_iff.mp hash
          obtain ⟨c₁, done, grows, blocks, free⟩ :=
            acquire_grows k hb (Option.isSome_iff_exists.mpr ⟨x, hashed⟩)
          have same : c₁.hashAt = c.hashAt := by
            funext j
            rw [hashAt, blocks]
            split
            · next here => rw [here, hashAt_of_block hb]; rfl
            · rfl
          obtain ⟨d, done', grows', free', hashes, level⟩ := ih grows.consistent
            fun j inRest => same ▸ matched j (List.mem_cons_of_mem _ inRest)
          have fewer : c₁.reserved rest ≤ c.reserved rest := by
            refine List.countP_mono_left fun m _ isFree => ?_
            cases m with
            | offloaded _ => exact isFree
            | device j =>
                simp only [refs?, blocks, decide_eq_true_eq] at isFree
                split at isFree
                · simp at isFree
                · exact decide_eq_true isFree
          have counted : c.reserved (.device id :: rest) =
              c.reserved rest + if b.refs = 0 then 1 else 0 := by
            simp only [reserved, List.countP_cons, refs?, hb, Option.map_some, Option.some.injEq,
              decide_eq_true_eq]
          refine ⟨d, ?_, ?_, ?_, hashes.trans same, ?_⟩
          · rw [acquireMatched, bind_ok done]
            exact done'
          · refine (grows.trans grows').perm ?_
            simp [deviceIds]
          · omega
          · intro j inIds
            rw [← grows.frame.blockSize]
            rcases List.mem_cons.mp inIds with rfl | later
            · rw [grows'.level j (by simp), grows.frame.blockSize, level_of_block
                ((blocks j).trans (if_pos rfl))]
              exact congrArg some (k.full j b hb (.inl (Option.isSome_iff_exists.mpr ⟨x, hashed⟩)))
            · exact level j later

/-- The place of a matched block is a full block. It carries the hash that the matched
block stands for, or none. -/
structure Placed (c : KvCache) (m : MatchedBlock) (id : Nat) : Prop where
  full : c.level id = some c.blockSize
  tagged : ∀ a, c.hashAt id = some a → c.tag m = some a

theorem takeFree_places (x : BlockHash) (k : c.Consistent loose) (room : 0 < c.free) :
    ∃ id evicting c₁ d, takeFree c = .ok (id, evicting) c₁ ∧
      d = (c₁.fill id c₁.blockSize).register id x ∧ Takes c loose d [id] ∧
      Placed d (.offloaded x) id := by
  obtain ⟨id, evicting, c₁, done, frame, bare, made⟩ := takeFree_takes k room
  have size : c₁.blockSize = c.blockSize := frame.blockSize
  obtain ⟨takes, level⟩ := made _ c.blockSize (.inr ⟨⟨x, rfl⟩, rfl⟩)
  refine ⟨id, evicting, c₁, _, done, rfl, size ▸ takes, ?_, fun a hash => ?_⟩
  · rw [size, takes.grows.frame.blockSize]
    exact level
  · rcases hashAt_register (c₁.fill id c₁.blockSize) id x id with kept | ⟨_, here⟩
    · cases (bare c₁.blockSize).symm.trans (kept.symm.trans hash)
    · exact here.symm.trans hash

theorem Placed.kept {x : BlockHash} {id : Nat} {taken : List Nat} (p : Placed c (.offloaded x) id)
    (takes : Takes c loose d taken) (inLoose : id ∈ loose) : Placed d (.offloaded x) id where
  full := by
    rw [takes.grows.level id (List.mem_append_right _ inLoose), takes.grows.frame.blockSize]
    exact p.full
  tagged a hash :=
    p.tagged a ((takes.hashAt id (List.mem_append_right _ inLoose)).symm.trans hash)

theorem placeMatched_takes (attach : List MatchedBlock) (k : c.Consistent loose)
    (held : ∀ id ∈ deviceIds attach, id ∈ loose ∧ c.level id = some c.blockSize)
    (room : (PrefixMatch.mk attach 0).offloadedBlocks ≤ c.free) :
    ∃ ids evicted d taken, placeMatched attach c = .ok (ids, evicted) d ∧
      Takes c loose d taken ∧ ids.Perm (deviceIds attach ++ taken) ∧
      taken.length = (PrefixMatch.mk attach 0).offloadedBlocks ∧
      List.Forall₂ (Placed d) attach ids := by
  induction attach generalizing c loose with
  | nil => exact ⟨[], 0, c, [], rfl, .refl k, .refl _, rfl, .nil⟩
  | cons m rest ih =>
      cases m with
      | device id =>
          obtain ⟨ids, evicted, d, taken, done, takes, perm, count, placed⟩ :=
            ih k (fun j inRest => held j (List.mem_cons_of_mem _ inRest)) room
          obtain ⟨inLoose, full⟩ := held id List.mem_cons_self
          refine ⟨id :: ids, evicted, d, taken, ?_, takes, perm.cons id, count,
            .cons ⟨?_, fun _ hash => hash⟩ placed⟩
          · rw [placeMatched, bind_ok done]
            rfl
          · rw [takes.grows.level id (List.mem_append_right _ inLoose),
              takes.grows.frame.blockSize]
            exact full
      | offloaded x =>
          have split : (PrefixMatch.mk (.offloaded x :: rest) 0).offloadedBlocks =
              (PrefixMatch.mk rest 0).offloadedBlocks + 1 := List.countP_cons_of_pos rfl
          obtain ⟨id, evicting, c₁, d, done, made, takes, here⟩ := takeFree_places x k (by omega)
          have free := takes.free
          rw [List.length_singleton] at free
          obtain ⟨ids, evicted, e, taken, done', takes', perm, count, placed⟩ :=
            ih takes.grows.consistent
              (fun j inRest =>
                have known := held j inRest
                ⟨List.mem_append_right _ known.1, by
                  rw [takes.grows.level j (List.mem_append_right _ known.1),
                    takes.grows.frame.blockSize]
                  exact known.2⟩)
              (by omega)
          refine ⟨id :: ids, if evicting then evicted + 1 else evicted, e, taken ++ [id], ?_,
            takes.trans takes', ?_, ?_, .cons (here.kept takes' List.mem_cons_self) placed⟩
          · rw [placeMatched, bind_ok done]
            simp only [modify_bind]
            rw [← made, bind_ok done']
            rfl
          · refine (perm.cons id).trans ?_
            rw [← List.append_assoc]
            exact (List.perm_append_singleton id _).symm
          · rw [List.length_append, count, split]
            rfl

theorem takeFree_registers (hashes : List BlockHash) (place add : Nat) (k : c.Consistent loose)
    (room : 0 < c.free) :
    ∃ id evicting c₁ d, takeFree c = .ok (id, evicting) c₁ ∧ c₁.blockSize = c.blockSize ∧
      d = (if add = (c₁.fill id add).blockSize then (c₁.fill id add).registerAt hashes place id
        else c₁.fill id add) ∧
      Takes c loose d [id] ∧ d.level id = some add ∧
      ∀ a, d.hashAt id = some a → hashes[place]? = some a := by
  obtain ⟨id, evicting, c₁, done, frame, bare, made⟩ := takeFree_takes k room
  obtain ⟨d, hd⟩ : ∃ d, d = (if add = (c₁.fill id add).blockSize
    then (c₁.fill id add).registerAt hashes place id else c₁.fill id add) := ⟨_, rfl⟩
  have named : ∀ a, d.hashAt id = some a → hashes[place]? = some a := by
    intro a hash
    rw [hd] at hash
    split at hash
    · rcases hashAt_registerAt (c₁.fill id add) hashes place id id with kept | ⟨_, here⟩
      · cases (bare add).symm.trans (kept.symm.trans hash)
      · exact here.symm.trans hash
    · cases (bare add).symm.trans hash
  have outcome : d = c₁.fill id add ∨
      (∃ x, d = (c₁.fill id add).register id x) ∧ add = c.blockSize := by
    rw [hd]
    split
    · next brim =>
      unfold KvCache.registerAt
      split
      · exact .inr ⟨⟨_, rfl⟩, brim.trans (made _ add (.inl rfl)).1.grows.frame.blockSize⟩
      · exact .inl rfl
    · exact .inl rfl
  obtain ⟨takes, level⟩ := made d add outcome
  exact ⟨id, evicting, c₁, d, done, frame.blockSize, hd, takes, level, named⟩

theorem next_fits {n size count tokens goal add : Nat} (filled : tokens = count * size)
    (upto : goal ≤ tokens + (n + 1) * size) (tight : tokens + (n + 1) * size < goal + size)
    (hadd : add = min size (goal - tokens)) :
    0 < add ∧ tokens + add ≤ goal ∧ goal ≤ tokens + add + n * size ∧
      (0 < n → tokens + add = (count + 1) * size ∧ tokens + add + n * size < goal + size) := by
  rw [Nat.succ_mul] at upto tight
  refine ⟨by omega, by omega, by omega, fun more => ?_⟩
  have one := Nat.mul_le_mul_right size more
  rw [Nat.succ_mul]
  omega

theorem extend_takes (hashes : List BlockHash) {goal : Nat} (count : Nat) (k : c.Consistent loose)
    (backed : Backed c h) (held : ∀ id ∈ h.blocks, id ∈ loose)
    (below : h.tokens ≤ goal) (upto : goal ≤ h.tokens + count * c.blockSize)
    (full : 0 < count → h.tokens = h.blocks.length * c.blockSize ∧
      h.tokens + count * c.blockSize < goal + c.blockSize)
    (room : count ≤ c.free) :
    ∃ blocks evicted d taken,
      extend hashes goal count h c = .ok (⟨h.blocks ++ blocks, goal⟩, evicted) d ∧
      Takes c loose d taken ∧ blocks.Perm taken ∧ taken.length = count ∧
      Backed d ⟨h.blocks ++ blocks, goal⟩ ∧
      ∀ (i j : Nat) (a : BlockHash), blocks[i]? = some j → d.hashAt j = some a →
        hashes[h.blocks.length + i]? = some a := by
  induction count generalizing c loose h with
  | zero =>
      have same : h = ⟨h.blocks ++ [], goal⟩ := by
        rw [List.append_nil, show goal = h.tokens by omega]
      refine ⟨[], 0, c, [], ?_, .refl k, .refl _, rfl, same ▸ backed,
        fun _ _ _ place => by cases place⟩
      rw [← same]
      rfl
  | succ n ih =>
      obtain ⟨filled, tight⟩ := full (Nat.succ_pos n)
      obtain ⟨add, hadd⟩ : ∃ add, add = min c.blockSize (goal - h.tokens) := ⟨_, rfl⟩
      obtain ⟨positive, below', upto', full'⟩ := next_fits filled upto tight hadd
      obtain ⟨id, evicting, c₁, d, done, size, made, takes, level, named⟩ :=
        takeFree_registers hashes h.blocks.length add k (by omega)
      have blockSize : d.blockSize = c.blockSize := takes.grows.frame.blockSize
      have kept : ∀ j ∈ h.blocks, d.level j = c.level j := fun j inside =>
        takes.grows.level j (List.mem_append_right _ (held j inside))
      have inLoose : ∀ j ∈ h.blocks ++ [id], j ∈ [id] ++ loose := by
        intro j inside
        rcases List.mem_append.mp inside with old | new
        · exact takes.grows.subset j (held j old)
        · exact List.mem_append_left _ new
      have free := takes.free
      obtain ⟨blocks, evicted, e, more, rest, takes', perm, length, backed', named'⟩ :=
        ih (h := ⟨h.blocks ++ [id], h.tokens + add⟩) takes.grows.consistent
          (backed.snoc filled blockSize kept level positive (hadd ▸ Nat.min_le_left _ _))
          inLoose below' (blockSize.symm ▸ upto')
          (by rwa [blockSize, List.length_append, List.length_singleton])
          (by rw [List.length_singleton] at free; omega)
      refine ⟨id :: blocks, if evicting then evicted + 1 else evicted, e, more ++ [id], ?_,
        takes.trans takes', ?_, ?_, ?_, ?_⟩
      · simp only [extend]
        rw [bind_ok done]
        simp only [get_bind, modify_bind, size, ← hadd]
        refine (congrArg _ made.symm).trans ?_
        rw [bind_ok rest, pure_apply]
        simp only [List.append_assoc, List.singleton_append]
      · exact (perm.cons id).trans (List.perm_append_singleton id more).symm
      · rw [List.length_append, length, List.length_singleton]
      · simpa using backed'
      · intro i j a place hash
        cases i with
        | zero =>
            obtain rfl := Option.some.inj place
            exact named a ((takes'.hashAt id (by simp)).symm.trans hash)
        | succ i =>
            have later := named' i j a place hash
            rwa [List.length_append, List.length_singleton, Nat.add_assoc, Nat.add_comm 1 i]
              at later

theorem partial_block {id : Nat} (k : c.Consistent loose) (inLoose : id ∈ loose)
    (room : ∀ n : Nat, c.level id = some n → n < c.blockSize) (inside : id < c.total) :
    ∃ b, c.block? id = some b ∧ b.hash = none ∧ b.refs = 1 ∧ id ∉ c.heldIds := by
  obtain ⟨b, hb⟩ := exists_block inside
  have short := room b.filled (level_of_block hb)
  have unfull : ¬ (b.hash.isSome ∨ 2 ≤ b.refs) := fun shared =>
    Nat.ne_of_lt short (k.full id b hb shared)
  have positive := k.refs_pos hb (List.mem_append_right _ inLoose)
  have refs := k.refs_eq id b hb
  have counted := List.count_pos_iff.mpr inLoose
  rw [List.count_append] at refs
  refine ⟨b, hb, ?_, by omega, fun also => ?_⟩
  · exact Option.not_isSome_iff_eq_none.mp fun hashed => unfull (.inl hashed)
  · have twice := List.count_pos_iff.mpr also
    exact unfull (.inr (by omega))

theorem topUp_noRoom (hashes : List BlockHash) (goal : Nat) :
    topUp hashes 0 goal h c = .ok h c := by
  simp only [topUp, if_true]
  cases h.blocks.getLast? <;> rfl

theorem refill_spares (hashes : List BlockHash) (place add : Nat) (k : c.Consistent loose)
    {last : Nat} {b : Block} (hb : c.block? last = some b) (unhashed : b.hash = none)
    (single : b.refs = 1) (alone : last ∉ c.heldIds) :
    ∃ c₁ d, c₁ = { c with
        blocks := c.blocks.insert last { b with filled := b.filled + add } } ∧
      d = (if (c₁.block? last).map (·.filled) = some c₁.blockSize
        then c₁.registerAt hashes place last else c₁) ∧
      Spares c loose d loose ∧ d.free = c.free ∧
      (∀ j, d.level j = if j = last then some (b.filled + add) else c.level j) ∧
      ∀ j, d.hashAt j = c.hashAt j ∨ j = last ∧ d.hashAt j = hashes[place]? := by
  obtain ⟨c₁, c₁Eq⟩ : ∃ c₁, c₁ = { c with
    blocks := c.blocks.insert last { b with filled := b.filled + add } } := ⟨_, rfl⟩
  have changed : ∀ j, c₁.block? j =
      if j = last then some { b with filled := b.filled + add } else c.block? j :=
    c₁Eq ▸ block?_insert hb rfl rfl
  have frame : Frame c c₁ := c₁Eq ▸ ⟨rfl, rfl, rfl, rfl, rfl⟩
  have consistent : c₁.Consistent loose := by
    refine k.change hb changed frame (k.refs_eq last b hb) (fun _ _ => rfl)
      (k.clean_same hb ?_ Iff.rfl) (k.evictable_same hb ?_ fun _ => Iff.rfl)
      (k.index_same hb ?_ rfl) ?_ (Nat.le_of_eq ?_)
      (Nat.le_trans (k.recency_le last b hb) (Nat.le_of_eq ?_))
      (fun shared => by simp [unhashed, single] at shared) ?_
    all_goals subst c₁Eq
    all_goals first | rfl | exact k.tier
  obtain ⟨d, dEq, grows, same, free⟩ : ∃ d, d = (if (c₁.block? last).map (·.filled) =
      some c₁.blockSize then c₁.registerAt hashes place last else c₁) ∧
      Grows c₁ loose d loose ∧ (∀ j, d.level j = c₁.level j) ∧ d.free = c₁.free := by
    have here := (changed last).trans (if_pos rfl)
    refine ⟨_, rfl, ?_⟩
    split
    · next full =>
      rw [here] at full
      exact registerAt_grows consistent here unhashed (single ▸ Nat.one_ne_zero)
        (Option.some.inj full) hashes _
    · exact ⟨.refl consistent, fun _ => rfl, rfl⟩
  have levels : ∀ j, d.level j = if j = last then some (b.filled + add) else c.level j := by
    intro j
    rw [same, KvCache.level, changed]
    split <;> rfl
  have unnamed : ∀ j, c₁.hashAt j = c.hashAt j := by
    intro j
    rw [hashAt, changed]
    split
    · next here => rw [here, hashAt_of_block hb]; rfl
    · rfl
  have hashes' : ∀ j, d.hashAt j = c.hashAt j ∨ j = last ∧ d.hashAt j = hashes[place]? := by
    intro j
    rw [dEq, ← unnamed]
    split
    · exact hashAt_registerAt c₁ hashes place last j
    · exact .inl rfl
  refine ⟨c₁, d, c₁Eq, dEq, ⟨grows.consistent, fun _ inLoose => inLoose, frame.trans grows.frame,
    ?_, ?_, ?_⟩, free.trans (by rw [c₁Eq]; rfl), levels, hashes'⟩
  · intro id other
    rw [levels, if_neg fun (here : id = last) => alone (here ▸ other)]
  · intro id other
    exact (hashes' id).resolve_right fun last => alone (last.1 ▸ other)
  · intro id inAll a found
    exact grows.hashAt id (frame.heldIds.symm ▸ inAll) a ((unnamed id).trans found)

theorem topUp_backs (hashes : List BlockHash) (goal : Nat) (k : c.Consistent loose)
    (backed : Backed c h) (held : ∀ id ∈ h.blocks, id ∈ loose) {room add : Nat}
    (hroom : room = h.blocks.length * c.blockSize - h.tokens)
    (hadd : add = min room (goal - h.tokens)) :
    ∃ d, topUp hashes room goal h c = .ok ⟨h.blocks, h.tokens + add⟩ d ∧
      Spares c loose d loose ∧ Backed d ⟨h.blocks, h.tokens + add⟩ ∧ d.free = c.free ∧
      ∀ (i j : Nat) (a : BlockHash), h.blocks[i]? = some j → d.hashAt j = some a →
        c.hashAt j = some a ∨ hashes[i]? = some a := by
  have enough := backed.enough
  have tight := backed.tight
  by_cases noRoom : room = 0
  · have same : (⟨h.blocks, h.tokens + add⟩ : Holding) = h := by
      rw [hadd, noRoom, Nat.zero_min, Nat.add_zero]
    rw [same, noRoom]
    exact ⟨c, topUp_noRoom hashes goal, .of_grows (.refl k) fun _ _ => rfl, backed, rfl,
      fun _ _ _ _ hash => .inl hash⟩
  · obtain ⟨first, last, blocks⟩ : ∃ first last, h.blocks = first ++ [last] := by
      refine ⟨_, _, (List.dropLast_concat_getLast fun empty => noRoom ?_).symm⟩
      rw [hroom, empty, List.length_nil, Nat.zero_mul, Nat.zero_sub]
    have length : h.blocks.length = first.length + 1 := by simp [blocks]
    have inLoose : last ∈ loose := held last (by simp [blocks])
    have level := backed.level first.length last (by simp [blocks])
    have split := congrArg (· * c.blockSize) length
    simp only [Nat.succ_mul] at split
    obtain ⟨b, hb, unhashed, single, alone⟩ := partial_block k inLoose
      (fun n found => by
        have levels := Option.some.inj (found.symm.trans level)
        omega)
      (k.inBounds last (List.mem_append_right _ inLoose))
    have filled : b.filled = h.tokens - first.length * c.blockSize := by
      have levels := Option.some.inj ((level_of_block hb).symm.trans level)
      omega
    obtain ⟨c₁, d, c₁Eq, dEq, spares, free, levels, named⟩ :=
      refill_spares hashes (h.blocks.length - 1) add k hb unhashed single alone
    rw [filled] at levels
    refine ⟨d, ?_, spares, ?_, free, ?_⟩
    · have atLast : h.blocks.getLast? = some last := by rw [blocks, List.getLast?_concat]
      simp only [topUp, atLast, if_neg noRoom, modify_bind, changeBlock_of_some hb, ← hadd, ← c₁Eq]
      rw [← dEq]
      rfl
    · exact backed.fillLast blocks (by omega) spares.frame.blockSize levels (by omega)
    · intro i j a place hash
      rcases named j with kept | ⟨rfl, here⟩
      · exact .inl (kept.symm.trans hash)
      · rw [backed.last_place blocks (by omega) place]
        rw [length, Nat.add_sub_cancel] at here
        exact .inr (here.symm.trans hash)

end KvOp
end InferenceSim
