import InferenceSim.Proofs.Kv.Supply

/-! What has been computed is found again. No hash leaves the index while nothing is evicted,
and a block that gets full in an allocation is indexed then, whether it is reloaded or fresh, or
its hash is indexed already. So whoever shares the prefix finds all of it on the device. -/
namespace InferenceSim
open KvCache

namespace KvCache
variable {c d : KvCache} {id place : Nat} {x : BlockHash}

/-- What is indexed stays indexed, perhaps by another block. -/
def Retains (c d : KvCache) : Prop := ∀ x, c.isCached x → d.isCached x

instance : Std.Refl Retains := ⟨fun _ _ indexed => indexed⟩

instance : Trans Retains Retains Retains := ⟨fun k l x indexed => l x (k x indexed)⟩

theorem Retains.of_index (same : d.index = c.index) : Retains c d := fun x indexed => by
  rwa [isCached, same]

theorem isCached_iff : c.isCached x ↔ ∃ id, c.index[x]? = some id := by
  rw [isCached, Std.ExtTreeMap.contains_eq_isSome_getElem?, Option.isSome_iff_exists]

theorem Consistent.isCached_iff {loose : List Nat} (k : c.Consistent loose) :
    c.isCached x ↔ ∃ id, c.hashAt id = some x := by
  rw [KvCache.isCached_iff]
  refine exists_congr fun id => (k.index_iff x id).trans ?_
  rw [hashAt, Option.bind_eq_some_iff]

theorem changeBlock_index (c : KvCache) (id : Nat) (f : Block → Block) :
    (c.changeBlock id f).index = c.index := by
  unfold changeBlock
  split <;> rfl

theorem fill_index (c : KvCache) (id tokens : Nat) : (c.fill id tokens).index = c.index :=
  changeBlock_index { c with stamp := c.stamp + 1 } id _

theorem register_retains (c : KvCache) (id : Nat) (x : BlockHash) :
    Retains c (c.register id x) ∧ (c.register id x).isCached x := by
  unfold register
  split
  · next here => exact ⟨Std.Refl.refl c, here⟩
  · constructor
    · intro y indexed
      rw [isCached, Std.ExtTreeMap.contains_insert, changeBlock_index, Bool.or_eq_true]
      exact .inr indexed
    · rw [isCached, Std.ExtTreeMap.contains_insert_self]

theorem registerAt_retains (c : KvCache) (hashes : List BlockHash) (place id : Nat) :
    Retains c (c.registerAt hashes place id) := by
  unfold registerAt
  split
  · exact (register_retains c id _).1
  · exact Std.Refl.refl c

theorem registerAt_cached {hashes : List BlockHash} (named : hashes[place]? = some x) :
    (c.registerAt hashes place id).isCached x := by
  simp only [registerAt, named]
  exact (register_retains c id x).2

theorem device_matchHashes {hashes : List BlockHash} {n : Nat}
    (indexed : ∀ i < n, ∃ x, hashes[i]? = some x ∧ c.isCached x) :
    ∀ i < n, ∃ id, (c.matchHashes hashes)[i]? = some (.device id) := by
  induction hashes generalizing n with
  | nil =>
      intro i inside
      obtain ⟨x, here, _⟩ := indexed i inside
      cases here
  | cons y rest ih =>
      intro i inside
      obtain ⟨x, here, indexed₀⟩ := indexed 0 (Nat.zero_lt_of_lt inside)
      obtain rfl := Option.some.inj here
      obtain ⟨id, found⟩ := isCached_iff.mp indexed₀
      simp only [matchHashes, found]
      cases i with
      | zero => exact ⟨id, rfl⟩
      | succ i =>
          obtain ⟨n, rfl⟩ := Nat.exists_eq_add_of_lt inside
          exact ih (n := i + 1) (fun j before => indexed (j + 1) (by omega)) i (Nat.lt_succ_self i)

end KvCache

namespace KvOp
variable {c d : KvCache}

theorem takeFree_index {id : Nat} (done : takeFree c = .ok (id, false) d) :
    d.index = c.index := by
  cases least : c.clean.min? with
  | some j =>
      cases (takeFree_clean least).symm.trans done
      rfl
  | none =>
      cases oldest : c.evictable.minEntry? with
      | none =>
          simp only [takeFree, get_bind, least, oldest] at done
          cases done
      | some entry =>
          simp only [takeFree, get_bind, least, oldest, modify_bind] at done
          obtain ⟨_, c₁, _, last⟩ := bind_inv done
          cases last

theorem onTier_retains (f : HostTier → Nat → Except Violation Unit × HostTier) :
    Leaves Retains (onTier f) := by
  refine .read fun c => ?_
  cases c.tier with
  | none => exact Std.Refl.refl c
  | some t =>
      simp only
      split
      · exact Retains.of_index rfl
      · exact Retains.of_index rfl

theorem none_evicted {evicting : Bool} {evicted : Nat}
    (none : (if evicting then evicted + 1 else evicted) = 0) : evicting = false ∧ evicted = 0 := by
  cases evicting with
  | true => cases none
  | false => exact ⟨rfl, none⟩

theorem placeMatched_retains {attach : List MatchedBlock} {ids : List Nat}
    (done : placeMatched attach c = .ok (ids, 0) d) :
    Retains c d ∧ ∀ x ∈ offloadedHashes attach, d.isCached x := by
  induction attach generalizing c ids with
  | nil =>
      cases done
      exact ⟨Std.Refl.refl _, List.forall_mem_nil _⟩
  | cons m rest ih =>
      cases m with
      | device id =>
          obtain ⟨⟨ids', evicted'⟩, c₁, later, last⟩ := bind_inv done
          cases last
          exact ih later
      | offloaded x =>
          obtain ⟨⟨id, evicting⟩, c₁, first, done⟩ := bind_inv done
          simp only [modify_bind] at done
          obtain ⟨⟨ids', evicted'⟩, c₂, later, last⟩ := bind_inv done
          injection last with result same
          obtain ⟨rfl, rfl⟩ := none_evicted (congrArg Prod.snd result)
          subst same
          obtain ⟨retains, reloaded⟩ := ih later
          obtain ⟨kept, here⟩ := register_retains (c₁.fill id c₁.blockSize) id x
          refine ⟨fun y indexed => retains y (kept y ?_), List.forall_mem_cons.mpr
            ⟨retains x here, reloaded⟩⟩
          rwa [isCached, fill_index, takeFree_index first]

theorem extend_retains {hashes : List BlockHash} {goal count : Nat} {h h' : Holding}
    (done : extend hashes goal count h c = .ok (h', 0) d) :
    Retains c d ∧ (h.tokens = h.blocks.length * c.blockSize → ∀ place x, h.blocks.length ≤ place →
      place < h.blocks.length + count → (place + 1) * c.blockSize ≤ goal →
      hashes[place]? = some x → d.isCached x) := by
  induction count generalizing c h h' with
  | zero =>
      cases done
      exact ⟨Std.Refl.refl _, fun _ place x from' upto => absurd upto (Nat.not_lt.mpr from')⟩
  | succ n ih =>
      simp only [extend] at done
      obtain ⟨⟨id, evicting⟩, c₁, first, done⟩ := bind_inv done
      simp only [get_bind, modify_bind] at done
      have size : c₁.blockSize = c.blockSize := (takeFree_uncounted.of_ok first).blockSize
      obtain ⟨add, hadd⟩ : ∃ add, add = min c.blockSize (goal - h.tokens) := ⟨_, rfl⟩
      obtain ⟨e, made⟩ : ∃ e, e = (if add = (c₁.fill id add).blockSize
        then (c₁.fill id add).registerAt hashes h.blocks.length id else c₁.fill id add) := ⟨_, rfl⟩
      rw [size, ← hadd, ← made] at done
      obtain ⟨⟨h₁, evicted'⟩, c₂, later, last⟩ := bind_inv done
      injection last with result same
      obtain ⟨rfl, rfl⟩ := none_evicted (congrArg Prod.snd result)
      subst same
      obtain ⟨retains, rest⟩ := ih later
      have filled : (c₁.fill id add).blockSize = c.blockSize :=
        (fill_alike c₁ id add).blockSize.trans size
      have kept : Retains c e := by
        have bare : Retains c (c₁.fill id add) :=
          .of_index ((fill_index c₁ id add).trans (takeFree_index first))
        rw [made]
        split
        · exact Trans.trans bare (registerAt_retains _ hashes _ id)
        · exact bare
      refine ⟨Trans.trans kept retains, fun full place x from' upto reaches named => ?_⟩
      have brim : add = c.blockSize := by
        have product : (h.blocks.length + 1) * c.blockSize ≤ (place + 1) * c.blockSize :=
          Nat.mul_le_mul_right c.blockSize (Nat.succ_le_succ from')
        rw [Nat.succ_mul, ← full] at product
        omega
      have sized : e.blockSize = c.blockSize := by
        rw [made, if_pos (brim.trans filled.symm), (registerAt_alike _ hashes _ id).blockSize,
          filled]
      rcases Nat.eq_or_lt_of_le from' with rfl | beyond
      · refine retains x ?_
        rw [made, if_pos (brim.trans filled.symm)]
        exact registerAt_cached named
      · simp only [List.length_append, List.length_singleton, sized] at rest
        exact rest (by rw [full, brim, Nat.succ_mul]) place x beyond (by omega) reaches named

theorem takeFree_clean_first {id : Nat} {evicting : Bool}
    (done : takeFree c = .ok (id, evicting) d) (some : 0 < c.clean.size) :
    evicting = false ∧ d.clean.size + 1 = c.clean.size := by
  cases least : c.clean.min? with
  | none => exact absurd (Table.size_eq_zero_of_min? least) (Nat.ne_of_gt some)
  | some j =>
      cases (takeFree_clean least).symm.trans done
      exact ⟨rfl, Table.size_erase_of_mem (Std.ExtTreeSet.min?_mem least)⟩

theorem placeMatched_clean_first {attach : List MatchedBlock} {ids : List Nat} {evicted : Nat}
    (done : placeMatched attach c = .ok (ids, evicted) d)
    (enough : (offloadedHashes attach).length ≤ c.clean.size) :
    evicted = 0 ∧ d.clean.size + (offloadedHashes attach).length = c.clean.size := by
  induction attach generalizing c ids evicted with
  | nil =>
      cases done
      exact ⟨rfl, rfl⟩
  | cons m rest ih =>
      cases m with
      | device id =>
          obtain ⟨⟨ids', evicted'⟩, c₁, later, last⟩ := bind_inv done
          cases last
          exact ih later enough
      | offloaded x =>
          have more : (offloadedHashes (.offloaded x :: rest)).length =
              (offloadedHashes rest).length + 1 := rfl
          obtain ⟨⟨id, evicting⟩, c₁, first, done⟩ := bind_inv done
          simp only [modify_bind] at done
          obtain ⟨⟨ids', evicted'⟩, c₂, later, last⟩ := bind_inv done
          cases last
          obtain ⟨rfl, left⟩ := takeFree_clean_first first (by omega)
          have same : ((c₁.fill id c₁.blockSize).register id x).clean = c₁.clean :=
            (register_lists _ id x).clean.trans (fill_lists c₁ id _).clean
          obtain ⟨rfl, left'⟩ := ih later (by rw [same]; omega)
          rw [same] at left'
          exact ⟨rfl, by omega⟩

theorem extend_clean_first {hashes : List BlockHash} {goal count evicted : Nat} {h h' : Holding}
    (done : extend hashes goal count h c = .ok (h', evicted) d) (enough : count ≤ c.clean.size) :
    evicted = 0 := by
  induction count generalizing c h evicted with
  | zero =>
      cases done
      rfl
  | succ n ih =>
      simp only [extend] at done
      obtain ⟨⟨id, evicting⟩, c₁, first, done⟩ := bind_inv done
      simp only [get_bind, modify_bind] at done
      obtain ⟨⟨h₁, evicted'⟩, c₂, later, last⟩ := bind_inv done
      cases last
      obtain ⟨rfl, left⟩ := takeFree_clean_first first (by omega)
      refine ih later ?_
      split
      · rw [(registerAt_lists _ hashes _ id).clean, (fill_lists c₁ id _).clean]
        omega
      · rw [(fill_lists c₁ id _).clean]
        omega

theorem carryOut_clean_first {request : Request} {m : PrefixMatch} {p : AllocationPlan}
    {a : Allocation} (done : carryOut request m p c = .ok a d)
    (enough : (offloadedHashes p.attach).length + p.fresh ≤ c.clean.size) : a.evicted = 0 := by
  obtain ⟨c₁, ids, evicted, c₂, c₃, h, c₄, h', evicted', c₅, done₁, done₂, done₃, done₄, done₅,
    _, rfl⟩ := carryOut_steps done
  have clean₁ : c₁.clean = c.clean := (acquireMatched_same done₁).2.2
  obtain ⟨rfl, left⟩ := placeMatched_clean_first done₂ (by rw [clean₁]; omega)
  have reload : c₃.clean = c₂.clean := ((Leaves.when _ (onTier_lists _)).of_ok done₃).clean
  have topped : c₄.clean = c₃.clean := ((topUp_lists _ _ _ _).of_ok done₄).clean
  obtain rfl := extend_clean_first done₅ (by rw [topped, reload]; rw [clean₁] at left; omega)
  rfl

end KvOp

namespace KvCache
variable {c d : KvCache} {request : Request} {first stop i : Nat} {a : Allocation}

theorem Consistent.matched_resident {loose : List Nat} (k : c.Consistent loose)
    (inside : i < (c.lookup request).blocks.length) :
    c.isCached (blockName request.id request.shared c.blockSize i) ∨
      blockName request.id request.shared c.blockSize i ∈
        KvOp.offloadedHashes (c.lookup request).blocks := by
  obtain ⟨b, here⟩ : ∃ b, (c.lookup request).blocks[i]? = some b :=
    ⟨_, List.getElem?_eq_getElem inside⟩
  obtain ⟨x, named, tagged⟩ := tag_matchHashes k here
  have within := (List.getElem?_eq_some_iff.mp named).1
  rw [List.length_take, promptBlockHashes, length_blockHashes] at within
  rw [List.getElem?_take_of_lt (by omega), promptBlockHashes,
    getElem?_blockHashes_of_lt (by omega)] at named
  rw [Option.some.inj named]
  cases b with
  | device id => exact .inl (k.isCached_iff.mpr ⟨id, tagged⟩)
  | offloaded y =>
      obtain rfl := Option.some.inj tagged
      exact .inr (List.mem_filterMap.mpr ⟨_, List.mem_of_getElem? here, rfl⟩)

/-- After a first allocation without evictions every full block of the request is indexed. -/
theorem Sound.computed (k : c.Sound) (unheld : c.heldBy request.id = [])
    (done : KvOp.allocate request first stop (c.lookup request) c = .ok a d)
    (none : a.evicted = 0) (inside : i < stop / c.blockSize) :
    d.isCached (blockName request.id request.shared c.blockSize i) := by
  obtain ⟨p, hp⟩ : ∃ p, p = c.plan request.id first stop (c.lookup request) := ⟨_, rfl⟩
  obtain ⟨attach, base, room⟩ : p.attach = (c.lookup request).blocks ∧
      p.base = p.attach.length * c.blockSize ∧ p.room = 0 := by
    rcases k.plan_cases (r := request.id) first stop (c.lookup request) with
      ⟨_, attach, base, room⟩ | ⟨h, own, _⟩
    · exact hp ▸ ⟨attach, attach.symm ▸ base, room⟩
    · rw [heldBy_eq, ← List.isEmpty_iff, k.holding_empty_iff, own] at unheld
      cases unheld
  have reaches : (i + 1) * c.blockSize ≤ p.goal := by
    have upto : (i + 1) * c.blockSize ≤ stop :=
      (Nat.le_div_iff_mul_le k.positive).mp (Nat.succ_le_of_lt inside)
    rw [hp, plan_goal]
    omega
  rcases KvOp.allocate_inv k hp done with ⟨still, empty, _, _⟩ | ⟨_, carried⟩
  · have nothing : p.goal = 0 := by rw [still, base, empty, List.length_nil, Nat.zero_mul]
    have some : 0 < (i + 1) * c.blockSize := Nat.mul_pos (Nat.succ_pos i) k.positive
    omega
  obtain ⟨c₁, ids, evicted, c₂, c₃, h, c₄, h', evicted', c₅, done₁, done₂, done₃, done₄, done₅,
    same, counts⟩ := KvOp.carryOut_steps carried
  have index : d.index = c₅.index := by
    obtain ⟨hits, misses, last⟩ := KvOp.counted_eq (c.heldBy request.id).isEmpty (c.lookup request)
    rw [same, last]
  rw [counts] at none
  obtain ⟨rfl, rfl⟩ := Nat.add_eq_zero_iff.mp none
  obtain ⟨placed, reloaded⟩ := KvOp.placeMatched_retains done₂
  have reload : Retains c₂ c₃ := (KvOp.Leaves.when _ (KvOp.onTier_retains _)).of_ok done₃
  rw [room, KvOp.topUp_noRoom] at done₄
  cases done₄
  obtain ⟨extended, filled⟩ := KvOp.extend_retains done₅
  suffices indexed : c₅.isCached (blockName request.id request.shared c.blockSize i) by
    rwa [isCached, index]
  have kept : Retains c c₅ := fun x indexed =>
    extended x (reload x (placed x (by rwa [isCached, (KvOp.acquireMatched_same done₁).2.1])))
  rcases Nat.lt_or_ge i p.attach.length with matched | beyond
  · rw [attach] at matched
    rcases k.consistent.matched_resident matched with indexed | offloaded
    · exact kept _ indexed
    · exact extended _ (reload _ (reloaded _ (attach ▸ offloaded)))
  · have size : c₃.blockSize = c.blockSize :=
      ((KvOp.Leaves.when _ (KvOp.onTier_uncounted _)).of_ok done₃).blockSize.trans
        (((KvOp.placeMatched_uncounted _).of_ok done₂).blockSize.trans
          ((KvOp.acquireMatched_uncounted _).of_ok done₁).blockSize)
    have length : (c.heldBy request.id ++ ids).length = p.attach.length := by
      rw [unheld, List.nil_append, KvOp.length_placeMatched done₂]
    have fresh : p.fresh = c.blocksFor (p.goal - p.base - p.room) := by rw [hp]; rfl
    have enough := (blocksFor_bounds k.positive (p.goal - p.base - p.room)).1
    rw [← fresh, room] at enough
    have last : i < p.attach.length + p.fresh := by
      refine Nat.lt_of_mul_lt_mul_right (a := c.blockSize) ?_
      have positive := k.positive
      rw [Nat.succ_mul] at reaches
      rw [Nat.add_mul, ← base]
      omega
    have above : p.base / c.blockSize ≤ i := by
      rw [base, Nat.mul_div_cancel _ k.positive]
      exact beyond
    simp only [length, size] at filled
    exact filled base i _ beyond last reaches (KvOp.getElem?_newHashes above
      (Nat.lt_of_succ_le ((Nat.le_div_iff_mul_le k.positive).mpr reaches)))

theorem device_lookup {n : Nat} (c : KvCache)
    (indexed : ∀ i < n, c.isCached (blockName request.id request.shared c.blockSize i))
    (within : n ≤ (request.inputTokens - 1) / c.blockSize) :
    ∀ i < n, ∃ id, (c.lookup request).blocks[i]? = some (.device id) := by
  refine device_matchHashes fun i inside => ⟨_, ?_, indexed i inside⟩
  have prompt : i < request.inputTokens / c.blockSize := Nat.lt_of_lt_of_le
    (Nat.lt_of_lt_of_le inside within) (Nat.div_le_div_right (Nat.sub_le _ _))
  rw [List.getElem?_take_of_lt (Nat.lt_of_lt_of_le inside within), promptBlockHashes,
    getElem?_blockHashes_of_lt prompt]

theorem blockName_of_group {id id' group p p' blockSize : Nat} (positive : 0 < blockSize)
    (covered : i < min p p' / blockSize) : blockName id (some ⟨group, p⟩) blockSize i =
      blockName id' (some ⟨group, p'⟩) blockSize i := by
  have upto : (i + 1) * blockSize ≤ min p p' := (Nat.le_div_iff_mul_le positive).mp covered
  have alike : ∀ k ≤ i, contentKey id (some ⟨group, p⟩) k blockSize =
      contentKey id' (some ⟨group, p'⟩) k blockSize := by
    intro k before
    have inside : (k + 1) * blockSize ≤ (i + 1) * blockSize :=
      Nat.mul_le_mul_right blockSize (Nat.succ_le_succ before)
    simp only [contentKey]
    rw [if_pos (by omega), if_pos (by omega)]
  rw [blockName, blockName, chainParent_congr fun k before => alike k (Nat.le_of_lt before),
    alike i (Nat.le_refl i)]

/-- After any calls on a new cache, when a request that holds nothing is given its match and the
tokens up to `stop`, and no block is evicted for it, then every request of its prefix group finds
on the device what lies in both prefixes, below `stop`, and before the last token of its own
prompt; now, and after the first one has let go. No look-up matches a whole prompt. -/
theorem prefixes_found_again {blockSize : Nat} (positive : 0 < blockSize) (host total : Nat)
    (tier : Option HostTierConfig) (calls : List KvCall)
    (reached : c = (start host total blockSize tier).after calls) :
    (∀ (request : Request) (stop : Nat) (a : Allocation) (d : KvCache),
      c.heldBy request.id = [] →
      KvOp.allocate request ((c.lookup request).cachedTokens blockSize) stop (c.lookup request) c =
        .ok a d →
      a.evicted = 0 → ∃ e, KvOp.release request.id d = .ok () e ∧
        ∀ (other : Request) (group p p' : Nat),
          request.shared = some ⟨group, p⟩ → other.shared = some ⟨group, p'⟩ →
          ∀ i < min (min (min p p' / blockSize) (stop / blockSize))
              ((other.inputTokens - 1) / blockSize),
            (∃ id, (d.lookup other).blocks[i]? = some (.device id)) ∧
            ∃ id, (e.lookup other).blocks[i]? = some (.device id)) ∧
    ∀ (e : KvCache) (request : Request), 0 < request.inputTokens →
      (e.lookup request).cachedTokens e.blockSize < request.inputTokens := by
  have k : c.Sound := reached ▸ (start_sound host total positive tier).after calls
  have size : c.blockSize = blockSize := by
    rw [reached, (after_fixed _ calls).blockSize]
    cases tier <;> rfl
  refine ⟨fun request stop a d unheld done none => ?_, fun e request some => ?_⟩
  · have sound : d.Sound := KvOp.allocate_sound k (k.match_indexed (.inl rfl)) done
    have size' : d.blockSize = blockSize :=
      ((KvOp.allocate_fixed _ _ _ _).of_ok done).blockSize.trans size
    obtain ⟨e, released, left⟩ := KvOp.release_ok sound request.id
    refine ⟨e, released, fun other group p p' group₁ group₂ i inside => ?_⟩
    have resident : ∀ j < min (min p p' / blockSize) (stop / blockSize),
        d.isCached (blockName other.id other.shared blockSize j) := by
      intro j within
      obtain ⟨inBoth, below⟩ := Nat.lt_min.mp within
      have indexed := k.computed unheld done none (size.symm ▸ below)
      rwa [size, group₁, blockName_of_group positive inBoth, ← group₂] at indexed
    have resident' : ∀ j < min (min p p' / blockSize) (stop / blockSize),
        e.isCached (blockName other.id other.shared blockSize j) := fun j within =>
      left.sound.consistent.isCached_iff.mpr
        (left.hashAt ▸ sound.consistent.isCached_iff.mp (resident j within))
    obtain ⟨within, prompt⟩ := Nat.lt_min.mp inside
    have upto : ∀ j ≤ i, j < min (min p p' / blockSize) (stop / blockSize) := fun j before =>
      Nat.lt_of_le_of_lt before within
    refine ⟨device_lookup d (n := i + 1) (fun j before => ?_) ?_ i (Nat.lt_succ_self i),
      device_lookup e (n := i + 1) (fun j before => ?_) ?_ i (Nat.lt_succ_self i)⟩
    · exact size'.symm ▸ resident j (upto j (Nat.le_of_lt_succ before))
    · exact size'.symm ▸ prompt
    · exact (left.blockSize.trans size').symm ▸ resident' j (upto j (Nat.le_of_lt_succ before))
    · exact (left.blockSize.trans size').symm ▸ prompt
  · have cached := lookup_cached e request
    rw [PrefixMatch.cachedTokens, PrefixMatch.size]
    omega

/-- A request with a shared prefix of two blocks of two tokens. -/
def grouped (id : Nat) : Request :=
  { id, arrivalTime := 0, inputTokens := 5, outputTokens := 1, shared := some ⟨7, 4⟩ }

/-- The second of two such requests finds both blocks of the first one. -/
theorem grouped_found_again : ∃ c, c = (start 0 4 2 none).after [] ∧ 0 < 2 ∧
    c.heldBy (grouped 1).id = [] ∧ ∃ a d, KvOp.allocate (grouped 1)
      ((c.lookup (grouped 1)).cachedTokens 2) 5 (c.lookup (grouped 1)) c = .ok a d ∧
    a.evicted = 0 ∧ ∃ e, KvOp.release 1 d = .ok () e ∧
      ∀ i < 2, ∃ id, (e.lookup (grouped 2)).blocks[i]? = some (.device id) := by
  obtain ⟨c, reached⟩ : ∃ c, c = (start 0 4 2 none).after [] := ⟨_, rfl⟩
  have k : c.Sound := reached ▸ start_sound 0 4 (by decide) none
  have unheld : c.heldBy (grouped 1).id = [] := by rw [reached]; rfl
  have blank : c.lookup (grouped 1) = { promptBlocks := 2 } := by
    rw [reached]
    decide +kernel
  obtain ⟨p, hp⟩ : ∃ p, p = c.plan (grouped 1).id ((c.lookup (grouped 1)).cachedTokens 2) 5
    (c.lookup (grouped 1)) := ⟨_, rfl⟩
  have planned : p.attach = [] ∧ p.fresh = 3 := by
    rw [hp, blank, reached]
    exact ⟨rfl, rfl⟩
  have room : c.free = 4 ∧ c.clean.size = 4 := by
    rw [reached]
    decide +kernel
  refine ⟨c, reached, by decide, unheld, ?_⟩
  rcases KvOp.allocate_takes k hp (k.match_indexed (.inl rfl)) with ⟨few, _⟩ | ⟨_, a, d, _, done, _⟩
  · rw [planned.1, planned.2, room.1, show c.reserved [] = 0 from rfl] at few
    exact absurd few (by decide)
  · have kept : a.evicted = 0 := by
      rcases KvOp.allocate_inv k hp done with ⟨_, _, rfl, _⟩ | ⟨_, carried⟩
      · rfl
      · refine KvOp.carryOut_clean_first carried ?_
        rw [planned.1, planned.2, room.2]
        decide
    obtain ⟨e, released, found⟩ :=
      (prefixes_found_again (by decide) 0 4 none [] reached).1 (grouped 1) 5 a d unheld done kept
    exact ⟨a, d, done, kept, e, released, fun i inside =>
      (found (grouped 2) 7 4 4 rfl rfl i inside).2⟩

end KvCache
end InferenceSim
