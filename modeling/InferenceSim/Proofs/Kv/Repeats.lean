import InferenceSim.Proofs.Kv.Residency
import Mathlib.Data.List.Dedup

/-! Prompts that name two blocks alike. A look-up finds one block for both, and an allocation counts
it twice among those that are no longer free for others. -/
namespace InferenceSim
open KvCache

namespace KvOp

@[simp] theorem deviceIds_map_device (ids : List Nat) : deviceIds (ids.map .device) = ids := by
  induction ids with
  | nil => rfl
  | cons id rest ih => exact congrArg (id :: ·) ih

theorem exists_devices {attach : List MatchedBlock}
    (device : ∀ i < attach.length, ∃ id, attach[i]? = some (.device id)) :
    ∃ ids : List Nat, attach = ids.map .device := by
  induction attach with
  | nil => exact ⟨[], rfl⟩
  | cons m rest ih =>
      obtain ⟨id, here⟩ := device 0 (Nat.zero_lt_succ _)
      obtain ⟨ids, rfl⟩ := ih fun i inside => device (i + 1) (Nat.succ_lt_succ inside)
      exact ⟨id :: ids, by rw [Option.some.inj here, List.map_cons]⟩

end KvOp

namespace KvCache
variable {c : KvCache} {request : Request} {ids : List Nat} {i j : Nat}

theorem offloadedBlocks_devices (ids : List Nat) (n : Nat) :
    (PrefixMatch.mk (ids.map .device) n).offloadedBlocks = 0 := by
  rw [PrefixMatch.offloadedBlocks, List.countP_map]
  exact List.countP_eq_zero.mpr fun id _ => Bool.false_ne_true

theorem Consistent.index_matched {loose : List Nat} (k : c.Consistent loose) {id : Nat}
    (here : (c.lookup request).blocks[i]? = some (.device id)) :
    c.index[blockName request.id request.shared c.blockSize i]? = some id := by
  obtain ⟨x, named, tagged⟩ := tag_matchHashes k here
  have within := (List.getElem?_eq_some_iff.mp named).1
  rw [List.length_take, promptBlockHashes, length_blockHashes] at within
  rw [List.getElem?_take_of_lt (by omega), promptBlockHashes,
    getElem?_blockHashes_of_lt (by omega)] at named
  obtain ⟨b, hb, hash⟩ := Option.bind_eq_some_iff.mp (tagged : c.hashAt id = some x)
  rw [Option.some.inj named]
  exact (k.index_iff x id).mpr ⟨b, hb, hash⟩

theorem Consistent.matched_twice {loose : List Nat} (k : c.Consistent loose)
    (devices : (c.lookup request).blocks = ids.map .device) (before : i < j)
    (inside : j < ids.length) (alike : blockName request.id request.shared c.blockSize i =
      blockName request.id request.shared c.blockSize j) : ¬ ids.Nodup := by
  have here : ∀ i, (inside : i < ids.length) →
      (c.lookup request).blocks[i]? = some (.device ids[i]) := by
    intro i inside
    rw [devices, List.getElem?_map, List.getElem?_eq_getElem inside]
    rfl
  intro distinct
  have first := k.index_matched (here i (Nat.lt_trans before inside))
  rw [alike, k.index_matched (here j inside)] at first
  exact Nat.ne_of_gt before (distinct.getElem_inj_iff.mp (Option.some.inj first))

theorem Sound.free_unheld (k : c.Sound) (unheld : ∀ q : Nat, c.held[q]? = none) :
    c.free = c.total := by
  have few := k.consistent.used_le
  have conserved := k.consistent.conserved
  rw [heldIds_of_none unheld, List.append_nil, List.length_nil] at few
  omega

theorem Sound.reserved_unheld (k : c.Sound) (unheld : ∀ q : Nat, c.held[q]? = none)
    (inside : ∀ id ∈ ids, id < c.total) : c.reserved (ids.map .device) = ids.length := by
  rw [reserved_eq, KvOp.deviceIds_map_device]
  refine List.countP_eq_length.mpr fun id here => (k.consistent.isFree_iff (inside id here)).mpr ?_
  rw [heldIds_of_none unheld]
  exact List.not_mem_nil

/-- The plan for matched blocks, all of them on the device, and `more` blocks behind them. -/
theorem Sound.plan_matched (k : c.Sound) (unheld : c.held[request.id]? = none)
    (devices : (c.lookup request).blocks = ids.map .device) (more : Nat) {p : AllocationPlan}
    (hp : p = c.plan request.id 0 ((ids.length + more) * c.blockSize) (c.lookup request)) :
    p.attach = ids.map .device ∧ p.goal = (ids.length + more) * c.blockSize ∧ p.fresh = more := by
  obtain ⟨attach, base, room⟩ : p.attach = ids.map .device ∧
      p.base = ids.length * c.blockSize ∧ p.room = 0 := by
    rcases k.plan_cases (r := request.id) 0 ((ids.length + more) * c.blockSize) (c.lookup request)
      with ⟨_, attach, base, room⟩ | ⟨h, own, _⟩
    · rw [devices, List.length_map] at base
      exact hp ▸ ⟨attach.trans devices, base, room⟩
    · cases unheld.symm.trans own
  have goal : p.goal = (ids.length + more) * c.blockSize := by
    rw [hp, plan_goal, ← hp, base, Nat.max_zero, Nat.add_mul]
    exact Nat.max_eq_left (Nat.le_add_right _ _)
  have counted : p.fresh = c.blocksFor (p.goal - p.base - p.room) := by rw [hp]; rfl
  refine ⟨attach, goal, ?_⟩
  rw [counted, goal, base, room, Nat.add_mul, Nat.add_sub_cancel_left, Nat.sub_zero,
    blocksFor_mul k.positive]

/-- Behind a match as long as the cache, no block is counted as free. -/
theorem Sound.matched_refused (k : c.Sound) (unheld : ∀ q : Nat, c.held[q]? = none)
    (devices : (c.lookup request).blocks = ids.map .device) (total : c.total = ids.length) :
    KvOp.allocate request 0 ((ids.length + 1) * c.blockSize) (c.lookup request) c =
      .error (.exhausted 1 0) c := by
  obtain ⟨p, hp⟩ : ∃ p, p = c.plan request.id 0 ((ids.length + 1) * c.blockSize)
    (c.lookup request) := ⟨_, rfl⟩
  obtain ⟨attach, _, fresh⟩ := k.plan_matched (unheld request.id) devices 1 hp
  have matched : ∀ id ∈ KvOp.deviceIds (c.lookup request).blocks, (c.hashAt id).isSome :=
    k.match_indexed (.inl rfl)
  have inside : ∀ id ∈ ids, id < c.total := fun id here => by
    obtain ⟨x, hash⟩ := Option.isSome_iff_exists.mp
      (matched id (by rwa [devices, KvOp.deviceIds_map_device]))
    obtain ⟨b, hb, _⟩ := Option.bind_eq_some_iff.mp hash
    exact lt_total hb
  have kept : c.free - c.reserved p.attach = 0 := by
    rw [k.free_unheld unheld, attach, k.reserved_unheld unheld inside, total, Nat.sub_self]
  rcases KvOp.allocate_takes k hp matched with ⟨_, failed⟩ | ⟨enough, _⟩
  · rwa [fresh, kept, attach, offloadedBlocks_devices] at failed
  · omega

theorem Sound.one_more (k : c.Sound) {h : Holding} {n : Nat} (own : c.held[request.id]? = some h)
    (length : h.blocks.length = n) (full : h.tokens = n * c.blockSize) (left : 0 < c.free) :
    ∃ a d, KvOp.allocate request (n * c.blockSize) ((n + 1) * c.blockSize) {} c = .ok a d := by
  obtain ⟨p, hp⟩ : ∃ p, p = c.plan request.id (n * c.blockSize) ((n + 1) * c.blockSize) {} :=
    ⟨_, rfl⟩
  obtain ⟨attach, base, room⟩ := hp ▸ k.plan_of_held own (n * c.blockSize)
    ((n + 1) * c.blockSize) {}
  have goal : p.goal = n * c.blockSize + 1 * c.blockSize := by
    rw [hp, plan_goal, ← hp, base, full, Nat.add_mul, Nat.max_eq_left (Nat.le_add_right _ _)]
    exact Nat.max_eq_left (Nat.le_add_right _ _)
  have fresh : p.fresh = 1 := by
    have counted : p.fresh = c.blocksFor (p.goal - p.base - p.room) := by rw [hp]; rfl
    rw [counted, goal, base, room, length, full, Nat.sub_self, Nat.sub_zero,
      Nat.add_sub_cancel_left, blocksFor_mul k.positive]
  rcases KvOp.allocate_takes k hp (List.forall_mem_nil _) with ⟨few, _⟩ | ⟨_, a, d, _, done, _⟩
  · rw [attach, fresh, show c.reserved [] = 0 from rfl,
      show (PrefixMatch.mk [] 0).offloadedBlocks = 0 from rfl] at few
    omega
  · exact ⟨a, d, done⟩

/-- With a block that is matched twice, one is left for the second of two parts. -/
theorem Sound.repeat_granted (k : c.Sound) (unheld : ∀ q : Nat, c.held[q]? = none)
    (devices : (c.lookup request).blocks = ids.map .device) (total : c.total = ids.length)
    (repeats : ¬ ids.Nodup) : ∃ a₁ d₁ a₂ d,
      KvOp.allocate request 0 (ids.length * c.blockSize) (c.lookup request) c = .ok a₁ d₁ ∧
      KvOp.allocate request (ids.length * c.blockSize) ((ids.length + 1) * c.blockSize) {} d₁ =
        .ok a₂ d := by
  obtain ⟨p, hp⟩ : ∃ p, p = c.plan request.id 0 ((ids.length + 0) * c.blockSize)
    (c.lookup request) := ⟨_, rfl⟩
  obtain ⟨attach, goal, fresh⟩ := k.plan_matched (unheld request.id) devices 0 hp
  have matched : ∀ id ∈ KvOp.deviceIds (c.lookup request).blocks, (c.hashAt id).isSome :=
    k.match_indexed (.inl rfl)
  rcases KvOp.allocate_cases k hp matched with ⟨_, none, _⟩ | ⟨few, _⟩ | ⟨_, a₁, d₁, part, done⟩
  · rw [attach, List.map_eq_nil_iff] at none
    exact absurd (none ▸ List.nodup_nil) repeats
  · rw [fresh, attach, offloadedBlocks_devices] at few
    exact absurd few (Nat.not_lt_zero _)
  have size := done.blockSize
  obtain ⟨blocks, taken, held, _, _, perm⟩ := done.own
  have length : blocks.length = ids.length := by
    obtain ⟨enough, tight, _⟩ := (done.sound.backed _ _ held).2
    simp only [goal, size, Nat.add_zero] at enough tight
    rw [← Nat.succ_mul] at tight
    exact Nat.le_antisymm (Nat.le_of_lt_succ (Nat.lt_of_mul_lt_mul_right tight))
      (Nat.le_of_mul_le_mul_right enough k.positive)
  have only : blocks ⊆ ids := by
    have nothing : c.heldBy request.id = [] := by rw [heldBy, unheld]
    rw [nothing, List.nil_append, attach, KvOp.deviceIds_map_device] at perm
    have same := perm.length_eq
    rw [length, List.length_append] at same
    rw [List.length_eq_zero_iff.mp (show taken.length = 0 by omega), List.append_nil] at perm
    exact perm.subset
  have few : d₁.used ≤ ids.dedup.length := by
    have mine := heldIds_of_only held fun q other => (done.others q other).trans (unheld q)
    refine done.sound.consistent.used_le_of_subset fun id inUse => ?_
    rw [List.append_nil] at inUse
    exact List.mem_dedup.mpr (only (mine.subset inUse))
  have fewer : ids.dedup.length < ids.length := by
    refine Nat.lt_of_le_of_ne (List.dedup_sublist ids).length_le fun same => repeats ?_
    rw [← (List.dedup_sublist ids).eq_of_length same]
    exact ids.nodup_dedup
  have left : 0 < d₁.free := by
    have conserved := done.sound.consistent.conserved
    have total' := done.total
    omega
  obtain ⟨a₂, d, rest⟩ := done.sound.one_more held length (by rw [goal, size, Nat.add_zero]) left
  rw [size] at rest
  exact ⟨a₁, d₁, a₂, d, part, rest⟩

theorem matchHashes_start (host total blockSize : Nat) (hashes : List BlockHash) :
    (start host total blockSize none).matchHashes hashes = [] := by
  cases hashes with
  | nil => rfl
  | cons x rest =>
      have missing : (start host total blockSize none).index[x]? = none :=
        Std.ExtTreeMap.getElem?_empty
      have alone : (start host total blockSize none).isOffloaded x = false := rfl
      simp only [matchHashes, missing, alone, Bool.false_eq_true, if_false]

/-- A request that was given as many blocks of a new cache as its look-up may match, and has let go
of them, finds each of them again. -/
theorem start_refound {blockSize n : Nat} (positive : 0 < blockSize)
    (prompt : (request.inputTokens - 1) / blockSize = n) : ∃ c,
    c = (start 0 n blockSize none).after
      [.allocate request 0 (n * blockSize) true, .release request.id] ∧
    c.Sound ∧ (∀ q : Nat, c.held[q]? = none) ∧ c.total = n ∧ c.blockSize = blockSize ∧
    ∃ ids : List Nat, (c.lookup request).blocks = ids.map .device ∧ ids.length = n := by
  obtain ⟨b, hb⟩ : ∃ b, b = start 0 n blockSize none := ⟨_, rfl⟩
  have k : b.Sound := hb ▸ start_sound 0 n positive none
  have unheld : ∀ q : Nat, b.held[q]? = none := fun q => hb ▸ start_unheld 0 n blockSize none q
  have size : b.blockSize = blockSize := hb ▸ rfl
  have total : b.total = n := hb ▸ rfl
  have blank : (b.lookup request).blocks = ([] : List Nat).map .device :=
    hb ▸ matchHashes_start 0 n blockSize _
  obtain ⟨a, d, done, lent⟩ := @Sound.allocate_unheld _ k request (n * blockSize) unheld
    (by rw [blank, List.map_nil, List.length_nil, Nat.zero_mul]; exact Nat.zero_le _)
    (total.symm ▸ size.symm ▸ Nat.le_refl _)
  obtain ⟨c, released, left⟩ := KvOp.release_ok lent.sound request.id
  have same : c.blockSize = blockSize := left.blockSize.trans (lent.blockSize.trans size)
  have reached := (after_turn done released).symm
  rw [hb] at reached
  refine ⟨c, reached, left.sound, left.unheld fun q other => (lent.others q other).trans (unheld q),
    left.total.trans (lent.total.trans total), same, ?_⟩
  have none : a.evicted = 0 := by
    obtain ⟨p, hp⟩ : ∃ p, p = b.plan request.id 0 ((([] : List Nat).length + n) * b.blockSize)
      (b.lookup request) := ⟨_, rfl⟩
    obtain ⟨attach, _, fresh⟩ := k.plan_matched (unheld request.id) blank n hp
    rw [List.length_nil, Nat.zero_add, size] at hp
    rcases KvOp.allocate_inv k hp done with ⟨_, _, rfl, _⟩ | ⟨_, carried⟩
    · rfl
    · have clean : b.clean.size + b.evictable.size = n := (k.free_unheld unheld).trans total
      have uncached : b.evictable.size = 0 := hb ▸ Std.ExtTreeMap.size_empty
      refine KvOp.carryOut_clean_first carried ?_
      rw [attach, fresh, List.map_nil, show KvOp.offloadedHashes [] = [] from rfl, List.length_nil]
      omega
  have indexed : ∀ i < n, c.isCached (blockName request.id request.shared c.blockSize i) := by
    intro i inside
    refine left.sound.consistent.isCached_iff.mpr ?_
    rw [left.hashAt, same, ← size]
    refine lent.sound.consistent.isCached_iff.mp (k.computed ?_ done none ?_)
    · rw [heldBy, unheld]
    · rwa [size, Nat.mul_div_cancel _ positive]
  have found := device_lookup c indexed (Nat.le_of_eq (same.symm ▸ prompt.symm))
  have few : (c.lookup request).blocks.length ≤ n := by
    refine Nat.le_trans (length_matchHashes c _) ?_
    rw [List.length_take, same, prompt]
    exact Nat.min_le_left _ _
  obtain ⟨ids, devices⟩ := KvOp.exists_devices fun i inside =>
    found i (Nat.lt_of_lt_of_le inside few)
  refine ⟨ids, devices, Nat.le_antisymm ?_ (Nat.le_of_not_lt fun more => ?_)⟩
  · rwa [devices, List.length_map] at few
  · obtain ⟨id, here⟩ := found ids.length more
    rw [devices, List.getElem?_map, List.getElem?_eq_none (Nat.le_refl _)] at here
    cases here

/-- In a cache of just these blocks, a request whose prompt names two of them alike is refused one
block more with its match, and granted it behind its match. -/
theorem repeats_in_parts {blockSize n : Nat} (positive : 0 < blockSize)
    (prompt : (request.inputTokens - 1) / blockSize = n) (before : i < j) (inside : j < n)
    (alike : blockName request.id request.shared blockSize i =
      blockName request.id request.shared blockSize j) : ∃ c,
    c = (start 0 n blockSize none).after
      [.allocate request 0 (n * blockSize) true, .release request.id] ∧
    KvOp.allocate request 0 ((n + 1) * blockSize) (c.lookup request) c =
      .error (.exhausted 1 0) c ∧
    ∃ a₁ d₁ a₂ d, KvOp.allocate request 0 (n * blockSize) (c.lookup request) c = .ok a₁ d₁ ∧
      KvOp.allocate request (n * blockSize) ((n + 1) * blockSize) {} d₁ = .ok a₂ d := by
  obtain ⟨c, reached, k, unheld, total, rfl, ids, devices, rfl⟩ := start_refound positive prompt
  exact ⟨c, reached, k.matched_refused unheld devices total, k.repeat_granted unheld devices total
    (k.consistent.matched_twice devices before inside alike)⟩

end KvCache
end InferenceSim
