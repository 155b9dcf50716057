import InferenceSim.Proofs.Kv.Backing

/-! An allocation as a whole. It fails before it has changed anything, or it backs the
tokens up to its goal; the blocks it takes had no holder, and the other holdings stay. -/
namespace InferenceSim
open KvCache

namespace KvCache

/-- The tables agree and every holding is backed. -/
structure Sound (c : KvCache) : Prop where
  positive : 0 < c.blockSize
  consistent : c.Consistent []
  backed : ∀ (r : Nat) (h : Holding), c.held[r]? = some h → 0 < h.tokens ∧ Backed c h

variable {c d : KvCache} {loose : List Nat} {r : Nat} {h : Holding}

theorem heldIds_erase (own : c.held[r]? = some h) (held : d.held = c.held.erase r) :
    c.heldIds.Perm (h.blocks ++ d.heldIds) := by
  rw [heldIds, heldIds, held]
  exact (Table.toList_perm_erase own).flatMap_right _

theorem heldIds_insert (none : c.held[r]? = none) (held : d.held = c.held.insert r h) :
    d.heldIds.Perm (h.blocks ++ c.heldIds) := by
  rw [heldIds, heldIds, held]
  refine ((Table.toList_insert_perm c.held r h).flatMap_right _).trans ?_
  rw [Table.toList_erase_of_none none]
  exact .refl _

theorem Consistent.rehold {loose' : List Nat} (k : c.Consistent loose)
    (held : (d.heldIds ++ loose').Perm (c.heldIds ++ loose))
    (blocks : d.blocks = c.blocks) (total : d.total = c.total)
    (blockSize : d.blockSize = c.blockSize) (clean : d.clean = c.clean)
    (evictable : d.evictable = c.evictable) (index : d.index = c.index) (used : d.used = c.used)
    (stamp : d.stamp = c.stamp) (tier : ∀ t : HostTier, d.tier = some t → t.Sound) :
    d.Consistent loose' := by
  have same : ∀ j, d.block? j = c.block? j := by
    intro j
    rw [block?, blocks, total, block?]
  constructor
  case refs_eq =>
    intro id b hb
    rw [k.refs_eq id b (same id ▸ hb)]
    exact (held.count_eq id).symm
  case inBounds =>
    intro id inAll
    rw [total]
    exact k.inBounds id (held.mem_iff.mp inAll)
  case mem_clean_iff => simpa only [clean, same] using k.mem_clean_iff
  case evictable_iff => simpa only [evictable, same] using k.evictable_iff
  case index_iff => simpa only [index, same] using k.index_iff
  case conserved => simpa only [used, free, clean, evictable, total] using k.conserved
  case recency_le => simpa only [same, stamp] using k.recency_le
  case full => simpa only [same, blockSize] using k.full
  case tier => exact tier

theorem blocksFor_bounds (positive : 0 < c.blockSize) (tokens : Nat) :
    tokens ≤ c.blocksFor tokens * c.blockSize ∧
      c.blocksFor tokens * c.blockSize < tokens + c.blockSize := by
  have remainder := Nat.mod_lt (tokens + c.blockSize - 1) positive
  have whole := Nat.div_add_mod (tokens + c.blockSize - 1) c.blockSize
  rw [Nat.mul_comm] at whole
  rw [blocksFor]
  omega

theorem blocksFor_mul (positive : 0 < c.blockSize) (n : Nat) : c.blocksFor (n * c.blockSize) = n := by
  rw [blocksFor, Nat.add_sub_assoc positive, Nat.add_comm, Nat.add_mul_div_right _ _ positive,
    Nat.div_eq_of_lt (Nat.sub_lt positive Nat.one_pos), Nat.zero_add]

theorem Sound.holding_empty_iff (k : c.Sound) :
    ((c.held[r]?).getD {}).blocks.isEmpty ↔ c.held[r]? = none := by
  cases own : c.held[r]? with
  | none => exact iff_of_true rfl rfl
  | some h =>
      obtain ⟨positive, backed⟩ := k.backed r h own
      refine iff_of_false (fun empty => ?_) (Option.some_ne_none h)
      have enough := backed.enough
      rw [Option.getD_some, List.isEmpty_iff] at empty
      rw [empty, List.length_nil, Nat.zero_mul] at enough
      omega

theorem backed_full (positive : 0 < c.blockSize) {blocks : List Nat}
    (full : ∀ id ∈ blocks, c.level id = some c.blockSize) :
    Backed c ⟨blocks, blocks.length * c.blockSize⟩ where
  enough := Nat.le_refl _
  tight := Nat.lt_add_of_pos_right positive
  level i id place := by
    have inside := (List.getElem?_eq_some_iff.mp place).1
    have upto : (i + 1) * c.blockSize ≤ blocks.length * c.blockSize :=
      Nat.mul_le_mul_right c.blockSize inside
    rw [Nat.succ_mul] at upto
    rw [full id (List.mem_of_getElem? place)]
    show _ = some (min c.blockSize (blocks.length * c.blockSize - i * c.blockSize))
    congr 1
    omega

theorem heldBy_eq (c : KvCache) (r : Nat) : c.heldBy r = ((c.held[r]?).getD {}).blocks := by
  rw [heldBy]
  cases c.held[r]? <;> rfl

/-- Without the entry of one request, what it held is loose. -/
theorem unheld (held : d.held = c.held.erase r) :
    c.heldIds.Perm (c.heldBy r ++ d.heldIds) := by
  cases own : c.held[r]? with
  | none =>
      rw [heldBy, own, heldIds, heldIds, held, Table.toList_erase_of_none own]
      exact .refl _
  | some h =>
      rw [heldBy, own]
      exact heldIds_erase own held

theorem heldBy_erase {q : Nat} (other : q ≠ r) (held : d.held = c.held.erase r) :
    d.heldBy q = c.heldBy q := by
  rw [heldBy, heldBy, held, Std.ExtTreeMap.getElem?_erase]
  simp only [Std.LawfulEqOrd.compare_eq_iff_eq, Ne.symm other, if_false]

theorem Sound.check (k : c.Sound) : c.check = .ok () := by
  rw [KvCache.check, if_pos k.consistent.conserved]
  split
  · next t found => exact (k.consistent.tier t found).check
  · rfl

theorem heldIds_of_none (none : ∀ q : Nat, c.held[q]? = none) : c.heldIds = [] := by
  have empty : c.held = ∅ := Std.ExtTreeMap.ext_getElem? fun q => by simp [none q]
  rw [heldIds, empty]
  rfl

theorem heldIds_of_only (own : c.held[r]? = some h)
    (others : ∀ q : Nat, q ≠ r → c.held[q]? = none) : c.heldIds.Perm h.blocks := by
  have rest := heldIds_erase (d := { c with held := c.held.erase r }) own rfl
  rwa [heldIds_of_none (c := { c with held := c.held.erase r }), List.append_nil] at rest
  intro q
  show (c.held.erase r)[q]? = none
  rw [Std.ExtTreeMap.getElem?_erase]
  simp only [Std.LawfulEqOrd.compare_eq_iff_eq]
  split
  · rfl
  · next other => exact others q (Ne.symm other)

theorem mem_heldIds (own : c.held[r]? = some h) {id : Nat} (inside : id ∈ h.blocks) :
    id ∈ c.heldIds :=
  (heldIds_erase (d := { c with held := c.held.erase r }) own rfl).mem_iff.mpr
    (List.mem_append_left _ inside)

theorem mem_heldIds_of_heldBy {id : Nat} (inside : id ∈ c.heldBy r) : id ∈ c.heldIds :=
  (unheld (d := { c with held := c.held.erase r }) rfl).mem_iff.mpr
    (List.mem_append_left _ inside)

/-- The plan of a first allocation, and of one that goes on. -/
theorem Sound.plan_cases (k : c.Sound) (start stop : Nat) (m : PrefixMatch) :
    (c.held[r]? = none ∧ (c.plan r start stop m).attach = m.blocks ∧
      (c.plan r start stop m).base = m.blocks.length * c.blockSize ∧
      (c.plan r start stop m).room = 0) ∨
    ∃ h, c.held[r]? = some h ∧ (c.plan r start stop m).attach = [] ∧
      (c.plan r start stop m).base = h.tokens ∧
      (c.plan r start stop m).room = h.blocks.length * c.blockSize - h.tokens := by
  have first := k.holding_empty_iff (r := r)
  cases own : c.held[r]? with
  | none => exact .inl ⟨rfl, by simp [plan, own]⟩
  | some h =>
      have more : h.blocks.isEmpty = false := by
        rw [own, Option.getD_some] at first
        exact Bool.eq_false_iff.mpr fun empty => Option.some_ne_none h (first.mp empty)
      exact .inr ⟨h, rfl, by simp [plan, own, more]⟩

theorem Sound.plan_of_held (k : c.Sound) {h : Holding} (own : c.held[r]? = some h)
    (start stop : Nat) (m : PrefixMatch) : (c.plan r start stop m).attach = [] ∧
      (c.plan r start stop m).base = h.tokens ∧
      (c.plan r start stop m).room = h.blocks.length * c.blockSize - h.tokens := by
  rcases k.plan_cases (r := r) start stop m with ⟨none, _⟩ | ⟨h', own', plan⟩
  · exact absurd (own.symm.trans none) (Option.some_ne_none h)
  · exact Option.some.inj (own.symm.trans own') ▸ plan

theorem plan_goal (c : KvCache) (r start stop : Nat) (m : PrefixMatch) :
    (c.plan r start stop m).goal = max (max stop start) (c.plan r start stop m).base := rfl

theorem plan_base_le (c : KvCache) (r start stop : Nat) (m : PrefixMatch) :
    (c.plan r start stop m).base ≤ (c.plan r start stop m).goal := Nat.le_max_right _ _

theorem Sound.plan_attached (k : c.Sound) (r start stop : Nat) {m : PrefixMatch}
    (matched : ∀ id ∈ KvOp.deviceIds m.blocks, (c.hashAt id).isSome) :
    ∀ id ∈ KvOp.deviceIds (c.plan r start stop m).attach, (c.hashAt id).isSome := by
  rcases k.plan_cases (r := r) start stop m with ⟨_, attach, _⟩ | ⟨_, _, attach, _⟩
  · exact attach ▸ matched
  · exact attach ▸ List.forall_mem_nil _

/-- The matched blocks of a plan stand for the hashes of their places. -/
def MatchNamed (c : KvCache) (request : Request) (attach : List MatchedBlock) : Prop :=
  ∀ (i : Nat) (m : MatchedBlock) (a : BlockHash), attach[i]? = some m → c.tag m = some a →
    Names request.id request.shared c.blockSize i a

/-- An allocation that was carried out. -/
structure Allocated (c : KvCache) (request : Request) (p : AllocationPlan) (d : KvCache) :
    Prop where
  sound : d.Sound
  host : d.host = c.host
  blockSize : d.blockSize = c.blockSize
  total : d.total = c.total
  now : d.now = c.now
  others : ∀ q : Nat, q ≠ request.id → d.held[q]? = c.held[q]?
  /-- What is taken beyond the matched blocks had no holder. -/
  own : ∃ blocks taken, d.held[request.id]? = some ⟨blocks, p.goal⟩ ∧ taken.Nodup ∧
    (∀ id ∈ taken, id ∉ c.heldIds) ∧
    blocks.Perm (c.heldBy request.id ++ KvOp.deviceIds p.attach ++ taken)
  hashAt : ∀ id ∈ c.heldIds, ∀ a, c.hashAt id = some a → d.hashAt id = some a
  spared : ∀ q : Nat, q ≠ request.id → ∀ id ∈ c.heldBy q,
    d.level id = c.level id ∧ d.hashAt id = c.hashAt id
  labelled : c.Labelled request.id request.shared (c.heldBy request.id) →
    c.MatchNamed request p.attach → d.Labelled request.id request.shared (d.heldBy request.id)

end KvCache

namespace KvOp
variable {c d : KvCache} {request : Request} {m : PrefixMatch} {start stop : Nat}

theorem reload_grows {loose : List Nat} (k : c.Consistent loose) (hashes : List BlockHash) :
    ∃ d, (if !hashes.isEmpty then onTier fun t now => t.reload hashes now else pure ()) c =
        .ok () d ∧ Grows c loose d loose ∧ d.level = c.level ∧ d.hashAt = c.hashAt ∧
        d.free = c.free := by
  split
  · have fine : ∀ t : HostTier, c.tier = some t →
        (t.reload hashes c.now).1 = .ok () ∧ (t.reload hashes c.now).2.Sound := fun t found =>
      (k.tier t found).reload hashes c.now
    refine ⟨_, onTier_apply _ fun t found => (fine t found).1, ?_, rfl, rfl, rfl⟩
    have consistent : ({ c with
        tier := c.tier.map fun t => (t.reload hashes c.now).2 } : KvCache).Consistent loose := by
      refine k.rehold (.refl _) rfl rfl rfl rfl rfl rfl rfl rfl fun t' found => ?_
      obtain ⟨t, ht, rfl⟩ := Option.map_eq_some_iff.mp found
      exact (fine t ht).2
    exact ⟨consistent, fun _ inLoose => inLoose, ⟨rfl, rfl, rfl, rfl, rfl⟩, fun _ _ => rfl,
      fun _ _ _ found => found⟩
  · exact ⟨c, rfl, .refl k, rfl, rfl, rfl⟩

theorem attach_grows {attach : List MatchedBlock} {loose : List Nat} (k : c.Consistent loose)
    (matched : ∀ id ∈ deviceIds attach, (c.hashAt id).isSome)
    (room : (PrefixMatch.mk attach 0).offloadedBlocks ≤ c.free - c.reserved attach)
    (hashes : List BlockHash) :
    ∃ c₁ ids evicted c₂ d taken, acquireMatched attach c = .ok () c₁ ∧
      placeMatched attach c₁ = .ok (ids, evicted) c₂ ∧
      (if !hashes.isEmpty then onTier fun t now => t.reload hashes now else pure ()) c₂ =
        .ok () d ∧
      Grows c loose d (ids ++ loose) ∧ ids.Perm (deviceIds attach ++ taken) ∧ taken.Nodup ∧
      (∀ id ∈ taken, id ∉ c.heldIds ++ loose) ∧ ids.length = attach.length ∧
      (∀ id ∈ ids, d.level id = some c.blockSize) ∧
      c.free ≤ d.free + c.reserved attach + (PrefixMatch.mk attach 0).offloadedBlocks ∧
      (∀ id ∈ c.heldIds ++ loose, d.hashAt id = c.hashAt id) ∧
      ∀ (i j : Nat) (m : MatchedBlock), ids[i]? = some j → attach[i]? = some m →
        ∀ a, d.hashAt j = some a → c.tag m = some a := by
  obtain ⟨c₁, done₁, grows₁, free₁, hash₁, full₁⟩ := acquireMatched_grows k matched
  have inLoose : ∀ id ∈ deviceIds attach, id ∈ (deviceIds attach).reverse ++ loose :=
    fun id inIds => List.mem_append_left _ (List.mem_reverse.mpr inIds)
  obtain ⟨ids, evicted, c₂, taken, done₂, takes, perm, count, placed⟩ :=
    placeMatched_takes attach grows₁.consistent
      (fun id inIds => ⟨inLoose id inIds, grows₁.frame.blockSize ▸ full₁ id inIds⟩) (by omega)
  obtain ⟨d, done₃, grows₃, level₃, hash₃, free₃⟩ := reload_grows takes.grows.consistent hashes
  have free₂ := takes.free
  have order : (taken ++ ((deviceIds attach).reverse ++ loose)).Perm (ids ++ loose) := by
    rw [← List.append_assoc]
    refine List.Perm.append_right loose ?_
    refine (List.perm_append_comm).trans (.trans ?_ perm.symm)
    exact (List.reverse_perm _).append_right taken
  have same : ∀ id ∈ c.heldIds ++ loose, d.hashAt id = c.hashAt id := by
    intro id held
    rw [hash₃, takes.hashAt id (grows₁.mem held), hash₁]
  have tags : ∀ m ∈ attach, c₂.tag m = c.tag m := by
    refine fun m inAttach => tag_congr fun id onDevice => ?_
    have inIds : id ∈ deviceIds attach := List.mem_filterMap.mpr ⟨m, inAttach, by rw [onDevice]⟩
    rw [takes.hashAt id (List.mem_append_right _ (inLoose id inIds)), hash₁]
  refine ⟨c₁, ids, evicted, c₂, d, taken, done₁, done₂, done₃,
    ((grows₁.trans takes.grows).trans grows₃).perm order, perm, takes.nodup,
    fun id inTaken held => takes.unheld id inTaken (grows₁.mem held), placed.length_eq.symm, ?_,
    by omega, same, ?_⟩
  · intro id inIds
    obtain ⟨i, inside, rfl⟩ := List.mem_iff_getElem.mp inIds
    have place := placed.get (placed.length_eq ▸ inside) inside
    rw [level₃, ← grows₁.frame.blockSize, ← takes.grows.frame.blockSize]
    exact place.full
  · intro i j m place matched' a hash
    obtain ⟨inside, rfl⟩ := List.getElem?_eq_some_iff.mp place
    obtain ⟨inside', rfl⟩ := List.getElem?_eq_some_iff.mp matched'
    rw [← tags _ (List.getElem_mem inside')]
    exact (placed.get inside' inside).tagged a (hash₃ ▸ hash)

theorem base_backed {r : Nat} {p : AllocationPlan} (k : c.Sound) (hp : p = c.plan r start stop m)
    {ids : List Nat} (blockSize : d.blockSize = c.blockSize)
    (level : ∀ id ∈ c.heldBy r, d.level id = c.level id) (length : ids.length = p.attach.length)
    (full : ∀ id ∈ ids, d.level id = some c.blockSize) :
    Backed d ⟨c.heldBy r ++ ids, p.base⟩ ∧
      p.room = (c.heldBy r ++ ids).length * c.blockSize - p.base := by
  rw [KvCache.heldBy] at level ⊢
  rcases k.plan_cases start stop m with ⟨own, attach, base, room⟩ | ⟨h, own, attach, base, room⟩
  · have same : m.blocks.length = ids.length := by rw [length, hp, attach]
    rw [own, hp, base, room, same, List.nil_append, ← blockSize]
    exact ⟨backed_full (blockSize ▸ k.positive) (blockSize ▸ full), (Nat.sub_self _).symm⟩
  · rw [hp, attach, List.length_nil, List.length_eq_zero_iff] at length
    rw [own] at level
    rw [own, hp, base, room, length, List.append_nil]
    exact ⟨(k.backed _ h own).2.congr blockSize level, rfl⟩

theorem base_labelled {p : AllocationPlan} (k : c.Sound)
    (hp : p = c.plan request.id start stop m) {ids : List Nat} (blockSize : d.blockSize = c.blockSize)
    (same : ∀ id ∈ c.heldBy request.id, d.hashAt id = c.hashAt id)
    (length : ids.length = p.attach.length)
    (tags : ∀ (i j : Nat) (m : MatchedBlock), ids[i]? = some j → p.attach[i]? = some m →
      ∀ a, d.hashAt j = some a → c.tag m = some a)
    (before : c.Labelled request.id request.shared (c.heldBy request.id))
    (matched : c.MatchNamed request p.attach) :
    d.Labelled request.id request.shared (c.heldBy request.id ++ ids) := by
  refine (before.congr blockSize same).append fun i j a place hash => ?_
  have inside := (List.getElem?_eq_some_iff.mp place).1
  rcases k.plan_cases (r := request.id) start stop m with ⟨own, _⟩ | ⟨h, own, attach, _⟩
  · have here : p.attach[i]? = some (p.attach.get ⟨i, length ▸ inside⟩) :=
      List.getElem?_eq_getElem _
    have named := matched i _ a here (tags i j _ place here a hash)
    have none : (c.heldBy request.id).length = 0 := by rw [heldBy, own]; rfl
    rwa [none, Nat.zero_add, blockSize]
  · rw [hp, attach, List.length_nil] at length
    omega

theorem extended_labelled {id : Nat} {shared : Option SharedPrefix} {full : Prop}
    [Decidable full] {count : Nat} {hashes : List BlockHash} {old blocks : List Nat}
    (hashesEq : hashes = if full then blockHashes id shared count c.blockSize else [])
    (before : c.Labelled id shared old)
    (blockSize : d.blockSize = c.blockSize)
    (topped : ∀ (i j : Nat) (a : BlockHash), old[i]? = some j → d.hashAt j = some a →
      c.hashAt j = some a ∨ hashes[i]? = some a)
    (behind : ∀ (i j : Nat) (a : BlockHash), blocks[i]? = some j → d.hashAt j = some a →
      hashes[old.length + i]? = some a) : d.Labelled id shared (old ++ blocks) := by
  have named : ∀ (i : Nat) (a : BlockHash), hashes[i]? = some a →
      Names id shared c.blockSize i a := by
    intro i a here
    rw [hashesEq] at here
    split at here
    · exact names_of_getElem? here
    · cases here
  refine Labelled.append (fun i j a place hash => ?_) fun i j a place hash => ?_
  · rw [blockSize]
    rcases topped i j a place hash with old | new
    · exact before i j a place old
    · exact named i a new
  · rw [blockSize]
    exact named _ a (behind i j a place hash)

theorem fresh_fits {p : AllocationPlan} {n add : Nat} (positive : 0 < c.blockSize)
    (below : p.base ≤ p.goal) (enough : p.base ≤ n * c.blockSize)
    (room : p.room = n * c.blockSize - p.base) (hadd : add = min p.room (p.goal - p.base))
    (fresh : p.fresh = c.blocksFor (p.goal - p.base - p.room)) :
    p.goal ≤ p.base + add + p.fresh * c.blockSize ∧
      (0 < p.fresh → p.base + add = n * c.blockSize ∧
        p.base + add + p.fresh * c.blockSize < p.goal + c.blockSize) := by
  obtain ⟨upto, tight⟩ := blocksFor_bounds positive (p.goal - p.base - p.room)
  rw [← fresh] at upto tight
  refine ⟨by omega, fun some => ?_⟩
  have one : c.blockSize ≤ p.fresh * c.blockSize := Nat.le_mul_of_pos_left _ some
  omega

theorem fillUp_backs {p : AllocationPlan} {old : List Nat} (hashes : List BlockHash)
    (k : c.Consistent loose) (positive : 0 < c.blockSize) (backed : Backed c ⟨old, p.base⟩)
    (held : ∀ id ∈ old, id ∈ loose) (below : p.base ≤ p.goal)
    (room : p.room = old.length * c.blockSize - p.base)
    (fresh : p.fresh = c.blocksFor (p.goal - p.base - p.room)) (enough : p.fresh ≤ c.free) :
    ∃ h d blocks evicted e taken, topUp hashes p.room p.goal ⟨old, p.base⟩ c = .ok h d ∧
      extend hashes p.goal p.fresh h d = .ok (⟨old ++ blocks, p.goal⟩, evicted) e ∧
      Spares c loose e (taken ++ loose) ∧ Backed e ⟨old ++ blocks, p.goal⟩ ∧
      blocks.Perm taken ∧ taken.Nodup ∧ (∀ id ∈ taken, id ∉ c.heldIds ++ loose) ∧
      (∀ (i j : Nat) (a : BlockHash), old[i]? = some j → e.hashAt j = some a →
        c.hashAt j = some a ∨ hashes[i]? = some a) ∧
      ∀ (i j : Nat) (a : BlockHash), blocks[i]? = some j → e.hashAt j = some a →
        hashes[old.length + i]? = some a := by
  obtain ⟨add, hadd⟩ : ∃ add, add = min p.room (p.goal - p.base) := ⟨_, rfl⟩
  obtain ⟨d, done, spares, filled, free, topped⟩ :=
    topUp_backs hashes p.goal k backed held room hadd
  have size := spares.frame.blockSize
  obtain ⟨upto, tight⟩ := fresh_fits positive below backed.enough room hadd fresh
  obtain ⟨blocks, evicted, e, taken, done', takes, perm, _, extended, behind⟩ :=
    extend_takes hashes p.fresh spares.consistent filled held
      (show p.base + add ≤ p.goal by omega) (size ▸ upto) (size ▸ tight) (free ▸ enough)
  refine ⟨_, d, blocks, evicted, e, taken, done, done',
    spares.trans (.of_grows takes.grows takes.hashAt), extended, perm, takes.nodup, ?_, ?_, behind⟩
  · exact fun id inTaken inAll => takes.unheld id inTaken (spares.frame.heldIds ▸ inAll)
  · intro i j a place hash
    have inLoose := held j (List.mem_of_getElem? place)
    exact topped i j a place ((takes.hashAt j (List.mem_append_right _ inLoose)).symm.trans hash)

theorem hold_sound (hits misses : Nat) {r : Nat} {own : Holding} {kept : List Nat} (k : c.Sound)
    (spares : Spares { c with held := c.held.erase r } (c.heldBy r) d kept)
    (backed : Backed d own) (positive : 0 < own.tokens) (all : own.blocks.Perm kept) :
    ({ d with
      held := d.held.insert r own, hitBlocks := hits, missBlocks := misses } : KvCache).Sound where
  positive := spares.frame.blockSize ▸ k.positive
  consistent := by
    refine spares.consistent.rehold ?_ rfl rfl rfl rfl rfl rfl rfl rfl spares.consistent.tier
    have none : d.held[r]? = none := by
      rw [spares.frame.held, Std.ExtTreeMap.getElem?_erase_self]
    rw [List.append_nil]
    refine (heldIds_insert none rfl).trans ?_
    exact (all.append_right _).trans List.perm_append_comm
  backed q h found := by
    have found' : (d.held.insert r own)[q]? = some h := found
    rw [Std.ExtTreeMap.getElem?_insert, spares.frame.held, Std.ExtTreeMap.getElem?_erase] at found'
    simp only [Std.LawfulEqOrd.compare_eq_iff_eq] at found'
    split at found'
    · rw [← Option.some.inj found']
      exact ⟨positive, backed.congr rfl fun _ _ => rfl⟩
    · next other =>
      obtain ⟨tokens, before⟩ := k.backed q h found'
      have still : ({ c with held := c.held.erase r } : KvCache).held[q]? = some h := by
        show (c.held.erase r)[q]? = some h
        rw [Std.ExtTreeMap.getElem?_erase]
        simp only [Std.LawfulEqOrd.compare_eq_iff_eq, other, if_false]
        exact found'
      exact ⟨tokens, before.congr spares.frame.blockSize fun id inside =>
        spares.level id (mem_heldIds still inside)⟩

theorem erase_consistent (k : c.Sound) (r : Nat) :
    ({ c with held := c.held.erase r } : KvCache).Consistent (c.heldBy r) := by
  refine k.consistent.rehold ?_ rfl rfl rfl rfl rfl rfl rfl rfl k.consistent.tier
  rw [List.append_nil]
  exact List.perm_append_comm.trans (unheld rfl).symm

theorem hold_allocated (hits misses : Nat) {p : AllocationPlan}
    {blocks taken kept : List Nat} (k : c.Sound)
    (spares : Spares { c with held := c.held.erase request.id } (c.heldBy request.id) d kept)
    (backed : Backed d ⟨blocks, p.goal⟩) (positive : 0 < p.goal) (all : blocks.Perm kept)
    (nodup : taken.Nodup) (new : ∀ id ∈ taken, id ∉ c.heldIds)
    (own : blocks.Perm (c.heldBy request.id ++ deviceIds p.attach ++ taken))
    (labelled : c.Labelled request.id request.shared (c.heldBy request.id) →
      c.MatchNamed request p.attach → d.Labelled request.id request.shared blocks) :
    Allocated c request p { d with
      held := d.held.insert request.id ⟨blocks, p.goal⟩
      hitBlocks := hits
      missBlocks := misses } where
  sound := hold_sound hits misses k spares backed positive all
  host := spares.frame.host
  blockSize := spares.frame.blockSize
  total := spares.frame.total
  now := spares.frame.now
  others q other := by
    show (d.held.insert request.id ⟨blocks, p.goal⟩)[q]? = c.held[q]?
    rw [Std.ExtTreeMap.getElem?_insert, spares.frame.held, Std.ExtTreeMap.getElem?_erase]
    simp only [Std.LawfulEqOrd.compare_eq_iff_eq, Ne.symm other, if_false]
  own := ⟨blocks, taken, Std.ExtTreeMap.getElem?_insert_self, nodup, new, own⟩
  hashAt id held a found := by
    have inside := (unheld (d := { c with held := c.held.erase request.id }) rfl).mem_iff.mp held
    exact spares.hashAt id (List.perm_append_comm.mem_iff.mp inside) a found
  spared q other id inside := by
    have still := mem_heldIds_of_heldBy
      ((heldBy_erase (d := { c with held := c.held.erase request.id }) other rfl).symm ▸ inside)
    exact ⟨spares.level id still, spares.same id still⟩
  labelled before matched := by
    rw [heldBy, Std.ExtTreeMap.getElem?_insert_self]
    exact labelled before matched

theorem count_lookup (c : KvCache) (m : PrefixMatch) (first : Bool) :
    ∃ hits misses, (if (first && decide (0 < m.promptBlocks)) = true
      then modify fun c => { c with
        hitBlocks := c.hitBlocks + m.size
        missBlocks := c.missBlocks + (m.promptBlocks - m.size) }
      else pure ⟨⟩ : KvOp PUnit) c =
      .ok ⟨⟩ { c with hitBlocks := hits, missBlocks := misses } := by
  split
  · exact ⟨_, _, rfl⟩
  · exact ⟨c.hitBlocks, c.missBlocks, rfl⟩

theorem attach_backs {p : AllocationPlan} (k : c.Sound) (hp : p = c.plan request.id start stop m)
    (matched : ∀ id ∈ deviceIds m.blocks, (c.hashAt id).isSome)
    (enough : p.fresh + (PrefixMatch.mk p.attach 0).offloadedBlocks ≤ c.free - c.reserved p.attach)
    (hashes : List BlockHash) :
    ∃ c₁ ids evicted c₂ d taken,
      acquireMatched p.attach { c with held := c.held.erase request.id } = .ok () c₁ ∧
      placeMatched p.attach c₁ = .ok (ids, evicted) c₂ ∧
      (if !hashes.isEmpty then onTier fun t now => t.reload hashes now else pure ()) c₂ =
        .ok () d ∧
      Spares { c with held := c.held.erase request.id } (c.heldBy request.id) d
        (ids ++ c.heldBy request.id) ∧
      Backed d ⟨c.heldBy request.id ++ ids, p.base⟩ ∧
      p.room = (c.heldBy request.id ++ ids).length * d.blockSize - p.base ∧
      ids.Perm (deviceIds p.attach ++ taken) ∧ taken.Nodup ∧ (∀ id ∈ taken, id ∉ c.heldIds) ∧
      p.fresh ≤ d.free ∧
      (c.Labelled request.id request.shared (c.heldBy request.id) →
        c.MatchNamed request p.attach →
          d.Labelled request.id request.shared (c.heldBy request.id ++ ids)) := by
  obtain ⟨c₀, hc₀⟩ : ∃ c₀, c₀ = { c with held := c.held.erase request.id } := ⟨_, rfl⟩
  have consistent : c₀.Consistent (c.heldBy request.id) := hc₀ ▸ erase_consistent k request.id
  have attached : ∀ id ∈ deviceIds p.attach, (c₀.hashAt id).isSome :=
    hc₀ ▸ hp ▸ k.plan_attached _ _ _ matched
  have free : c₀.free = c.free := by rw [hc₀]; rfl
  have reserved : c₀.reserved p.attach = c.reserved p.attach := by rw [hc₀]; rfl
  have tagged : c₀.tag = c.tag := by rw [hc₀]; rfl
  obtain ⟨c₁, ids, evicted, c₂, d, taken, done₁, done₂, done₃, grows, perm, nodup, new, length,
    full, left, hashAt, tags⟩ := attach_grows consistent attached (by omega) hashes
  have size : d.blockSize = c.blockSize := grows.frame.blockSize.trans (by rw [hc₀])
  have level : ∀ id ∈ c.heldBy request.id, d.level id = c.level id := by
    intro id inOwn
    rw [grows.level id (List.mem_append_right _ inOwn), hc₀]
    rfl
  have named : ∀ id ∈ c.heldBy request.id, d.hashAt id = c.hashAt id := by
    intro id inOwn
    rw [hashAt id (List.mem_append_right _ inOwn), hc₀]
    rfl
  obtain ⟨backed, room⟩ := base_backed k hp size level length
    ((show c₀.blockSize = c.blockSize by rw [hc₀]) ▸ full)
  subst hc₀
  refine ⟨c₁, ids, evicted, c₂, d, taken, done₁, done₂, done₃, .of_grows grows hashAt, backed,
    size.symm ▸ room, perm, nodup, fun id inTaken held => ?_, by omega,
    base_labelled k hp size named length (tagged ▸ tags)⟩
  exact new id inTaken (List.perm_append_comm.mem_iff.mp ((unheld rfl).mem_iff.mp held))

theorem carryOut_ok {p : AllocationPlan} (k : c.Sound) (hp : p = c.plan request.id start stop m)
    (matched : ∀ id ∈ deviceIds m.blocks, (c.hashAt id).isSome)
    (enough : p.fresh + (PrefixMatch.mk p.attach 0).offloadedBlocks ≤ c.free - c.reserved p.attach)
    (more : 0 < p.goal) :
    ∃ a d, carryOut request m p c = .ok a d ∧ Allocated c request p d := by
  obtain ⟨reloads, hreloads⟩ : ∃ reloads, reloads = offloadedHashes p.attach := ⟨_, rfl⟩
  obtain ⟨hashes, hashesEq⟩ : ∃ hashes, hashes = if p.base / c.blockSize < p.goal / c.blockSize
      then blockHashes request.id request.shared (p.goal / c.blockSize) c.blockSize else [] :=
    ⟨_, rfl⟩
  obtain ⟨c₁, ids, evicted, c₂, c₃, taken, done₁, done₂, done₃, spares₃, backed₃, room, perm, nodup,
    new, left, labelled₃⟩ := attach_backs k hp matched enough reloads
  have size₃ : c₃.blockSize = c.blockSize := spares₃.frame.blockSize
  have below : p.base ≤ p.goal := hp ▸ plan_base_le c _ _ _ m
  obtain ⟨h, c₄, blocks, evicted', c₅, taken', done₄, done₅, spares₅, backed₅, perm', nodup', new',
    topped, behind⟩ := fillUp_backs hashes spares₃.consistent (size₃ ▸ k.positive) backed₃
      (fun id inOwn => List.perm_append_comm.mem_iff.mpr inOwn) below room
      (by rw [hp, blocksFor, size₃]; rfl) left
  obtain ⟨hits, misses, done₆⟩ := count_lookup c₅ m (c.heldBy request.id).isEmpty
  have all : (c.heldBy request.id ++ ids ++ blocks).Perm
      (taken' ++ (ids ++ c.heldBy request.id)) :=
    (List.perm_append_comm.append perm').trans List.perm_append_comm
  have unheld : ∀ id ∈ taken' ++ taken, id ∉ c.heldIds := by
    intro id inTaken held
    rcases List.mem_append.mp inTaken with later | earlier
    · refine new' id later (spares₃.mem ?_)
      exact List.perm_append_comm.mem_iff.mp ((KvCache.unheld rfl).mem_iff.mp held)
    · exact new id earlier held
  have distinct : (taken' ++ taken).Nodup := by
    refine List.nodup_append.mpr ⟨nodup', nodup, fun id later id' earlier same => ?_⟩
    subst same
    refine new' id later (List.mem_append_right _ (List.mem_append_left _ ?_))
    exact perm.mem_iff.mpr (List.mem_append_right _ earlier)
  have own : (c.heldBy request.id ++ ids ++ blocks).Perm
      (c.heldBy request.id ++ deviceIds p.attach ++ (taken' ++ taken)) := by
    refine ((perm.append_left _).append perm').trans ?_
    rw [List.append_assoc, List.append_assoc, List.append_assoc]
    exact (List.perm_append_comm.append_left _).append_left _
  have allocated := hold_allocated hits misses k (spares₃.trans spares₅) backed₅ more all distinct
    unheld own fun before matched => extended_labelled (size₃ ▸ hashesEq)
      (labelled₃ before matched) spares₅.frame.blockSize topped behind
  refine ⟨⟨p.fresh, p.attach.length - reloads.length, reloads.length, evicted + evicted'⟩, _, ?_,
    allocated⟩
  subst hreloads hashesEq
  simp only [carryOut, get_bind, set_bind, when_bind]
  rw [bind_ok done₁, bind_ok done₂]
  refine (bind_ok done₃ _).trans ?_
  simp only [← heldBy_eq]
  rw [bind_ok done₄, bind_ok done₅, bind_ok done₆, modify_bind]
  exact bind_ok (check_apply allocated.sound.check) _

/-- The blocks of a prefix match are indexed. -/
theorem matchHashes_indexed (k : c.Consistent []) (hashes : List BlockHash) :
    ∀ id ∈ deviceIds (c.matchHashes hashes), (c.hashAt id).isSome := by
  induction hashes with
  | nil => exact List.forall_mem_nil _
  | cons x rest ih =>
      intro id inIds
      unfold matchHashes at inIds
      split at inIds
      · next j found =>
        rcases List.mem_cons.mp inIds with rfl | later
        · obtain ⟨b, hb, hash⟩ := (k.index_iff x id).mp found
          rw [hashAt_of_block hb, hash]
          rfl
        · exact ih id later
      · split at inIds
        · exact ih id inIds
        · cases inIds

/-- An allocation has nothing to do, or too few blocks, or is carried out. Only in the
last case it changes the cache. -/
theorem allocate_cases (k : c.Sound) {p : AllocationPlan}
    (hp : p = c.plan request.id start stop m)
    (matched : ∀ id ∈ deviceIds m.blocks, (c.hashAt id).isSome) :
    (p.goal = p.base ∧ p.attach = [] ∧ allocate request start stop m c = .ok {} c) ∨
    (c.free - c.reserved p.attach < p.fresh + (PrefixMatch.mk p.attach 0).offloadedBlocks ∧
      allocate request start stop m c =
        .error (.exhausted (p.fresh + (PrefixMatch.mk p.attach 0).offloadedBlocks)
          (c.free - c.reserved p.attach)) c) ∨
    (p.fresh + (PrefixMatch.mk p.attach 0).offloadedBlocks ≤ c.free - c.reserved p.attach ∧
      ∃ a d, allocate request start stop m c = .ok a d ∧ Allocated c request p d) := by
  have unfolded : allocate request start stop m c =
      (if p.goal = p.base ∧ p.attach.isEmpty then pure {}
      else if c.blockSize = 0 then throw (.fault .noBlockSize)
      else if c.free - c.reserved p.attach <
          p.fresh + (PrefixMatch.mk p.attach 0).offloadedBlocks
        then throw (.exhausted (p.fresh + (PrefixMatch.mk p.attach 0).offloadedBlocks)
          (c.free - c.reserved p.attach))
      else carryOut request m p : KvOp Allocation) c := by
    rw [hp]
    rfl
  by_cases idle : p.goal = p.base ∧ p.attach.isEmpty
  · rw [if_pos idle] at unfolded
    exact .inl ⟨idle.1, List.isEmpty_iff.mp idle.2, unfolded⟩
  · rw [if_neg idle, if_neg (Nat.ne_of_gt k.positive)] at unfolded
    refine .inr ?_
    split at unfolded
    · next few => exact .inl ⟨few, unfolded⟩
    · next enough =>
      have below : p.base ≤ p.goal := hp ▸ plan_base_le c _ _ _ m
      have more : 0 < p.goal := by
        refine Nat.pos_of_ne_zero fun zero => idle ⟨by omega, ?_⟩
        have base : p.base = 0 := by omega
        rcases k.plan_cases (r := request.id) start stop m with
          ⟨_, attach, full, _⟩ | ⟨h, own, attach, _⟩
        · rw [← hp] at full attach
          have none := (Nat.mul_eq_zero.mp (full.symm.trans base)).resolve_right
            (Nat.ne_of_gt k.positive)
          rw [attach, List.eq_nil_of_length_eq_zero none]
          rfl
        · rw [hp, attach]
          rfl
      obtain ⟨a, d, done, allocated⟩ := carryOut_ok k hp matched (Nat.not_lt.mp enough) more
      exact .inr ⟨Nat.not_lt.mp enough, a, d, unfolded.trans done, allocated⟩

end KvOp
end InferenceSim
