import InferenceSim.Proofs.Kv.Chains
import InferenceSim.Proofs.Kv.Contents
import InferenceSim.Proofs.Kv.Fixed
import InferenceSim.Proofs.Kv.TierTraffic

/-! Reloads from the host tier. A first allocation takes free blocks for the matched hashes of
the tier before it reloads them; what this evicts goes into the tier and may push out the very
hashes that are about to be reloaded. -/
namespace InferenceSim
open KvCache

namespace KvOp
variable {α β : Type} {c d e : KvCache} {loose kept : List Nat} {xs ys : List BlockHash}

theorem bind_inv {x : KvOp α} {f : α → KvOp β} {b : β} (done : (x >>= f) c = .ok b e) :
    ∃ a d, x c = .ok a d ∧ f a d = .ok b e := by
  simp only [bind, EStateM.bind] at done
  split at done
  · next a d found => exact ⟨a, d, found, done⟩
  · cases done

/-- The hashes of evicted blocks go to the host tier, none of them from a block in `kept`. -/
structure Offloads (c : KvCache) (kept : List Nat) (xs : List BlockHash) (d : KvCache) : Prop where
  tier : ∀ t, c.tier = some t → ∃ u, d.tier = some u ∧ t.Receives xs u
  spared : ∀ x ∈ xs, ∀ j ∈ kept, c.hashAt j ≠ some x

theorem Offloads.of_tier (same : d.tier = c.tier) : Offloads c kept [] d where
  tier t found := ⟨t, same.trans found, .nil⟩
  spared := List.forall_mem_nil _

theorem Offloads.retier (k : Offloads c kept xs d) (same : e.tier = d.tier) :
    Offloads c kept xs e where
  tier t found := by
    obtain ⟨u, found', receives⟩ := k.tier t found
    exact ⟨u, same.trans found', receives⟩
  spared := k.spared

theorem Offloads.trans {more : List Nat} (k : Offloads c kept xs d) (l : Offloads d more ys e)
    (subset : ∀ j ∈ kept, j ∈ more) (same : ∀ j ∈ kept, d.hashAt j = c.hashAt j) :
    Offloads c kept (xs ++ ys) e where
  tier t found := by
    obtain ⟨u, found', first⟩ := k.tier t found
    obtain ⟨v, found'', second⟩ := l.tier u found'
    exact ⟨v, found'', first.append second⟩
  spared x inside j held := by
    rcases List.mem_append.mp inside with old | new
    · exact k.spared x old j held
    · exact same j held ▸ l.spared x new j (subset j held)

theorem takeFree_offloads {id : Nat} {evicting : Bool} (k : c.Consistent loose)
    (done : takeFree c = .ok (id, evicting) d) :
    ∃ xs, xs.length = evicting.toNat ∧ Offloads c (c.heldIds ++ loose) xs d := by
  cases least : c.clean.min? with
  | some j =>
      cases (takeFree_clean least).symm.trans done
      exact ⟨[], rfl, .of_tier rfl⟩
  | none =>
      cases oldest : c.evictable.minEntry? with
      | none =>
          simp only [takeFree, get_bind, least, oldest] at done
          cases done
      | some entry =>
          obtain ⟨r, j⟩ := entry
          obtain ⟨b, hb, free, hashed, _⟩ :=
            (k.evictable_iff r j).mp (Table.getElem?_of_minEntry? oldest)
          obtain ⟨x, hash⟩ := Option.isSome_iff_exists.mp hashed
          cases (takeFree_evict k least oldest hb hash).symm.trans done
          refine ⟨[x], rfl, fun t found => ⟨_, ?_, t.offload_receives x c.now⟩, ?_⟩
          · show c.tier.map _ = _
            rw [found]
            rfl
          · intro y same i held other
            rw [List.mem_singleton.mp same] at other
            obtain ⟨b', hb', hash'⟩ := Option.bind_eq_some_iff.mp other
            have here := (k.index_iff x id).mpr ⟨b, hb, hash⟩
            have there := (k.index_iff x i).mpr ⟨b', hb', hash'⟩
            obtain rfl := Option.some.inj (here.symm.trans there)
            exact k.not_mem_of_refs hb free held

theorem acquire_same {id : Nat} (done : acquire id c = .ok () d) :
    d.tier = c.tier ∧ d.index = c.index ∧ d.clean = c.clean := by
  cases hb : c.block? id with
  | none =>
      have unknown : ({ c with stamp := c.stamp + 1 } : KvCache).block? id = none := hb
      simp only [acquire, modify_bind, get_bind, unknown] at done
      cases done
  | some b =>
      by_cases free : b.refs = 0
      · cases (acquire_free hb free).symm.trans done
        exact ⟨rfl, rfl, rfl⟩
      · cases (acquire_held hb free).symm.trans done
        exact ⟨rfl, rfl, rfl⟩

theorem acquireMatched_same {attach : List MatchedBlock}
    (done : acquireMatched attach c = .ok () d) :
    d.tier = c.tier ∧ d.index = c.index ∧ d.clean = c.clean := by
  induction attach generalizing c with
  | nil =>
      cases done
      exact ⟨rfl, rfl, rfl⟩
  | cons m rest ih =>
      cases m with
      | device id =>
          obtain ⟨_, c₁, first, later⟩ := bind_inv done
          obtain ⟨tier, index, clean⟩ := acquire_same first
          obtain ⟨tier', index', clean'⟩ := ih later
          exact ⟨tier'.trans tier, index'.trans index, clean'.trans clean⟩
      | offloaded x => exact ih done

theorem length_offloadedHashes (attach : List MatchedBlock) :
    (offloadedHashes attach).length = (PrefixMatch.mk attach 0).offloadedBlocks := by
  induction attach with
  | nil => rfl
  | cons m rest ih =>
      cases m with
      | device id => exact ih.trans (List.countP_cons_of_neg (by simp)).symm
      | offloaded x => exact (congrArg (· + 1) ih).trans (List.countP_cons_of_pos rfl).symm

theorem hashAt_register_self {id : Nat} {x : BlockHash} (inside : id < c.total)
    (absent : c.index.contains x = false) : (c.register id x).hashAt id = some x := by
  obtain ⟨b, hb⟩ := exists_block inside
  rw [KvCache.register, absent, if_neg Bool.false_ne_true, changeBlock_of_some hb]
  exact hashAt_of_block ((block?_insert (e := { b with hash := some x })
    (d := { c with
      blocks := c.blocks.insert id { b with hash := some x }
      index := c.index.insert x id }) hb rfl rfl id).trans (if_pos rfl))

theorem takeFree_names {id : Nat} {evicting : Bool} {c₁ : KvCache} {x : BlockHash}
    (k : c.Consistent loose) (room : 0 < c.free) (done : takeFree c = .ok (id, evicting) c₁)
    (unnamed : ∀ j, c.hashAt j ≠ some x) :
    ((c₁.fill id c₁.blockSize).register id x).hashAt id = some x ∧
      ∀ j y, y ≠ x → (∀ i, c.hashAt i ≠ some y) →
        ((c₁.fill id c₁.blockSize).register id x).hashAt j ≠ some y := by
  obtain ⟨_, _, _, done', takeable⟩ := takeFree_ok k room
  cases done'.symm.trans done
  obtain ⟨grows, blocks, _⟩ := takeable.fills c₁.blockSize
  have others : ∀ j y, (∀ i, c.hashAt i ≠ some y) →
      (c₁.fill id c₁.blockSize).hashAt j ≠ some y := by
    intro j y none
    rw [hashAt, blocks]
    split
    · exact (Option.some_ne_none y).symm
    · exact none j
  refine ⟨hashAt_register_self ?_ ?_, fun j y other none => ?_⟩
  · exact lt_total ((blocks id).trans (if_pos rfl))
  · refine Bool.eq_false_iff.mpr fun listed => ?_
    rw [Std.ExtTreeMap.contains_eq_isSome_getElem?] at listed
    obtain ⟨j, found⟩ := Option.isSome_iff_exists.mp listed
    obtain ⟨b, hb, hash⟩ := (grows.consistent.index_iff x j).mp found
    exact others j x unnamed ((hashAt_of_block hb).trans hash)
  · rcases hashAt_register (c₁.fill id c₁.blockSize) id x j with same | ⟨_, named⟩
    · rw [same]
      exact others j y none
    · rw [named]
      exact fun same => other (Option.some.inj same).symm

theorem placeMatched_offloads {attach : List MatchedBlock} {ids : List Nat} {evicted : Nat}
    (k : c.Consistent loose)
    (held : ∀ id ∈ deviceIds attach, id ∈ loose ∧ c.level id = some c.blockSize)
    (room : (PrefixMatch.mk attach 0).offloadedBlocks ≤ c.free)
    (distinct : (offloadedHashes attach).Nodup)
    (unnamed : ∀ x ∈ offloadedHashes attach, ∀ j, c.hashAt j ≠ some x)
    (done : placeMatched attach c = .ok (ids, evicted) d) :
    (∃ xs, xs.length = evicted ∧ Offloads c (c.heldIds ++ loose) xs d) ∧
      ∀ x ∈ offloadedHashes attach, ∃ j ∈ ids, d.hashAt j = some x := by
  -- the blocks placed so far are loose, and no block has the name of one still to be placed
  induction attach generalizing c loose ids evicted with
  | nil =>
      cases done
      exact ⟨⟨[], rfl, .of_tier rfl⟩, List.forall_mem_nil _⟩
  | cons m rest ih =>
      cases m with
      | device id =>
          obtain ⟨⟨ids', evicted'⟩, e, done', last⟩ := bind_inv done
          cases last
          obtain ⟨offloads, named⟩ := ih k
            (fun j inRest => held j (List.mem_cons_of_mem _ inRest)) room distinct unnamed done'
          refine ⟨offloads, fun x inside => ?_⟩
          obtain ⟨j, inIds, hash⟩ := named x inside
          exact ⟨j, List.mem_cons_of_mem _ inIds, hash⟩
      | offloaded x =>
          have split : (PrefixMatch.mk (.offloaded x :: rest) 0).offloadedBlocks =
              (PrefixMatch.mk rest 0).offloadedBlocks + 1 := List.countP_cons_of_pos rfl
          obtain ⟨new, distinct⟩ := List.nodup_cons.mp distinct
          obtain ⟨id, evicting, c₁, e, first, made, takes, _⟩ := takeFree_places x k (by omega)
          obtain ⟨here, others⟩ := takeFree_names k (by omega) first
            (unnamed x List.mem_cons_self)
          rw [← made] at here others
          have free := takes.free
          rw [List.length_singleton] at free
          have held' : ∀ j ∈ deviceIds rest, j ∈ [id] ++ loose ∧ e.level j = some e.blockSize := by
            intro j inRest
            obtain ⟨inLoose, full⟩ := held j inRest
            refine ⟨List.mem_append_right _ inLoose, ?_⟩
            rw [takes.grows.level j (List.mem_append_right _ inLoose), takes.grows.frame.blockSize]
            exact full
          obtain ⟨ids', evicted', d', taken, done', takes', _⟩ :=
            placeMatched_takes rest takes.grows.consistent held' (by omega)
          have whole : placeMatched (.offloaded x :: rest) c =
              .ok (id :: ids', if evicting then evicted' + 1 else evicted') d' := by
            rw [placeMatched, bind_ok first]
            simp only [modify_bind]
            rw [← made, bind_ok done']
            rfl
          cases whole.symm.trans done
          obtain ⟨⟨ys, count, later⟩, named⟩ := ih takes.grows.consistent held' (by omega) distinct
            (fun y inRest j => others j y (fun same => new (same ▸ inRest))
              (unnamed y (List.mem_cons_of_mem _ inRest))) done'
          obtain ⟨xs, one, now⟩ := takeFree_offloads k first
          have same : e.tier = c₁.tier := by
            rw [made, (register_alike _ id x).tier, (fill_alike c₁ id _).tier]
          have further := (now.retier same).trans later (fun j inAll => takes.grows.mem inAll)
            takes.hashAt
          refine ⟨⟨xs ++ ys, ?_, further⟩, fun y inside => ?_⟩
          · rw [List.length_append, one, count]
            cases evicting <;> simp [Nat.add_comm]
          · rcases List.mem_cons.mp inside with rfl | inRest
            · exact ⟨id, List.mem_cons_self, (takes'.hashAt id (by simp)).trans here⟩
            · obtain ⟨j, inIds, hash⟩ := named y inRest
              exact ⟨j, List.mem_cons_of_mem _ inIds, hash⟩

theorem extend_offloads (hashes : List BlockHash) {goal count evicted : Nat} {h h' : Holding}
    (k : c.Consistent loose) (room : count ≤ c.free)
    (done : extend hashes goal count h c = .ok (h', evicted) d) :
    ∃ xs, xs.length = evicted ∧ Offloads c (c.heldIds ++ loose) xs d := by
  induction count generalizing c loose h h' evicted with
  | zero =>
      cases done
      exact ⟨[], rfl, .of_tier rfl⟩
  | succ n ih =>
      obtain ⟨add, hadd⟩ : ∃ add, add = min c.blockSize (goal - h.tokens) := ⟨_, rfl⟩
      obtain ⟨id, evicting, c₁, e, first, size, made, takes, _⟩ :=
        takeFree_registers hashes h.blocks.length add k (by omega)
      have free := takes.free
      rw [List.length_singleton] at free
      simp only [extend] at done
      rw [bind_ok first] at done
      simp only [get_bind, modify_bind, size, ← hadd] at done
      rw [← made] at done
      obtain ⟨⟨h₁, evicted'⟩, d', later, last⟩ := bind_inv done
      cases last
      obtain ⟨ys, count, offloads⟩ := ih takes.grows.consistent (by omega) later
      obtain ⟨xs, one, now⟩ := takeFree_offloads k first
      have same : e.tier = c₁.tier := by
        rw [made]
        split
        · rw [(registerAt_alike _ hashes _ id).tier, (fill_alike c₁ id add).tier]
        · exact (fill_alike c₁ id add).tier
      refine ⟨xs ++ ys, ?_, (now.retier same).trans offloads (fun j inAll => takes.grows.mem inAll)
        takes.hashAt⟩
      rw [List.length_append, one, count]
      cases evicting <;> simp [Nat.add_comm]

theorem reload_tier (k : c.Consistent loose) {hashes : List BlockHash}
    (done : (if !hashes.isEmpty then onTier fun t now => t.reload hashes now else pure ()) c =
      .ok () d) (t : HostTier) (found : c.tier = some t) :
    d.tier = some (t.reload hashes c.now).2 := by
  split at done
  · have applied := onTier_apply (c := c) (fun t now => t.reload hashes now) fun t found =>
      ((k.tier t found).reload hashes c.now).1
    cases applied.symm.trans done
    show c.tier.map _ = _
    rw [found]
    rfl
  · next empty =>
    cases done
    have none : hashes = [] := by simpa using empty
    rw [found, none]
    simp [HostTier.reload]

variable {request : Request} {m : PrefixMatch} {first stop : Nat} {a : Allocation}

theorem check_inv (done : check c = .ok () d) : d = c := by
  cases holds : c.check with
  | ok _ =>
      cases (check_apply holds).symm.trans done
      rfl
  | error v =>
      simp only [check, get_bind, holds] at done
      cases done

/-- What blocks that get full are indexed under, in an allocation from `base` to `goal`. -/
def newHashes (request : Request) (blockSize base goal : Nat) : List BlockHash :=
  if base / blockSize < goal / blockSize
    then blockHashes request.id request.shared (goal / blockSize) blockSize else []

theorem getElem?_newHashes {blockSize base goal i : Nat} (before : base / blockSize ≤ i)
    (full : i < goal / blockSize) : (newHashes request blockSize base goal)[i]? =
      some (blockName request.id request.shared blockSize i) := by
  rw [newHashes, if_pos (Nat.lt_of_le_of_lt before full), getElem?_blockHashes_of_lt full]

/-- A first allocation counts what its look-up has found. -/
def counted (c : KvCache) (first : Bool) (m : PrefixMatch) : KvCache :=
  if first && 0 < m.promptBlocks then { c with
    hitBlocks := c.hitBlocks + m.size
    missBlocks := c.missBlocks + (m.promptBlocks - m.size) }
  else c

theorem counted_apply (c : KvCache) (first : Bool) (m : PrefixMatch) :
    (if (first && decide (0 < m.promptBlocks)) = true
      then modify fun c => { c with
        hitBlocks := c.hitBlocks + m.size
        missBlocks := c.missBlocks + (m.promptBlocks - m.size) }
      else pure ⟨⟩ : KvOp PUnit) c = .ok ⟨⟩ (counted c first m) := by
  unfold counted
  split <;> rfl

theorem counted_eq (first : Bool) (m : PrefixMatch) : ∃ hits misses, ∀ c : KvCache,
    counted c first m = { c with
      hitBlocks := c.hitBlocks + hits
      missBlocks := c.missBlocks + misses } := by
  unfold counted
  split
  · exact ⟨_, _, fun _ => rfl⟩
  · exact ⟨0, 0, fun _ => rfl⟩

theorem carryOut_steps {p : AllocationPlan} (done : carryOut request m p c = .ok a d) :
    ∃ c₁ ids evicted c₂ c₃ h c₄ h' evicted' c₅,
      acquireMatched p.attach { c with held := c.held.erase request.id } = .ok () c₁ ∧
      placeMatched p.attach c₁ = .ok (ids, evicted) c₂ ∧
      (if !(offloadedHashes p.attach).isEmpty
        then onTier fun t now => t.reload (offloadedHashes p.attach) now else pure ()) c₂ =
        .ok () c₃ ∧
      topUp (newHashes request c.blockSize p.base p.goal) p.room p.goal
        ⟨c.heldBy request.id ++ ids, p.base⟩ c₃ = .ok h c₄ ∧
      extend (newHashes request c.blockSize p.base p.goal) p.goal p.fresh h c₄ =
        .ok (h', evicted') c₅ ∧
      d = { counted c₅ (c.heldBy request.id).isEmpty m with
        held := c₅.held.insert request.id h' } ∧
      a = ⟨p.fresh, p.attach.length - (offloadedHashes p.attach).length,
        (offloadedHashes p.attach).length, evicted + evicted'⟩ := by
  simp only [carryOut, get_bind, set_bind, when_bind, ← heldBy_eq] at done
  obtain ⟨_, c₁, done₁, done⟩ := bind_inv done
  obtain ⟨⟨ids, evicted⟩, c₂, done₂, done⟩ := bind_inv done
  obtain ⟨_, c₃, done₃, done⟩ := bind_inv done
  obtain ⟨h, c₄, done₄, done⟩ := bind_inv done
  obtain ⟨⟨h', evicted'⟩, c₅, done₅, done⟩ := bind_inv done
  obtain ⟨_, c₆, done₆, done⟩ := bind_inv done
  cases (counted_apply c₅ (c.heldBy request.id).isEmpty m).symm.trans done₆
  rw [modify_bind] at done
  obtain ⟨_, c₇, done₇, done⟩ := bind_inv done
  obtain rfl := check_inv done₇
  cases done
  refine ⟨c₁, ids, evicted, c₂, c₃, h, c₄, h', evicted', c₅, done₁, done₂, done₃, done₄, done₅,
    ?_, rfl⟩
  obtain ⟨hits, misses, same⟩ := counted_eq (c.heldBy request.id).isEmpty m
  rw [same]

theorem carryOut_inv {p : AllocationPlan} (done : carryOut request m p c = .ok a d) :
    ∃ c₁ ids evicted c₂ c₃ hashes h c₄ h' evicted' c₅,
      acquireMatched p.attach { c with held := c.held.erase request.id } = .ok () c₁ ∧
      placeMatched p.attach c₁ = .ok (ids, evicted) c₂ ∧
      (if !(offloadedHashes p.attach).isEmpty
        then onTier fun t now => t.reload (offloadedHashes p.attach) now else pure ()) c₂ =
        .ok () c₃ ∧
      topUp hashes p.room p.goal ⟨c.heldBy request.id ++ ids, p.base⟩ c₃ = .ok h c₄ ∧
      extend hashes p.goal p.fresh h c₄ = .ok (h', evicted') c₅ ∧ d.tier = c₅.tier ∧
      d.held[request.id]? = some h' ∧
      a.reloaded = (offloadedHashes p.attach).length ∧ a.evicted = evicted + evicted' := by
  obtain ⟨c₁, ids, evicted, c₂, c₃, h, c₄, h', evicted', c₅, done₁, done₂, done₃, done₄, done₅,
    rfl, rfl⟩ := carryOut_steps done
  obtain ⟨hits, misses, same⟩ := counted_eq (c.heldBy request.id).isEmpty m
  exact ⟨c₁, ids, evicted, c₂, c₃, _, h, c₄, h', evicted', c₅, done₁, done₂, done₃, done₄, done₅,
    by rw [same], Std.ExtTreeMap.getElem?_insert_self, rfl, rfl⟩

/-- An allocation that succeeds has nothing to do or is carried out. -/
theorem allocate_inv {p : AllocationPlan} (k : c.Sound) (hp : p = c.plan request.id first stop m)
    (done : allocate request first stop m c = .ok a d) :
    (p.goal = p.base ∧ p.attach = [] ∧ a = {} ∧ d = c) ∨
    (p.fresh + (PrefixMatch.mk p.attach 0).offloadedBlocks ≤ c.free - c.reserved p.attach ∧
      carryOut request m p c = .ok a d) := by
  simp only [allocate, get_bind, ← hp] at done
  split at done
  · next idle =>
    cases done
    exact .inl ⟨idle.1, List.isEmpty_iff.mp idle.2, rfl, rfl⟩
  · rw [if_neg (Nat.ne_of_gt k.positive)] at done
    split at done
    · cases done
    · next enough => exact .inr ⟨Nat.not_lt.mp enough, done⟩

theorem allocate_sound (k : c.Sound) (matched : ∀ id ∈ deviceIds m.blocks, (c.hashAt id).isSome)
    (done : allocate request first stop m c = .ok a d) : d.Sound := by
  rcases allocate_cases k (Eq.refl (c.plan request.id first stop m)) matched with
    ⟨_, _, done'⟩ | ⟨_, failed⟩ | ⟨_, _, _, done', allocated⟩
  · cases done'.symm.trans done
    exact k
  · cases failed.symm.trans done
  · cases done'.symm.trans done
    exact allocated.sound

theorem attach_reloads {attach : List MatchedBlock} {c₁ c₂ : KvCache} {ids : List Nat}
    {evicted : Nat} {t : HostTier} (k : c.Consistent loose) (tier : c.tier = some t)
    (matched : ∀ id ∈ deviceIds attach, (c.hashAt id).isSome)
    (room : (PrefixMatch.mk attach 0).offloadedBlocks ≤ c.free - c.reserved attach)
    (distinct : (offloadedHashes attach).Nodup)
    (unnamed : ∀ x ∈ offloadedHashes attach, ∀ j, c.hashAt j ≠ some x)
    (done₁ : acquireMatched attach c = .ok () c₁)
    (done₂ : placeMatched attach c₁ = .ok (ids, evicted) c₂)
    (done₃ : (if !(offloadedHashes attach).isEmpty
      then onTier fun t now => t.reload (offloadedHashes attach) now else pure ()) c₂ = .ok () d) :
    ∃ xs u kept, xs.length = evicted ∧ t.Receives xs u ∧
      d.tier = some (u.reload (offloadedHashes attach) c₂.now).2 ∧ d.Consistent kept ∧
      c.free ≤ d.free + c.reserved attach + (PrefixMatch.mk attach 0).offloadedBlocks ∧
      ∀ x ∈ offloadedHashes attach, ∃ j ∈ d.heldIds ++ kept, d.hashAt j = some x := by
  obtain ⟨_, done₁', grows₁, free₁, hash₁, full₁⟩ := acquireMatched_grows k matched
  cases done₁'.symm.trans done₁
  have held : ∀ id ∈ deviceIds attach,
      id ∈ (deviceIds attach).reverse ++ loose ∧ c₁.level id = some c₁.blockSize := by
    intro id inIds
    exact ⟨List.mem_append_left _ (List.mem_reverse.mpr inIds),
      grows₁.frame.blockSize ▸ full₁ id inIds⟩
  obtain ⟨_, _, _, taken, done₂', takes, perm, count, _⟩ :=
    placeMatched_takes attach grows₁.consistent held (by omega)
  cases done₂'.symm.trans done₂
  obtain ⟨⟨xs, number, offloads⟩, named⟩ := placeMatched_offloads grows₁.consistent held (by omega)
    distinct (fun x inside j => hash₁ ▸ unnamed x inside j) done₂
  obtain ⟨u, found, receives⟩ := offloads.tier t ((acquireMatched_same done₁).1.trans tier)
  obtain ⟨_, done₃', grows₃, _, hash₃, free₃⟩ :=
    reload_grows takes.grows.consistent (offloadedHashes attach)
  cases done₃'.symm.trans done₃
  have free₂ := takes.free
  refine ⟨xs, u, _, number, receives, reload_tier takes.grows.consistent done₃ u found,
    grows₃.consistent, by omega, fun x inside => ?_⟩
  obtain ⟨j, inIds, hash⟩ := named x inside
  refine ⟨j, List.mem_append_right _ ?_, hash₃ ▸ hash⟩
  rcases List.mem_append.mp (perm.mem_iff.mp inIds) with onDevice | new
  · exact List.mem_append_right _ (held j onDevice).1
  · exact List.mem_append_left _ new

end KvOp

namespace KvCache
variable {c d : KvCache} {request : Request} {t : HostTier} {first stop : Nat} {a : Allocation}

theorem offloaded_matchHashes (c : KvCache) (hashes : List BlockHash) :
    (KvOp.offloadedHashes (c.matchHashes hashes)).Sublist hashes ∧
      ∀ x ∈ KvOp.offloadedHashes (c.matchHashes hashes),
        c.index[x]? = none ∧ c.isOffloaded x = true := by
  induction hashes with
  | nil => exact ⟨.slnil, List.forall_mem_nil _⟩
  | cons y rest ih =>
      unfold matchHashes
      split
      · exact ⟨ih.1.cons y, ih.2⟩
      · next absent =>
        split
        · next here =>
          exact ⟨ih.1.cons_cons y, List.forall_mem_cons.mpr ⟨⟨absent, here⟩, ih.2⟩⟩
        · exact ⟨List.nil_sublist _, List.forall_mem_nil _⟩

theorem offloaded_nodup
    (distinct :
      (promptBlockHashes request.id request.shared request.inputTokens c.blockSize).Nodup) :
    (KvOp.offloadedHashes (c.lookup request).blocks).Nodup :=
  (distinct.sublist (List.take_sublist _ _)).sublist (c.offloaded_matchHashes _).1

theorem Sound.offloaded_found (k : c.Sound) (tier : c.tier = some t) :
    ∀ x ∈ KvOp.offloadedHashes (c.lookup request).blocks,
      t.contains x = true ∧ ∀ j, c.hashAt j ≠ some x := by
  intro x inside
  obtain ⟨absent, here⟩ := (c.offloaded_matchHashes _).2 x inside
  rw [isOffloaded, tier] at here
  refine ⟨here, fun j hash => ?_⟩
  obtain ⟨b, hb, hashed⟩ := Option.bind_eq_some_iff.mp hash
  have listed := (k.consistent.index_iff x j).mpr ⟨b, hb, hashed⟩
  exact Option.some_ne_none j (listed.symm.trans absent)

/-- A first allocation is charged for its reloads. -/
theorem Sound.charged (k : c.Sound) (tier : c.tier = some t)
    (unheld : c.held[request.id]? = none)
    (distinct :
      (promptBlockHashes request.id request.shared request.inputTokens c.blockSize).Nodup)
    (done : KvOp.allocate request first stop (c.lookup request) c = .ok a d) :
    ∃ u, d.tier = some u ∧
      t.Charged (KvOp.offloadedHashes (c.lookup request).blocks) a.reloaded a.evicted u := by
  obtain ⟨p, hp⟩ : ∃ p, p = c.plan request.id first stop (c.lookup request) := ⟨_, rfl⟩
  obtain ⟨attach, room⟩ : p.attach = (c.lookup request).blocks ∧ p.room = 0 := by
    rcases k.plan_cases (r := request.id) first stop (c.lookup request) with
      ⟨_, attach, _, room⟩ | ⟨h, own, _⟩
    · exact hp ▸ ⟨attach, room⟩
    · exact absurd (own.symm.trans unheld) (Option.some_ne_none h)
  have distinct := offloaded_nodup distinct
  have found : ∀ x ∈ KvOp.offloadedHashes (c.lookup request).blocks,
      t.contains x = true ∧ ∀ j, c.hashAt j ≠ some x := k.offloaded_found tier
  rw [← attach] at distinct found ⊢
  rcases KvOp.allocate_inv k hp done with ⟨_, none, rfl, rfl⟩ | ⟨enough, done⟩
  · rw [none]
    exact ⟨t, tier, .nothing⟩
  · obtain ⟨c₁, ids, evicted, c₂, c₃, hashes, h, c₄, h', evicted', c₅, done₁, done₂, done₃,
      done₄, done₅, last, _, reloaded, number⟩ := KvOp.carryOut_inv done
    have without := KvOp.erase_consistent k request.id
    obtain ⟨xs, u, kept, first, receives, reload, consistent, free, named⟩ :=
      KvOp.attach_reloads without tier
        (fun id inIds => k.match_indexed (.inl rfl) id (attach ▸ inIds))
        (show _ ≤ c.free - c.reserved p.attach by omega) distinct
        (fun x inside => (found x inside).2) done₁ done₂ done₃
    have free : c.free ≤ c₃.free + c.reserved p.attach +
      (PrefixMatch.mk p.attach 0).offloadedBlocks := free
    rw [room, KvOp.topUp_noRoom] at done₄
    cases done₄
    obtain ⟨ys, second, offloads⟩ := KvOp.extend_offloads hashes consistent (by omega) done₅
    obtain ⟨v, found', receives'⟩ := offloads.tier _ reload
    refine ⟨v, last.trans found', ?_⟩
    rw [reloaded, number, ← first, ← second]
    refine HostTier.charged_of_reload distinct (fun x inside => (found x inside).1) receives
      receives' fun x inside new => ?_
    obtain ⟨j, held, hash⟩ := named x inside
    exact offloads.spared x new j held hash

/-- After any calls on a cache with a host tier, an allocation for a request that holds nothing
finds too few blocks or reloads all that its match has in the tier. It is charged for each of
them that the tier has not dropped within the call; if the tier has room for what the call
evicts, for every one. -/
theorem reloads_charged {blockSize : Nat} (positive : 0 < blockSize) (host total : Nat)
    (config : HostTierConfig) (calls : List KvCall)
    (reached : c = (start host total blockSize (some config)).after calls)
    (request : Request) (unheld : c.held[request.id]? = none)
    (distinct :
      (promptBlockHashes request.id request.shared request.inputTokens blockSize).Nodup)
    (first stop : Nat) :
    ∃ t, c.tier = some t ∧
      ((∃ a d u, KvOp.allocate request first stop (c.lookup request) c = .ok a d ∧
        d.tier = some u ∧ a.reloaded = (c.lookup request).offloadedBlocks ∧
        t.Charged (KvOp.offloadedHashes (c.lookup request).blocks) a.reloaded a.evicted u ∧
        (a.evicted ≤ t.free → u.reloads = t.reloads + a.reloaded ∧
          u.pendingLatency = t.pendingLatency + t.transferLatency a.reloaded)) ∨
      ∃ needed available : Nat, available < needed ∧
        KvOp.allocate request first stop (c.lookup request) c =
          .error (.exhausted needed available) c) := by
  have k : c.Sound := reached ▸ (start_sound host total positive (some config)).after calls
  have fixed : Fixed (start host total blockSize (some config)) c :=
    reached ▸ after_fixed _ calls
  obtain ⟨t, tier⟩ := Option.isSome_iff_exists.mp (fixed.tier.trans rfl)
  refine ⟨t, tier, ?_⟩
  rcases k.answers.allocate request first stop _ (.inl rfl) with ⟨a, d, done, _⟩ | failed
  · have size : c.blockSize = blockSize := fixed.blockSize
    obtain ⟨u, tier', charged⟩ := k.charged tier unheld (size.symm ▸ distinct) done
    have all := charged.count.trans (KvOp.length_offloadedHashes (c.lookup request).blocks)
    exact .inl ⟨a, d, u, done, tier', all, charged, charged.whole⟩
  · exact .inr failed

/-- A request whose prompt fills two blocks of two tokens and a part of a third one. -/
def threeBlocks (id : Nat) : Request := { id, arrivalTime := 0, inputTokens := 5, outputTokens := 1 }

/-- Two such requests in turn, in a cache of three blocks: the content of the first one goes to
the host tier. -/
def turns : List KvCall :=
  [.allocate (threeBlocks 1) 0 5 true, .release 1, .allocate (threeBlocks 2) 0 5 true]

/-- The first request comes back after the second one has gone. -/
theorem turns_charged : ∃ c, c = (start 0 3 2 (some { blocks := 4 })).after
      (turns ++ [1, 2].map KvCall.release) ∧ 0 < 2 ∧ c.held[(threeBlocks 1).id]? = none ∧
    (promptBlockHashes 1 none 5 2).Nodup ∧ ∃ t, c.tier = some t ∧ ∀ a d u,
      KvOp.allocate (threeBlocks 1) 4 5 (c.lookup (threeBlocks 1)) c = .ok a d →
      d.tier = some u → a.evicted ≤ t.free → u.reloads = t.reloads + a.reloaded := by
  have distinct : (promptBlockHashes 1 none 5 2).Nodup := by decide +kernel
  have unheld : ((start 0 3 2 (some { blocks := 4 })).after
      (turns ++ [1, 2].map KvCall.release)).held[(threeBlocks 1).id]? = none := by
    rw [after_append, ((start_sound 0 3 (by decide) _).after turns).after_releases]
    rfl
  obtain ⟨t, tier, charged⟩ :=
    reloads_charged (by decide) 0 3 { blocks := 4 } _ rfl (threeBlocks 1) unheld distinct 4 5
  refine ⟨_, rfl, by decide, unheld, distinct, t, tier, fun a d u done found room => ?_⟩
  rcases charged with ⟨a', d', u', done', found', _, _, whole⟩ | ⟨_, _, _, failed⟩
  · cases done.symm.trans done'
    cases found.symm.trans found'
    exact (whole room).1
  · cases done.symm.trans failed

end KvCache
end InferenceSim
