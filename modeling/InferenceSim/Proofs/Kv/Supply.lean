import InferenceSim.Proofs.Kv.Capacity
import InferenceSim.Proofs.Kv.Reloads

/-! Which blocks an allocation takes. The count that it makes beforehand is the number of
blocks that its loops take later, and they take them from the head of one list: the blocks
without content by id, then the cached ones that it has not matched, oldest first. -/
namespace InferenceSim
open KvCache

namespace KvCache

/-- The cached blocks without holders, least recently used first. -/
def evictionOrder (c : KvCache) : List Nat := c.evictable.toList.map Prod.snd

def supply (c : KvCache) : List Nat := c.clean.toList ++ c.evictionOrder

theorem length_supply (c : KvCache) : c.supply.length = c.free := by
  rw [supply, List.length_append, evictionOrder, List.length_map, Std.ExtTreeMap.length_toList,
    Std.ExtTreeSet.length_toList, free]

/-- Both caches list the same free blocks. -/
structure Lists (c d : KvCache) : Prop where
  clean : d.clean = c.clean
  evictable : d.evictable = c.evictable

variable {c d e : KvCache}

instance : Std.Refl Lists := ⟨fun _ => ⟨rfl, rfl⟩⟩

instance : Trans Lists Lists Lists :=
  ⟨fun k l => ⟨l.clean.trans k.clean, l.evictable.trans k.evictable⟩⟩

theorem Lists.supply (k : Lists c d) : d.supply = c.supply := by
  rw [KvCache.supply, evictionOrder, k.clean, k.evictable, KvCache.supply, evictionOrder]

theorem changeBlock_lists (c : KvCache) (id : Nat) (f : Block → Block) :
    Lists c (c.changeBlock id f) := by
  unfold changeBlock
  split <;> exact ⟨rfl, rfl⟩

theorem fill_lists (c : KvCache) (id tokens : Nat) : Lists c (c.fill id tokens) := by
  obtain ⟨clean, evictable⟩ := changeBlock_lists { c with stamp := c.stamp + 1 } id
    fun _ => { hash := none, refs := 1, filled := tokens, recency := c.stamp + 1 }
  exact ⟨clean, evictable⟩

theorem register_lists (c : KvCache) (id : Nat) (x : BlockHash) : Lists c (c.register id x) := by
  unfold register
  split
  · exact Std.Refl.refl c
  · obtain ⟨clean, evictable⟩ := changeBlock_lists c id fun b => { b with hash := some x }
    exact ⟨clean, evictable⟩

theorem registerAt_lists (c : KvCache) (hashes : List BlockHash) (place id : Nat) :
    Lists c (c.registerAt hashes place id) := by
  unfold registerAt
  split
  · exact register_lists c id _
  · exact Std.Refl.refl c

theorem Consistent.mem_evictionOrder {loose : List Nat} {id : Nat} {b : Block}
    (k : c.Consistent loose) (hb : c.block? id = some b) :
    id ∈ c.evictionOrder ↔ b.refs = 0 ∧ b.hash.isSome := by
  rw [evictionOrder, List.mem_map]
  constructor
  · rintro ⟨⟨r, j⟩, inside, rfl⟩
    rw [Std.ExtTreeMap.mem_toList_iff_getElem?_eq_some, k.evictable_iff] at inside
    obtain ⟨b', hb', free, hashed, _⟩ := inside
    obtain rfl := Option.some.inj (hb.symm.trans hb')
    exact ⟨free, hashed⟩
  · rintro ⟨free, hashed⟩
    refine ⟨(b.recency, id), ?_, rfl⟩
    rw [Std.ExtTreeMap.mem_toList_iff_getElem?_eq_some, k.evictable_iff]
    exact ⟨b, hb, free, hashed, rfl⟩

theorem Consistent.evictionOrder_erase {loose : List Nat} {id : Nat} {b : Block}
    (k : c.Consistent loose) (hb : c.block? id = some b) (free : b.refs = 0)
    (hashed : b.hash.isSome) (evictable : d.evictable = c.evictable.erase b.recency) :
    d.evictionOrder = c.evictionOrder.filter (· ≠ id) := by
  have listed := (k.evictable_iff b.recency id).mpr ⟨b, hb, free, hashed, rfl⟩
  rw [evictionOrder, evictionOrder, evictable, Table.toList_erase, List.filter_map]
  congr 1
  refine List.filter_congr fun entry inside => ?_
  obtain ⟨r, j⟩ := entry
  rw [Std.ExtTreeMap.mem_toList_iff_getElem?_eq_some] at inside
  refine decide_eq_decide.mpr (not_congr ⟨fun same => ?_, fun same => ?_⟩)
  · rw [show r = b.recency from same] at inside
    exact Option.some.inj (inside.symm.trans listed)
  · obtain ⟨b', hb', _, _, recent⟩ := (k.evictable_iff r j).mp inside
    rw [show j = id from same] at hb'
    obtain rfl := Option.some.inj (hb.symm.trans hb')
    exact recent.symm

end KvCache

namespace KvOp
variable {c d : KvCache} {loose : List Nat}

theorem onTier_lists (f : HostTier → Nat → Except Violation Unit × HostTier) :
    Leaves Lists (onTier f) := by
  refine .read fun c => ?_
  cases c.tier with
  | none => exact Std.Refl.refl c
  | some t =>
      simp only
      split
      · exact ⟨rfl, rfl⟩
      · exact ⟨rfl, rfl⟩

theorem dropContent_lists (id : Nat) : Leaves Lists (dropContent id) := by
  refine .reads fun c => .bind (.change fun c => ?_) fun _ => ?_
  · obtain ⟨clean, evictable⟩ :=
      changeBlock_lists c id fun b => { b with hash := none, filled := 0 }
    exact ⟨clean, evictable⟩
  · split
    · exact .result _
    · refine .bind (.change fun c => ?_) fun _ => onTier_lists _
      split
      · exact ⟨rfl, rfl⟩
      · exact Std.Refl.refl c

theorem takeFree_supply {id : Nat} {evicting : Bool}
    (done : takeFree c = .ok (id, evicting) d) : c.supply = id :: d.supply := by
  cases least : c.clean.min? with
  | some j =>
      cases (takeFree_clean least).symm.trans done
      rw [supply, Table.toList_of_min? least]
      rfl
  | none =>
      have none_clean : c.clean = ∅ := Std.ExtTreeSet.min?_eq_none_iff.mp least
      cases oldest : c.evictable.minEntry? with
      | none =>
          simp only [takeFree, get_bind, least, oldest] at done
          cases done
      | some entry =>
          simp only [takeFree, get_bind, least, oldest, modify_bind] at done
          obtain ⟨_, c₁, dropped, last⟩ := bind_inv done
          cases last
          have lists := (dropContent_lists entry.2).of_ok dropped
          have order := congrArg (List.map Prod.snd) (Table.toList_of_minEntry? oldest)
          rw [supply, supply, evictionOrder, evictionOrder, lists.clean, lists.evictable,
            none_clean]
          exact order

theorem acquire_supply {id : Nat} (k : c.Consistent loose) (matched : (c.hashAt id).isSome)
    (done : acquire id c = .ok () d) :
    d.clean = c.clean ∧ d.evictionOrder = c.evictionOrder.filter (· ≠ id) := by
  obtain ⟨x, hash⟩ := Option.isSome_iff_exists.mp matched
  obtain ⟨b, hb, hashed⟩ := Option.bind_eq_some_iff.mp hash
  by_cases free : b.refs = 0
  · cases (acquire_free hb free).symm.trans done
    exact ⟨rfl, k.evictionOrder_erase hb free (hashed ▸ rfl) rfl⟩
  · cases (acquire_held hb free).symm.trans done
    have absent : id ∉ c.evictionOrder := fun inside =>
      free ((k.mem_evictionOrder hb).mp inside).1
    refine ⟨rfl, (List.filter_eq_self.mpr fun j inside => ?_).symm⟩
    exact decide_eq_true fun same => absent (same ▸ inside)

theorem acquireMatched_supply {attach : List MatchedBlock} (k : c.Consistent loose)
    (matched : ∀ id ∈ deviceIds attach, (c.hashAt id).isSome)
    (done : acquireMatched attach c = .ok () d) :
    d.supply = c.clean.toList ++ c.evictionOrder.filter (· ∉ deviceIds attach) := by
  -- each block is taken out of what the blocks before it have left
  suffices apart : d.clean = c.clean ∧
      d.evictionOrder = c.evictionOrder.filter (· ∉ deviceIds attach) by
    rw [supply, apart.1, apart.2]
  induction attach generalizing c loose with
  | nil =>
      cases done
      exact ⟨rfl, (List.filter_eq_self.mpr fun _ _ => by simp [deviceIds]).symm⟩
  | cons m rest ih =>
      cases m with
      | offloaded x => exact ih k matched done
      | device id =>
          obtain ⟨here, others⟩ := List.forall_mem_cons.mp matched
          obtain ⟨x, hash⟩ := Option.isSome_iff_exists.mp here
          obtain ⟨b, hb, hashed⟩ := Option.bind_eq_some_iff.mp hash
          obtain ⟨_, c₁, first, later⟩ := bind_inv done
          obtain ⟨_, first', grows, blocks, _⟩ := acquire_grows k hb (hashed ▸ rfl)
          cases first'.symm.trans first
          have still : ∀ j ∈ deviceIds rest, (c₁.hashAt j).isSome := by
            intro j inRest
            rw [hashAt, blocks]
            split
            · exact hashed ▸ rfl
            · exact others j inRest
          obtain ⟨clean₁, order₁⟩ := acquire_supply k here first
          obtain ⟨clean, order⟩ := ih grows.consistent still later
          refine ⟨clean.trans clean₁, ?_⟩
          rw [order, order₁, List.filter_filter]
          refine List.filter_congr fun j _ => ?_
          show _ = decide (j ∉ id :: deviceIds rest)
          simp [Bool.and_comm]

/-- The blocks of a request in token order: the matched ones, those of the host tier in blocks
that were taken, and behind them the other blocks that were taken. -/
def seats : List MatchedBlock → List Nat → List Nat
  | [], taken => taken
  | .device id :: rest, taken => id :: seats rest taken
  | .offloaded _ :: rest, id :: taken => id :: seats rest taken
  | .offloaded _ :: _, [] => []

theorem placeMatched_supply {attach : List MatchedBlock} {ids : List Nat} {evicted : Nat}
    (done : placeMatched attach c = .ok (ids, evicted) d) :
    ∃ taken, taken.length = (PrefixMatch.mk attach 0).offloadedBlocks ∧
      c.supply = taken ++ d.supply ∧ ∀ more, ids ++ more = seats attach (taken ++ more) := by
  induction attach generalizing c ids evicted with
  | nil =>
      cases done
      exact ⟨[], rfl, rfl, fun _ => rfl⟩
  | cons m rest ih =>
      cases m with
      | device id =>
          obtain ⟨⟨ids', evicted'⟩, c₁, later, last⟩ := bind_inv done
          cases last
          obtain ⟨taken, count, split, seated⟩ := ih later
          refine ⟨taken, count, split, fun more => ?_⟩
          exact congrArg (id :: ·) (seated more)
      | offloaded x =>
          obtain ⟨⟨id, evicting⟩, c₁, first, done⟩ := bind_inv done
          simp only [modify_bind] at done
          obtain ⟨⟨ids', evicted'⟩, c₂, later, last⟩ := bind_inv done
          cases last
          obtain ⟨taken, count, split, seated⟩ := ih later
          refine ⟨id :: taken, ?_, ?_, fun more => congrArg (id :: ·) (seated more)⟩
          · rw [List.length_cons, count]
            exact (List.countP_cons_of_pos rfl).symm
          · have same := (register_lists (c₁.fill id c₁.blockSize) id x).supply.trans
              (fill_lists c₁ id c₁.blockSize).supply
            rw [takeFree_supply first, ← same, split]
            rfl

theorem length_placeMatched {attach : List MatchedBlock} {ids : List Nat} {evicted : Nat}
    (done : placeMatched attach c = .ok (ids, evicted) d) : ids.length = attach.length := by
  induction attach generalizing c ids evicted with
  | nil =>
      cases done
      rfl
  | cons m rest ih =>
      cases m with
      | device id =>
          obtain ⟨⟨ids', evicted'⟩, c₁, later, last⟩ := bind_inv done
          cases last
          exact congrArg (· + 1) (ih later)
      | offloaded x =>
          obtain ⟨⟨id, evicting⟩, c₁, _, done⟩ := bind_inv done
          simp only [modify_bind] at done
          obtain ⟨⟨ids', evicted'⟩, c₂, later, last⟩ := bind_inv done
          cases last
          exact congrArg (· + 1) (ih later)

theorem topUp_lists (hashes : List BlockHash) (room goal : Nat) (h : Holding) :
    Leaves Lists (topUp hashes room goal h) := by
  unfold topUp
  split
  · exact .result _
  · split
    · exact .result _
    · refine .bind (.change fun c => changeBlock_lists c _ _) fun _ =>
        .bind (.change fun c => ?_) fun _ => .result _
      split
      · exact registerAt_lists c hashes _ _
      · exact Std.Refl.refl c

theorem topUp_supply {hashes : List BlockHash} {room goal : Nat} {h h' : Holding}
    (done : topUp hashes room goal h c = .ok h' d) :
    h'.blocks = h.blocks ∧ d.supply = c.supply := by
  refine ⟨?_, ((topUp_lists hashes room goal h).of_ok done).supply⟩
  cases last : h.blocks.getLast? with
  | none =>
      simp only [topUp, last] at done
      cases done
      rfl
  | some id =>
      simp only [topUp, last] at done
      split at done
      · cases done
        rfl
      · simp only [modify_bind, pure_apply] at done
        cases done
        rfl

theorem extend_supply {hashes : List BlockHash} {goal count evicted : Nat} {h h' : Holding}
    (done : extend hashes goal count h c = .ok (h', evicted) d) :
    ∃ taken, taken.length = count ∧ c.supply = taken ++ d.supply ∧
      h'.blocks = h.blocks ++ taken := by
  induction count generalizing c h evicted with
  | zero =>
      cases done
      exact ⟨[], rfl, rfl, (List.append_nil _).symm⟩
  | succ n ih =>
      simp only [extend] at done
      obtain ⟨⟨id, evicting⟩, c₁, first, done⟩ := bind_inv done
      simp only [get_bind, modify_bind] at done
      obtain ⟨⟨h₁, evicted'⟩, c₂, later, last⟩ := bind_inv done
      cases last
      obtain ⟨taken, length, split, blocks⟩ := ih later
      have same : ∀ add : Nat, (if add = (c₁.fill id add).blockSize
          then (c₁.fill id add).registerAt hashes h.blocks.length id
          else c₁.fill id add).supply = c₁.supply := by
        intro add
        split
        · exact (registerAt_lists _ hashes _ _).supply.trans (fill_lists c₁ id add).supply
        · exact (fill_lists c₁ id add).supply
      refine ⟨id :: taken, by rw [List.length_cons, length], ?_, ?_⟩
      · rw [takeFree_supply first, ← same, split]
        rfl
      · rw [blocks, List.append_assoc]
        rfl

/-- The blocks that a plan takes, and those of the supply that it leaves. -/
structure TakesFrom (c : KvCache) (p : AllocationPlan) (taken : List Nat) : Prop where
  count : taken.length = (PrefixMatch.mk p.attach 0).offloadedBlocks + p.fresh
  head : taken <+: c.clean.toList ++ c.evictionOrder.filter (· ∉ deviceIds p.attach)

theorem carryOut_supply {request : Request} {m : PrefixMatch} {p : AllocationPlan}
    {a : Allocation} (k : c.Sound) (matched : ∀ id ∈ deviceIds p.attach, (c.hashAt id).isSome)
    (done : carryOut request m p c = .ok a d) :
    ∃ taken, TakesFrom c p taken ∧
      d.heldBy request.id = c.heldBy request.id ++ seats p.attach taken := by
  obtain ⟨c₁, ids, evicted, c₂, c₃, hashes, h, c₄, h', evicted', c₅, done₁, done₂, done₃,
    done₄, done₅, _, held, _⟩ := carryOut_inv done
  have supply₁ := acquireMatched_supply (erase_consistent k request.id) matched done₁
  obtain ⟨reloaded, count, split, seated⟩ := placeMatched_supply done₂
  have reload : c₃.supply = c₂.supply := ((Leaves.when _ (onTier_lists _)).of_ok done₃).supply
  obtain ⟨topped, same⟩ := topUp_supply done₄
  obtain ⟨fresh, length, split', blocks⟩ := extend_supply done₅
  refine ⟨reloaded ++ fresh, ⟨?_, c₅.supply, ?_⟩, ?_⟩
  · rw [List.length_append, count, length]
  · rw [List.append_assoc, ← split', same, reload, ← split]
    exact supply₁
  · rw [heldBy, held]
    show h'.blocks = _
    rw [blocks, topped, List.append_assoc, seated]

theorem plan_of_held {request : Request} (m : PrefixMatch) (first stop : Nat)
    (held : c.heldBy request.id ≠ []) :
    c.plan request.id first stop m = c.plan request.id first stop {} := by
  rw [heldBy_eq] at held
  simp [plan, held]

theorem allocate_of_held {request : Request} (m : PrefixMatch) (first stop : Nat)
    (held : c.heldBy request.id ≠ []) :
    allocate request first stop m c = allocate request first stop {} c := by
  have carried : ∀ p, carryOut request m p c = carryOut request {} p c := by
    intro p
    have more : ((c.held[request.id]?).getD {}).blocks.isEmpty = false := by
      rw [← heldBy_eq]
      exact Bool.eq_false_iff.mpr fun none => held (List.isEmpty_iff.mp none)
    simp only [carryOut, get_bind, more, Bool.false_and]
    rfl
  simp only [allocate, get_bind, plan_of_held m first stop held]
  split
  · rfl
  · split
    · rfl
    · split
      · rfl
      · exact carried _

theorem idle_takes {request : Request} {m : PrefixMatch} {first stop : Nat} {p : AllocationPlan}
    (k : c.Sound) (hp : p = c.plan request.id first stop m) (still : p.goal = p.base)
    (none : p.attach = []) :
    TakesFrom c p [] ∧ (c.held[request.id]?).getD {} =
      ⟨c.heldBy request.id ++ seats p.attach [], p.goal⟩ := by
  have fresh : p.fresh = 0 := by
    have counted : p.fresh = c.blocksFor (p.goal - p.base - p.room) := by rw [hp]; rfl
    rw [counted, still, Nat.sub_self, Nat.zero_sub, blocksFor]
    exact Nat.div_eq_of_lt (by have := k.positive; omega)
  refine ⟨⟨by rw [none, fresh]; rfl, List.nil_prefix⟩, ?_⟩
  rw [none, seats, List.append_nil, still]
  rcases k.plan_cases (r := request.id) first stop m with ⟨own, attach, base, _⟩ |
    ⟨h, own, _, base, _⟩
  · rw [← hp] at attach base
    rw [base, ← attach, none, heldBy, own]
    simp
  · rw [← hp] at base
    rw [base, heldBy, own]
    rfl

theorem allocate_takes {request : Request} {m : PrefixMatch} {first stop : Nat}
    {p : AllocationPlan} (k : c.Sound) (hp : p = c.plan request.id first stop m)
    (matched : ∀ id ∈ deviceIds m.blocks, (c.hashAt id).isSome) :
    (c.free - c.reserved p.attach < (PrefixMatch.mk p.attach 0).offloadedBlocks + p.fresh ∧
      allocate request first stop m c =
        .error (.exhausted ((PrefixMatch.mk p.attach 0).offloadedBlocks + p.fresh)
          (c.free - c.reserved p.attach)) c) ∨
    ((PrefixMatch.mk p.attach 0).offloadedBlocks + p.fresh ≤ c.free - c.reserved p.attach ∧
      ∃ a d taken, allocate request first stop m c = .ok a d ∧ TakesFrom c p taken ∧
        (d.held[request.id]?).getD {} =
          ⟨c.heldBy request.id ++ seats p.attach taken, p.goal⟩) := by
  have attached : ∀ id ∈ deviceIds p.attach, (c.hashAt id).isSome :=
    hp ▸ k.plan_attached _ _ _ matched
  rcases allocate_cases k hp matched with ⟨still, none, done⟩ | ⟨few, failed⟩ |
    ⟨enough, a, d, done, allocated⟩
  · obtain ⟨takes, held⟩ := idle_takes k hp still none
    have zero := takes.count
    rw [List.length_nil] at zero
    exact .inr ⟨by omega, _, c, [], done, takes, held⟩
  · rw [Nat.add_comm] at few failed
    exact .inl ⟨few, failed⟩
  · rw [Nat.add_comm] at enough
    refine .inr ⟨enough, ?_⟩
    rcases allocate_inv k hp done with ⟨still, none, rfl, rfl⟩ | ⟨_, carried⟩
    · exact ⟨_, _, [], done, idle_takes k hp still none⟩
    · obtain ⟨taken, takes, held⟩ := carryOut_supply k attached carried
      obtain ⟨blocks, _, own, _⟩ := allocated.own
      refine ⟨a, d, taken, done, takes, ?_⟩
      rw [heldBy, own] at held
      rw [own, Option.getD_some, ← held]

theorem exists_indexed {request : Request} {m : PrefixMatch} (k : c.Sound)
    (fits : m = c.lookup request ∨ c.heldBy request.id ≠ []) (first stop : Nat) :
    ∃ m' : PrefixMatch, (∀ id ∈ deviceIds m'.blocks, (c.hashAt id).isSome) ∧
      c.plan request.id first stop m = c.plan request.id first stop m' ∧
      allocate request first stop m c = allocate request first stop m' c := by
  rcases fits with found | held
  · exact ⟨m, k.match_indexed (.inl found), rfl, rfl⟩
  · exact ⟨{}, List.forall_mem_nil _, plan_of_held m first stop held,
      allocate_of_held m first stop held⟩

end KvOp

namespace KvCache
variable {c d : KvCache}

theorem reserved_eq (c : KvCache) (attach : List MatchedBlock) :
    c.reserved attach = (KvOp.deviceIds attach).countP fun id => c.refs? id = some 0 := by
  rw [KvOp.deviceIds, List.countP_filterMap, reserved]
  refine List.countP_congr fun m _ => ?_
  cases m with
  | device id => exact Iff.rfl
  | offloaded x => exact Iff.rfl

def recency (c : KvCache) (id : Nat) : Nat := ((c.block? id).getD {}).recency

theorem clean_ordered (c : KvCache) : c.clean.toList.Pairwise (· < ·) :=
  c.clean.ordered_toList.imp Nat.compare_eq_lt.mp

theorem Consistent.evictionOrder_ordered {loose : List Nat} (k : c.Consistent loose) :
    c.evictionOrder.Pairwise fun i j => c.recency i < c.recency j := by
  have own : ∀ e ∈ c.evictable.toList, c.recency e.2 = e.1 := by
    rintro ⟨r, id⟩ inside
    rw [Std.ExtTreeMap.mem_toList_iff_getElem?_eq_some, k.evictable_iff] at inside
    obtain ⟨b, hb, _, _, recent⟩ := inside
    rw [recency, hb]
    exact recent
  rw [evictionOrder, List.pairwise_map]
  refine c.evictable.ordered_keys_toList.imp_of_mem fun first second before => ?_
  rw [own _ first, own _ second]
  exact Nat.compare_eq_lt.mp before

theorem plan_attach (c : KvCache) (r first stop : Nat) (m : PrefixMatch) :
    (c.plan r first stop m).attach =
      if ((c.held[r]?).getD {}).blocks = [] then m.blocks else [] := by
  simp only [plan, List.isEmpty_iff]

theorem plan_base (c : KvCache) (r first stop : Nat) (m : PrefixMatch) :
    (c.plan r first stop m).base = if ((c.held[r]?).getD {}).blocks = []
      then m.cachedTokens c.blockSize else ((c.held[r]?).getD {}).tokens := by
  simp only [plan, List.isEmpty_iff]
  split
  · rfl
  · rfl

/-- After any calls on a new cache, an allocation for a request with the match that it has there,
or for one that holds blocks with any match, is refused exactly if the matched blocks of the host
tier and the fresh blocks beyond the room in the last held one are more than the free blocks
without those that are matched; then nothing changes. Otherwise the request holds what it held, or
the matched blocks, in order, then the fresh ones. What is taken are the clean blocks by id, then
the cached ones that are not matched by their recency. -/
theorem allocation_exact {blockSize : Nat} (positive : 0 < blockSize) (host total : Nat)
    (tier : Option HostTierConfig) (calls : List KvCall)
    (reached : c = (start host total blockSize tier).after calls)
    (request : Request) (first stop : Nat) (m : PrefixMatch)
    (fits : m = c.lookup request ∨ c.heldBy request.id ≠ []) :
    let old := (c.held[request.id]?).getD {}
    let attach := if old.blocks = [] then m.blocks else []
    let base := if old.blocks = [] then m.cachedTokens c.blockSize else old.tokens
    let goal := max (max stop first) base
    let room := old.blocks.length * c.blockSize - old.tokens
    let needed := (PrefixMatch.mk attach 0).offloadedBlocks + c.blocksFor (goal - base - room)
    let available := c.clean.size + c.evictable.size -
      (KvOp.deviceIds attach).countP fun id => c.refs? id = some 0
    let supply := c.clean.toList ++ c.evictionOrder.filter (· ∉ KvOp.deviceIds attach)
    (available < needed →
      KvOp.allocate request first stop m c = .error (.exhausted needed available) c) ∧
    (needed ≤ available → ∃ a d taken, KvOp.allocate request first stop m c = .ok a d ∧
      (d.held[request.id]?).getD {} = ⟨old.blocks ++ KvOp.seats attach taken, goal⟩ ∧
      taken.length = needed ∧ taken <+: supply) ∧
    c.clean.toList.Pairwise (· < ·) ∧
    c.evictionOrder.Pairwise fun i j => c.recency i < c.recency j := by
  intro old attach base goal room needed available supply
  have k : c.Sound := reached ▸ (start_sound host total positive tier).after calls
  obtain ⟨m', matched, plan, same⟩ := KvOp.exists_indexed k fits first stop
  obtain ⟨p, hp⟩ : ∃ p, p = c.plan request.id first stop m := ⟨_, rfl⟩
  have attached : p.attach = attach := hp ▸ c.plan_attach request.id first stop m
  have based : p.base = base := hp ▸ c.plan_base request.id first stop m
  have reaches : p.goal = goal := by rw [hp, plan_goal, ← hp, based]
  have count : (PrefixMatch.mk p.attach 0).offloadedBlocks + p.fresh = needed := by
    have fresh : p.fresh = c.blocksFor (p.goal - p.base - room) := by rw [hp]; rfl
    rw [attached, fresh, reaches, based]
  have left : c.free - c.reserved p.attach = available := by
    rw [reserved_eq, attached]
    rfl
  have takes := KvOp.allocate_takes k (hp.trans plan) matched
  rw [← same, count, left] at takes
  refine ⟨fun few => ?_, fun enough => ?_, c.clean_ordered, k.consistent.evictionOrder_ordered⟩
  · rcases takes with ⟨_, failed⟩ | ⟨enough, _⟩
    · exact failed
    · exact absurd few (Nat.not_lt.mpr enough)
  · rcases takes with ⟨few, _⟩ | ⟨_, a, d, taken, done, takes, held⟩
    · exact absurd few (Nat.not_lt.mpr enough)
    · have head := takes.head
      rw [attached] at held head
      rw [heldBy_eq, reaches] at held
      exact ⟨a, d, taken, done, held, takes.count.trans count, head⟩

/-- Two requests of three blocks in turn, in a cache of four: the second one is served. -/
theorem turns_exact : ∃ c a d taken, c = (start 0 4 2 none).after
      [.allocate (threeBlocks 1) 0 5 true, .release 1] ∧ 0 < 2 ∧
    (c.lookup (threeBlocks 2) = c.lookup (threeBlocks 2) ∨ c.heldBy (threeBlocks 2).id ≠ []) ∧
    KvOp.allocate (threeBlocks 2) 0 5 (c.lookup (threeBlocks 2)) c = .ok a d ∧
    (d.held[(threeBlocks 2).id]?).getD {} =
      ⟨KvOp.seats (c.lookup (threeBlocks 2)).blocks taken, 5⟩ := by
  have blank : (start 0 4 2 none).Sound := start_sound 0 4 (by decide) none
  obtain ⟨_, b, first, lent⟩ := @Sound.allocate_unheld _ blank (threeBlocks 1) 5 (fun _ => rfl)
    (Nat.le_trans (lookup_cached _ _) (by decide)) (by decide)
  obtain ⟨c, released, gone⟩ := KvOp.release_ok lent.sound 1
  have reached : c = (start 0 4 2 none).after
      [.allocate (threeBlocks 1) 0 5 true, .release 1] := (after_turn first released).symm
  have unheld := gone.unheld lent.others
  have size : c.blockSize = 2 := gone.blockSize.trans lent.blockSize
  have total : c.total = 4 := gone.total.trans lent.total
  obtain ⟨a, d, done, _⟩ := @Sound.allocate_unheld _ gone.sound (threeBlocks 2) 5 unheld
    (Nat.le_trans (lookup_cached _ _) (by decide)) (by rw [size, total]; decide)
  obtain ⟨refused, served, _⟩ := allocation_exact (show 0 < 2 by decide) 0 4 none
    [.allocate (threeBlocks 1) 0 5 true, .release 1] reached (threeBlocks 2) 0 5 _ (.inl rfl)
  rcases Nat.lt_or_ge _ _ with few | enough
  · cases done.symm.trans (refused few)
  · obtain ⟨a, d, taken, done, holds, _⟩ := served enough
    have cached := lookup_cached c (threeBlocks 2)
    rw [unheld] at holds
    refine ⟨c, a, d, taken, reached, by decide, .inl rfl, done, holds.trans ?_⟩
    show Holding.mk _ (max (max 5 0) ((c.lookup (threeBlocks 2)).blocks.length * c.blockSize)) = _
    rw [Nat.max_eq_left (Nat.le_trans cached (by decide))]
    rfl

end KvCache
end InferenceSim
