import InferenceSim.Proofs.Kv.Filling
import InferenceSim.Proofs.Kv.Repeats

/-! Allocations in two parts: a chunk of the tokens, and then the others. The second part goes on
from the holding that the first one leaves, and finds as many free blocks as the whole would have
found. -/
namespace InferenceSim
open KvCache

namespace KvOp
variable {c d e : KvCache} {loose : List Nat} {request : Request} {h : Holding}
  {size base middle goal count more : Nat}

theorem blocksFor_add (positive : 0 < c.blockSize) {tokens n : Nat}
    (within : n ≤ c.blocksFor tokens) :
    c.blocksFor tokens = c.blocksFor (tokens - n * c.blockSize) + n := by
  rcases Nat.lt_or_ge tokens (n * c.blockSize) with all | some
  · obtain ⟨_, tight⟩ := blocksFor_bounds positive tokens
    have last : c.blocksFor tokens < n + 1 := by
      refine Nat.lt_of_mul_lt_mul_right (a := c.blockSize) ?_
      rw [Nat.succ_mul]
      omega
    have none : c.blocksFor (tokens - n * c.blockSize) = 0 := by
      rw [blocksFor, Nat.sub_eq_zero_of_le (Nat.le_of_lt all)]
      exact Nat.div_eq_of_lt (by omega)
    omega
  · obtain ⟨rest, rfl⟩ := Nat.exists_eq_add_of_le some
    rw [Nat.add_sub_cancel_left, blocksFor, blocksFor, Nat.add_assoc, Nat.add_sub_assoc (by omega),
      Nat.add_comm, Nat.add_mul_div_right _ _ positive]

theorem lacks_of_plan {p : AllocationPlan} {old : List Nat} (positive : 0 < c.blockSize)
    (below : p.base ≤ p.goal) (enough : p.base ≤ old.length * c.blockSize)
    (room : p.room = old.length * c.blockSize - p.base)
    (fresh : p.fresh = c.blocksFor (p.goal - p.base - p.room)) :
    Lacks c.blockSize p.goal p.fresh ⟨old, p.base + min p.room (p.goal - p.base)⟩ := by
  obtain ⟨upto, full⟩ := fresh_fits positive below enough room rfl fresh
  exact ⟨by simp only; omega, upto, full⟩

theorem allocate_congr {m : PrefixMatch} {first stop first' stop' : Nat}
    (goal : (c.plan request.id first stop m).goal = (c.plan request.id first' stop' m).goal) :
    allocate request first stop m c = allocate request first' stop' m c := by
  have same : c.plan request.id first stop m = c.plan request.id first' stop' m := by
    simp only [plan] at goal ⊢
    rw [goal]
  simp only [allocate, get_bind, same]

theorem plan_fresh_mono {m : PrefixMatch} {first stop : Nat} (upto : middle ≤ stop) :
    (c.plan request.id first middle m).goal ≤ (c.plan request.id first stop m).goal ∧
      (c.plan request.id first middle m).fresh ≤ (c.plan request.id first stop m).fresh := by
  obtain ⟨base, room⟩ :
      (c.plan request.id first middle m).base = (c.plan request.id first stop m).base ∧
      (c.plan request.id first middle m).room = (c.plan request.id first stop m).room := ⟨rfl, rfl⟩
  have below : (c.plan request.id first middle m).goal ≤ (c.plan request.id first stop m).goal := by
    rw [plan_goal, plan_goal, base]
    omega
  exact ⟨below, Nat.div_le_div_right (by omega)⟩

theorem allocate_idle {m : PrefixMatch} {first stop : Nat} {p : AllocationPlan}
    (hp : p = c.plan request.id first stop m) (still : p.goal = p.base) (none : p.attach = []) :
    allocate request first stop m c = .ok {} c := by
  simp only [allocate, get_bind, ← hp, still, none, List.isEmpty_nil, and_self, if_true, pure_apply]

theorem allocate_backed (k : c.Sound) {first stop : Nat} (own : c.held[request.id]? = some h)
    (within : max stop first ≤ h.tokens) : allocate request first stop {} c = .ok {} c := by
  obtain ⟨attach, base, _⟩ := k.plan_of_held own first stop {}
  refine allocate_idle rfl ?_ attach
  rw [plan_goal, base]
  exact Nat.max_eq_right within

theorem allocate_onward {c₅ : KvCache} {h' : Holding} {evicted first stop : Nat} {fresh : Bool}
    {m : PrefixMatch} (sound : d.Sound) (absent : c₅.held[request.id]? = none)
    (made : d = { counted c₅ fresh m with held := c₅.held.insert request.id h })
    (hgoal : goal = max stop first) (further : h.tokens < goal)
    (hcount : count = c₅.blocksFor
      (goal - h.tokens - (h.blocks.length * c₅.blockSize - h.tokens)))
    (fills : fillUp (newHashes request c₅.blockSize h.tokens goal)
      (h.blocks.length * c₅.blockSize - h.tokens) goal count h c₅ = .ok (h', evicted) e) :
    allocate request first stop {} d = .ok ⟨count, 0, 0, evicted⟩
      { counted e fresh m with held := e.held.insert request.id h' } := by
  obtain ⟨hits, misses, counts⟩ := counted_eq fresh m
  rw [counts] at made
  have own : d.held[request.id]? = some h := by
    rw [made]
    exact Std.ExtTreeMap.getElem?_insert_self
  have size : d.blockSize = c₅.blockSize := by rw [made]
  obtain ⟨p, hp⟩ : ∃ p, p = d.plan request.id first stop {} := ⟨_, rfl⟩
  obtain ⟨attach, base, room⟩ : p.attach = [] ∧ p.base = h.tokens ∧
      p.room = h.blocks.length * c₅.blockSize - h.tokens :=
    hp ▸ size ▸ sound.plan_of_held own first stop {}
  have reaches : p.goal = goal := by
    rw [hp, plan_goal, ← hp, base]
    omega
  have counted' : p.fresh = count := by
    have fresh : p.fresh = d.blocksFor (p.goal - p.base - p.room) := by rw [hp]; rfl
    rw [fresh, reaches, base, room, hcount, blocksFor, blocksFor, size]
  rcases allocate_cases sound hp (List.forall_mem_nil _) with ⟨idle, _⟩ | ⟨few, _⟩ |
    ⟨_, a, d₂, done, _⟩
  · omega
  · have free : d.free = c₅.free := by rw [made]; rfl
    have enough := (fillUp_supply fills).2
    rw [attach, counted', free, show d.reserved [] = 0 from rfl,
      show (PrefixMatch.mk [] 0).offloadedBlocks = 0 from rfl] at few
    omega
  · rcases allocate_inv sound hp done with ⟨idle, _⟩ | ⟨_, carried⟩
    · omega
    obtain ⟨c₁, ids, ev, c₂, c₃, h₁, c₄, h₂, ev', c₆, done₁, done₂, done₃, done₄, done₅, last,
      counts'⟩ := carryOut_steps carried
    rw [attach] at done₁ done₂ done₃
    cases done₁
    cases done₂
    cases done₃
    have without : ({ d with held := d.held.erase request.id } : KvCache) = { c₅ with
        hitBlocks := c₅.hitBlocks + hits, missBlocks := c₅.missBlocks + misses } := by
      rw [made]
      congr 1
      exact (Table.erase_insert _ _ _).trans (Table.toList_erase_of_none absent)
    have again := fillUp_blind _ _ _ _ _ _ _ _ (c₅.hitBlocks + hits) (c₅.missBlocks + misses) fills
    have held : d.heldBy request.id = h.blocks := by rw [heldBy, own]
    rw [without, held, List.append_nil, size, base, reaches, room] at done₄
    rw [size, base, reaches, counted'] at done₅
    rw [fillUp_of_topUp done₄] at again
    cases again.symm.trans done₅
    obtain ⟨_, hits', misses'⟩ := (fillUp_uncounted _ _ _ _ _).of_ok fills
    have uncounted : ∀ (c : KvCache) (fresh : Bool), counted c fresh {} = c := fun c fresh => by
      simp [counted]
    rw [done, counts', last, uncounted, counts, attach, counted', hits', misses',
      Nat.zero_add]
    rfl

/-- The blocks that are missing behind the first part are those that the second part counts. -/
theorem Lacks.rest {old : List Nat} {room n : Nat} (positive : 0 < c.blockSize)
    (part : Lacks c.blockSize middle n ⟨old, base + min room (middle - base)⟩)
    (whole : more + n = c.blocksFor (goal - base - room)) (fits : base ≤ old.length * c.blockSize)
    (hroom : room = old.length * c.blockSize - base) :
    more = c.blocksFor (goal - middle - ((old.length + n) * c.blockSize - middle)) := by
  have reached : middle ≤ base + min room (middle - base) + n * c.blockSize := part.upto
  have counted := blocksFor_add positive (whole ▸ Nat.le_add_left n more)
  rw [← whole] at counted
  rw [Nat.add_mul, Nat.add_right_cancel counted]
  congr 1
  omega

theorem room_or_further {m : PrefixMatch} {first : Nat} {q : AllocationPlan} (k : c.Sound)
    (hq : q = c.plan request.id first middle m) (busy : ¬ (q.goal = q.base ∧ q.attach = [])) :
    q.room = 0 ∨ q.base < q.goal := by
  have below : q.base ≤ q.goal := hq ▸ plan_base_le c _ _ _ m
  rcases k.plan_cases (r := request.id) first middle m with ⟨_, _, _, full⟩ | ⟨_, _, none, _⟩
  · exact .inl (hq ▸ full)
  · exact .inr (Nat.lt_of_le_of_ne below fun still => busy ⟨still.symm, hq ▸ none⟩)

theorem carryOut_split {m : PrefixMatch} {first stop : Nat} {p q : AllocationPlan}
    {a a₁ : Allocation} {d₁ : KvCache} (k : c.Sound)
    (hp : p = c.plan request.id first stop m) (hq : q = c.plan request.id first middle m)
    (matched : ∀ id ∈ deviceIds m.blocks, (c.hashAt id).isSome)
    (enough : p.fresh + (PrefixMatch.mk p.attach 0).offloadedBlocks ≤ c.free - c.reserved p.attach)
    (upto : middle ≤ stop) (further : q.goal < p.goal) (busy : ¬ (q.goal = q.base ∧ q.attach = []))
    (done : carryOut request m p c = .ok a d) (part : carryOut request m q c = .ok a₁ d₁)
    (sound : d₁.Sound) :
    ∃ a₂, allocate request middle stop {} d₁ = .ok a₂ d ∧
      a = ⟨a₁.fresh + a₂.fresh, a₁.cached + a₂.cached, a₁.reloaded + a₂.reloaded,
        a₁.evicted + a₂.evicted⟩ := by
  obtain ⟨attach, base, room⟩ : q.attach = p.attach ∧ q.base = p.base ∧ q.room = p.room := by
    rw [hp, hq]
    exact ⟨rfl, rfl, rfl⟩
  obtain ⟨c₁, ids, evicted, c₂, c₃, h, c₄, h', evicted', c₅, done₁, done₂, done₃, done₄, done₅,
    last, counts⟩ := carryOut_steps done
  obtain ⟨_, _, _, _, _, h₁, _, h₁', evicted₁, e, part₁, part₂, part₃, part₄, part₅, last₁,
    counts₁⟩ := carryOut_steps part
  obtain ⟨_, _, _, _, _, taken, back₁, back₂, back₃, spares, backed, hroom, _, _, _, left, _⟩ :=
    attach_backs k hp matched enough (offloadedHashes p.attach)
  rw [attach] at part₁ part₂ part₃
  cases back₁.symm.trans done₁
  cases back₂.symm.trans done₂
  cases back₃.symm.trans done₃
  cases part₁.symm.trans done₁
  cases part₂.symm.trans done₂
  cases part₃.symm.trans done₃
  obtain ⟨old, hold⟩ : ∃ old, old = c.heldBy request.id ++ ids := ⟨_, rfl⟩
  rw [← hold] at backed hroom done₄ part₄
  have size : c₃.blockSize = c.blockSize := spares.frame.blockSize
  have fits : p.base ≤ old.length * c.blockSize := size ▸ backed.enough
  have inLoose : ∀ id ∈ old, id ∈ ids ++ c.heldBy request.id := fun id inOld =>
    List.perm_append_comm.mem_iff.mp (hold ▸ inOld)
  rw [size] at hroom
  have below : p.base ≤ q.goal := base ▸ hq ▸ plan_base_le c _ _ _ m
  have fresh : p.fresh = c.blocksFor (p.goal - p.base - p.room) := by rw [hp]; rfl
  have fresh₁ : q.fresh = c.blocksFor (q.goal - p.base - p.room) := by rw [hq, hp]; rfl
  have some : p.room = 0 ∨ p.base < q.goal := room ▸ base ▸ room_or_further k hq busy
  obtain ⟨more, hmore⟩ : ∃ more, p.fresh = more + q.fresh :=
    Nat.exists_eq_add_of_le' (hp ▸ hq ▸ (plan_fresh_mono upto).2)
  obtain ⟨_, _, blocks, _, _, _, back₄, back₅, spares₁, backed₁, _⟩ := fillUp_backs (p := q)
    (newHashes request c.blockSize q.base q.goal) spares.consistent (size ▸ k.positive)
    (base.symm ▸ backed) inLoose (base.symm ▸ below) (by rw [room, base, size, hroom])
    (by rw [hq, blocksFor, size]; rfl) (by omega)
  cases back₄.symm.trans part₄
  cases back₅.symm.trans part₅
  rw [base, room] at part₄
  rw [base] at part₅
  have lacks : Lacks c.blockSize q.goal q.fresh ⟨old, p.base + min p.room (q.goal - p.base)⟩ := by
    have lacks := lacks_of_plan (p := q) k.positive (base.symm ▸ below) (base.symm ▸ fits)
      (by rw [room, base, hroom]) (by rw [hq]; rfl)
    rwa [base, room] at lacks
  have all : Lacks c.blockSize p.goal (more + q.fresh)
      ⟨old, p.base + min p.room (p.goal - p.base)⟩ :=
    hmore ▸ lacks_of_plan k.positive (by omega) fits hroom fresh
  have fills := (fillUp_of_topUp done₄).trans done₅
  have fills₁ := (fillUp_of_topUp part₄).trans part₅
  have split : fillUp (newHashes request c.blockSize p.base p.goal) p.room p.goal (more + q.fresh)
      ⟨old, p.base⟩ _ = _ :=
    fillUp_split spares.consistent size k.positive backed inLoose hroom below further some lacks
      all (hmore ▸ left)
  rw [← hmore, fills, bind_ok fills₁] at split
  obtain ⟨⟨_, evicted₂⟩, _, second, same⟩ := bind_inv split.symm
  cases same
  have absent : e.held[request.id]? = none := by
    rw [spares₁.frame.held, spares.frame.held]
    exact Std.ExtTreeMap.getElem?_erase_self
  have size₁ : e.blockSize = c.blockSize := spares₁.frame.blockSize.trans size
  have reaches : p.goal = max (max stop first) p.base := by rw [hp, plan_goal]
  have reaches₁ : q.goal = max (max middle first) p.base := by rw [hq, plan_goal, ← hq, base]
  have rest : more = e.blocksFor
      (p.goal - q.goal - ((old ++ blocks).length * e.blockSize - q.goal)) := by
    have number : (old ++ blocks).length = old.length + q.fresh := (fillUp_supply fills₁).1
    rw [blocksFor, size₁, ← blocksFor, number]
    exact lacks.rest k.positive (hmore ▸ fresh) fits hroom
  have goal : p.goal = max stop middle := by omega
  have onward := allocate_onward sound absent last₁ goal further rest (size₁.symm ▸ second)
  refine ⟨_, onward.trans (congrArg _ last.symm), ?_⟩
  rw [counts, counts₁, attach, hmore]
  simp only [Nat.add_zero, Nat.add_comm more, Nat.add_assoc]

theorem held_after {m : PrefixMatch} {first stop : Nat} {p : AllocationPlan} {a : Allocation}
    (k : c.Sound) (hp : p = c.plan request.id first stop m)
    (matched : ∀ id ∈ deviceIds m.blocks, (c.hashAt id).isSome) (backs : 0 < p.goal)
    (done : allocate request first stop m c = .ok a d) :
    ∃ blocks, d.held[request.id]? = some ⟨blocks, p.goal⟩ := by
  rcases allocate_cases k hp matched with ⟨still, none, done'⟩ | ⟨_, failed⟩ |
    ⟨_, _, _, done', allocated⟩
  · cases done'.symm.trans done
    rcases k.plan_cases (r := request.id) first stop m with ⟨_, attach, base, _⟩ |
      ⟨h, own, _, base, _⟩
    · rw [← hp, none] at attach
      rw [← hp, ← attach, List.length_nil, Nat.zero_mul] at base
      omega
    · rw [← hp] at base
      exact ⟨h.blocks, by rw [still, base, own]⟩
  · cases failed.symm.trans done
  · cases done'.symm.trans done
    obtain ⟨blocks, _, own, _⟩ := allocated.own
    exact ⟨blocks, own⟩

theorem allocate_skip {m : PrefixMatch} {first stop : Nat} {q : AllocationPlan} (k : c.Sound)
    (hq : q = c.plan request.id first middle m) (still : q.goal = q.base) (none : q.attach = [])
    (some : 0 < middle) :
    allocate request middle stop {} c = allocate request first stop m c := by
  have reaches : q.goal = max (max middle first) q.base := by rw [hq, plan_goal]
  rcases k.plan_cases (r := request.id) first middle m with ⟨_, attach, base, _⟩ |
    ⟨h, own, _, base, _⟩
  · rw [← hq, none] at attach
    rw [← hq, ← attach, List.length_nil, Nat.zero_mul] at base
    omega
  · rw [← hq] at base
    have held : c.heldBy request.id ≠ [] := fun empty => by
      rw [heldBy_eq, ← List.isEmpty_iff, k.holding_empty_iff, own] at empty
      cases empty
    rw [allocate_of_held m first stop held]
    refine allocate_congr ?_
    have same : ∀ from' upto, (c.plan request.id from' upto {}).base = h.tokens :=
      fun from' upto => (k.plan_of_held own from' upto {}).2.1
    rw [plan_goal, plan_goal, same, same]
    omega

theorem allocate_split {m : PrefixMatch} {first stop : Nat} {a : Allocation} (k : c.Sound)
    (matched : ∀ id ∈ deviceIds m.blocks, (c.hashAt id).isSome) (some : 0 < middle)
    (upto : middle ≤ stop) (done : allocate request first stop m c = .ok a d) :
    ∃ a₁ d₁ a₂, allocate request first middle m c = .ok a₁ d₁ ∧
      allocate request middle stop {} d₁ = .ok a₂ d ∧
      a = ⟨a₁.fresh + a₂.fresh, a₁.cached + a₂.cached, a₁.reloaded + a₂.reloaded,
        a₁.evicted + a₂.evicted⟩ := by
  obtain ⟨p, hp⟩ : ∃ p, p = c.plan request.id first stop m := ⟨_, rfl⟩
  obtain ⟨q, hq⟩ : ∃ q, q = c.plan request.id first middle m := ⟨_, rfl⟩
  obtain ⟨below, fewer⟩ : q.goal ≤ p.goal ∧ q.fresh ≤ p.fresh :=
    hp ▸ hq ▸ plan_fresh_mono upto
  have reaches : p.goal = max (max stop first) p.base := by rw [hp, plan_goal]
  have reaches₁ : q.goal = max (max middle first) q.base := by rw [hq, plan_goal]
  have base : q.base = p.base ∧ q.attach = p.attach := by rw [hp, hq]; exact ⟨rfl, rfl⟩
  rcases Nat.eq_or_lt_of_le below with same | further
  · have done₁ : allocate request first middle m c = .ok a d :=
      (allocate_congr (hq ▸ hp ▸ same)).trans done
    obtain ⟨blocks, own⟩ := held_after k hp matched (by omega) done
    refine ⟨a, d, {}, done₁, allocate_backed (allocate_sound k matched done) own ?_, rfl⟩
    simp only
    omega
  · by_cases idle : q.goal = q.base ∧ q.attach = []
    · exact ⟨{}, c, a, allocate_idle hq idle.1 idle.2,
        (allocate_skip k hq idle.1 idle.2 some).trans done, by simp⟩
    · rcases allocate_inv k hp done with ⟨still, _⟩ | ⟨enough, carried⟩
      · omega
      rcases allocate_cases k hq matched with ⟨still, none, _⟩ | ⟨few, _⟩ |
        ⟨_, a₁, d₁, done₁, allocated⟩
      · exact absurd ⟨still, none⟩ idle
      · rw [base.2] at few
        omega
      · rcases allocate_inv k hq done₁ with ⟨still, none, _⟩ | ⟨_, carried₁⟩
        · exact absurd ⟨still, none⟩ idle
        obtain ⟨a₂, done₂, sums⟩ := carryOut_split k hp hq matched enough upto further idle carried
          carried₁ allocated.sound
        exact ⟨a₁, d₁, a₂, done₁, done₂, sums⟩

theorem acquireMatched_free {attach : List MatchedBlock} (k : c.Consistent loose)
    (matched : ∀ id ∈ deviceIds attach, (c.hashAt id).isSome) (distinct : (deviceIds attach).Nodup)
    (done : acquireMatched attach c = .ok () d) : d.free + c.reserved attach = c.free := by
  rw [reserved_eq]
  induction attach generalizing c loose with
  | nil =>
      cases done
      rfl
  | cons m rest ih =>
      cases m with
      | offloaded x => exact ih k matched distinct done
      | device id =>
          obtain ⟨new, distinct⟩ := List.nodup_cons.mp distinct
          obtain ⟨x, hash⟩ := Option.isSome_iff_exists.mp (matched id List.mem_cons_self)
          obtain ⟨b, hb, hashed⟩ := Option.bind_eq_some_iff.mp hash
          obtain ⟨_, c₁, first, later⟩ := bind_inv done
          obtain ⟨_, first', grows, blocks, free⟩ := acquire_grows k hb (hashed ▸ rfl)
          cases first'.symm.trans first
          have others : ∀ j ∈ deviceIds rest, c₁.block? j = c.block? j := fun j inRest =>
            (blocks j).trans (if_neg fun same : j = id => new (same ▸ inRest))
          have left := ih grows.consistent (fun j inRest => by
            rw [hashAt, others j inRest]
            exact matched j (List.mem_cons_of_mem _ inRest)) distinct later
          have same : (deviceIds rest).countP (fun j => c₁.refs? j = some 0) =
              (deviceIds rest).countP fun j => c.refs? j = some 0 :=
            List.countP_congr fun j inRest => by rw [refs?, others j inRest, refs?]
          have counted : (deviceIds (.device id :: rest)).countP (fun j => c.refs? j = some 0) =
              (deviceIds rest).countP (fun j => c.refs? j = some 0) +
                if b.refs = 0 then 1 else 0 := by
            show (id :: deviceIds rest).countP _ = _
            simp only [List.countP_cons, refs?, hb, Option.map_some, Option.some.injEq,
              decide_eq_true_eq]
          omega

theorem carryOut_amounts {m : PrefixMatch} {p : AllocationPlan} {a : Allocation} (k : c.Sound)
    (matched : ∀ id ∈ deviceIds p.attach, (c.hashAt id).isSome)
    (distinct : (deviceIds p.attach).Nodup) (done : carryOut request m p c = .ok a d) :
    d.free + p.fresh + (PrefixMatch.mk p.attach 0).offloadedBlocks + c.reserved p.attach = c.free ∧
      ∃ h, d.held[request.id]? = some h ∧
        h.blocks.length = (c.heldBy request.id).length + p.attach.length + p.fresh := by
  obtain ⟨c₁, ids, evicted, c₂, c₃, h, c₄, h', evicted', c₅, done₁, done₂, done₃, done₄, done₅,
    last, _⟩ := carryOut_steps done
  obtain ⟨hits, misses, counts⟩ := counted_eq (c.heldBy request.id).isEmpty m
  have free₁ := acquireMatched_free (erase_consistent k request.id) matched distinct done₁
  have free₁ : c₁.free + c.reserved p.attach = c.free := free₁
  obtain ⟨taken, count, split, _⟩ := placeMatched_supply done₂
  have free₂ : c₂.free + (PrefixMatch.mk p.attach 0).offloadedBlocks = c₁.free := by
    rw [← length_supply, ← length_supply, split, List.length_append, count, Nat.add_comm]
  have free₃ : c₃.free = c₂.free := by
    rw [← length_supply, ← length_supply, ((Leaves.when _ (onTier_lists _)).of_ok done₃).supply]
  obtain ⟨blocks, free₅⟩ := fillUp_supply ((fillUp_of_topUp done₄).trans done₅)
  have free : d.free = c₅.free := by
    rw [last, counts]
    rfl
  refine ⟨by omega, h', ?_, ?_⟩
  · rw [last]
    exact Std.ExtTreeMap.getElem?_insert_self
  · rw [blocks, List.length_append, length_placeMatched done₂]

theorem plan_blocks_room {m : PrefixMatch} {first stop : Nat} {p : AllocationPlan} (k : c.Sound)
    (hp : p = c.plan request.id first stop m) :
    ((c.heldBy request.id).length + p.attach.length) * c.blockSize = p.base + p.room := by
  rcases k.plan_cases (r := request.id) first stop m with ⟨own, attach, base, room⟩ |
    ⟨h, own, attach, base, room⟩
  · rw [hp, attach, base, room, heldBy, own, List.length_nil, Nat.zero_add, Nat.add_zero]
  · have enough := (k.backed _ h own).2.enough
    rw [hp, attach, base, room, heldBy, own, List.length_nil, Nat.add_zero]
    exact (Nat.add_sub_cancel' enough).symm

theorem enough_of_parts {m : PrefixMatch} {first stop : Nat} {p q : AllocationPlan}
    {a₁ a₂ : Allocation} {d₁ : KvCache} (k : c.Sound)
    (hp : p = c.plan request.id first stop m) (hq : q = c.plan request.id first middle m)
    (matched : ∀ id ∈ deviceIds m.blocks, (c.hashAt id).isSome)
    (distinct : (deviceIds p.attach).Nodup) (further : q.goal < p.goal) (busy : 0 < q.goal)
    (part : allocate request first middle m c = .ok a₁ d₁)
    (carried : carryOut request m q c = .ok a₁ d₁)
    (rest : allocate request middle stop {} d₁ = .ok a₂ d) :
    p.fresh + (PrefixMatch.mk p.attach 0).offloadedBlocks ≤ c.free - c.reserved p.attach := by
  obtain ⟨attach, base, room⟩ : q.attach = p.attach ∧ q.base = p.base ∧ q.room = p.room := by
    rw [hp, hq]
    exact ⟨rfl, rfl, rfl⟩
  have attached : ∀ id ∈ deviceIds q.attach, (c.hashAt id).isSome :=
    hq ▸ k.plan_attached _ _ _ matched
  obtain ⟨free, h, own, length⟩ := carryOut_amounts k attached (attach ▸ distinct) carried
  obtain ⟨blocks, own'⟩ := held_after k hq matched busy part
  obtain rfl := Option.some.inj (own.symm.trans own')
  have sound := allocate_sound k matched part
  have size : d₁.blockSize = c.blockSize := ((allocate_fixed _ _ _ _).of_ok part).blockSize
  obtain ⟨r, hr⟩ : ∃ r, r = d₁.plan request.id middle stop {} := ⟨_, rfl⟩
  have begins := plan_blocks_room k hp
  have begins₂ := plan_blocks_room sound hr
  obtain ⟨attach₂, base₂, _⟩ := hr ▸ sound.plan_of_held own middle stop {}
  have base₂ : r.base = q.goal := base₂
  have whole : r.goal = p.goal := by
    have reaches : p.goal = max (max stop first) p.base := by rw [hp, plan_goal]
    have reaches₁ : q.goal = max (max middle first) p.base := by rw [hq, plan_goal, ← hq, base]
    have reaches₂ : r.goal = max (max stop middle) r.base := by rw [hr, plan_goal]
    omega
  have held : (d₁.heldBy request.id).length =
      (c.heldBy request.id).length + q.attach.length + q.fresh := by rw [heldBy, own]; exact length
  rcases allocate_inv sound hr rest with ⟨still, _⟩ | ⟨enough, _⟩
  · omega
  rw [attach₂, show d₁.reserved [] = 0 from rfl,
    show (PrefixMatch.mk [] 0).offloadedBlocks = 0 from rfl] at enough
  have fresh : p.fresh = c.blocksFor (p.goal - p.base - p.room) := by rw [hp]; rfl
  have fresh₂ : r.fresh = d₁.blocksFor (r.goal - r.base - r.room) := by rw [hr]; rfl
  have tight := (blocksFor_bounds k.positive (p.goal - p.base - p.room)).2
  have upto := (blocksFor_bounds sound.positive (r.goal - r.base - r.room)).1
  rw [← fresh] at tight
  rw [← fresh₂, size] at upto
  rw [attach₂, held, attach, size, List.length_nil, Nat.add_zero, Nat.add_mul, begins] at begins₂
  have fewer : p.fresh < q.fresh + r.fresh + 1 := by
    refine Nat.lt_of_mul_lt_mul_right (a := c.blockSize) ?_
    rw [Nat.succ_mul, Nat.add_mul]
    omega
  rw [attach] at free
  omega

theorem allocate_join {m : PrefixMatch} {first stop : Nat} {a₁ a₂ : Allocation} {d₁ : KvCache}
    (k : c.Sound) (matched : ∀ id ∈ deviceIds m.blocks, (c.hashAt id).isSome)
    (distinct : c.heldBy request.id = [] → (deviceIds m.blocks).Nodup) (some : 0 < middle)
    (upto : middle ≤ stop) (part : allocate request first middle m c = .ok a₁ d₁)
    (rest : allocate request middle stop {} d₁ = .ok a₂ d) :
    allocate request first stop m c = .ok ⟨a₁.fresh + a₂.fresh, a₁.cached + a₂.cached,
      a₁.reloaded + a₂.reloaded, a₁.evicted + a₂.evicted⟩ d := by
  suffices runs : ∃ a e, allocate request first stop m c = .ok a e by
    obtain ⟨a, e, done⟩ := runs
    obtain ⟨_, _, _, part', rest', sums⟩ := allocate_split k matched some upto done
    cases part'.symm.trans part
    cases rest'.symm.trans rest
    exact sums ▸ done
  obtain ⟨p, hp⟩ : ∃ p, p = c.plan request.id first stop m := ⟨_, rfl⟩
  obtain ⟨q, hq⟩ : ∃ q, q = c.plan request.id first middle m := ⟨_, rfl⟩
  rcases allocate_cases k hp matched with ⟨_, _, done⟩ | ⟨few, _⟩ | ⟨_, a, e, done, _⟩
  · exact ⟨_, _, done⟩
  · have below : q.goal ≤ p.goal := hp ▸ hq ▸ (plan_fresh_mono upto).1
    have reaches : q.goal = max (max middle first) q.base := by rw [hq, plan_goal]
    rcases Nat.eq_or_lt_of_le below with same | further
    · exact ⟨_, _, (allocate_congr (hp ▸ hq ▸ same.symm)).trans part⟩
    rcases allocate_inv k hq part with ⟨still, none, _, rfl⟩ | ⟨_, carried⟩
    · exact ⟨_, _, (allocate_skip k hq still none some).symm.trans rest⟩
    · have unique : (deviceIds p.attach).Nodup := by
        rw [hp, plan_attach]
        split
        · next none => exact distinct ((heldBy_eq c request.id).trans none)
        · exact List.nodup_nil
      have enough := enough_of_parts k hp hq matched unique further (by omega) part carried rest
      omega
  · exact ⟨a, e, done⟩

end KvOp

namespace KvCache
variable {c : KvCache}

theorem Consistent.device_hashes {loose : List Nat} (k : c.Consistent loose)
    (hashes : List BlockHash) :
    ((KvOp.deviceIds (c.matchHashes hashes)).map c.hashAt).Sublist (hashes.map some) := by
  induction hashes with
  | nil => exact .slnil
  | cons x rest ih =>
      unfold matchHashes
      split
      · next id found =>
        obtain ⟨b, hb, hash⟩ := (k.index_iff x id).mp found
        have here : c.hashAt id = some x := (hashAt_of_block hb).trans hash
        show (c.hashAt id :: _).Sublist _
        rw [here]
        exact ih.cons_cons _
      · split
        · exact ih.cons _
        · exact List.nil_sublist _

theorem Consistent.device_nodup {loose : List Nat} (k : c.Consistent loose)
    {hashes : List BlockHash} (distinct : hashes.Nodup) :
    (KvOp.deviceIds (c.matchHashes hashes)).Nodup := by
  have each : (hashes.map some).Nodup :=
    List.pairwise_map.mpr (distinct.imp fun other same => other (Option.some.inj same))
  exact (List.pairwise_map.mp (each.sublist (k.device_hashes hashes))).imp
    fun other same => other (congrArg _ same)

/-- After any calls on a new cache, an allocation with the match of its request, or for one that
holds blocks with any match, that succeeds is one up to an earlier point and a second one from
there on: both succeed, they leave the same cache, and what they did adds up to what it does.
Conversely, if both parts succeed, so does the whole. An allocation sets a matched block aside as
often as it is matched, so for a first one this takes that no two blocks of the prompt have the
same hash. -/
theorem allocation_in_parts {blockSize : Nat} (positive : 0 < blockSize) (host total : Nat)
    (tier : Option HostTierConfig) (calls : List KvCall)
    (reached : c = (start host total blockSize tier).after calls)
    (request : Request) (first middle stop : Nat) (m : PrefixMatch)
    (fits : m = c.lookup request ∨ c.heldBy request.id ≠ []) (some : 0 < middle)
    (upto : middle ≤ stop) :
    (∀ (a : Allocation) (d : KvCache), KvOp.allocate request first stop m c = .ok a d →
      ∃ (a₁ : Allocation) (d₁ : KvCache) (a₂ : Allocation),
        KvOp.allocate request first middle m c = .ok a₁ d₁ ∧
        KvOp.allocate request middle stop {} d₁ = .ok a₂ d ∧
        a = ⟨a₁.fresh + a₂.fresh, a₁.cached + a₂.cached, a₁.reloaded + a₂.reloaded,
          a₁.evicted + a₂.evicted⟩) ∧
    ((c.heldBy request.id = [] → (promptBlockHashes request.id request.shared
        request.inputTokens blockSize).Nodup) →
      ∀ (a₁ : Allocation) (d₁ : KvCache) (a₂ : Allocation) (d : KvCache),
        KvOp.allocate request first middle m c = .ok a₁ d₁ →
        KvOp.allocate request middle stop {} d₁ = .ok a₂ d →
        KvOp.allocate request first stop m c = .ok ⟨a₁.fresh + a₂.fresh, a₁.cached + a₂.cached,
          a₁.reloaded + a₂.reloaded, a₁.evicted + a₂.evicted⟩ d) := by
  have k : c.Sound := reached ▸ (start_sound host total positive tier).after calls
  have size : c.blockSize = blockSize := by
    rw [reached, (after_fixed _ calls).blockSize]
    cases tier <;> rfl
  by_cases held : c.heldBy request.id = []
  · have found : m = c.lookup request := fits.resolve_right fun other => other held
    have matched := k.match_indexed (.inl found)
    refine ⟨fun a d done => KvOp.allocate_split k matched some upto done, ?_⟩
    intro distinct a₁ d₁ a₂ d part rest
    refine KvOp.allocate_join k matched (fun _ => ?_) some upto part rest
    rw [found]
    exact k.consistent.device_nodup ((size.symm ▸ distinct held).sublist (List.take_sublist _ _))
  · have same : ∀ from' upto, KvOp.allocate request from' upto m c =
        KvOp.allocate request from' upto {} c :=
      fun from' upto => KvOp.allocate_of_held m from' upto held
    rw [same first stop, same first middle]
    refine ⟨fun a d done => KvOp.allocate_split k (List.forall_mem_nil _) some upto done, ?_⟩
    intro _ a₁ d₁ a₂ d part rest
    exact KvOp.allocate_join k (List.forall_mem_nil _) (fun none => absurd none held) some upto part
      rest

/-- A request whose twelfth block goes by the name of its second one. -/
def colliding : Request :=
  { id := 5291088221975681051, arrivalTime := 0, inputTokens := 200, outputTokens := 1,
    shared := some ⟨1044377634949, 176⟩ }

/-- It finds its twelve blocks again, and is refused one more with them but granted it after them. -/
theorem colliding_in_parts : ∃ c,
    c = (start 0 12 16 none).after [.allocate colliding 0 192 true, .release colliding.id] ∧
    KvOp.allocate colliding 0 208 (c.lookup colliding) c = .error (.exhausted 1 0) c ∧
    ∃ a₁ d₁ a₂ d, KvOp.allocate colliding 0 192 (c.lookup colliding) c = .ok a₁ d₁ ∧
      KvOp.allocate colliding 192 208 {} d₁ = .ok a₂ d := by
  have alike : blockName colliding.id colliding.shared 16 1 =
      blockName colliding.id colliding.shared 16 11 := by decide +kernel
  exact repeats_in_parts (n := 12) (by decide) rfl (by decide) (by decide) alike

/-- A request of five tokens is given three of them and then the others; its second block is
filled by halves. -/
theorem threeBlocks_in_parts : ∃ c, c = (start 0 4 2 none).after [] ∧ 0 < 2 ∧
    (c.lookup (threeBlocks 1) = c.lookup (threeBlocks 1) ∨ c.heldBy (threeBlocks 1).id ≠ []) ∧
    0 < 3 ∧ 3 ≤ 5 ∧ (promptBlockHashes 1 none 5 2).Nodup ∧ ∃ a d a₁ d₁ a₂,
      KvOp.allocate (threeBlocks 1) 0 5 (c.lookup (threeBlocks 1)) c = .ok a d ∧
      KvOp.allocate (threeBlocks 1) 0 3 (c.lookup (threeBlocks 1)) c = .ok a₁ d₁ ∧
      KvOp.allocate (threeBlocks 1) 3 5 {} d₁ = .ok a₂ d ∧
      a = ⟨a₁.fresh + a₂.fresh, a₁.cached + a₂.cached, a₁.reloaded + a₂.reloaded,
        a₁.evicted + a₂.evicted⟩ := by
  obtain ⟨c, reached⟩ : ∃ c, c = (start 0 4 2 none).after [] := ⟨_, rfl⟩
  have k : c.Sound := reached ▸ start_sound 0 4 (by decide) none
  have distinct : (promptBlockHashes 1 none 5 2).Nodup := by decide +kernel
  obtain ⟨split, join⟩ := allocation_in_parts (by decide) 0 4 none [] reached (threeBlocks 1) 0 3
    5 _ (.inl rfl) (by decide) (by decide)
  refine ⟨c, reached, by decide, .inl rfl, by decide, by decide, distinct, ?_⟩
  obtain ⟨p, hp⟩ : ∃ p, p = c.plan (threeBlocks 1).id 0 5 (c.lookup (threeBlocks 1)) := ⟨_, rfl⟩
  have planned : p.attach = [] ∧ p.fresh = 3 := by
    have blank : c.lookup (threeBlocks 1) = { promptBlocks := 2 } := by
      rw [reached]
      decide +kernel
    rw [hp, blank, reached]
    exact ⟨rfl, rfl⟩
  have room : c.free = 4 := by
    rw [reached]
    decide +kernel
  rcases KvOp.allocate_takes k hp (k.match_indexed (.inl rfl)) with ⟨few, _⟩ | ⟨_, a, d, _, done, _⟩
  · rw [planned.1, planned.2, room, show c.reserved [] = 0 from rfl] at few
    exact absurd few (by decide)
  · obtain ⟨a₁, d₁, a₂, part, rest, _⟩ := split a d done
    have whole := join (fun _ => distinct) a₁ d₁ a₂ d part rest
    exact ⟨_, d, a₁, d₁, a₂, whole, part, rest, rfl⟩

end KvCache
end InferenceSim
