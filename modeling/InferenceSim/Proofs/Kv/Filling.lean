import InferenceSim.Proofs.Kv.Supply

/-! Filling a holding in two parts. Whether its tokens are backed at once or up to some point
first, the same blocks are taken, in the same order, and are indexed under the same hashes: the
block that the first part leaves unfilled is filled up by the second one. What has been counted
of look-ups plays no part in it. -/
namespace InferenceSim
open KvCache

namespace KvOp
variable {c d e : KvCache} {loose : List Nat} {request : Request} {h : Holding}
  {size base middle goal count more : Nat}

/-- Behind the blocks of a holding, `count` new ones are as many as the tokens up to `goal`
need. -/
structure Lacks (size goal count : Nat) (h : Holding) : Prop where
  below : h.tokens ≤ goal
  upto : goal ≤ h.tokens + count * size
  full : 0 < count → h.tokens = h.blocks.length * size ∧ h.tokens + count * size < goal + size

theorem Lacks.next {add : Nat} (k : Lacks size goal (count + 1) h)
    (hadd : add = min size (goal - h.tokens)) (id : Nat) :
    0 < add ∧ Lacks size goal count ⟨h.blocks ++ [id], h.tokens + add⟩ := by
  obtain ⟨filled, tight⟩ := k.full (Nat.succ_pos count)
  obtain ⟨positive, below, upto, full⟩ := next_fits filled k.upto tight hadd
  refine ⟨positive, below, upto, ?_⟩
  rwa [List.length_append]

theorem newHashes_congr {base' goal' i : Nat} (positive : 0 < size)
    (before : base < (i + 1) * size) (full : (i + 1) * size ≤ goal)
    (before' : base' < (i + 1) * size) (full' : (i + 1) * size ≤ goal') :
    (newHashes request size base goal)[i]? = (newHashes request size base' goal')[i]? := by
  rw [getElem?_newHashes (Nat.le_of_lt_succ ((Nat.div_lt_iff_lt_mul positive).mpr before))
      (Nat.lt_of_succ_le ((Nat.le_div_iff_mul_le positive).mpr full)),
    getElem?_newHashes (Nat.le_of_lt_succ ((Nat.div_lt_iff_lt_mul positive).mpr before'))
      (Nat.lt_of_succ_le ((Nat.le_div_iff_mul_le positive).mpr full'))]

theorem registerAt_congr {hashes hashes' : List BlockHash} {place : Nat} (c : KvCache)
    (same : hashes[place]? = hashes'[place]?) (id : Nat) :
    c.registerAt hashes place id = c.registerAt hashes' place id := by
  simp only [registerAt, same]

theorem extend_succ {hashes : List BlockHash} {c₁ : KvCache} {id add : Nat} {evicting : Bool}
    (first : takeFree c = .ok (id, evicting) c₁) (sized : c₁.blockSize = size)
    (hadd : add = min size (goal - h.tokens))
    (made : e = if add = (c₁.fill id add).blockSize
      then (c₁.fill id add).registerAt hashes h.blocks.length id else c₁.fill id add) :
    extend hashes goal (count + 1) h c =
      (extend hashes goal count ⟨h.blocks ++ [id], h.tokens + add⟩ >>=
        fun x => pure (x.1, if evicting then x.2 + 1 else x.2)) e := by
  simp only [extend]
  rw [bind_ok first]
  simp only [get_bind, modify_bind, sized, ← hadd]
  rw [← made]

theorem extend_congr {base' : Nat} (k : c.Consistent loose) (sized : c.blockSize = size)
    (positive : 0 < size) (lacks : Lacks size goal count h) (room : count ≤ c.free)
    (before : base ≤ h.tokens) (before' : base' ≤ h.tokens) :
    extend (newHashes request size base goal) goal count h c =
      extend (newHashes request size base' goal) goal count h c := by
  induction count generalizing c loose h with
  | zero => rfl
  | succ n ih =>
      obtain ⟨filled, _⟩ := lacks.full (Nat.succ_pos n)
      obtain ⟨add, hadd⟩ : ∃ add, add = min size (goal - h.tokens) := ⟨_, rfl⟩
      obtain ⟨id, evicting, c₁, e, first, size₁, made, takes, _⟩ := takeFree_registers
        (newHashes request size base goal) h.blocks.length add k (by omega)
      obtain ⟨some, lacks'⟩ := lacks.next hadd id
      have free := takes.free
      rw [List.length_singleton] at free
      have made' : e = (if add = (c₁.fill id add).blockSize
          then (c₁.fill id add).registerAt (newHashes request size base' goal) h.blocks.length id
          else c₁.fill id add) := by
        rw [made]
        split
        · next brim =>
          rw [(fill_alike c₁ id add).blockSize, size₁, sized] at brim
          refine registerAt_congr _ (newHashes_congr positive ?_ ?_ ?_ ?_) id
          all_goals rw [Nat.succ_mul, ← filled]; omega
        · rfl
      have rest := ih takes.grows.consistent (takes.grows.frame.blockSize.trans sized) lacks'
        (by omega) (Nat.le_add_right_of_le before) (Nat.le_add_right_of_le before')
      rw [extend_succ first (size₁.trans sized) hadd made,
        extend_succ first (size₁.trans sized) hadd made']
      simp only [bind, EStateM.bind, rest]

theorem topUp_apply {hashes : List BlockHash} {room add id : Nat} {b : Block}
    (last : h.blocks.getLast? = some id) (hb : c.block? id = some b) (left : room ≠ 0)
    (hadd : add = min room (goal - h.tokens)) (made : d = { c with
      blocks := c.blocks.insert id { b with filled := b.filled + add } }) :
    topUp hashes room goal h c = .ok ⟨h.blocks, h.tokens + add⟩
      (if b.filled + add = c.blockSize then d.registerAt hashes (h.blocks.length - 1) id
        else d) := by
  have here : d.block? id = some { b with filled := b.filled + add } :=
    (block?_insert hb (congrArg blocks made) (by rw [made]) id).trans (if_pos rfl)
  simp only [topUp, last, if_neg left, modify_bind, pure_apply, ← hadd]
  rw [changeBlock_of_some hb, ← made, here]
  simp only [Option.map_some, Option.some.injEq]
  rw [show d.blockSize = c.blockSize by rw [made]]

theorem fill_topUp {hashes : List BlockHash} {room first add id : Nat} {b : Block}
    (last : h.blocks.getLast? = some id) (hb : c.block? id = some b) (left : room ≠ 0)
    (hadd : add = min room (goal - h.tokens)) :
    topUp hashes room goal h (c.fill id first) = .ok ⟨h.blocks, h.tokens + add⟩
      (if first + add = c.blockSize
        then (c.fill id (first + add)).registerAt hashes (h.blocks.length - 1) id
        else c.fill id (first + add)) := by
  have filled := fill_of_block hb
  have here : (c.fill id first).block? id = some ⟨none, 1, first, c.stamp + 1⟩ := by
    refine (block?_insert (d := c.fill id first) hb ?_ ?_ id).trans (if_pos rfl)
    · rw [filled]
    · rw [filled]
  rw [topUp_apply last here left hadd rfl, filled, filled]
  simp only [Table.insert_insert]

theorem bind_congr_at {α β : Type} {x y : KvOp α} (same : x c = y d) (f : α → KvOp β) :
    (x >>= f) c = (y >>= f) d := by
  simp only [bind, EStateM.bind, same]

/-- The last block of a holding is filled, and new ones are taken behind it. -/
def fillUp (hashes : List BlockHash) (room goal count : Nat) (h : Holding) : KvOp (Holding × Nat) :=
  topUp hashes room goal h >>= extend hashes goal count

theorem fillUp_of_topUp {hashes : List BlockHash} {room : Nat} {h' : Holding}
    (done : topUp hashes room goal h c = .ok h' d) :
    fillUp hashes room goal count h c = extend hashes goal count h' d := bind_ok done _

/-- A holding goes on to `goal` from where it is, after `before` evictions. -/
def goOn (request : Request) (size middle goal count : Nat) (before : Holding × Nat) :
    KvOp (Holding × Nat) := do
  let (h, evicted) ← fillUp (newHashes request size middle goal)
    (before.1.blocks.length * size - before.1.tokens) goal count before.1
  pure (h, before.2 + evicted)

theorem goOn_ok {before : Holding × Nat} {hashes : List BlockHash} {h' : Holding}
    (topped : topUp (newHashes request size middle goal)
      (before.1.blocks.length * size - before.1.tokens) goal before.1 c = .ok h' d)
    (same : extend (newHashes request size middle goal) goal count h' d =
      extend hashes goal count h' d) :
    goOn request size middle goal count before c =
      (extend hashes goal count h' >>= fun x => pure (x.1, before.2 + x.2)) d := by
  simp only [goOn, bind, EStateM.bind, fillUp_of_topUp topped, same]

theorem extend_split_none (k : c.Consistent loose) (sized : c.blockSize = size)
    (positive : 0 < size) (reached : h.tokens = middle) (whole : Lacks size goal more h)
    (room : more ≤ c.free) (before : base ≤ h.tokens) (further : middle < goal) :
    extend (newHashes request size base goal) goal more h c =
      goOn request size middle goal more (h, 0) c := by
  have upto := whole.upto
  have some : 0 < more := Nat.pos_of_ne_zero fun none => by
    rw [none, Nat.zero_mul] at upto
    omega
  have topped : topUp (newHashes request size middle goal)
      (h.blocks.length * size - h.tokens) goal h c = .ok h c := by
    rw [(whole.full some).1, Nat.sub_self]
    exact topUp_noRoom _ goal
  have same : extend (newHashes request size middle goal) goal more h c =
      extend (newHashes request size base goal) goal more h c :=
    extend_congr k sized positive whole room (Nat.le_of_eq reached.symm) before
  have gone : goOn request size middle goal more (h, 0) c =
      (extend (newHashes request size base goal) goal more h >>= fun x => pure (x.1, 0 + x.2)) c :=
    goOn_ok topped same
  rw [gone]
  simp only [bind, EStateM.bind, Nat.zero_add]
  cases extend (newHashes request size base goal) goal more h c <;> rfl

theorem extend_split_partly (k : c.Consistent loose) (sized : c.blockSize = size)
    (positive : 0 < size) (part : Lacks size middle 1 h) (partly : middle < h.tokens + size)
    (whole : Lacks size goal (more + 1) h) (room : more + 1 ≤ c.free) (before : base ≤ h.tokens)
    (further : middle < goal) :
    extend (newHashes request size base goal) goal (more + 1) h c =
      (extend (newHashes request size base middle) middle 1 h >>=
        goOn request size middle goal more) c := by
  obtain ⟨filled, tight⟩ := part.full Nat.one_pos
  obtain ⟨add, hadd⟩ : ∃ add, add = min size (middle - h.tokens) := ⟨_, rfl⟩
  obtain ⟨all, hall⟩ : ∃ all, all = min size (goal - h.tokens) := ⟨_, rfl⟩
  obtain ⟨id, evicting, c₁, e, first, size₁, made, takes, _⟩ := takeFree_registers
    (newHashes request size base goal) h.blocks.length all k (by omega)
  obtain ⟨_, _, _, first', takeable⟩ := takeFree_ok k (by omega)
  cases first'.symm.trans first
  obtain ⟨b, hb⟩ : ∃ b, c₁.block? id = some b := by
    obtain ⟨grows, blocks, _⟩ := takeable.fills 0
    have inside := lt_total ((blocks id).trans (if_pos rfl))
    rw [grows.frame.total, ← takeable.frame.total] at inside
    exact exists_block inside
  have began : extend (newHashes request size base middle) middle 1 h c =
      .ok (⟨h.blocks ++ [id], h.tokens + add⟩, if evicting then 1 else 0) (c₁.fill id add) := by
    rw [extend_succ first (size₁.trans sized) hadd (if_neg ?_).symm]
    · rfl
    · rw [(fill_alike c₁ id add).blockSize, size₁, sized]
      omega
  have atEnd : (h.blocks ++ [id]).length * size = h.tokens + size := by
    rw [List.length_append, List.length_singleton, Nat.succ_mul, filled]
  have topped : topUp (newHashes request size middle goal)
      ((h.blocks ++ [id]).length * size - (h.tokens + add)) goal
      ⟨h.blocks ++ [id], h.tokens + add⟩ (c₁.fill id add) =
      .ok ⟨h.blocks ++ [id], h.tokens + all⟩ e := by
    obtain ⟨rest, hrest⟩ : ∃ rest, rest = all - add := ⟨_, rfl⟩
    have toUp : rest = min ((h.blocks ++ [id]).length * size - (h.tokens + add))
        (goal - (h.tokens + add)) := by
      rw [atEnd]
      omega
    rw [fill_topUp List.getLast?_concat hb (by rw [atEnd]; omega) toUp,
      show add + rest = all by omega, made]
    simp only [Nat.add_assoc, show add + rest = all by omega, (fill_alike c₁ id all).blockSize]
    congr 1
    split
    · next brim =>
      rw [size₁, sized] at brim
      rw [List.length_append, List.length_singleton, Nat.add_sub_cancel]
      rw [List.length_append, List.length_singleton] at atEnd
      exact registerAt_congr _ (newHashes_congr positive (by omega) (by omega) (by omega)
        (by omega)) id
    · rfl
  have free := takes.free
  rw [List.length_singleton] at free
  obtain ⟨_, whole'⟩ := whole.next hall id
  have same : extend (newHashes request size middle goal) goal more _ e =
      extend (newHashes request size base goal) goal more _ e :=
    extend_congr takes.grows.consistent (takes.grows.frame.blockSize.trans sized) positive whole'
      (by omega) (show middle ≤ h.tokens + all by omega) (Nat.le_add_right_of_le before)
  rw [extend_succ first (size₁.trans sized) hall made, bind_ok began, goOn_ok topped same]
  simp only [bind, EStateM.bind]
  cases extend (newHashes request size base goal) goal more ⟨h.blocks ++ [id], h.tokens + all⟩ e
    with
  | error => rfl
  | ok x d => cases evicting <;> simp [Nat.add_comm]

theorem extend_split (n : Nat) (k : c.Consistent loose) (sized : c.blockSize = size)
    (positive : 0 < size) (part : Lacks size middle n h) (whole : Lacks size goal (more + n) h)
    (room : more + n ≤ c.free) (before : base ≤ h.tokens) (further : middle < goal) :
    extend (newHashes request size base goal) goal (more + n) h c =
      (extend (newHashes request size base middle) middle n h >>=
        goOn request size middle goal more) c := by
  induction n generalizing c loose h with
  | zero =>
      have below := part.below
      have upto := part.upto
      exact extend_split_none k sized positive (by omega) whole room before further
  | succ n ih =>
      obtain ⟨filled, tight⟩ := part.full (Nat.succ_pos n)
      rcases Nat.lt_or_ge middle (h.tokens + size) with partly | wholly
      · obtain rfl : n = 0 := by
          refine Nat.eq_zero_of_not_pos fun some => ?_
          have one : size ≤ n * size := Nat.le_mul_of_pos_left size some
          rw [Nat.succ_mul] at tight
          omega
        exact extend_split_partly k sized positive part partly whole room before further
      · have hadd : size = min size (middle - h.tokens) := by omega
        have hall : size = min size (goal - h.tokens) := by omega
        obtain ⟨id, evicting, c₁, e, first, size₁, made, takes, _⟩ := takeFree_registers
          (newHashes request size base middle) h.blocks.length size k (by omega)
        have brim : size = (c₁.fill id size).blockSize := by
          rw [(fill_alike c₁ id size).blockSize, size₁, sized]
        have here : h.tokens + size = (h.blocks.length + 1) * size := by rw [Nat.succ_mul, filled]
        have made' : e = (if size = (c₁.fill id size).blockSize
            then (c₁.fill id size).registerAt (newHashes request size base goal) h.blocks.length id
            else c₁.fill id size) := by
          rw [made, if_pos brim, if_pos brim]
          exact registerAt_congr _ (newHashes_congr positive (by omega) (by omega) (by omega)
            (by omega)) id
        obtain ⟨_, part'⟩ := part.next hadd id
        obtain ⟨_, whole'⟩ := whole.next hall id
        have free := takes.free
        rw [List.length_singleton] at free
        have rest := ih takes.grows.consistent (takes.grows.frame.blockSize.trans sized) part'
          whole' (by omega) (Nat.le_add_right_of_le before)
        rw [← Nat.add_assoc, extend_succ first (size₁.trans sized) hall made', bind_congr_at rest,
          bind_congr_at (extend_succ first (size₁.trans sized) hadd made)]
        simp only [bind, EStateM.bind]
        cases extend (newHashes request size base middle) middle n
          ⟨h.blocks ++ [id], h.tokens + size⟩ e with
        | error => rfl
        | ok x d =>
            simp only [goOn, bind, EStateM.bind, pure_apply]
            cases fillUp (newHashes request size middle goal)
              (x.1.blocks.length * size - x.1.tokens) goal more x.1 d with
            | error => rfl
            | ok y d => cases evicting <;> simp [Nat.add_right_comm]

theorem last_block (backed : Backed c h) (left : h.tokens < h.blocks.length * c.blockSize) :
    ∃ id b, h.blocks.getLast? = some id ∧ c.block? id = some b ∧
      b.filled + (h.blocks.length * c.blockSize - h.tokens) = c.blockSize := by
  obtain ⟨first, last, blocks⟩ : ∃ first last, h.blocks = first ++ [last] := by
    refine ⟨_, _, (List.dropLast_concat_getLast fun empty => ?_).symm⟩
    rw [empty, List.length_nil, Nat.zero_mul] at left
    exact absurd left (Nat.not_lt_zero _)
  have tight := backed.tight
  have level := backed.level first.length last (by simp [blocks])
  obtain ⟨b, hb, filled⟩ := Option.map_eq_some_iff.mp level
  rw [blocks, List.length_append, List.length_singleton, Nat.succ_mul] at left tight ⊢
  exact ⟨last, b, List.getLast?_concat, hb, by omega⟩

theorem fillUp_split_full {old : List Nat} {room n : Nat} (k : c.Consistent loose)
    (sized : c.blockSize = size) (positive : 0 < size) (backed : Backed c ⟨old, base⟩)
    (held : ∀ id ∈ old, id ∈ loose) (hroom : room = old.length * size - base)
    (full : old.length * size ≤ middle) (further : middle < goal)
    (part : Lacks size middle n ⟨old, base + room⟩)
    (whole : Lacks size goal (more + n) ⟨old, base + room⟩) (enough : more + n ≤ c.free) :
    fillUp (newHashes request size base goal) room goal (more + n) ⟨old, base⟩ c =
      (fillUp (newHashes request size base middle) room middle n ⟨old, base⟩ >>=
        goOn request size middle goal more) c := by
  have fits : base ≤ old.length * size := sized ▸ backed.enough
  obtain ⟨d, done, spares, _, free, _⟩ := topUp_backs (newHashes request size base middle) middle k
    backed held (sized.symm ▸ hroom) (show room = min room (middle - base) by omega)
  have done' : topUp (newHashes request size base goal) room goal ⟨old, base⟩ c =
      .ok ⟨old, base + room⟩ d := by
    rw [← done]
    rcases Nat.eq_zero_or_pos room with none | left
    · rw [none, topUp_noRoom, topUp_noRoom]
    · obtain ⟨id, b, last, hb, brim⟩ := last_block backed (show base < old.length * c.blockSize by
        rw [sized]; omega)
      rw [topUp_apply last hb (Nat.ne_of_gt left) (show room = min room (goal - base) by omega) rfl,
        topUp_apply last hb (Nat.ne_of_gt left) (show room = min room (middle - base) by omega) rfl]
      have some : 0 < old.length := Nat.pos_of_ne_zero fun empty => by
        rw [empty, Nat.zero_mul] at hroom
        omega
      have upto : (old.length - 1 + 1) * size = old.length * size := by rw [Nat.sub_add_cancel some]
      congr 1
      split
      · exact registerAt_congr _ (newHashes_congr (i := old.length - 1) positive (by omega)
          (by omega) (by omega) (by omega)) id
      · rfl
  rw [fillUp_of_topUp done', bind_congr_at (fillUp_of_topUp done)]
  exact extend_split n spares.consistent (spares.frame.blockSize.trans sized) positive part whole
    (free ▸ enough) (Nat.le_add_right base room) further

theorem fillUp_split_partly {old : List Nat} {room : Nat} (k : c.Consistent loose)
    (sized : c.blockSize = size) (positive : 0 < size) (backed : Backed c ⟨old, base⟩)
    (held : ∀ id ∈ old, id ∈ loose) (hroom : room = old.length * size - base)
    (part : middle < old.length * size) (some : base < middle) (further : middle < goal)
    (whole : Lacks size goal more ⟨old, base + min room (goal - base)⟩) (enough : more ≤ c.free) :
    fillUp (newHashes request size base goal) room goal more ⟨old, base⟩ c =
      (fillUp (newHashes request size base middle) room middle 0 ⟨old, base⟩ >>=
        goOn request size middle goal more) c := by
  obtain ⟨id, b, last, hb, brim⟩ := last_block backed (show base < old.length * c.blockSize by
    rw [sized]; omega)
  have nonempty : 0 < old.length := Nat.pos_of_ne_zero fun empty => by
    rw [empty, Nat.zero_mul] at part
    omega
  have here : old.length - 1 + 1 = old.length := Nat.sub_add_cancel nonempty
  have upto : (old.length - 1 + 1) * size = old.length * size := by rw [here]
  have brim : b.filled + (old.length * c.blockSize - base) = c.blockSize := brim
  rw [sized] at brim
  obtain ⟨add, hadd⟩ : ∃ add, add = middle - base := ⟨_, rfl⟩
  obtain ⟨all, hall⟩ : ∃ all, all = min room (goal - base) := ⟨_, rfl⟩
  obtain ⟨rest, hrest⟩ : ∃ rest, rest = all - add := ⟨_, rfl⟩
  obtain ⟨d, made⟩ : ∃ d, d = { c with
    blocks := c.blocks.insert id { b with filled := b.filled + add } } := ⟨_, rfl⟩
  have began : fillUp (newHashes request size base middle) room middle 0 ⟨old, base⟩ c =
      .ok (⟨old, base + add⟩, 0) d := by
    rw [fillUp_of_topUp (topUp_apply last hb (by omega)
      (show add = min room (middle - base) by omega) made), if_neg (by rw [sized]; omega)]
    rfl
  obtain ⟨e, done, spares, _, free, _⟩ := topUp_backs (newHashes request size base goal) goal k
    backed held (sized.symm ▸ hroom) (show all = min room (goal - base) from hall)
  have hb' : d.block? id = Option.some { b with filled := b.filled + add } :=
    (block?_insert hb (congrArg blocks made) (by rw [made]) id).trans (if_pos rfl)
  have topped : topUp (newHashes request size middle goal) (old.length * size - (base + add)) goal
      ⟨old, base + add⟩ d = .ok ⟨old, base + all⟩ e := by
    rw [← done, topUp_apply (h := ⟨old, base + add⟩) last hb' (by omega)
      (show rest = min (old.length * size - (base + add)) (goal - (base + add)) by omega) rfl,
      topUp_apply last hb (by omega) (show all = min room (goal - base) from hall) rfl, made]
    simp only [Table.insert_insert, Nat.add_assoc, show add + rest = all by omega]
    congr 1
    split
    · exact registerAt_congr _ (newHashes_congr (i := old.length - 1) positive (by omega)
        (by omega) (by omega) (by omega)) id
    · rfl
  have same : extend (newHashes request size middle goal) goal more ⟨old, base + all⟩ e =
      extend (newHashes request size base goal) goal more ⟨old, base + all⟩ e :=
    extend_congr spares.consistent (spares.frame.blockSize.trans sized) positive (hall ▸ whole)
      (free ▸ enough) (show middle ≤ base + all by omega) (Nat.le_add_right base all)
  have gone : goOn request size middle goal more (⟨old, base + add⟩, 0) d = _ :=
    goOn_ok topped same
  rw [fillUp_of_topUp done, bind_ok began, gone]
  simp only [bind, EStateM.bind, Nat.zero_add]
  cases extend (newHashes request size base goal) goal more ⟨old, base + all⟩ e <;> rfl

theorem fillUp_split {old : List Nat} {room n : Nat} (k : c.Consistent loose)
    (sized : c.blockSize = size) (positive : 0 < size) (backed : Backed c ⟨old, base⟩)
    (held : ∀ id ∈ old, id ∈ loose) (hroom : room = old.length * size - base)
    (below : base ≤ middle) (further : middle < goal) (some : room = 0 ∨ base < middle)
    (part : Lacks size middle n ⟨old, base + min room (middle - base)⟩)
    (whole : Lacks size goal (more + n) ⟨old, base + min room (goal - base)⟩)
    (enough : more + n ≤ c.free) :
    fillUp (newHashes request size base goal) room goal (more + n) ⟨old, base⟩ c =
      (fillUp (newHashes request size base middle) room middle n ⟨old, base⟩ >>=
        goOn request size middle goal more) c := by
  have fits : base ≤ old.length * size := sized ▸ backed.enough
  rcases Nat.lt_or_ge middle (old.length * size) with partly | full
  · obtain rfl : n = 0 := Nat.eq_zero_of_not_pos fun some => by
      have atEnd : base + min room (middle - base) = old.length * size := (part.full some).1
      omega
    exact fillUp_split_partly k sized positive backed held hroom partly (by omega) further whole
      enough
  · rw [show min room (middle - base) = room by omega] at part
    rw [show min room (goal - base) = room by omega] at whole
    exact fillUp_split_full k sized positive backed held hroom full further part whole enough

theorem fillUp_supply {hashes : List BlockHash} {room evicted : Nat} {h' : Holding}
    (done : fillUp hashes room goal count h c = .ok (h', evicted) d) :
    h'.blocks.length = h.blocks.length + count ∧ d.free + count = c.free := by
  obtain ⟨h₁, c₁, topped, extended⟩ := bind_inv done
  obtain ⟨blocks, same⟩ := topUp_supply topped
  obtain ⟨taken, length, split, blocks'⟩ := extend_supply extended
  rw [← length_supply, ← length_supply, ← same, split, blocks', blocks, List.length_append,
    List.length_append, length]
  exact ⟨rfl, Nat.add_comm _ _⟩

theorem fillUp_uncounted (hashes : List BlockHash) (room goal count : Nat) (h : Holding) :
    Leaves Uncounted (fillUp hashes room goal count h) :=
  .bind (topUp_uncounted hashes room goal h) fun _ => extend_uncounted hashes goal count _

/-- An operation that does not see what look-ups have been counted. -/
def Blind {α : Type} (x : KvOp α) : Prop :=
  ∀ (c d : KvCache) (a : α) (hits misses : Nat), x c = .ok a d →
    x { c with hitBlocks := hits, missBlocks := misses } =
      .ok a { d with hitBlocks := hits, missBlocks := misses }

namespace Blind
variable {α β : Type} {x : KvOp α}

theorem result (a : α) : Blind (pure a : KvOp α) := by
  intro c d b hits misses done
  cases done
  rfl

theorem bind {f : α → KvOp β} (first : Blind x) (next : ∀ a, Blind (f a)) : Blind (x >>= f) := by
  intro c d b hits misses done
  obtain ⟨a, c₁, done₁, done₂⟩ := bind_inv done
  rw [bind_ok (first c c₁ a hits misses done₁)]
  exact next a c₁ d b hits misses done₂

theorem change {f : KvCache → KvCache} (same : ∀ (c : KvCache) (hits misses : Nat),
    f { c with hitBlocks := hits, missBlocks := misses } =
      { f c with hitBlocks := hits, missBlocks := misses }) : Blind (modify f : KvOp PUnit) := by
  intro c d b hits misses done
  cases done
  exact congrArg (EStateM.Result.ok PUnit.unit) (same c hits misses)

/-- What is done next may depend on anything else in the cache. -/
theorem read {f : KvCache → KvOp β} (next : ∀ c, Blind (f c))
    (same : ∀ (c : KvCache) (hits misses : Nat),
      f { c with hitBlocks := hits, missBlocks := misses } = f c) : Blind (get >>= f : KvOp β) := by
  intro c d b hits misses done
  rw [get_bind] at done ⊢
  rw [same]
  exact next c c d b hits misses done

theorem fail (e : KvError) : Blind (throw e : KvOp α) := by
  intro c d b hits misses done
  cases done

end Blind

theorem changeBlock_counts (c : KvCache) (hits misses id : Nat) (f : Block → Block) :
    ({ c with hitBlocks := hits, missBlocks := misses } : KvCache).changeBlock id f =
      { c.changeBlock id f with hitBlocks := hits, missBlocks := misses } := by
  have same : ({ c with hitBlocks := hits, missBlocks := misses } : KvCache).block? id =
      c.block? id := rfl
  unfold changeBlock
  rw [same]
  split <;> rfl

theorem fill_counts (c : KvCache) (hits misses id tokens : Nat) :
    ({ c with hitBlocks := hits, missBlocks := misses } : KvCache).fill id tokens =
      { c.fill id tokens with hitBlocks := hits, missBlocks := misses } :=
  changeBlock_counts { c with stamp := c.stamp + 1 } hits misses id _

theorem registerAt_counts (c : KvCache) (hits misses : Nat) (hashes : List BlockHash)
    (place id : Nat) :
    ({ c with hitBlocks := hits, missBlocks := misses } : KvCache).registerAt hashes place id =
      { c.registerAt hashes place id with hitBlocks := hits, missBlocks := misses } := by
  unfold registerAt
  split
  · unfold register
    simp only [changeBlock_counts]
    split <;> rfl
  · rfl

theorem ite_counts (hits misses : Nat) (cond : Prop) [Decidable cond] (c d : KvCache) :
    (if cond then { c with hitBlocks := hits, missBlocks := misses }
      else { d with hitBlocks := hits, missBlocks := misses } : KvCache) =
      { (if cond then c else d) with hitBlocks := hits, missBlocks := misses } := by
  split <;> rfl

theorem onTier_blind (f : HostTier → Nat → Except Violation Unit × HostTier) :
    Blind (onTier f) := by
  intro c d b hits misses done
  simp only [onTier, get_bind] at done ⊢
  cases tier : c.tier with
  | none =>
      simp only [tier] at done ⊢
      cases done
      simp only [tier, pure_apply]
  | some t =>
      simp only [tier, set_bind] at done ⊢
      cases fine : (f t c.now).1 with
      | ok _ =>
          simp only [fine] at done ⊢
          cases done
          rfl
      | error v =>
          simp only [fine] at done
          cases done

theorem dropContent_blind (id : Nat) : Blind (dropContent id) := by
  refine .read (fun c => .bind (.change fun c hits misses => ?_) fun _ => ?_)
    fun c hits misses => rfl
  · simp only [changeBlock_counts]
  · split
    · exact .result _
    · refine .bind (.change fun c hits misses => ?_) fun _ => onTier_blind _
      simp only
      split <;> rfl

theorem takeFree_blind : Blind takeFree := by
  refine .read (fun c => ?_) fun c hits misses => rfl
  split
  · exact .bind (.change fun c hits misses => rfl) fun _ => .result _
  · refine .read (fun c => ?_) fun c hits misses => rfl
    split
    · exact .bind (.change fun c hits misses => rfl) fun _ => .bind (dropContent_blind _) fun _ =>
        .bind (.change fun c hits misses => rfl) fun _ => .result _
    · exact .fail _

theorem topUp_blind (hashes : List BlockHash) (room goal : Nat) (h : Holding) :
    Blind (topUp hashes room goal h) := by
  unfold topUp
  split
  · exact .result _
  · split
    · exact .result _
    · refine .bind (.change fun c hits misses => changeBlock_counts c hits misses _ _) fun _ =>
        .bind (.change fun c hits misses => ?_) fun _ => .result _
      simp only [registerAt_counts]
      exact ite_counts hits misses _ _ _

theorem extend_blind (hashes : List BlockHash) (goal count : Nat) (h : Holding) :
    Blind (extend hashes goal count h) := by
  induction count generalizing h with
  | zero => exact .result _
  | succ n ih =>
      refine .bind takeFree_blind fun taken => .read (fun c => .bind
        (.change fun d hits misses => ?_) fun _ => .bind (ih _) fun _ => .result _)
        fun c hits misses => rfl
      simp only [fill_counts, registerAt_counts]
      exact ite_counts hits misses _ _ _

theorem fillUp_blind (hashes : List BlockHash) (room goal count : Nat) (h : Holding) :
    Blind (fillUp hashes room goal count h) :=
  .bind (topUp_blind hashes room goal h) fun _ => extend_blind hashes goal count _

end KvOp
end InferenceSim
