import InferenceSim.Proofs.Kv.Representation

/-! What a cache is made with. No operation changes the size of the blocks, and none gives a
cache a host tier or takes it away, whether the operation succeeds or fails. The counts of
look-ups change in allocations alone. -/
namespace InferenceSim
open KvCache

namespace KvCache

/-- Both caches have blocks of one size, and both have a host tier or neither has. -/
structure Fixed (c d : KvCache) : Prop where
  blockSize : d.blockSize = c.blockSize
  tier : d.tier.isSome = c.tier.isSome

/-- Both caches are made alike, and have counted the same look-ups. -/
structure Uncounted (c d : KvCache) : Prop extends Fixed c d where
  hits : d.hitBlocks = c.hitBlocks
  misses : d.missBlocks = c.missBlocks

variable {c d e : KvCache}

instance : Std.Refl Fixed := ⟨fun _ => ⟨rfl, rfl⟩⟩

instance : Trans Fixed Fixed Fixed :=
  ⟨fun k l => ⟨l.blockSize.trans k.blockSize, l.tier.trans k.tier⟩⟩

instance : Std.Refl Uncounted := ⟨fun _ => ⟨⟨rfl, rfl⟩, rfl, rfl⟩⟩

instance : Trans Uncounted Uncounted Uncounted :=
  ⟨fun k l => ⟨Trans.trans k.toFixed l.toFixed, l.hits.trans k.hits, l.misses.trans k.misses⟩⟩

/-- A cache in which at most blocks, tables and the clock have changed. -/
structure Alike (c d : KvCache) : Prop where
  blockSize : d.blockSize = c.blockSize
  tier : d.tier = c.tier
  hits : d.hitBlocks = c.hitBlocks
  misses : d.missBlocks = c.missBlocks

namespace Alike

theorem refl : Alike c c := ⟨rfl, rfl, rfl, rfl⟩

theorem trans (k : Alike c d) (l : Alike d e) : Alike c e :=
  ⟨l.blockSize.trans k.blockSize, l.tier.trans k.tier, l.hits.trans k.hits,
    l.misses.trans k.misses⟩

theorem uncounted (k : Alike c d) : Uncounted c d :=
  ⟨⟨k.blockSize, by rw [k.tier]⟩, k.hits, k.misses⟩

end Alike

theorem changeBlock_alike (c : KvCache) (id : Nat) (f : Block → Block) :
    Alike c (c.changeBlock id f) := by
  unfold changeBlock
  split <;> exact ⟨rfl, rfl, rfl, rfl⟩

theorem fill_alike (c : KvCache) (id tokens : Nat) : Alike c (c.fill id tokens) := by
  obtain ⟨blockSize, tier, hits, misses⟩ := changeBlock_alike { c with stamp := c.stamp + 1 } id
    fun _ => { hash := none, refs := 1, filled := tokens, recency := c.stamp + 1 }
  exact ⟨blockSize, tier, hits, misses⟩

theorem register_alike (c : KvCache) (id : Nat) (x : BlockHash) : Alike c (c.register id x) := by
  unfold register
  split
  · exact .refl
  · obtain ⟨blockSize, tier, hits, misses⟩ :=
      changeBlock_alike c id fun b => { b with hash := some x }
    exact ⟨blockSize, tier, hits, misses⟩

theorem registerAt_alike (c : KvCache) (hashes : List BlockHash) (place id : Nat) :
    Alike c (c.registerAt hashes place id) := by
  unfold registerAt
  split
  · exact register_alike c id _
  · exact .refl

end KvCache

namespace KvOp
variable {α β : Type} {x : KvOp α} {c : KvCache}

def left (x : KvOp α) (c : KvCache) : KvCache :=
  match x c with
  | .ok _ d | .error _ d => d

/-- An operation that leaves a cache related to the one that it found, also when it fails. -/
def Leaves (R : KvCache → KvCache → Prop) (x : KvOp α) : Prop := ∀ c, R c (x.left c)

namespace Leaves
variable {R S : KvCache → KvCache → Prop}

theorem mono (k : Leaves R x) (sub : ∀ {c d}, R c d → S c d) : Leaves S x := fun c => sub (k c)

theorem of_ok (k : Leaves R x) {a : α} {d : KvCache} (done : x c = .ok a d) : R c d := by
  have after := k c
  rwa [left, done] at after

theorem of_error (k : Leaves R x) {e : KvError} {d : KvCache} (failed : x c = .error e d) :
    R c d := by
  have after := k c
  rwa [left, failed] at after

theorem change {f : KvCache → KvCache} (changed : ∀ c, R c (f c)) :
    Leaves R (modify f : KvOp PUnit) := changed

/-- An operation that begins with a look at the cache. -/
theorem read {f : KvCache → KvOp β} (leaves : ∀ c, R c ((f c).left c)) :
    Leaves R (get >>= f : KvOp β) := leaves

theorem reads {f : KvCache → KvOp β} (leaves : ∀ c, Leaves R (f c)) :
    Leaves R (get >>= f : KvOp β) := .read fun c => leaves c c

section
variable [Std.Refl R]

theorem result (a : α) : Leaves R (pure a : KvOp α) := fun c => Std.Refl.refl c

theorem fail (e : KvError) : Leaves R (throw e : KvOp α) := fun c => Std.Refl.refl c

theorem when {x : KvOp PUnit} (cond : Prop) [Decidable cond] (leaves : Leaves R x) :
    Leaves R (if cond then x else pure ⟨⟩) := by
  split
  · exact leaves
  · exact .result _

end

section
variable [Trans R R R]

theorem bind {f : α → KvOp β} (first : Leaves R x) (next : ∀ a, Leaves R (f a)) :
    Leaves R (x >>= f) := by
  intro c
  have before := first c
  unfold left at before ⊢
  simp only [Bind.bind, EStateM.bind]
  cases done : x c with
  | ok a d =>
      rw [done] at before
      exact Trans.trans before (next a d)
  | error e d =>
      rw [done] at before
      exact before

/-- The cache that was looked at is written back with changes. -/
theorem write {d : KvCache} {f : PUnit → KvOp β} (changed : R c d) (next : ∀ a, Leaves R (f a)) :
    R c ((set d >>= f : KvOp β).left c) := Trans.trans changed (next ⟨⟩ d)

end

/-- An operation that changes at most blocks, tables and the clock. -/
theorem alike {f : KvCache → KvCache} (changed : ∀ c, Alike c (f c)) :
    Leaves Uncounted (modify f : KvOp PUnit) := .change fun c => (changed c).uncounted

end Leaves

theorem check_uncounted : Leaves Uncounted check := by
  refine .reads fun c => ?_
  split
  · exact .result _
  · exact .fail _

theorem onTier_uncounted (f : HostTier → Nat → Except Violation Unit × HostTier) :
    Leaves Uncounted (onTier f) := by
  refine .read fun c => ?_
  cases tier : c.tier with
  | none => exact Alike.refl.uncounted
  | some t =>
      have same : Uncounted c { c with tier := some (f t c.now).2 } :=
        ⟨⟨rfl, by rw [tier]; rfl⟩, rfl, rfl⟩
      simp only
      split
      · exact same
      · exact same

theorem acquire_uncounted (id : Nat) : Leaves Uncounted (acquire id) := by
  refine .bind (.alike fun c => ⟨rfl, rfl, rfl, rfl⟩) fun _ => .reads fun c => ?_
  split
  · exact .reads fun c => .fail _
  · next b _ =>
    have last : Leaves Uncounted (modify fun c : KvCache =>
        c.changeBlock id fun b => { b with refs := b.refs + 1, recency := c.stamp }) :=
      .alike fun c => changeBlock_alike c id _
    simp only
    split
    · exact .bind (.alike fun c => ⟨rfl, rfl, rfl, rfl⟩) fun _ => last
    · exact last

theorem dropContent_uncounted (id : Nat) : Leaves Uncounted (dropContent id) := by
  refine .reads fun c => .bind (.alike fun c => ?_) fun _ => ?_
  · obtain ⟨blockSize, tier, hits, misses⟩ :=
      changeBlock_alike c id fun b => { b with hash := none, filled := 0 }
    exact ⟨blockSize, tier, hits, misses⟩
  · split
    · exact .result _
    · refine .bind (.alike fun c => ?_) fun _ => onTier_uncounted _
      split
      · exact ⟨rfl, rfl, rfl, rfl⟩
      · exact .refl

theorem takeFree_uncounted : Leaves Uncounted takeFree := by
  refine .reads fun c => ?_
  split
  · exact .bind (.alike fun c => ⟨rfl, rfl, rfl, rfl⟩) fun _ => .result _
  · refine .reads fun c => ?_
    split
    · exact .bind (.alike fun c => ⟨rfl, rfl, rfl, rfl⟩) fun _ =>
        .bind (dropContent_uncounted _) fun _ =>
        .bind (.alike fun c => ⟨rfl, rfl, rfl, rfl⟩) fun _ => .result _
    · exact .fail _

theorem acquireMatched_uncounted (attach : List MatchedBlock) :
    Leaves Uncounted (acquireMatched attach) := by
  induction attach with
  | nil => exact .result _
  | cons m rest ih =>
      cases m with
      | device id => exact .bind (acquire_uncounted id) fun _ => ih
      | offloaded x => exact ih

theorem placeMatched_uncounted (attach : List MatchedBlock) :
    Leaves Uncounted (placeMatched attach) := by
  induction attach with
  | nil => exact .result _
  | cons m rest ih =>
      cases m with
      | device id => exact .bind ih fun _ => .result _
      | offloaded x =>
          exact .bind takeFree_uncounted fun taken =>
            .bind (.alike fun c => (fill_alike c _ _).trans (register_alike _ _ x)) fun _ =>
            .bind ih fun _ => .result _

theorem topUp_uncounted (hashes : List BlockHash) (room goal : Nat) (h : Holding) :
    Leaves Uncounted (topUp hashes room goal h) := by
  unfold topUp
  split
  · exact .result _
  · split
    · exact .result _
    · refine .bind (.alike fun c => changeBlock_alike c _ _) fun _ =>
        .bind (.alike fun c => ?_) fun _ => .result _
      split
      · exact registerAt_alike c hashes _ _
      · exact .refl

theorem extend_uncounted (hashes : List BlockHash) (goal count : Nat) (h : Holding) :
    Leaves Uncounted (extend hashes goal count h) := by
  induction count generalizing h with
  | zero => exact .result _
  | succ count ih =>
      refine .bind takeFree_uncounted fun taken => .reads fun c => .bind (.alike fun d => ?_)
        fun _ => .bind (ih _) fun _ => .result _
      obtain ⟨add, hadd⟩ : ∃ add, add = min c.blockSize (goal - h.tokens) := ⟨_, rfl⟩
      simp only [← hadd]
      split
      · exact (fill_alike d taken.1 add).trans (registerAt_alike _ hashes _ _)
      · exact fill_alike d taken.1 add

theorem carryOut_counts {R : KvCache → KvCache → Prop} [Std.Refl R] [Trans R R R]
    (within : ∀ {c d}, Uncounted c d → R c d) (request : Request) (m : PrefixMatch)
    (p : AllocationPlan) (counts : 0 < m.promptBlocks → ∀ c : KvCache, R c { c with
      hitBlocks := c.hitBlocks + m.size
      missBlocks := c.missBlocks + (m.promptBlocks - m.size) }) :
    Leaves R (carryOut request m p) := by
  simp only [carryOut, when_bind]
  refine .read fun c => Leaves.write (within (Alike.uncounted ⟨rfl, rfl, rfl, rfl⟩)) fun _ =>
    .bind ((acquireMatched_uncounted _).mono within) fun _ =>
    .bind ((placeMatched_uncounted _).mono within) fun _ =>
    .bind (.when _ ((onTier_uncounted _).mono within)) fun _ =>
    .bind ((topUp_uncounted _ _ _ _).mono within) fun _ =>
    .bind ((extend_uncounted _ _ _ _).mono within) fun _ => .bind ?_ fun _ =>
    .bind (.change fun c => within (Alike.uncounted ⟨rfl, rfl, rfl, rfl⟩)) fun _ =>
    .bind (check_uncounted.mono within) fun _ => .result _
  split
  · next first =>
    rw [Bool.and_eq_true, decide_eq_true_eq] at first
    exact .change (counts first.2)
  · exact .result _

theorem allocate_leaves {R : KvCache → KvCache → Prop} [Std.Refl R] (request : Request)
    (first stop : Nat) (m : PrefixMatch) (carried : ∀ p, Leaves R (carryOut request m p)) :
    Leaves R (allocate request first stop m) := by
  refine .reads fun c => ?_
  simp only
  split
  · exact .result _
  · split
    · exact .fail _
    · split
      · exact .fail _
      · exact carried _

theorem allocate_fixed (request : Request) (first stop : Nat) (m : PrefixMatch) :
    Leaves Fixed (allocate request first stop m) :=
  allocate_leaves request first stop m fun p =>
    carryOut_counts Uncounted.toFixed request m p fun _ _ => ⟨rfl, rfl⟩

theorem allocate_uncounted (request : Request) (first stop : Nat) :
    Leaves Uncounted (allocate request first stop {}) :=
  allocate_leaves request first stop {} fun p =>
    carryOut_counts id request {} p fun some => absurd some (Nat.lt_irrefl 0)

theorem releaseBlock_uncounted (id : Nat) : Leaves Uncounted (releaseBlock id) := by
  refine .bind (.alike fun c => ⟨rfl, rfl, rfl, rfl⟩) fun _ => .reads fun c => ?_
  split
  · exact .reads fun c => .fail _
  · next b _ =>
    split
    · exact .reads fun c => .fail _
    · split
      · refine .alike fun c => ?_
        simp only
        split
        · obtain ⟨blockSize, tier, hits, misses⟩ := changeBlock_alike { c with used := c.used - 1 }
            id fun b => { b with refs := 0, recency := c.stamp }
          exact ⟨blockSize, tier, hits, misses⟩
        · obtain ⟨blockSize, tier, hits, misses⟩ := changeBlock_alike { c with used := c.used - 1 }
            id fun b => { b with refs := 0, recency := c.stamp, filled := 0 }
          exact ⟨blockSize, tier, hits, misses⟩
      · exact .alike fun c => changeBlock_alike c id _

theorem releaseBlocks_uncounted (ids : List Nat) : Leaves Uncounted (releaseBlocks ids) := by
  induction ids with
  | nil => exact .result _
  | cons id rest ih => exact .bind (releaseBlock_uncounted id) fun _ => ih

theorem release_uncounted (request : Nat) : Leaves Uncounted (release request) := by
  refine .reads fun c => ?_
  split
  · exact .result _
  · exact .bind (.alike fun c => ⟨rfl, rfl, rfl, rfl⟩) fun _ =>
      .bind (releaseBlocks_uncounted _) fun _ => check_uncounted

theorem evict_uncounted (id : Nat) : Leaves Uncounted (evict id) := by
  refine .read fun c => ?_
  split
  · exact Alike.refl.uncounted
  · simp only
    split
    · exact Alike.refl.uncounted
    · split
      · exact Leaves.write (Alike.uncounted ⟨rfl, rfl, rfl, rfl⟩) fun _ =>
          .bind (dropContent_uncounted id) fun _ =>
          .bind (.alike fun c => ⟨rfl, rfl, rfl, rfl⟩) fun _ => check_uncounted
      · exact check_uncounted c

end KvOp

namespace KvCache
variable {c : KvCache}

theorem takePendingLatency_uncounted (c : KvCache) : Uncounted c c.takePendingLatency.2 := by
  unfold takePendingLatency
  split
  · next t tier => exact ⟨⟨rfl, by rw [tier]; rfl⟩, rfl, rfl⟩
  · exact Alike.refl.uncounted

theorem run_fixed (call : KvCall) : KvOp.Leaves Fixed call.run := by
  cases call with
  | allocate request first stop matching =>
      exact .reads fun c => .bind (KvOp.allocate_fixed request first stop _) fun _ => .result _
  | release request => exact (KvOp.release_uncounted request).mono Uncounted.toFixed
  | evict id => exact (KvOp.evict_uncounted id).mono Uncounted.toFixed
  | setClock now => exact .change fun c => ⟨rfl, rfl⟩
  | takePendingLatency => exact .change fun c => (takePendingLatency_uncounted c).toFixed

theorem after_fixed (c : KvCache) (calls : List KvCall) : Fixed c (c.after calls) := by
  induction calls generalizing c with
  | nil => exact Std.Refl.refl c
  | cons call rest ih =>
      rw [after]
      cases done : call.run c with
      | ok _ d => exact Trans.trans ((run_fixed call).of_ok done) (ih d)
      | error e d => exact Trans.trans ((run_fixed call).of_error done) (ih d)

end KvCache
end InferenceSim
