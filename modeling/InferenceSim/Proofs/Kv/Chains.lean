import InferenceSim.Proofs.Kv.Labels
import Mathlib.Algebra.Group.Nat.Defs

/-! Which blocks of two requests carry the same hash. As long as the hash tells apart what
goes into it, blocks share one exactly if they stand at the same place of their prompts and
all content up to there has the same owner. An owner is known by all of its bits except for
the highest, which says whether it is a prefix group. -/
namespace InferenceSim

/-- Among the inputs of some blocks, no two different ones have the same hash. -/
def Uncollided (inputs : List (Option BlockHash × ContentKey)) : Prop :=
  ∀ x ∈ inputs, ∀ y ∈ inputs, chainHash x.1 x.2 = chainHash y.1 y.2 → x = y

instance (inputs : List (Option BlockHash × ContentKey)) : Decidable (Uncollided inputs) :=
  inferInstanceAs (Decidable (∀ x ∈ inputs, ∀ y ∈ inputs,
    chainHash x.1 x.2 = chainHash y.1 y.2 → x = y))

theorem Uncollided.mono {inputs more : List (Option BlockHash × ContentKey)}
    (apart : Uncollided more) (among : inputs ⊆ more) : Uncollided inputs :=
  fun x hx y hy => apart x (among hx) y (among hy)

section
variable (id : Nat) (shared : Option SharedPrefix) (blockSize : Nat)

def chainParent : Nat → Option BlockHash
  | 0 => none
  | i + 1 => some (chainHash (chainParent i) (contentKey id shared i blockSize))

def chainInput (i : Nat) : Option BlockHash × ContentKey :=
  (chainParent id shared blockSize i, contentKey id shared i blockSize)

def chainInputs (count : Nat) : List (Option BlockHash × ContentKey) :=
  (List.range count).map (chainInput id shared blockSize)

def blockName (i : Nat) : BlockHash :=
  chainHash (chainParent id shared blockSize i) (contentKey id shared i blockSize)

theorem chainFrom_eq_map (count index : Nat) :
    chainFrom id shared blockSize count index (chainParent id shared blockSize index) =
      (List.range' index count).map (blockName id shared blockSize) := by
  induction count generalizing index with
  | zero => rfl
  | succ count ih =>
      rw [chainFrom, List.range'_succ, List.map_cons, ← ih (index + 1)]
      rfl

theorem blockHashes_eq_map (count : Nat) :
    blockHashes id shared count blockSize =
      (List.range count).map (blockName id shared blockSize) := by
  rw [List.range_eq_range', ← chainFrom_eq_map]
  rfl

variable {id shared blockSize}

theorem getElem?_blockHashes_of_lt {count i : Nat} (inside : i < count) :
    (blockHashes id shared count blockSize)[i]? = some (blockName id shared blockSize i) := by
  rw [blockHashes_eq_map, List.getElem?_map, List.getElem?_range inside]
  rfl

theorem chainInput_mem {count i : Nat} (inside : i < count) :
    chainInput id shared blockSize i ∈ chainInputs id shared blockSize count :=
  List.mem_map_of_mem (List.mem_range.mpr inside)

end

section
variable {id id' : Nat} {shared shared' : Option SharedPrefix} {blockSize : Nat}

theorem chainParent_congr {i : Nat} (alike : ∀ k < i, contentKey id shared k blockSize =
      contentKey id' shared' k blockSize) :
    chainParent id shared blockSize i = chainParent id' shared' blockSize i := by
  induction i with
  | zero => rfl
  | succ i ih =>
      rw [chainParent, chainParent, ih fun k before => alike k (Nat.lt_succ_of_lt before),
        alike i (Nat.lt_succ_self i)]

theorem place_of_blockName_eq {i j n n' : Nat} (inside : i < n) (inside' : j < n')
    (apart : Uncollided (chainInputs id shared blockSize n ++ chainInputs id' shared' blockSize n'))
    (same : blockName id shared blockSize i = blockName id' shared' blockSize j) :
    i = j ∧ ∀ k ≤ i, contentKey id shared k blockSize = contentKey id' shared' k blockSize := by
  induction i generalizing j with
  | zero =>
      obtain ⟨parents, keys⟩ := Prod.mk.inj (apart _
        (List.mem_append_left _ (chainInput_mem inside)) _
        (List.mem_append_right _ (chainInput_mem inside')) same)
      cases j with
      | zero => exact ⟨rfl, fun k first => Nat.le_zero.mp first ▸ keys⟩
      | succ j => cases parents
  | succ i ih =>
      obtain ⟨parents, keys⟩ := Prod.mk.inj (apart _
        (List.mem_append_left _ (chainInput_mem inside)) _
        (List.mem_append_right _ (chainInput_mem inside')) same)
      cases j with
      | zero => cases parents
      | succ j =>
          obtain ⟨rfl, before⟩ := ih (Nat.lt_of_succ_lt inside) (Nat.lt_of_succ_lt inside')
            (Option.some.inj parents)
          refine ⟨rfl, fun k upTo => ?_⟩
          rcases Nat.lt_or_eq_of_le upTo with lt | rfl
          · exact before k (Nat.le_of_lt_succ lt)
          · exact keys

theorem blockName_eq_iff {i j n n' : Nat} (inside : i < n) (inside' : j < n')
    (apart : Uncollided
      (chainInputs id shared blockSize n ++ chainInputs id' shared' blockSize n')) :
    blockName id shared blockSize i = blockName id' shared' blockSize j ↔
      i = j ∧ ∀ k ≤ i, contentKey id shared k blockSize = contentKey id' shared' k blockSize := by
  constructor
  · exact place_of_blockName_eq inside inside' apart
  · rintro ⟨rfl, alike⟩
    rw [blockName, blockName, chainParent_congr fun k before => alike k (Nat.le_of_lt before),
      alike i (Nat.le_refl i)]

end

theorem toNat_privateOwner (n : Nat) : (UInt64.ofNat n &&& ~~~groupBit).toNat = n % 2 ^ 63 := by
  have mask : (~~~groupBit).toNat = 2 ^ 63 - 1 := by decide
  rw [UInt64.toNat_and, mask, Nat.and_two_pow_sub_one_eq_mod, UInt64.toNat_ofNat']
  omega

theorem toNat_groupOwner (n : Nat) :
    (UInt64.ofNat n ||| groupBit).toNat = n % 2 ^ 63 + 2 ^ 63 := by
  have bit : groupBit.toNat = 2 ^ 63 := by decide
  have low : n % 2 ^ 64 ||| 2 ^ 63 = n % 2 ^ 63 ||| 2 ^ 63 * 1 := by
    apply Nat.eq_of_testBit_eq
    intro i
    simp only [Nat.testBit_or, Nat.testBit_mod_two_pow, Nat.testBit_two_pow, Nat.mul_one]
    by_cases high : i = 63
    · simp [high]
    · have narrow : decide (i < 64) = decide (i < 63) := by simp; omega
      rw [narrow]
  rw [UInt64.toNat_or, bit, UInt64.toNat_ofNat', low, Nat.or_comm,
    ← Nat.two_pow_add_eq_or_of_lt (Nat.mod_lt _ (by decide))]
  omega

section
variable {id id' : Nat} {shared shared' : Option SharedPrefix} {blockSize i : Nat}

theorem toNat_owner_of_covered {p : SharedPrefix} (covered : (i + 1) * blockSize ≤ p.tokens) :
    (contentKey id (some p) i blockSize).owner.toNat = p.group % 2 ^ 63 + 2 ^ 63 := by
  rw [contentKey, if_pos covered, toNat_groupOwner]

theorem toNat_owner_of_private (beyond : ∀ p ∈ shared, ¬ (i + 1) * blockSize ≤ p.tokens) :
    (contentKey id shared i blockSize).owner.toNat = id % 2 ^ 63 := by
  cases shared with
  | none => exact toNat_privateOwner id
  | some p => rw [contentKey, if_neg (beyond p rfl), toNat_privateOwner]

theorem covered_or_private (shared : Option SharedPrefix) (i blockSize : Nat) :
    (∃ p, shared = some p ∧ (i + 1) * blockSize ≤ p.tokens) ∨
      ∀ p ∈ shared, ¬ (i + 1) * blockSize ≤ p.tokens := by
  cases shared with
  | none => exact .inr fun p hp => by cases hp
  | some p =>
      rcases Nat.lt_or_ge p.tokens ((i + 1) * blockSize) with beyond | covered
      · exact .inr fun q hq => Option.some.inj hq ▸ Nat.not_le_of_lt beyond
      · exact .inl ⟨p, rfl, covered⟩

theorem contentKey_eq_of_owner (same : (contentKey id shared i blockSize).owner =
      (contentKey id' shared' i blockSize).owner) :
    contentKey id shared i blockSize = contentKey id' shared' i blockSize := by
  have index : ∀ id shared, (contentKey id shared i blockSize).index = UInt64.ofNat i := by
    intro id shared
    unfold contentKey
    split
    · split <;> rfl
    · rfl
  rw [ContentKey.mk.injEq, index, index]
  exact ⟨same, rfl⟩

theorem contentKey_eq_iff (others : id % 2 ^ 63 ≠ id' % 2 ^ 63) :
    contentKey id shared i blockSize = contentKey id' shared' i blockSize ↔
      ∃ p p', shared = some p ∧ shared' = some p' ∧ p.group % 2 ^ 63 = p'.group % 2 ^ 63 ∧
        (i + 1) * blockSize ≤ min p.tokens p'.tokens := by
  constructor
  · intro same
    have owners := congrArg (fun key => key.owner.toNat) same
    rcases covered_or_private shared i blockSize with ⟨p, rfl, covered⟩ | beyond <;>
      rcases covered_or_private shared' i blockSize with ⟨p', rfl, covered'⟩ | beyond'
    · rw [toNat_owner_of_covered covered, toNat_owner_of_covered covered'] at owners
      exact ⟨p, p', rfl, rfl, Nat.add_right_cancel owners, Nat.le_min.mpr ⟨covered, covered'⟩⟩
    · rw [toNat_owner_of_covered covered, toNat_owner_of_private beyond'] at owners
      omega
    · rw [toNat_owner_of_private beyond, toNat_owner_of_covered covered'] at owners
      omega
    · rw [toNat_owner_of_private beyond, toNat_owner_of_private beyond'] at owners
      exact absurd owners others
  · rintro ⟨p, p', rfl, rfl, groups, covered⟩
    obtain ⟨covered, covered'⟩ := Nat.le_min.mp covered
    refine contentKey_eq_of_owner (UInt64.toNat_inj.mp ?_)
    rw [toNat_owner_of_covered covered, toNat_owner_of_covered covered', groups]

/-- Two requests have the same hash at the places that lie wholly inside a prefix that both
of them share, and at no others. Requests and groups are told apart below the highest bit. -/
theorem shared_hashes_iff {n n' j : Nat} (others : id % 2 ^ 63 ≠ id' % 2 ^ 63)
    (apart : Uncollided (chainInputs id shared blockSize n ++ chainInputs id' shared' blockSize n'))
    (inside : i < n) (inside' : j < n') :
    (blockHashes id shared n blockSize)[i]? = (blockHashes id' shared' n' blockSize)[j]? ↔
      i = j ∧ ∃ p p', shared = some p ∧ shared' = some p' ∧
        p.group % 2 ^ 63 = p'.group % 2 ^ 63 ∧ (i + 1) * blockSize ≤ min p.tokens p'.tokens := by
  rw [getElem?_blockHashes_of_lt inside, getElem?_blockHashes_of_lt inside', Option.some_inj,
    blockName_eq_iff inside inside' apart]
  refine and_congr_right fun _ => ⟨fun alike => (contentKey_eq_iff others).mp
    (alike i (Nat.le_refl i)), ?_⟩
  rintro ⟨p, p', hp, hp', groups, covered⟩ k upTo
  have before : (k + 1) * blockSize ≤ (i + 1) * blockSize :=
    Nat.mul_le_mul_right blockSize (Nat.succ_le_succ upTo)
  exact (contentKey_eq_iff others).mpr
    ⟨p, p', hp, hp', groups, Nat.le_trans before covered⟩

/-- Two requests of one group, whose prefixes cover two blocks and half of a third one. -/
theorem second_blocks_shared :
    1 % 2 ^ 63 ≠ 2 % 2 ^ 63 ∧
    Uncollided (chainInputs 1 (some ⟨7, 32⟩) 16 3 ++ chainInputs 2 (some ⟨7, 40⟩) 16 3) ∧ 1 < 3 ∧
    ((blockHashes 1 (some ⟨7, 32⟩) 3 16)[1]? = (blockHashes 2 (some ⟨7, 40⟩) 3 16)[1]? ↔
      1 = 1 ∧ ∃ p p', some (SharedPrefix.mk 7 32) = some p ∧ some (SharedPrefix.mk 7 40) = some p' ∧
        p.group % 2 ^ 63 = p'.group % 2 ^ 63 ∧ (1 + 1) * 16 ≤ min p.tokens p'.tokens) := by
  have apart : Uncollided
      (chainInputs 1 (some ⟨7, 32⟩) 16 3 ++ chainInputs 2 (some ⟨7, 40⟩) 16 3) := by
    decide +kernel
  exact ⟨by decide, apart, by decide,
    shared_hashes_iff (by decide) apart (by decide) (by decide)⟩

end

/-- Groups that differ in the highest bit alone have the same hashes. -/
example : blockHashes 1 (some { group := 7, tokens := 16 }) 1 16 =
    blockHashes 2 (some { group := 2 ^ 63 + 7, tokens := 16 }) 1 16 := by
  decide +kernel

end InferenceSim
