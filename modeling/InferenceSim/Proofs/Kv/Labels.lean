import InferenceSim.Proofs.Kv.Ownership

/-! The hashes that the blocks of a request should carry. The hash at a place does not depend
on how many blocks are named, so it stays right while a holding grows behind it. -/
namespace InferenceSim

section
variable (id : Nat) (shared : Option SharedPrefix) (blockSize : Nat)

theorem getElem?_chainFrom {count more i : Nat} (index : Nat) (parent : Option BlockHash)
    (inside : i < count) :
    (chainFrom id shared blockSize (count + more) index parent)[i]? =
      (chainFrom id shared blockSize count index parent)[i]? := by
  induction count generalizing i index parent with
  | zero => exact absurd inside (Nat.not_lt_zero i)
  | succ count ih =>
      rw [Nat.add_right_comm, chainFrom, chainFrom]
      cases i with
      | zero => rfl
      | succ i =>
          rw [List.getElem?_cons_succ, List.getElem?_cons_succ]
          exact ih (index + 1) _ (Nat.lt_of_succ_lt_succ inside)

theorem getElem?_blockHashes {n m i : Nat} (first : i < n) (second : i < m) :
    (blockHashes id shared n blockSize)[i]? = (blockHashes id shared m blockSize)[i]? := by
  rcases Nat.le_total n m with le | le
  · obtain ⟨more, rfl⟩ := Nat.exists_eq_add_of_le le
    exact (getElem?_chainFrom id shared blockSize 0 none first).symm
  · obtain ⟨more, rfl⟩ := Nat.exists_eq_add_of_le le
    exact getElem?_chainFrom id shared blockSize 0 none second

/-- The hash of the block of a request at a place, among however many blocks. -/
def Names (place : Nat) (a : BlockHash) : Prop :=
  ∀ count, place < count → (blockHashes id shared count blockSize)[place]? = some a

variable {id shared blockSize}

theorem names_of_getElem? {count place : Nat} {a : BlockHash}
    (here : (blockHashes id shared count blockSize)[place]? = some a) :
    Names id shared blockSize place a := by
  intro other inside
  have inside' : place < count := by
    rw [← length_blockHashes id shared count blockSize]
    exact (List.getElem?_eq_some_iff.mp here).1
  rw [getElem?_blockHashes id shared blockSize inside inside', here]

end

namespace KvCache

/-- Whatever hash a block carries is the right one for its place in the list. -/
def Labelled (c : KvCache) (id : Nat) (shared : Option SharedPrefix) (blocks : List Nat) : Prop :=
  ∀ (i j : Nat) (a : BlockHash), blocks[i]? = some j → c.hashAt j = some a →
    Names id shared c.blockSize i a

variable {c d : KvCache} {id : Nat} {shared : Option SharedPrefix} {blocks more : List Nat}

theorem Labelled.congr (k : c.Labelled id shared blocks) (blockSize : d.blockSize = c.blockSize)
    (hashAt : ∀ j ∈ blocks, d.hashAt j = c.hashAt j) : d.Labelled id shared blocks := by
  intro i j a place hash
  rw [blockSize]
  exact k i j a place (hashAt j (List.mem_of_getElem? place) ▸ hash)

theorem Labelled.append (k : c.Labelled id shared blocks)
    (behind : ∀ (i j : Nat) (a : BlockHash), more[i]? = some j → c.hashAt j = some a →
      Names id shared c.blockSize (blocks.length + i) a) :
    c.Labelled id shared (blocks ++ more) := by
  intro i j a place hash
  rcases Nat.lt_or_ge i blocks.length with inside | beyond
  · rw [List.getElem?_append_left inside] at place
    exact k i j a place hash
  · rw [List.getElem?_append_right beyond] at place
    have named := behind _ j a place hash
    rwa [Nat.add_sub_cancel' beyond] at named

def tag (c : KvCache) : MatchedBlock → Option BlockHash
  | .device id => c.hashAt id
  | .offloaded a => some a

theorem tag_congr {m : MatchedBlock} (same : ∀ id, m = .device id → d.hashAt id = c.hashAt id) :
    d.tag m = c.tag m := by
  cases m with
  | device id => exact same id rfl
  | offloaded a => rfl

theorem tag_matchHashes {loose : List Nat} (k : c.Consistent loose) {hashes : List BlockHash}
    {i : Nat} {m : MatchedBlock} (here : (c.matchHashes hashes)[i]? = some m) :
    ∃ a, hashes[i]? = some a ∧ c.tag m = some a := by
  induction hashes generalizing i with
  | nil => cases here
  | cons a rest ih =>
      unfold matchHashes at here
      split at here
      · next j found =>
        cases i with
        | zero =>
            obtain rfl := Option.some.inj here
            obtain ⟨b, hb, hash⟩ := (k.index_iff a j).mp found
            exact ⟨a, rfl, (hashAt_of_block hb).trans hash⟩
        | succ i => exact ih here
      · split at here
        · cases i with
          | zero =>
              obtain rfl := Option.some.inj here
              exact ⟨a, rfl, rfl⟩
          | succ i => exact ih here
        · cases here

end KvCache

theorem length_matchHashes (c : KvCache) (hashes : List BlockHash) :
    (c.matchHashes hashes).length ≤ hashes.length := by
  induction hashes with
  | nil => exact Nat.le_refl 0
  | cons x rest ih =>
      unfold KvCache.matchHashes
      split
      · exact Nat.succ_le_succ ih
      · split
        · exact Nat.succ_le_succ ih
        · exact Nat.zero_le _

/-- At least one token of a prompt is left to compute. -/
theorem lookup_cached (c : KvCache) (r : Request) :
    (c.lookup r).blocks.length * c.blockSize ≤ r.inputTokens - 1 := by
  rw [KvCache.lookup]
  refine Nat.le_trans (Nat.mul_le_mul_right _ (length_matchHashes c _)) ?_
  rw [List.length_take]
  refine Nat.le_trans (Nat.mul_le_mul_right _ (Nat.min_le_left _ _)) ?_
  exact Nat.div_mul_le_self _ _

end InferenceSim
