import InferenceSim.Hash.Xxh3
import InferenceSim.Request.Basic

/-! Names for the content of KV blocks. The hash of a block folds in the hash of the
block before it, so equal hashes stand for equal tokens from the start of the
prompt on. Caches and the router use the same names. -/
namespace InferenceSim

abbrev BlockHash := UInt64

/-- What a block holds, apart from what stands before it. -/
structure ContentKey where
  owner : UInt64
  index : UInt64
  deriving DecidableEq, Repr

/-- The bit that keeps prefix groups apart from request ids. -/
def groupBit : UInt64 := 0x8000000000000000

/-- A block wholly inside the shared prefix belongs to the prefix group, any other
one to the request. -/
def contentKey (id : Nat) (shared : Option SharedPrefix) (index blockSize : Nat) : ContentKey :=
  let own : ContentKey :=
    { owner := UInt64.ofNat id &&& ~~~groupBit, index := UInt64.ofNat index }
  match shared with
  | some p =>
    if (index + 1) * blockSize ≤ p.tokens then
      { owner := UInt64.ofNat p.group ||| groupBit, index := UInt64.ofNat index }
    else own
  | none => own

/-- The hash of a full block from the hash of the one before it and its own content. -/
def chainHash (parent : Option BlockHash) (key : ContentKey) : BlockHash :=
  Hash.digestWords [parent.getD 0, key.owner, key.index] (if parent.isSome then 1 else 0)

/-- The hashes of `count` blocks from block `index` on. -/
def chainFrom (id : Nat) (shared : Option SharedPrefix) (blockSize : Nat) :
    (count index : Nat) → (parent : Option BlockHash) → List BlockHash
  | 0, _, _ => []
  | count + 1, index, parent =>
    let h := chainHash parent (contentKey id shared index blockSize)
    h :: chainFrom id shared blockSize count (index + 1) (some h)

def blockHashes (id : Nat) (shared : Option SharedPrefix) (count blockSize : Nat) :
    List BlockHash :=
  chainFrom id shared blockSize count 0 none

def promptBlockHashes (id : Nat) (shared : Option SharedPrefix) (inputTokens blockSize : Nat) :
    List BlockHash :=
  blockHashes id shared (inputTokens / blockSize) blockSize

theorem length_chainFrom (id : Nat) (shared : Option SharedPrefix) (blockSize count index : Nat)
    (parent : Option BlockHash) :
    (chainFrom id shared blockSize count index parent).length = count := by
  induction count generalizing index parent with
  | zero => rfl
  | succ n ih => simp [chainFrom, ih]

@[simp] theorem length_blockHashes (id : Nat) (shared : Option SharedPrefix)
    (count blockSize : Nat) : (blockHashes id shared count blockSize).length = count :=
  length_chainFrom ..

end InferenceSim
