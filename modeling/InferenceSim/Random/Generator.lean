import InferenceSim.Random.ChaCha

/-! A generator reads the word stream of its key from the front. Draws of
wider or bounded values take as many words as they need, and no draw looks at
anything but the generator. -/
namespace InferenceSim.Random

/-- A place in a word stream: the words left of the current block, and the
number of the next block. -/
structure Generator where
  key : Key
  nextBlock : UInt64
  pending : List UInt32
  deriving DecidableEq

def Generator.ofSeed (seed : UInt64) : Generator :=
  { key := Key.ofSeed seed, nextBlock := 0, pending := [] }

/-- The next word of the stream. -/
def Generator.word (g : Generator) : UInt32 × Generator :=
  match g.pending with
  | w :: rest => (w, { g with pending := rest })
  | [] =>
    match Block.words g.key g.nextBlock with
    | w :: rest => (w, { g with nextBlock := g.nextBlock + 1, pending := rest })
    | [] => (0, { g with nextBlock := g.nextBlock + 1 })

/-- Two words of the stream as one, the first in the low half. -/
def Generator.doubleWord (g : Generator) : UInt64 × Generator :=
  let (low, g) := g.word
  let (high, g) := g.word
  (low.toUInt64 ||| (high.toUInt64 <<< 32), g)

def Generator.unit (g : Generator) : Float × Generator :=
  let (w, g) := g.doubleWord
  ((w >>> 11).toFloat * Float.ofBits 0x3CA0000000000000, g)

/-- Why a bounded draw has no value. -/
inductive DrawError where
  | emptyRange
  deriving DecidableEq, Repr

/-- The largest low half of a product that keeps every value of the range equally
likely: the range shifted up to the width, less one. -/
def acceptanceZone (width range : Nat) : Nat :=
  let shifted := range * Nat.pow 2 (width - 1 - range.log2)
  shifted - 1

/-- Draws until the low half of `draw * range` falls into the zone, and takes the
high half. Each try succeeds with a chance of at least one half; after
`tries` of them the last high half is taken as it is, where rejection sampling has no such bound. -/
def drawBelow (width : Nat) (draw : Generator → Nat × Generator) (range : Nat) :
    (tries : Nat) → Generator → Nat × Generator
  | 0, g =>
    let (v, g) := draw g
    (v * range / Nat.pow 2 width, g)
  | tries + 1, g =>
    let (v, g) := draw g
    if v * range % Nat.pow 2 width ≤ acceptanceZone width range then
      (v * range / Nat.pow 2 width, g)
    else drawBelow width draw range tries g

/-- The number of refused draws after which a bounded draw stops refusing. It departs from rejection
sampling without a bound on streams alone that are refused more often in a row, of which the chance
is at most 2⁻¹⁰²⁴. -/
def maxRefusals : Nat := 1024

/-- A draw below `range` in words of `width` bits; an empty range draws nothing. -/
def Generator.below (width : Nat) (draw : Generator → Nat × Generator) (range : Nat)
    (g : Generator) : Except DrawError Nat × Generator :=
  if range = 0 then (.error .emptyRange, g)
  else
    let (v, g) := drawBelow width draw range maxRefusals g
    (.ok v, g)

def Generator.below32 (range : Nat) (g : Generator) : Except DrawError Nat × Generator :=
  Generator.below 32 (fun g => (g.word.1.toNat, g.word.2)) range g

def Generator.below64 (range : Nat) (g : Generator) : Except DrawError Nat × Generator :=
  Generator.below 64 (fun g => (g.doubleWord.1.toNat, g.doubleWord.2)) range g

end InferenceSim.Random
