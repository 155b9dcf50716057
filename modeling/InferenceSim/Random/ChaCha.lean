/-! The ChaCha block function with eight rounds, as a source of 32-bit words.
A key and a block counter give sixteen words; the words of block 0, block 1, …
in a row are the word stream of the key. -/
namespace InferenceSim.Random

abbrev Key := Vector UInt32 8

abbrev Block := Vector UInt32 16

def rotateLeft32 (x k : UInt32) : UInt32 := (x <<< k) ||| (x >>> (32 - k))

def rotateRight32 (x k : UInt32) : UInt32 := (x >>> k) ||| (x <<< ((32 - k) % 32))

/-- One quarter round on four words of the block. -/
def Block.quarterRound (s : Block) (a b c d : Fin 16) : Block :=
  let xa := s[a] + s[b]
  let xd := rotateLeft32 (s[d] ^^^ xa) 16
  let xc := s[c] + xd
  let xb := rotateLeft32 (s[b] ^^^ xc) 12
  let ya := xa + xb
  let yd := rotateLeft32 (xd ^^^ ya) 8
  let yc := xc + yd
  let yb := rotateLeft32 (xb ^^^ yc) 7
  (((s.set a ya).set b yb).set c yc).set d yd

/-- A column round and a diagonal round. -/
def Block.doubleRound (s : Block) : Block :=
  let s := s.quarterRound 0 4 8 12
  let s := s.quarterRound 1 5 9 13
  let s := s.quarterRound 2 6 10 14
  let s := s.quarterRound 3 7 11 15
  let s := s.quarterRound 0 5 10 15
  let s := s.quarterRound 1 6 11 12
  let s := s.quarterRound 2 7 8 13
  s.quarterRound 3 4 9 14

def Block.constants : Vector UInt32 4 := #v[0x61707865, 0x3320646e, 0x79622d32, 0x6b206574]

/-- The constants, the key, the block counter in words 12 and 13, and a zero nonce. -/
def Block.start (key : Key) (counter : UInt64) : Block :=
  let position : Vector UInt32 4 := #v[counter.toUInt32, (counter >>> 32).toUInt32, 0, 0]
  Block.constants ++ key ++ position

/-- The sixteen words of one block of the key's stream. -/
def Block.words (key : Key) (counter : UInt64) : List UInt32 :=
  let start := Block.start key counter
  let mixed := start.doubleRound.doubleRound.doubleRound.doubleRound
  (Vector.zipWith (· + ·) mixed start).toList

def seedStep (state : UInt64) : UInt64 :=
  state * 6364136223846793005 + 11634580027462260723

/-- The word that a state of the small generator shows: its high bits, turned
right by its top five bits. -/
def seedWord (state : UInt64) : UInt32 :=
  rotateRight32 (((state >>> 18) ^^^ state) >>> 27).toUInt32 (state >>> 59).toUInt32

/-- A key spread from a 64-bit seed: eight words of the small generator. -/
def Key.ofSeed (seed : UInt64) : Key :=
  let s0 := seedStep seed
  let s1 := seedStep s0
  let s2 := seedStep s1
  let s3 := seedStep s2
  let s4 := seedStep s3
  let s5 := seedStep s4
  let s6 := seedStep s5
  let s7 := seedStep s6
  #v[seedWord s0, seedWord s1, seedWord s2, seedWord s3,
    seedWord s4, seedWord s5, seedWord s6, seedWord s7]

end InferenceSim.Random
