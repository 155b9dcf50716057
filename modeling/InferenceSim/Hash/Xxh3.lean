/-! The 64-bit XXH3 digest of a byte string under a seed. Inputs are read as
little-endian words, mixed with a fixed secret through products folded to one
word, and finished by an avalanche. Short, middle and long inputs take the
different routes that the XXH3 definition lays down. -/
namespace InferenceSim.Hash

/-- The default secret: 192 bytes, from which each route takes its keys. -/
def secret : ByteArray := ⟨#[
  0xb8, 0xfe, 0x6c, 0x39, 0x23, 0xa4, 0x4b, 0xbe, 0x7c, 0x01, 0x81, 0x2c, 0xf7, 0x21, 0xad, 0x1c,
  0xde, 0xd4, 0x6d, 0xe9, 0x83, 0x90, 0x97, 0xdb, 0x72, 0x40, 0xa4, 0xa4, 0xb7, 0xb3, 0x67, 0x1f,
  0xcb, 0x79, 0xe6, 0x4e, 0xcc, 0xc0, 0xe5, 0x78, 0x82, 0x5a, 0xd0, 0x7d, 0xcc, 0xff, 0x72, 0x21,
  0xb8, 0x08, 0x46, 0x74, 0xf7, 0x43, 0x24, 0x8e, 0xe0, 0x35, 0x90, 0xe6, 0x81, 0x3a, 0x26, 0x4c,
  0x3c, 0x28, 0x52, 0xbb, 0x91, 0xc3, 0x00, 0xcb, 0x88, 0xd0, 0x65, 0x8b, 0x1b, 0x53, 0x2e, 0xa3,
  0x71, 0x64, 0x48, 0x97, 0xa2, 0x0d, 0xf9, 0x4e, 0x38, 0x19, 0xef, 0x46, 0xa9, 0xde, 0xac, 0xd8,
  0xa8, 0xfa, 0x76, 0x3f, 0xe3, 0x9c, 0x34, 0x3f, 0xf9, 0xdc, 0xbb, 0xc7, 0xc7, 0x0b, 0x4f, 0x1d,
  0x8a, 0x51, 0xe0, 0x4b, 0xcd, 0xb4, 0x59, 0x31, 0xc8, 0x9f, 0x7e, 0xc9, 0xd9, 0x78, 0x73, 0x64,
  0xea, 0xc5, 0xac, 0x83, 0x34, 0xd3, 0xeb, 0xc3, 0xc5, 0x81, 0xa0, 0xff, 0xfa, 0x13, 0x63, 0xeb,
  0x17, 0x0d, 0xdd, 0x51, 0xb7, 0xf0, 0xda, 0x49, 0xd3, 0x16, 0x55, 0x26, 0x29, 0xd4, 0x68, 0x9e,
  0x2b, 0x16, 0xbe, 0x58, 0x7d, 0x47, 0xa1, 0xfc, 0x8f, 0xf8, 0xb8, 0xd1, 0x7a, 0xd0, 0x31, 0xce,
  0x45, 0xcb, 0x3a, 0x8f, 0x95, 0x16, 0x04, 0x28, 0xaf, 0xd7, 0xfb, 0xca, 0xbb, 0x4b, 0x40, 0x7e]⟩

def prime32A : UInt64 := 0x9E3779B1
def prime32B : UInt64 := 0x85EBCA77
def prime32C : UInt64 := 0xC2B2AE3D
def primeA : UInt64 := 0x9E3779B185EBCA87
def primeB : UInt64 := 0xC2B2AE3D27D4EB4F
def primeC : UInt64 := 0x165667B19E3779F9
def primeD : UInt64 := 0x85EBCA77C2B2AE63
def primeE : UInt64 := 0x27D4EB2F165667C5
def mixA : UInt64 := 0x165667919E3779F9
def mixB : UInt64 := 0x9FB21C651E98DF25

def byteAt (bytes : ByteArray) (offset : Nat) : UInt64 :=
  if h : offset < bytes.size then bytes[offset].toUInt64 else 0

def word32At (bytes : ByteArray) (offset : Nat) : UInt64 :=
  byteAt bytes offset ||| (byteAt bytes (offset + 1) <<< 8) |||
    (byteAt bytes (offset + 2) <<< 16) ||| (byteAt bytes (offset + 3) <<< 24)

def word64At (bytes : ByteArray) (offset : Nat) : UInt64 :=
  word32At bytes offset ||| (word32At bytes (offset + 4) <<< 32)

def rotateLeft (x k : UInt64) : UInt64 := (x <<< k) ||| (x >>> (64 - k))

/-- The bytes of a word in the opposite order. -/
def swapBytes (x : UInt64) : UInt64 :=
  let x := ((x &&& 0x00ff00ff00ff00ff) <<< 8) ||| ((x >>> 8) &&& 0x00ff00ff00ff00ff)
  let x := ((x &&& 0x0000ffff0000ffff) <<< 16) ||| ((x >>> 16) &&& 0x0000ffff0000ffff)
  (x <<< 32) ||| (x >>> 32)

/-- The exclusive or of the two halves of the 128-bit product. -/
def foldedProduct (a b : UInt64) : UInt64 :=
  let low : UInt64 := 0xffffffff
  let ll := (a &&& low) * (b &&& low)
  let hl := (a >>> 32) * (b &&& low)
  let lh := (a &&& low) * (b >>> 32)
  let hh := (a >>> 32) * (b >>> 32)
  let cross := (ll >>> 32) + (hl &&& low) + lh
  let upper := (hl >>> 32) + (cross >>> 32) + hh
  let lower := (cross <<< 32) ||| (ll &&& low)
  upper ^^^ lower

def avalanche (h : UInt64) : UInt64 :=
  let h := h ^^^ (h >>> 37)
  let h := h * mixA
  h ^^^ (h >>> 32)

/-- The stronger finish of inputs of at most three bytes. -/
def finalAvalanche (h : UInt64) : UInt64 :=
  let h := (h ^^^ (h >>> 33)) * primeB
  let h := (h ^^^ (h >>> 29)) * primeC
  h ^^^ (h >>> 32)

def mixPair (bytes : ByteArray) (offset : Nat) (key : Nat) (seed : UInt64) : UInt64 :=
  foldedProduct (word64At bytes offset ^^^ (word64At secret key + seed))
    (word64At bytes (offset + 8) ^^^ (word64At secret (key + 8) - seed))

def digestTo3 (bytes : ByteArray) (seed : UInt64) : UInt64 :=
  let n := bytes.size
  let combined := (byteAt bytes 0 <<< 16) ||| (byteAt bytes (n / 2) <<< 24) |||
    byteAt bytes (n - 1) ||| (UInt64.ofNat n <<< 8)
  finalAvalanche (combined ^^^ ((word32At secret 0 ^^^ word32At secret 4) + seed))

def digestTo8 (bytes : ByteArray) (seed : UInt64) : UInt64 :=
  let n := bytes.size
  let seed := seed ^^^ (swapBytes (seed &&& 0xffffffff) >>> 32 <<< 32)
  let flip := (word64At secret 8 ^^^ word64At secret 16) - seed
  let keyed := (word32At bytes (n - 4) + (word32At bytes 0 <<< 32)) ^^^ flip
  let h := (keyed ^^^ rotateLeft keyed 49 ^^^ rotateLeft keyed 24) * mixB
  let h := (h ^^^ ((h >>> 35) + UInt64.ofNat n)) * mixB
  h ^^^ (h >>> 28)

def digestTo16 (bytes : ByteArray) (seed : UInt64) : UInt64 :=
  let n := bytes.size
  let low := word64At bytes 0 ^^^ ((word64At secret 24 ^^^ word64At secret 32) + seed)
  let high := word64At bytes (n - 8) ^^^ ((word64At secret 40 ^^^ word64At secret 48) - seed)
  avalanche (UInt64.ofNat n + swapBytes low + high + foldedProduct low high)

/-- Pairs from both ends inwards, as many as the length asks for. -/
def digestTo128 (bytes : ByteArray) (seed : UInt64) : UInt64 :=
  let n := bytes.size
  let pairs := (n - 1) / 32 + 1
  let total := (List.range pairs).foldl (fun acc i =>
    acc + mixPair bytes (16 * i) (32 * i) seed +
      mixPair bytes (n - 16 * (i + 1)) (32 * i + 16) seed) (UInt64.ofNat n * primeA)
  avalanche total

def digestTo240 (bytes : ByteArray) (seed : UInt64) : UInt64 :=
  let n := bytes.size
  let first := (List.range 8).foldl (fun acc i => acc + mixPair bytes (16 * i) (16 * i) seed)
    (UInt64.ofNat n * primeA)
  let rest := (List.range (n / 16 - 8)).foldl
    (fun acc i => acc + mixPair bytes (16 * (i + 8)) (16 * i + 3) seed) (avalanche first)
  avalanche (rest + mixPair bytes (n - 16) 119 seed)

/-- The secret of a long input: the default one shifted by the seed, word by word. -/
def seededSecret (seed : UInt64) : ByteArray :=
  if seed = 0 then secret
  else
    (List.range 24).foldl (fun out i =>
      let w := word64At secret (8 * i)
      let w := if i % 2 = 0 then w + seed else w - seed
      (List.range 8).foldl (fun out j => out.push (w >>> UInt64.ofNat (8 * j)).toUInt8) out)
      ByteArray.empty

abbrev Lanes := Vector UInt64 8

def Lanes.start : Lanes :=
  #v[prime32C, primeA, primeB, primeC, primeD, prime32B, primeE, prime32A]

/-- One stripe of 64 bytes: each lane takes a product of its keyed word and the
raw word of its neighbour. -/
def Lanes.absorb (lanes : Lanes) (bytes : ByteArray) (offset : Nat) (key : ByteArray)
    (keyAt : Nat) : Lanes :=
  Vector.ofFn fun (i : Fin 8) =>
    let own := word64At bytes (offset + 8 * i) ^^^ word64At key (keyAt + 8 * i)
    let neighbour := word64At bytes (offset + 8 * (i.val ^^^ 1))
    let low : UInt64 := own &&& 0xffffffff
    lanes[i] + neighbour + low * (own >>> 32)

def Lanes.scramble (lanes : Lanes) (key : ByteArray) : Lanes :=
  Vector.ofFn fun (i : Fin 8) =>
    (lanes[i] ^^^ (lanes[i] >>> 47) ^^^ word64At key (128 + 8 * i)) * prime32A

def Lanes.merge (lanes : Lanes) (key : ByteArray) (start : UInt64) : UInt64 :=
  avalanche (start +
    foldedProduct (lanes[0] ^^^ word64At key 11) (lanes[1] ^^^ word64At key 19) +
    foldedProduct (lanes[2] ^^^ word64At key 27) (lanes[3] ^^^ word64At key 35) +
    foldedProduct (lanes[4] ^^^ word64At key 43) (lanes[5] ^^^ word64At key 51) +
    foldedProduct (lanes[6] ^^^ word64At key 59) (lanes[7] ^^^ word64At key 67))

def Lanes.stripes (lanes : Lanes) (bytes : ByteArray) (offset count : Nat) (key : ByteArray) :
    Lanes :=
  (List.range count).foldl (fun lanes i => lanes.absorb bytes (offset + 64 * i) key (8 * i)) lanes

def digestLong (bytes : ByteArray) (seed : UInt64) : UInt64 :=
  let n := bytes.size
  let key := seededSecret seed
  let blocks := (n - 1) / 1024
  let lanes := (List.range blocks).foldl
    (fun lanes b => (lanes.stripes bytes (1024 * b) 16 key).scramble key) Lanes.start
  let lanes := lanes.stripes bytes (1024 * blocks) ((n - 1 - 1024 * blocks) / 64) key
  let lanes := lanes.absorb bytes (n - 64) key 121
  lanes.merge key (UInt64.ofNat n * primeA)

/-- The digest of a byte string under a seed. -/
def digest (bytes : ByteArray) (seed : UInt64) : UInt64 :=
  let n := bytes.size
  if n = 0 then finalAvalanche (seed ^^^ (word64At secret 56 ^^^ word64At secret 64))
  else if n ≤ 3 then digestTo3 bytes seed
  else if n ≤ 8 then digestTo8 bytes seed
  else if n ≤ 16 then digestTo16 bytes seed
  else if n ≤ 128 then digestTo128 bytes seed
  else if n ≤ 240 then digestTo240 bytes seed
  else digestLong bytes seed

def pushWord (out : ByteArray) (w : UInt64) : ByteArray :=
  (List.range 8).foldl (fun out j => out.push (w >>> UInt64.ofNat (8 * j)).toUInt8) out

def digestWords (words : List UInt64) (seed : UInt64) : UInt64 :=
  digest (words.foldl pushWord ByteArray.empty) seed

end InferenceSim.Hash
