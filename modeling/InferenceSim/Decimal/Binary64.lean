/-! What a double is: its class, its exact value as an integer times a power of
two, and its place in the total order of all bit patterns. -/
namespace InferenceSim

/-- The number a double stands for. A finite one is `mantissa * 2 ^ exponent`,
with the sign kept apart so that the two zeros differ. -/
inductive Binary64 where
  | nan
  | infinite (negative : Bool)
  | finite (negative : Bool) (mantissa : Nat) (exponent : Int)
  deriving DecidableEq, Repr

namespace Binary64

def ofFloat (x : Float) : Binary64 :=
  let bits := x.toBits.toNat
  let negative := Nat.pow 2 63 ≤ bits
  let biased : Nat := bits / Nat.pow 2 52 % Nat.pow 2 11
  let fraction : Nat := bits % Nat.pow 2 52
  if biased = 2047 then
    if fraction = 0 then .infinite negative else .nan
  else if biased = 0 then .finite negative fraction (-1074)
  else .finite negative (Nat.pow 2 52 + fraction) ((biased : Int) - 1075)

/-- The place of a double in the total order of bit patterns: those with the sign bit below the
others, -0 below +0, and NaNs beyond the infinities of their signs, the greater payload farther. -/
def orderKey (bits : UInt64) : Int :=
  if Nat.pow 2 63 ≤ bits.toNat then -((bits.toNat - Nat.pow 2 63 : Nat) : Int) - 1 else bits.toNat

/-- Comparison in the total order of doubles, by their bits. -/
def totalOrder (x y : UInt64) : Ordering := compare (orderKey x) (orderKey y)

def ofCount (n : Nat) : Float := (UInt64.ofNat n).toFloat

/-- A count from a double: cut toward zero, with NaN and negative values at zero
and what is too large at the largest 64-bit count. -/
def toCount (x : Float) : Nat := x.toUInt64.toNat

/-- The lesser of two doubles; of a NaN and a number, the number. -/
def lesser (x y : Float) : Float := if x.isNaN then y else if y < x then y else x

/-- The greater of two doubles; of a NaN and a number, the number. -/
def greater (x y : Float) : Float := if x.isNaN then y else if x < y then y else x

def clamp (low high x : Float) : Float := if x < low then low else if high < x then high else x

/-- The sum from the left. The empty sum is -0, which changes no other sum. -/
def sum (xs : List Float) : Float := xs.foldl (· + ·) (-0.0)

end Binary64

end InferenceSim
