import InferenceSim.Decimal.Binary64

/-! The fewest decimal digits that read back as a given double, and of those the
nearest to it. A double owns the interval of reals that round to it; the ends
belong to it when its mantissa is even. Everything is exact arithmetic on
natural numbers. -/
namespace InferenceSim.Decimal

/-- A positive decimal: `digits * 10 ^ exponent`. -/
structure Scaled where
  digits : Nat
  exponent : Int
  deriving DecidableEq, Repr

/-- Which of two equally near neighbours is taken. -/
inductive Tie where
  | toEven
  | upward
  deriving DecidableEq, Repr

/-- The value and the two ends of its interval over one denominator. -/
structure Interval where
  low : Nat
  value : Nat
  high : Nat
  denominator : Nat
  closed : Bool
  deriving Repr

/-- The reals that round to `mantissa * 2 ^ exponent`. Below a power of two the
doubles lie twice as dense, so the lower half-gap is half as wide. -/
def Interval.ofBinary (mantissa : Nat) (exponent : Int) : Interval :=
  let narrow := mantissa = Nat.pow 2 52 ∧ -1074 < exponent
  let scale := Nat.pow 2 exponent.toNat
  { low := (4 * mantissa - (if narrow then 1 else 2)) * scale
    value := 4 * mantissa * scale
    high := (4 * mantissa + 2) * scale
    denominator := 4 * Nat.pow 2 (-exponent).toNat
    closed := mantissa % 2 = 0 }

/-- Whether `n / d` lies in the interval, where `d` divides by the same unit as the ends. -/
def Interval.contains (i : Interval) (n : Nat) : Bool :=
  if i.closed then i.low ≤ n && n ≤ i.high else i.low < n && n < i.high

/-- The interval measured in units of `10 ^ place`. -/
def Interval.inUnits (i : Interval) (place : Int) : Interval :=
  let up := Nat.pow 10 (-place).toNat
  { i with
    low := i.low * up
    value := i.value * up
    high := i.high * up
    denominator := i.denominator * Nat.pow 10 place.toNat }

def digitCount (n : Nat) : Nat := (Nat.toDigits 10 n).length

/-- The exponent of the first digit of `n / d` below one: the least number of
places that brings the value to one or more. -/
def leadingPlace (n d : Nat) : (fuel places : Nat) → Nat
  | 0, places => places
  | fuel + 1, places =>
    if d ≤ n * Nat.pow 10 places then places else leadingPlace n d fuel (places + 1)

def magnitude (n d : Nat) : Int :=
  if d ≤ n then (digitCount (n / d) : Int) - 1 else -(leadingPlace n d 400 1 : Int)

/-- The neighbours of the value among the multiples of the unit, the nearer first
when both lie in the interval. -/
def Interval.hit (tie : Tie) (i : Interval) : Option Nat :=
  let below := i.value / i.denominator
  let above := below + 1
  let gapBelow := i.value - below * i.denominator
  let gapAbove := above * i.denominator - i.value
  let takeBelow := match compare gapBelow gapAbove with
    | .lt => true
    | .gt => false
    | .eq => match tie with
      | .toEven => below % 2 = 0
      | .upward => false
  match i.contains (below * i.denominator), i.contains (above * i.denominator) with
  | true, true => some (if takeBelow then below else above)
  | true, false => some below
  | false, true => some above
  | false, false => none

/-- Tries one digit, two digits, … until a decimal of that length lies in the interval. -/
def shortestFrom (tie : Tie) (i : Interval) (place : Int) : Nat → Scaled
  | 0 => { digits := i.value / i.denominator, exponent := 0 }
  | fuel + 1 =>
    match (i.inUnits place).hit tie with
    | some digits => { digits, exponent := place }
    | none => shortestFrom tie i (place - 1) fuel

/-- Drops final zeros of the digits. -/
def Scaled.stripZeros (s : Scaled) : (fuel : Nat) → Scaled
  | 0 => s
  | fuel + 1 =>
    if s.digits ≠ 0 ∧ s.digits % 10 = 0 then
      Scaled.stripZeros { digits := s.digits / 10, exponent := s.exponent + 1 } fuel
    else s

/-- The shortest decimal of the positive double `mantissa * 2 ^ exponent`. Seventeen
digits always suffice. -/
def shortest (tie : Tie) (mantissa : Nat) (exponent : Int) : Scaled :=
  let i := Interval.ofBinary mantissa exponent
  let s := shortestFrom tie i (magnitude i.value i.denominator) 18
  s.stripZeros (digitCount s.digits)

end InferenceSim.Decimal
