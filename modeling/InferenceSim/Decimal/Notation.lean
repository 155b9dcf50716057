import InferenceSim.Decimal.Shortest

/-! The written forms of doubles: plain positional text with the shortest digits,
JSON numbers with the shortest digits, and text with a fixed number of places. -/
namespace InferenceSim.Decimal

def zeros (n : Nat) : String := String.ofList (List.replicate n '0')

/-- How the shortest digits are set out. -/
structure Style where
  /-- Which of two equally near shortest decimals is written. -/
  tie : Tie
  /-- The exponents of the first digit that are written positionally; all if none. -/
  positional : Option (Int × Int)
  /-- Whether an integer carries `.0`. -/
  pointZero : Bool
  nan : String
  infinity : String

def Style.plain : Style :=
  { tie := .upward, positional := none, pointZero := false, nan := "NaN", infinity := "inf" }

/-- JSON numbers always carry a point or an exponent, and what is not finite is null. -/
def Style.json : Style :=
  { tie := .toEven, positional := some (-5, 15), pointZero := true, nan := "null"
    infinity := "null" }

/-- The digits `ds` times `10 ^ e` without an exponent. -/
def positional (pointZero : Bool) (ds : String) (e : Int) : String :=
  let n : Int := ds.length
  if 0 ≤ e then ds ++ zeros e.toNat ++ (if pointZero then ".0" else "")
  else if 0 < n + e then
    let whole := (n + e).toNat
    String.ofList (ds.toList.take whole) ++ "." ++ String.ofList (ds.toList.drop whole)
  else "0." ++ zeros (-(n + e)).toNat ++ ds

/-- One digit, the rest behind a point, and the signed exponent. -/
def scientific (ds : String) (lead : Int) : String :=
  let tail := ds.toList.drop 1
  let mantissa := String.ofList (ds.toList.take 1) ++
    (if tail.isEmpty then "" else "." ++ String.ofList tail)
  mantissa ++ "e" ++ (if 0 ≤ lead then "+" else "-") ++ toString lead.natAbs

/-- The shortest digits of a positive number in a style. -/
def Style.write (style : Style) (s : Scaled) : String :=
  let ds := toString s.digits
  let lead := s.exponent + ds.length - 1
  match style.positional with
  | none => Decimal.positional style.pointZero ds s.exponent
  | some (low, high) =>
    if low ≤ lead ∧ lead ≤ high then Decimal.positional style.pointZero ds s.exponent
    else scientific ds lead

def signed (negative : Bool) (s : String) : String := if negative then "-" ++ s else s

/-- A double in a style. -/
def Style.text (style : Style) (x : Float) : String :=
  match Binary64.ofFloat x with
  | .nan => style.nan
  | .infinite negative =>
    if style.infinity = style.nan then style.infinity else signed negative style.infinity
  | .finite negative 0 _ => signed negative (if style.pointZero then "0.0" else "0")
  | .finite negative mantissa exponent =>
    signed negative (style.write (shortest style.tie mantissa exponent))

def plain (x : Float) : String := Style.plain.text x

/-- A double as a JSON number: `1.0`, `1e+16`, `1e-7`; `null` when not finite. -/
def json (x : Float) : String := Style.json.text x

/-- The quotient rounded to nearest, ties to even. -/
def roundDiv (n d : Nat) : Nat :=
  let q := n / d
  match compare (2 * (n % d)) d with
  | .lt => q
  | .gt => q + 1
  | .eq => if q % 2 = 0 then q else q + 1

/-- A natural number of units of `10 ^ -places` with its point. -/
def withPlaces (places units : Nat) : String :=
  if places = 0 then toString units
  else
    let frac := toString (units % Nat.pow 10 places)
    toString (units / Nat.pow 10 places) ++ "." ++ zeros (places - frac.length) ++ frac

/-- The exact value of a double rounded to `places` places, ties to even. -/
def fixed (places : Nat) (x : Float) : String :=
  match Binary64.ofFloat x with
  | .nan => "NaN"
  | .infinite negative => signed negative "inf"
  | .finite negative mantissa exponent =>
    let n := mantissa * Nat.pow 2 exponent.toNat * Nat.pow 10 places
    signed negative (withPlaces places (roundDiv n (Nat.pow 2 (-exponent).toNat)))

def padLeft (width : Nat) (s : String) (fill : Char) : String :=
  String.ofList (List.replicate (width - s.length) fill) ++ s

def padRight (width : Nat) (s : String) (fill : Char) : String :=
  s ++ String.ofList (List.replicate (width - s.length) fill)

end InferenceSim.Decimal
