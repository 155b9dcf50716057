import InferenceSim.Document.Json

/-! Reading numbers from settings given as plain words. -/
namespace InferenceSim.Decimal

/-- A real: an optional sign, then digits with an optional point and exponent, or a
name of infinity or NaN in letters of either case. What is too large is infinite. -/
def parseReal? (cs : List Char) : Option Float := do
  let (negative, cs) := match cs with
    | '+' :: rest => (false, rest)
    | '-' :: rest => (true, rest)
    | _ => (false, cs)
  let signed (x : Float) : Float := if negative then -x else x
  let word := String.ofList (cs.map Char.toLower)
  if word = "inf" ∨ word = "infinity" then return signed (1.0 / 0.0)
  else if word = "nan" then return 0.0 / 0.0
  else
    let (whole, rest) := Json.spanDigits cs
    let (frac, rest) := match rest with
      | '.' :: rest => Json.spanDigits rest
      | _ => ([], rest)
    if whole.isEmpty ∧ frac.isEmpty then none
    else
      let (exponent, rest) ← match rest with
        | 'e' :: rest | 'E' :: rest => Json.readExponent rest
        | _ => some (0, rest)
      if rest.isEmpty then
        let mantissa := Json.digitsValue (whole ++ frac)
        return signed ((Json.decimalValue? mantissa (exponent - frac.length)).getD (1.0 / 0.0))
      else none

/-- A count below `2 ^ bits`: an optional plus sign, then digits. -/
def parseCount? (bits : Nat) (cs : List Char) : Option Nat :=
  let ds := match cs with
    | '+' :: rest => rest
    | _ => cs
  if ds.isEmpty ∨ !ds.all Char.isDigit then none
  else
    let n := Json.digitsValue ds
    if n < Nat.pow 2 bits then some n else none

end InferenceSim.Decimal
