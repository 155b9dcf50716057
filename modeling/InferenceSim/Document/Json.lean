import InferenceSim.Document.Basic

/-! JSON text. Reading accepts exactly one value with blanks around it; a number
that is out of range, a string with half a surrogate pair, and what is nested too
deep are kept as unreadable, since a reader that skips the value does not mind.
Writing is compact or indented, and the writing of reals is a parameter. -/
namespace InferenceSim.Json

def isBlank (c : Char) : Bool := c = ' ' || c = '\n' || c = '\t' || c = '\r'

def skipBlanks (cs : List Char) : List Char := cs.dropWhile isBlank

def spanDigits (cs : List Char) : List Char × List Char :=
  (cs.takeWhile Char.isDigit, cs.dropWhile Char.isDigit)

def digitsValue (ds : List Char) : Nat := ds.foldl (fun n c => 10 * n + (c.toNat - 48)) 0

def hexValue? (c : Char) : Option Nat :=
  if '0' ≤ c ∧ c ≤ '9' then some (c.toNat - 48)
  else if 'a' ≤ c ∧ c ≤ 'f' then some (c.toNat - 87)
  else if 'A' ≤ c ∧ c ≤ 'F' then some (c.toNat - 55)
  else none

/-- The double nearest to `mantissa * 10 ^ exponent`, none when it is too large.
Exponents far outside the range are settled without the power. -/
def decimalValue? (mantissa : Nat) (exponent : Int) : Option Float :=
  if mantissa = 0 then some 0.0
  else
    let lead := exponent + Decimal.digitCount mantissa
    if 310 < lead then none
    else if lead < -400 then some 0.0
    else
      let x := OfScientific.ofScientific mantissa (decide (exponent < 0)) exponent.natAbs
      if x.isFinite then some x else none

/-- An unsigned number without a fraction or an exponent: an integer when it fits
into 64 bits, else a real. The integer -0 is the real -0. -/
def integerDocument (negative : Bool) (n : Nat) : Document :=
  if negative then
    if n = 0 then .real (-0.0)
    else if n ≤ Nat.pow 2 63 then .integer (-(n : Int))
    else match decimalValue? n 0 with
      | some x => .real (-x)
      | none => .unreadable
  else if n < Nat.pow 2 64 then .integer n
  else match decimalValue? n 0 with
    | some x => .real x
    | none => .unreadable

def realDocument (negative : Bool) (mantissa : Nat) (exponent : Int) : Document :=
  match decimalValue? mantissa exponent with
  | some x => .real (if negative then -x else x)
  | none => .unreadable

/-- The exponent part after `e`: a sign and at least one digit. -/
def readExponent (cs : List Char) : Option (Int × List Char) :=
  let (negative, cs) := match cs with
    | '+' :: rest => (false, rest)
    | '-' :: rest => (true, rest)
    | _ => (false, cs)
  match spanDigits cs with
  | ([], _) => none
  | (ds, rest) =>
    let n := digitsValue ds
    some (if negative then -(n : Int) else n, rest)

/-- A number without its sign. -/
def readMagnitude (negative : Bool) (cs : List Char) : Option (Document × List Char) :=
  match spanDigits cs with
  | ([], _) => none
  | ('0' :: _ :: _, _) => none
  | (whole, '.' :: rest) =>
    match spanDigits rest with
    | ([], _) => none
    | (frac, rest) =>
      let mantissa := digitsValue (whole ++ frac)
      match rest with
      | 'e' :: rest | 'E' :: rest => do
        let (e, rest) ← readExponent rest
        return (realDocument negative mantissa (e - frac.length), rest)
      | _ => some (realDocument negative mantissa (-(frac.length : Int)), rest)
  | (whole, 'e' :: rest) | (whole, 'E' :: rest) => do
    let (e, rest) ← readExponent rest
    return (realDocument negative (digitsValue whole) e, rest)
  | (whole, rest) => some (integerDocument negative (digitsValue whole), rest)

/-- A piece of a string: a character, a character by an escape, or the code unit of an
escape `\uXXXX`. -/
inductive Piece where
  | char (c : Char)
  | escape (c : Char)
  | unit (n : Nat)

def Piece.isChar : Piece → Bool
  | .char _ => true
  | _ => false

/-- The pieces of a string up to its closing quote. -/
def readPieces : List Char → Option (List Piece × List Char)
  | [] => none
  | '"' :: rest => some ([], rest)
  | '\\' :: c :: rest =>
    let stand (c : Char) : Option (List Piece × List Char) :=
      (readPieces rest).map fun (ps, rest) => (.escape c :: ps, rest)
    match c with
    | '"' => stand '"'
    | '\\' => stand '\\'
    | '/' => stand '/'
    | 'b' => stand '\x08'
    | 'f' => stand '\x0c'
    | 'n' => stand '\n'
    | 'r' => stand '\r'
    | 't' => stand '\t'
    | 'u' =>
      match rest with
      | a :: b :: c :: d :: rest => do
        let n := (((← hexValue? a) * 16 + (← hexValue? b)) * 16 + (← hexValue? c)) * 16 +
          (← hexValue? d)
        let (ps, rest) ← readPieces rest
        return (.unit n :: ps, rest)
      | _ => none
    | _ => none
  | c :: rest =>
    if c.toNat < 32 then none
    else (readPieces rest).map fun (ps, rest) => (.char c :: ps, rest)

/-- The characters of the pieces; none when a surrogate has no partner. -/
def joinPieces : List Piece → Option (List Char)
  | [] => some []
  | .char c :: rest | .escape c :: rest => (joinPieces rest).map (c :: ·)
  | .unit n :: rest =>
    if 0xD800 ≤ n ∧ n < 0xDC00 then
      match rest with
      | .unit m :: rest =>
        if 0xDC00 ≤ m ∧ m < 0xE000 then
          (joinPieces rest).map
            (Char.ofNat (0x10000 + (n - 0xD800) * 0x400 + (m - 0xDC00)) :: ·)
        else none
      | _ => none
    else if 0xDC00 ≤ n ∧ n < 0xE000 then none
    else (joinPieces rest).map (Char.ofNat n :: ·)

/-- The string of the pieces. -/
def textOfPieces (ps : List Piece) : Document :=
  match joinPieces ps with
  | some cs => .text (String.ofList cs)
  | none => .unreadable

/-- The table of members whose names are still in pieces. -/
def tableOfPieces (ms : List (List Piece × Document)) : Document :=
  let named (m : List Piece × Document) : Option (String × Document) :=
    (joinPieces m.1).map fun cs => (String.ofList cs, m.2)
  match ms.mapM named with
  | some named => .record (if ms.all fun m => m.1.all Piece.isChar then .plain else .escaped) named
  | none => .unreadable

def dropWord? (word : List Char) (cs : List Char) : Option (List Char) :=
  if word.isPrefixOf cs then some (cs.drop word.length) else none

/-- How deep lists and tables may be nested. -/
def maxDepth : Nat := 127

def nested (depth : Nat) (d : Document) : Document := if depth = 0 then .unreadable else d

mutual
/-- One value, in which there may be `depth` levels of nesting; the text left of it is not
blank. Every nested call has read at least one character, so the length of the text is
enough fuel. -/
def readValue : (fuel depth : Nat) → List Char → Option (Document × List Char)
  | 0, _, _ => none
  | fuel + 1, depth, cs =>
    match cs with
    | [] => none
    | '"' :: rest => (readPieces rest).map fun (ps, rest) => (textOfPieces ps, rest)
    | '[' :: rest =>
      match skipBlanks rest with
      | ']' :: rest => some (nested depth (.list []), rest)
      | rest => (readItems fuel (depth - 1) rest).map fun (ds, rest) =>
        (nested depth (.list ds), rest)
    | '\x7b' :: rest =>
      match skipBlanks rest with
      | '\x7d' :: rest => some (nested depth (.table []), rest)
      | rest => (readMembers fuel (depth - 1) rest).map fun (ms, rest) =>
        (nested depth (tableOfPieces ms), rest)
    | '-' :: rest => readMagnitude true rest
    | 'n' :: _ => (dropWord? "null".toList cs).map (.null, ·)
    | 't' :: _ => (dropWord? "true".toList cs).map (.bool true, ·)
    | 'f' :: _ => (dropWord? "false".toList cs).map (.bool false, ·)
    | _ => readMagnitude false cs

/-- The items of a list from the first one on, up to the closing bracket. -/
def readItems : (fuel depth : Nat) → List Char → Option (List Document × List Char)
  | 0, _, _ => none
  | fuel + 1, depth, cs => do
    let (d, rest) ← readValue fuel depth cs
    match skipBlanks rest with
    | ',' :: rest =>
      let (ds, rest) ← readItems fuel depth (skipBlanks rest)
      return (d :: ds, rest)
    | ']' :: rest => return ([d], rest)
    | _ => none

/-- The members of a table from the first one on, up to the closing brace. -/
def readMembers : (fuel depth : Nat) → List Char →
    Option (List (List Piece × Document) × List Char)
  | 0, _, _ => none
  | fuel + 1, depth, cs => do
    let '"' :: rest := cs | none
    let (name, rest) ← readPieces rest
    let ':' :: rest := skipBlanks rest | none
    let (d, rest) ← readValue fuel depth (skipBlanks rest)
    match skipBlanks rest with
    | ',' :: rest =>
      let (ms, rest) ← readMembers fuel depth (skipBlanks rest)
      return ((name, d) :: ms, rest)
    | '\x7d' :: rest => return ([(name, d)], rest)
    | _ => none
end

/-- The value that a text holds, with nothing but blanks around it. -/
def parse? (s : String) : Option Document := do
  let cs := s.toList
  let (d, rest) ← readValue (2 * cs.length + 2) maxDepth (skipBlanks cs)
  if (skipBlanks rest).isEmpty then return d else none

def hexDigit (n : Nat) : Char := (Nat.toDigits 16 n).headD '0'

/-- A character inside a string: only the quote, the backslash and control
characters are escaped. -/
def escape (c : Char) : List Char :=
  if c = '"' then ['\\', '"']
  else if c = '\\' then ['\\', '\\']
  else if c = '\n' then ['\\', 'n']
  else if c = '\r' then ['\\', 'r']
  else if c = '\t' then ['\\', 't']
  else if c = '\x08' then ['\\', 'b']
  else if c = '\x0c' then ['\\', 'f']
  else if c.toNat < 32 then
    ['\\', 'u', '0', '0', hexDigit (c.toNat / 16), hexDigit (c.toNat % 16)]
  else [c]

def quote (s : String) : List Char := '"' :: (s.toList.flatMap escape ++ ['"'])

mutual
/-- Compact text, with a given writing of reals. -/
def write (real : Float → String) : Document → List Char
  | .null => "null".toList
  | .bool b => (if b then "true" else "false").toList
  | .integer n => (toString n).toList
  | .real x => (real x).toList
  | .text s => quote s
  | .sequence _ [] => ['[', ']']
  | .sequence _ (d :: ds) => '[' :: (write real d ++ writeItems real ds)
  | .record _ [] => ['\x7b', '\x7d']
  | .record _ ((k, d) :: ms) => '\x7b' :: (quote k ++ ':' :: (write real d ++ writeMembers real ms))
  | .moment => "null".toList
  | .unreadable => "null".toList

def writeItems (real : Float → String) : List Document → List Char
  | [] => [']']
  | d :: ds => ',' :: (write real d ++ writeItems real ds)

def writeMembers (real : Float → String) : List (String × Document) → List Char
  | [] => ['\x7d']
  | (k, d) :: ms => ',' :: (quote k ++ ':' :: (write real d ++ writeMembers real ms))
end

def compact (d : Document) : String := String.ofList (write Decimal.json d)

def newLine (depth : Nat) : List Char := '\n' :: List.replicate (2 * depth) ' '

mutual
/-- Text with a line per item and two blanks per level. -/
def prettyAt (depth : Nat) : Document → List Char
  | .sequence _ [] => ['[', ']']
  | .sequence _ (d :: ds) =>
    '[' :: (newLine (depth + 1) ++ (prettyAt (depth + 1) d ++ prettyItems depth ds))
  | .record _ [] => ['\x7b', '\x7d']
  | .record _ ((k, d) :: ms) =>
    '\x7b' :: (newLine (depth + 1) ++ (quote k ++ ':' :: ' ' ::
      (prettyAt (depth + 1) d ++ prettyMembers depth ms)))
  | d => write Decimal.json d

def prettyItems (depth : Nat) : List Document → List Char
  | [] => newLine depth ++ [']']
  | d :: ds => ',' :: (newLine (depth + 1) ++ (prettyAt (depth + 1) d ++ prettyItems depth ds))

def prettyMembers (depth : Nat) : List (String × Document) → List Char
  | [] => newLine depth ++ ['\x7d']
  | (k, d) :: ms =>
    ',' :: (newLine (depth + 1) ++ (quote k ++ ':' :: ' ' ::
      (prettyAt (depth + 1) d ++ prettyMembers depth ms)))
end

def pretty (d : Document) : String := String.ofList (prettyAt 0 d)

end InferenceSim.Json
