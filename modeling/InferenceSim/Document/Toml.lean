import InferenceSim.Document.Json

/-! TOML text. A text is a list of lines: key and value pairs, and headers that
say which table the next pairs belong to. Reading refuses a key that is given
twice and a table that is defined twice or extended from the wrong side. -/
namespace InferenceSim.Toml

/-- What stands under a name while the text is read. -/
inductive Entry where
  | value (d : Document)
  /-- A table: whether it only arose on the way to another one, and whether it
  arose from a dotted key. -/
  | table (implicit dotted : Bool) (members : List (String × Entry))
  /-- The tables under one double-bracketed header, the current one last. -/
  | tables (items : List (List (String × Entry)))

abbrev Members := List (String × Entry)

mutual
def Entry.document : Entry → Document
  | .value d => d
  | .table _ _ members => .record .toml (memberDocuments members)
  | .tables items => .sequence .toml (itemDocuments items)

def memberDocuments : List (String × Entry) → List (String × Document)
  | [] => []
  | (k, e) :: rest => (k, e.document) :: memberDocuments rest

def itemDocuments : List (List (String × Entry)) → List Document
  | [] => []
  | ms :: rest => .record .toml (memberDocuments ms) :: itemDocuments rest
end

def replace (name : String) (e : Entry) : Members → Members
  | [] => []
  | (k, old) :: rest => if k = name then (k, e) :: rest else (k, old) :: replace name e rest

/-- Changes the last of a list. -/
def changeLast {α : Type} (f : α → Option α) : List α → Option (List α)
  | [] => none
  | [a] => (f a).map ([·])
  | a :: rest => (changeLast f rest).map (a :: ·)

/-- Changes the table at a path, making the tables on the way that are missing.
`f` is told whether the table it changes arose from a dotted key. A dotted key
must not enter a table that a header has defined. -/
def descend (byKey : Bool) : (path : List String) → (dotted : Bool) →
    (f : Bool → Members → Option Members) → Members → Option Members
  | [], dotted, f, members => f dotted members
  | name :: path, _, f, members =>
    match members.lookup name with
    | none => do
      let inner ← descend byKey path byKey f []
      return members ++ [(name, .table true byKey inner)]
    | some (.value _) => none
    | some (.tables items) => do
      let items ← changeLast (descend byKey path false f) items
      return replace name (.tables items) members
    | some (.table implicit dotted inner) =>
      if byKey && !implicit then none
      else do
        let inner ← descend byKey path dotted f inner
        return replace name (.table implicit dotted inner) members

/-- Adds a pair under a key: its last part in the table of its other parts. That
table has to have arisen from a dotted key exactly when there are other parts. -/
def addPair (path : List String) (name : String) (d : Document) (members : Members) :
    Option Members :=
  descend true path false (fun dotted members =>
    if dotted == path.isEmpty then none
    else if (members.lookup name).isSome then none
    else some (members ++ [(name, .value d)])) members

/-- Opens the table of a header. One that only arose on the way is defined now. -/
def openTable (path : List String) (name : String) (members : Members) : Option Members :=
  descend false path false (fun _ members =>
    match members.lookup name with
    | none => some (members ++ [(name, .table false false [])])
    | some (.table true false inner) => some (replace name (.table false false inner) members)
    | some _ => none) members

/-- Opens one more table of a double-bracketed header. -/
def openItem (path : List String) (name : String) (members : Members) : Option Members :=
  descend false path false (fun _ members =>
    match members.lookup name with
    | none => some (members ++ [(name, .tables [[]])])
    | some (.tables items) => some (replace name (.tables (items ++ [[]])) members)
    | some _ => none) members

def isBlank (c : Char) : Bool := c = ' ' || c = '\t'

def skipBlanks (cs : List Char) : List Char := cs.dropWhile isBlank

/-- A line end: a line feed, alone or after a carriage return. -/
def dropLineEnd? : List Char → Option (List Char)
  | '\n' :: rest => some rest
  | '\r' :: '\n' :: rest => some rest
  | _ => none

/-- Characters that may stand in comments and in strings without line ends. -/
def isPrintable (c : Char) : Bool := c = '\t' || (32 ≤ c.toNat && c.toNat ≠ 127)

def skipComment : List Char → List Char
  | '#' :: rest => rest.dropWhile isPrintable
  | cs => cs

/-- Blanks, comments and line ends, as allowed inside brackets. -/
def skipSpace : (fuel : Nat) → List Char → List Char
  | 0, cs => cs
  | fuel + 1, cs =>
    let cs := skipComment (skipBlanks cs)
    match dropLineEnd? cs with
    | some rest => skipSpace fuel rest
    | none => cs

/-- The rest of a line after an expression: blanks, a comment, and the line end. -/
def endLine? (cs : List Char) : Option (List Char) :=
  match skipComment (skipBlanks cs) with
  | [] => some []
  | cs => dropLineEnd? cs

def hexNumber? (ds : List Char) : Option Nat :=
  ds.foldlM (fun n c => (Json.hexValue? c).map (16 * n + ·)) 0

/-- A character by its number, unless that is half a surrogate pair or too large. -/
def scalar? (n : Nat) : Option Char :=
  if n < 0xD800 ∨ (0xE000 ≤ n ∧ n < 0x110000) then some (Char.ofNat n) else none

/-- An escape after its backslash. -/
def readEscape : List Char → Option (Char × List Char)
  | 'b' :: rest => some ('\x08', rest)
  | 't' :: rest => some ('\t', rest)
  | 'n' :: rest => some ('\n', rest)
  | 'f' :: rest => some ('\x0c', rest)
  | 'r' :: rest => some ('\r', rest)
  | '"' :: rest => some ('"', rest)
  | '\\' :: rest => some ('\\', rest)
  | 'u' :: rest =>
    if rest.length < 4 then none
    else do return (← scalar? (← hexNumber? (rest.take 4)), rest.drop 4)
  | 'U' :: rest =>
    if rest.length < 8 then none
    else do return (← scalar? (← hexNumber? (rest.take 8)), rest.drop 8)
  | _ => none

/-- A one-line string with escapes, after its opening quote. -/
def readBasic : (fuel : Nat) → List Char → Option (List Char × List Char)
  | 0, _ => none
  | fuel + 1, cs =>
    match cs with
    | '"' :: rest => some ([], rest)
    | '\\' :: rest => do
      let (c, rest) ← readEscape rest
      let (s, rest) ← readBasic fuel rest
      return (c :: s, rest)
    | c :: rest =>
      if isPrintable c then (readBasic fuel rest).map fun (s, rest) => (c :: s, rest) else none
    | [] => none

/-- A one-line string without escapes, after its opening quote. -/
def readLiteral : List Char → Option (List Char × List Char)
  | [] => none
  | '\'' :: rest => some ([], rest)
  | c :: rest =>
    if isPrintable c then (readLiteral rest).map fun (s, rest) => (c :: s, rest) else none

/-- Three quotes close a string of several lines; up to two more before them
belong to it. -/
def closeQuotes? (q : Char) (cs : List Char) : Option (List Char × List Char) :=
  let n := (cs.takeWhile (· = q)).length
  if n < 3 then none
  else
    let kept := min (n - 3) 2
    some (List.replicate kept q, cs.drop (kept + 3))

/-- Blanks and line ends. -/
def skipLines : (fuel : Nat) → List Char → List Char
  | 0, cs => cs
  | fuel + 1, cs =>
    let cs := skipBlanks cs
    match dropLineEnd? cs with
    | some rest => skipLines fuel rest
    | none => cs

/-- A string of several lines with escapes. A backslash before a line end drops
all space up to the next text. -/
def readLongBasic : (fuel : Nat) → List Char → Option (List Char × List Char)
  | 0, _ => none
  | fuel + 1, cs =>
    match cs with
    | [] => none
    | '"' :: rest =>
      match closeQuotes? '"' cs with
      | some out => some out
      | none => (readLongBasic fuel rest).map fun (s, rest) => ('"' :: s, rest)
    | '\\' :: rest =>
      match dropLineEnd? (skipBlanks rest) with
      | some rest => readLongBasic fuel (skipLines fuel rest)
      | none => do
        let (c, rest) ← readEscape rest
        let (s, rest) ← readLongBasic fuel rest
        return (c :: s, rest)
    | c :: rest =>
      match dropLineEnd? cs with
      | some rest => (readLongBasic fuel rest).map fun (s, rest) => ('\n' :: s, rest)
      | none =>
        if isPrintable c then (readLongBasic fuel rest).map fun (s, rest) => (c :: s, rest)
        else none

/-- A string of several lines without escapes. -/
def readLongLiteral : (fuel : Nat) → List Char → Option (List Char × List Char)
  | 0, _ => none
  | fuel + 1, cs =>
    match cs with
    | [] => none
    | '\'' :: rest =>
      match closeQuotes? '\'' cs with
      | some out => some out
      | none => (readLongLiteral fuel rest).map fun (s, rest) => ('\'' :: s, rest)
    | c :: rest =>
      match dropLineEnd? cs with
      | some rest => (readLongLiteral fuel rest).map fun (s, rest) => ('\n' :: s, rest)
      | none =>
        if isPrintable c then (readLongLiteral fuel rest).map fun (s, rest) => (c :: s, rest)
        else none

/-- The line end right after the opening quotes is not part of the string. -/
def dropFirstLineEnd (cs : List Char) : List Char := (dropLineEnd? cs).getD cs

/-- A string of any of the four kinds. -/
def readString (cs : List Char) : Option (String × List Char) :=
  let out := match cs with
    | '"' :: '"' :: '"' :: rest => readLongBasic (rest.length + 1) (dropFirstLineEnd rest)
    | '\'' :: '\'' :: '\'' :: rest => readLongLiteral (rest.length + 1) (dropFirstLineEnd rest)
    | '"' :: rest => readBasic (rest.length + 1) rest
    | '\'' :: rest => readLiteral rest
    | _ => none
  out.map fun (s, rest) => (String.ofList s, rest)

def isBareKey (c : Char) : Bool := c.isAlphanum || c = '_' || c = '-'

/-- One part of a key: a bare word or a quoted string. -/
def readKeyPart (cs : List Char) : Option (String × List Char) :=
  match cs with
  | '"' :: rest => (readBasic (rest.length + 1) rest).map fun (s, rest) => (String.ofList s, rest)
  | '\'' :: rest => (readLiteral rest).map fun (s, rest) => (String.ofList s, rest)
  | _ =>
    match cs.takeWhile isBareKey with
    | [] => none
    | word => some (String.ofList word, cs.dropWhile isBareKey)

/-- The parts of a dotted key, the last one apart. -/
def readKeyParts : (fuel : Nat) → List Char → Option (List String × String × List Char)
  | 0, _ => none
  | fuel + 1, cs => do
    let (part, rest) ← readKeyPart cs
    match skipBlanks rest with
    | '.' :: more =>
      let (path, last, rest) ← readKeyParts fuel (skipBlanks more)
      return (part :: path, last, rest)
    | _ => return ([], part, rest)

/-- How deep arrays and inline tables may be nested, and how many parts a key may have. -/
def maxDepth : Nat := 79

def readKey (cs : List Char) : Option (List String × String × List Char) := do
  let (path, last, rest) ← readKeyParts (cs.length + 1) cs
  if path.length < maxDepth then return (path, last, rest) else none

/-- Digits of a number with single underscores between them. -/
def ungroup? (isDigit : Char → Bool) : List Char → Option (List Char)
  | [] => none
  | [c] => if isDigit c then some [c] else none
  | c :: '_' :: rest =>
    if isDigit c then (ungroup? isDigit rest).map (c :: ·) else none
  | c :: rest =>
    if isDigit c then (ungroup? isDigit rest).map (c :: ·) else none

def signedDocument? (negative : Bool) (n : Nat) : Option Document :=
  if negative then if n ≤ Nat.pow 2 63 then some (.integer (-(n : Int))) else none
  else if n < Nat.pow 2 63 then some (.integer n) else none

def radixNumber? (radix : Nat) (ds : List Char) : Option Nat := do
  let isDigit (c : Char) : Bool := match Json.hexValue? c with
    | some v => v < radix
    | none => false
  let ds ← ungroup? isDigit ds
  ds.foldlM (fun n c => (Json.hexValue? c).map (radix * n + ·)) 0

/-- Decimal digits without a leading zero. -/
def wholeDigits? (cs : List Char) : Option (List Char) := do
  let ds ← ungroup? Char.isDigit cs
  match ds with
  | '0' :: _ :: _ => none
  | _ => return ds

/-- The exponent part of a real after its letter. -/
def exponent? (cs : List Char) : Option Int := do
  let (negative, cs) := match cs with
    | '+' :: rest => (false, rest)
    | '-' :: rest => (true, rest)
    | _ => (false, cs)
  let n := Json.digitsValue (← ungroup? Char.isDigit cs)
  return if negative then -(n : Int) else n

/-- A decimal number without its sign. A positive number too large for a double
is refused, a negative one is minus infinity. -/
def decimal? (negative : Bool) (cs : List Char) : Option Document := do
  let isMark (c : Char) : Bool := c = 'e' || c = 'E'
  let mantissa := cs.takeWhile fun c => !isMark c
  let tail := cs.drop mantissa.length
  let whole := mantissa.takeWhile (· ≠ '.')
  let ws ← wholeDigits? whole
  let fs ← match mantissa.drop whole.length with
    | [] => some []
    | _ :: frac => ungroup? Char.isDigit frac
  if tail.isEmpty ∧ whole.length = mantissa.length then
    signedDocument? negative (Json.digitsValue ws)
  else
    let e ← match tail with
      | [] => some 0
      | _ :: cs => exponent? cs
    match Json.decimalValue? (Json.digitsValue (ws ++ fs)) (e - fs.length) with
    | some x => return .real (if negative then -x else x)
    | none => if negative then return .real (-1.0 / 0.0) else none

/-- A number from its whole text. -/
def number? (cs : List Char) : Option Document :=
  match cs with
  | '0' :: 'x' :: ds => do signedDocument? false (← radixNumber? 16 ds)
  | '0' :: 'o' :: ds => do signedDocument? false (← radixNumber? 8 ds)
  | '0' :: 'b' :: ds => do signedDocument? false (← radixNumber? 2 ds)
  | _ =>
    let (negative, cs) := match cs with
      | '+' :: rest => (false, rest)
      | '-' :: rest => (true, rest)
      | _ => (false, cs)
    if cs = "inf".toList then some (.real (if negative then -1.0 / 0.0 else 1.0 / 0.0))
    else if cs = "nan".toList then some (.real (0.0 / 0.0))
    else decimal? negative cs

/-- A number of exactly `n` digits between two bounds. -/
def fixedDigits? (n low high : Nat) (cs : List Char) : Option (Nat × List Char) :=
  let ds := cs.take n
  if ds.length = n ∧ ds.all Char.isDigit then
    let v := Json.digitsValue ds
    if low ≤ v ∧ v ≤ high then some (v, cs.drop n) else none
  else none

def dropChar? (c : Char) : List Char → Option (List Char)
  | d :: rest => if c = d then some rest else none
  | [] => none

def daysInMonth (year month : Nat) : Nat :=
  if month = 2 then
    if (year % 4 = 0 ∧ year % 100 ≠ 0) ∨ year % 400 = 0 then 29 else 28
  else if month = 4 ∨ month = 6 ∨ month = 9 ∨ month = 11 then 30
  else 31

/-- What is left after a calendar date. -/
def dropDate? (cs : List Char) : Option (List Char) := do
  let (year, cs) ← fixedDigits? 4 0 9999 cs
  let (month, cs) ← fixedDigits? 2 1 12 (← dropChar? '-' cs)
  let (_, cs) ← fixedDigits? 2 1 (daysInMonth year month) (← dropChar? '-' cs)
  return cs

/-- What is left after a time of day. -/
def dropTime? (cs : List Char) : Option (List Char) := do
  let (_, cs) ← fixedDigits? 2 0 23 cs
  let (_, cs) ← fixedDigits? 2 0 59 (← dropChar? ':' cs)
  let (_, cs) ← fixedDigits? 2 0 60 (← dropChar? ':' cs)
  match cs with
  | '.' :: rest =>
    match Json.spanDigits rest with
    | ([], _) => none
    | (_, rest) => return rest
  | _ => return cs

/-- Whether a text is an offset from universal time. -/
def isOffset (cs : List Char) : Bool :=
  match cs with
  | ['Z'] | ['z'] => true
  | '+' :: rest | '-' :: rest =>
    (do
      let (_, rest) ← fixedDigits? 2 0 23 rest
      let (_, rest) ← fixedDigits? 2 0 59 (← dropChar? ':' rest)
      return rest.isEmpty : Option Bool).getD false
  | _ => false

/-- Whether a text is a time of day, possibly with an offset. -/
def isTime (withOffset : Bool) (cs : List Char) : Bool :=
  match dropTime? cs with
  | some [] => true
  | some rest => withOffset && isOffset rest
  | none => false

/-- Whether a text is a date, a time, or both. -/
def isMoment (cs : List Char) : Bool :=
  match dropDate? cs with
  | some [] => true
  | some ('T' :: rest) | some ('t' :: rest) | some (' ' :: rest) => isTime true rest
  | some _ => false
  | none => isTime false cs

def isScalarChar (c : Char) : Bool :=
  c.isAlphanum || c = '_' || c = '-' || c = '+' || c = '.' || c = ':'

/-- A number, a truth value or a moment. A date may be followed by a blank and a
time. -/
def readScalar (cs : List Char) : Option (Document × List Char) :=
  let word := cs.takeWhile isScalarChar
  let rest := cs.drop word.length
  if word = "true".toList then some (.bool true, rest)
  else if word = "false".toList then some (.bool false, rest)
  else match dropDate? word, rest with
    | some [], ' ' :: c :: more =>
      if c.isDigit then
        let time := (c :: more).takeWhile isScalarChar
        if isTime true time then some (.moment, (c :: more).drop time.length) else none
      else some (.moment, rest)
    | _, _ =>
      if isMoment word then some (.moment, rest)
      else (number? word).map (·, rest)

/-- The pairs of an inline table. A table that a pair has given is closed. -/
def inlineTable? (pairs : List (List String × String × Document)) : Option Document :=
  (pairs.foldlM (fun ms (path, name, d) => addPair path name d ms) []).map fun ms =>
    .record .toml (memberDocuments ms)

mutual
/-- One value; every nested call has read at least one character. -/
def readValue : (fuel depth : Nat) → List Char → Option (Document × List Char)
  | 0, _, _ => none
  | fuel + 1, depth, cs =>
    match cs with
    | '"' :: _ | '\'' :: _ => (readString cs).map fun (s, rest) => (.text s, rest)
    | '[' :: rest =>
      match depth with
      | 0 => none
      | depth + 1 => (readItems fuel depth (skipSpace rest.length rest)).map fun (ds, rest) =>
        (.sequence .toml ds, rest)
    | '\x7b' :: rest =>
      match depth with
      | 0 => none
      | depth + 1 =>
        match skipBlanks rest with
        | '\x7d' :: rest => some (.record .toml [], rest)
        | rest => do
          let (pairs, rest) ← readPairs fuel depth rest
          return (← inlineTable? pairs, rest)
    | _ => readScalar cs

/-- The items of an array up to its closing bracket; a comma may end them. -/
def readItems : (fuel depth : Nat) → List Char → Option (List Document × List Char)
  | 0, _, _ => none
  | fuel + 1, depth, cs =>
    match cs with
    | ']' :: rest => some ([], rest)
    | _ => do
      let (d, rest) ← readValue fuel depth cs
      match skipSpace rest.length rest with
      | ',' :: rest =>
        let (ds, rest) ← readItems fuel depth (skipSpace rest.length rest)
        return (d :: ds, rest)
      | ']' :: rest => return ([d], rest)
      | _ => none

/-- The pairs of an inline table up to its closing brace. -/
def readPairs : (fuel depth : Nat) → List Char →
    Option (List (List String × String × Document) × List Char)
  | 0, _, _ => none
  | fuel + 1, depth, cs => do
    let (path, name, rest) ← readKey cs
    let '=' :: rest := skipBlanks rest | none
    let (d, rest) ← readValue fuel depth (skipBlanks rest)
    match skipBlanks rest with
    | ',' :: rest =>
      let (ps, rest) ← readPairs fuel depth (skipBlanks rest)
      return ((path, name, d) :: ps, rest)
    | '\x7d' :: rest => return ([(path, name, d)], rest)
    | _ => none
end

/-- A header after its opening brackets, up to the end of its line. -/
def readHeader (close : List Char) (cs : List Char) :
    Option (List String × String × List Char) := do
  let (path, name, rest) ← readKey (skipBlanks cs)
  let rest ← Json.dropWord? close (skipBlanks rest)
  return (path, name, ← endLine? rest)

/-- Reads line by line; `here` is the path of the table that pairs belong to. -/
def readLines : (fuel : Nat) → (here : List String) → Members → List Char → Option Members
  | 0, _, _, _ => none
  | fuel + 1, here, root, cs =>
    match skipBlanks cs with
    | [] => some root
    | '[' :: '[' :: rest => do
      let (path, name, rest) ← readHeader [']', ']'] rest
      readLines fuel (path ++ [name]) (← openItem path name root) rest
    | '[' :: rest => do
      let (path, name, rest) ← readHeader [']'] rest
      readLines fuel (path ++ [name]) (← openTable path name root) rest
    | cs =>
      if cs.head? = some '#' ∨ (dropLineEnd? cs).isSome then do
        readLines fuel here root (← endLine? cs)
      else do
        let (path, name, rest) ← readKey cs
        let '=' :: rest := skipBlanks rest | none
        let rest := skipBlanks rest
        let (d, rest) ← readValue (2 * rest.length + 2) maxDepth rest
        let root ← descend false here false (fun _ ms => addPair path name d ms) root
        readLines fuel here root (← endLine? rest)

/-- The table that a text holds. A byte order mark in front is skipped. -/
def parse? (s : String) : Option Document := do
  let cs := match s.toList with
    | '\uFEFF' :: rest => rest
    | cs => cs
  let members ← readLines (cs.length + 2) [] [] cs
  return .record .toml (memberDocuments members)

end InferenceSim.Toml
