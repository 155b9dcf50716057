import InferenceSim.Document.Basic

/-! Reading documents as values of the domain. A record is written as a table,
in which unknown members are skipped and no known member stands twice, or as the
list of its fields in order. A choice with data carries its name in a tag. -/
namespace InferenceSim.Document

def asBool? : Document → Option Bool
  | .bool b => some b
  | _ => none

def asText? : Document → Option String
  | .text s => some s
  | _ => none

def asCount? (bits : Nat) : Document → Option Nat
  | .integer n => if 0 ≤ n ∧ n < Nat.pow 2 bits then some n.toNat else none
  | _ => none

/-- A real; an integer stands for the nearest one. -/
def asReal? : Document → Option Float
  | .real x => some x
  | .integer n =>
    some (if 0 ≤ n then Binary64.ofCount n.toNat else -Binary64.ofCount n.natAbs)
  | _ => none

def asList? {α : Type} (f : Document → Option α) : Document → Option (List α)
  | .sequence _ ds => ds.mapM f
  | _ => none

def asOption? {α : Type} (f : Document → Option α) : Document → Option (Option α)
  | .null => some none
  | d => (f d).map some

/-- What may stand for the data of a choice without data in a table of the given
style: null, and where there may be no null, something empty. -/
def isVoid : Style → Document → Bool
  | _, .null => true
  | .toml, .sequence _ [] => true
  | .toml, .record _ [] => true
  | .held, .record _ [] => true
  | _, _ => false

/-- A choice without data: its name alone, or a table of the name and no data. -/
def asName? : Document → Option String
  | .text s => some s
  | .record style [(s, d)] => if isVoid style d then some s else none
  | _ => none

def asChoice? {α : Type} (names : List (String × α)) (d : Document) : Option α :=
  d.asName?.bind fun s => names.lookup s

/-- The fields of a record that were found, by name. -/
structure Fields where
  found : List (String × Document)
  /-- Whether the record was written as a list, where every field without a
  default has to be there. -/
  positional : Bool

/-- The fields of a record with the given names. Items of a TOML list beyond the
last field are skipped, and a moment is a record of other fields. -/
def fields? (names : List String) : Document → Option Fields
  | .record _ members =>
    let found := members.filter fun m => names.contains m.1
    if names.all fun n => found.countP (fun m => m.1 = n) ≤ 1 then
      some { found, positional := false }
    else none
  | .sequence style items =>
    if items.length ≤ names.length ∨ style = .toml then
      some { found := names.zip items, positional := true }
    else none
  | .moment => some { found := [], positional := false }
  | _ => none

namespace Fields

def get? (f : Fields) (name : String) : Option Document := f.found.lookup name

def required {α : Type} (f : Fields) (name : String) (read : Document → Option α) : Option α :=
  (f.get? name).bind read

/-- A field that may be null or missing. -/
def optional {α : Type} (f : Fields) (name : String) (read : Document → Option α) :
    Option (Option α) :=
  match f.get? name with
  | some d => d.asOption? read
  | none => if f.positional then none else some none

/-- A field with a default for when it is missing. -/
def withDefault {α : Type} (f : Fields) (name : String) (read : Document → Option α)
    (default : α) : Option α :=
  match f.get? name with
  | some d => read d
  | none => some default

def count (f : Fields) (bits : Nat) (name : String) : Option Nat :=
  f.required name (asCount? bits)

def real (f : Fields) (name : String) : Option Float := f.required name asReal?

def text (f : Fields) (name : String) : Option String := f.required name asText?

def bool (f : Fields) (name : String) : Option Bool := f.required name asBool?

end Fields

/-- A tagged choice: the name under the tag, and the other members. In list form
the name comes first. -/
def tagged? (tag : String) (d : Document) : Option (String × Document) := do
  match ← d.hold? with
  | .record style members =>
    match members.filter fun m => m.1 = tag with
    | [(_, .text name)] => some (name, .record style (members.filter fun m => m.1 ≠ tag))
    | _ => none
  | .sequence style (.text name :: rest) => some (name, .sequence style rest)
  | _ => none

def variant? : Document → Option (String × Document)
  | .record _ [(name, d)] => some (name, d)
  | _ => none

/-- A choice without data among tagged ones: a table of whatever, or an empty list. -/
def bare? : Document → Option Unit
  | .record _ _ => some ()
  | .sequence _ [] => some ()
  | _ => none

/-- The decimal digits of a count below `2 ^ bits` without leading zeros. -/
def countKey? (bits : Nat) (s : String) : Option Nat :=
  let ds := s.toList
  if ds = ['0'] then some 0
  else if ds.isEmpty ∨ ds.head? = some '0' ∨ !ds.all Char.isDigit then none
  else
    let n := ds.foldl (fun n c => 10 * n + (c.toNat - 48)) 0
    if n < Nat.pow 2 bits then some n else none

def asMembers? {β : Type} (read : Document → Option β) : Document → Option (List (String × β))
  | .record _ members => members.mapM fun (name, d) => do return (name, ← read d)
  | _ => none

/-- Members named by counts below `2 ^ bits`. Only a plain table has such names. -/
def asNumbered? {β : Type} (bits : Nat) (read : Document → Option β) (d : Document) :
    Option (List (Nat × β)) := do
  let ms ← d.asMembers? read
  match d with
  | .record .plain _ => ms.mapM fun (name, b) => do return (← countKey? bits name, b)
  | _ => if ms.isEmpty then some [] else none

end InferenceSim.Document
