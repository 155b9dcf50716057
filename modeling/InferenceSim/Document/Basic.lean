import InferenceSim.Decimal.Notation

/-! Documents: the values that configuration files, traces and records are
written as. Two notations are read into them, JSON and TOML, and JSON is written
from them. A table keeps its members in the order of the text. -/
namespace InferenceSim

/-- How a list or a table is written. On this depends what else it may stand for:
a choice without data, a record in list form, numbers by name. -/
inductive Style where
  /-- As in JSON. -/
  | plain
  /-- As in JSON, with an escape in the name of a member. -/
  | escaped
  /-- As in TOML. -/
  | toml
  /-- Inside a tagged choice, where a value is read before it is known what for. -/
  | held
  deriving DecidableEq, Repr, Inhabited

/-- A document value. Integers and reals are told apart by how they are written. -/
inductive Document where
  | null
  | bool (b : Bool)
  | integer (n : Int)
  | real (x : Float)
  | text (s : String)
  | sequence (style : Style) (items : List Document)
  | record (style : Style) (members : List (String × Document))
  /-- A date or a time. No setting is one, so its fields are not kept. -/
  | moment
  /-- Text in the form of a value that cannot be read: a number out of range, a
  string with half a surrogate pair, or a list or a table too deep inside others.
  It can be skipped. -/
  | unreadable
  deriving Inhabited

namespace Document

@[match_pattern] abbrev list (items : List Document) : Document := .sequence .plain items

@[match_pattern] abbrev table (members : List (String × Document)) : Document :=
  .record .plain members

def count (n : Nat) : Document := .integer n

def option {α : Type} (f : α → Document) : Option α → Document
  | none => .null
  | some a => f a

def ofList {α : Type} (f : α → Document) (xs : List α) : Document := .list (xs.map f)

def members : Document → List (String × Document)
  | .record _ ms => ms
  | _ => []

mutual
/-- The value as a part of a tagged choice. All of it is read there, so nothing in it
may be unreadable. -/
def hold? : Document → Option Document
  | .sequence _ ds => (holdItems? ds).map (.sequence .held)
  | .record _ ms => (holdMembers? ms).map (.record .held)
  | .unreadable => none
  | d => some d

def holdItems? : List Document → Option (List Document)
  | [] => some []
  | d :: rest => do return (← hold? d) :: (← holdItems? rest)

def holdMembers? : List (String × Document) → Option (List (String × Document))
  | [] => some []
  | (name, d) :: rest => do return (name, ← hold? d) :: (← holdMembers? rest)
end

end Document

end InferenceSim
