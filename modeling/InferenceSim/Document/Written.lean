import InferenceSim.Document.Json

/-! Values with a written form: what is written can be read back. -/
namespace InferenceSim

/-- A type whose values are written as documents. -/
class Written (α : Type) where
  toDocument : α → Document
  ofDocument? : Document → Option α

def Written.canonical? (α : Type) [Written α] (text : String) : Option String := do
  let a : α ← (Json.parse? text).bind ofDocument?
  return Json.compact (toDocument a)

end InferenceSim
