import InferenceSim.Decimal.Reading
import InferenceSim.Policy.Error
import InferenceSim.Policy.Observation
import InferenceSim.Text.Blank

/-! Scorers and their weights, as settings name them. -/
namespace InferenceSim

/-- What a scorer looks at. Each gives a value from 0 to 1, the higher the better. -/
inductive Scorer where
  /-- The effective load between the least and the most loaded candidate, inverted. -/
  | queueDepth
  /-- The share of free KV blocks. -/
  | kvUtilization
  /-- One over one more than the effective load. -/
  | loadBalance
  /-- The share of prompt blocks recorded on the instance. -/
  | prefixAffinity
  deriving DecidableEq, Repr, Inhabited

namespace Scorer

def all : List Scorer := [.queueDepth, .kvUtilization, .loadBalance, .prefixAffinity]

def name : Scorer → String
  | .queueDepth => "queue-depth"
  | .kvUtilization => "kv-utilization"
  | .loadBalance => "load-balance"
  | .prefixAffinity => "prefix-affinity"

def ofName? (name : String) : Option Scorer := (all.map fun s => (s.name, s)).lookup name

def toDocument (s : Scorer) : Document := .text s.name

def ofDocument? : Document → Option Scorer := Document.asChoice? (all.map fun s => (s.name, s))

end Scorer

/-- A scorer with its weight. -/
structure ScorerWeight where
  scorer : Scorer
  weight : Float
  deriving Inhabited

namespace ScorerWeight

def text (s : ScorerWeight) : String := s!"{s.scorer.name}:{Decimal.plain s.weight}"

def toDocument (s : ScorerWeight) : Document :=
  .table [("scorer", s.scorer.toDocument), ("weight", .real s.weight)]

def ofDocument? (d : Document) : Option ScorerWeight := do
  let f ← d.fields? ["scorer", "weight"]
  return { scorer := ← f.required "scorer" Scorer.ofDocument?, weight := ← f.real "weight" }

def defaults : List ScorerWeight :=
  [{ scorer := .prefixAffinity, weight := 3.0 }, { scorer := .queueDepth, weight := 2.0 },
    { scorer := .kvUtilization, weight := 2.0 }]

/-- An entry of the form `name:weight`. -/
def parse (entry : List Char) : Except PolicyError ScorerWeight :=
  match Text.splitOnce? ':' entry with
  | none => .error (.scorerShape (String.ofList entry))
  | some (name, weight) =>
    match Decimal.parseReal? (Text.trim weight) with
    | none => .error (.scorerNumber (String.ofList entry))
    | some weight =>
      let name := String.ofList (Text.trim name)
      match Scorer.ofName? name with
      | none => .error (.unknownScorer name)
      | some scorer => .ok { scorer, weight }

def parseList (spec : String) : Except PolicyError (List ScorerWeight) :=
  (((Text.splitAt (· = ',') spec.toList).map Text.trim).filter fun e => !e.isEmpty).mapM parse

/-- Weights that add up to one, from a list of positive finite ones. -/
def normalize (scorers : List ScorerWeight) : Except PolicyError (List ScorerWeight) :=
  if scorers.isEmpty then .error .noScorers
  else match scorers.find? fun s => !(s.weight.isFinite && s.weight > 0.0) with
    | some s => .error (.scorerWeight s.scorer.name)
    | none =>
      let total := Binary64.sum (scorers.map (·.weight))
      .ok (scorers.map fun s => { s with weight := s.weight / total })

end ScorerWeight

end InferenceSim
