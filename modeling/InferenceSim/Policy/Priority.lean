import InferenceSim.Policy.Error
import InferenceSim.Policy.Observation

/-! Priorities: the score by which priority-aware schedulers order their queues. -/
namespace InferenceSim

/-- How a priority is computed. The age of a request is the time since its arrival. -/
inductive PriorityRule where
  | constant (score : Float)
  /-- Older requests score higher: `base + ageWeight * age`. -/
  | sloBased (base : Priority) (ageWeight : Float)
  /-- Older requests score lower, which starves them. -/
  | invertedSlo (base : Priority) (ageWeight : Float)
  deriving Inhabited

namespace PriorityRule

def defaultAgeWeight : Float := 1e-6

def name : PriorityRule → String
  | .constant _ => "constant"
  | .sloBased _ _ => "slo-based"
  | .invertedSlo _ _ => "inverted-slo"

def isConstant : PriorityRule → Bool
  | .constant _ => true
  | _ => false

/-- A constant has to be finite, an age weight finite and not negative. -/
def validate (rule : PriorityRule) : Except PolicyError Unit :=
  match rule with
  | .constant score => if score.isFinite then .ok () else .error .constantScore
  | .sloBased _ w | .invertedSlo _ w =>
    if w.isFinite && w ≥ 0.0 then .ok () else .error (.ageWeight rule.name)

def age (request : RequestView) (clock : Nat) : Float :=
  Binary64.ofCount (clock - request.arrivalTime)

/-- The score of a request at a time. -/
def score (rule : PriorityRule) (request : RequestView) (clock : Nat) : Priority :=
  match rule with
  | .constant s => s
  | .sloBased base w => base.plus (w * age request clock)
  | .invertedSlo base w => base.plus (-(w * age request clock))

def toDocument (rule : PriorityRule) : Document :=
  match rule with
  | .constant s => .table [("name", .text rule.name), ("score", .real s)]
  | .sloBased base w | .invertedSlo base w =>
    .table [("name", .text rule.name), ("base", .real base.toFloat), ("age_weight", .real w)]

def ofDocument? (d : Document) : Option PriorityRule := do
  let (name, d) ← d.tagged? "name"
  let aged (make : Priority → Float → PriorityRule) : Option PriorityRule := do
    let f ← d.fields? ["base", "age_weight"]
    return make (← f.withDefault "base" Document.asReal? 0.0)
      (← f.withDefault "age_weight" Document.asReal? defaultAgeWeight)
  match name with
  | "constant" =>
    let f ← d.fields? ["score"]
    return .constant (← f.withDefault "score" Document.asReal? 0.0)
  | "slo-based" => aged .sloBased
  | "inverted-slo" => aged .invertedSlo
  | _ => none

end PriorityRule

end InferenceSim
