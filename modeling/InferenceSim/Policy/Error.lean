/-! What can be wrong with the parameters of a policy. -/
namespace InferenceSim

/-- A parameter that a policy refuses, or a name that none has. -/
inductive PolicyError where
  | bucketCapacity
  | bucketRefill
  | constantScore
  | ageWeight (policy : String)
  | noScorers
  | scorerWeight (scorer : String)
  | scorerShape (entry : String)
  | scorerNumber (entry : String)
  | unknownScorer (name : String)
  deriving DecidableEq, Repr

namespace PolicyError

def about (policy parameter reason : String) : String :=
  s!"{policy}: invalid parameter `{parameter}`: {reason}"

def message : PolicyError → String
  | bucketCapacity => about "token-bucket" "capacity" "must be > 0"
  | bucketRefill => about "token-bucket" "refill_rate" "must be > 0"
  | constantScore => about "constant" "score" "must be finite"
  | ageWeight policy => about policy "age_weight" "must be finite and >= 0"
  | noScorers => about "weighted" "scorers" "must not be empty"
  | scorerWeight scorer => about "weighted" "scorers" s!"weight of {scorer} must be > 0"
  | scorerShape entry => about "weighted" "scorers" s!"`{entry}` is not name:weight"
  | scorerNumber entry => about "weighted" "scorers" s!"bad weight in `{entry}`"
  | unknownScorer name => s!"unknown scorer `{name}`"

end PolicyError

end InferenceSim
