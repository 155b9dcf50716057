import InferenceSim.Decimal.Notation

/-! What can be wrong with the parameters of a generated workload. -/
namespace InferenceSim

inductive WorkloadProblem where
  | rate (rate : Float)
  | tokenRange (least most : Nat)
  | spread
  | tenants
  | sloClasses
  deriving Repr

def WorkloadProblem.message : WorkloadProblem → String
  | rate r => s!"workload rate must be > 0, got {Decimal.plain r}"
  | tokenRange least most => s!"workload min_tokens ({least}) exceeds max_tokens ({most})"
  | spread => "workload length spreads must be >= 0"
  | tenants => "workload tenants must be > 0"
  | sloClasses => "workload slo_classes must not be empty"

end InferenceSim
