import InferenceSim.Request.State
import InferenceSim.Workload.Problem

/-! Where the requests of a run come from: a file of recorded requests, or a generator
with the parameters given here. -/
namespace InferenceSim

/-- The source of a workload. A generated length is uniform around its mean. -/
structure WorkloadConfig where
  /-- The file to replay in place of generated requests. -/
  trace : Option String := none
  /-- The mean number of arrivals per second. -/
  rate : Float := 10.0
  count : Nat := 200
  inputMean : Float := 512.0
  /-- How far a length may be from its mean. -/
  inputSpread : Float := 128.0
  outputMean : Float := 128.0
  outputSpread : Float := 32.0
  minTokens : Nat := 1
  maxTokens : Nat := 8192
  /-- The number of groups that share a prefix; zero shares none. -/
  prefixGroups : Nat := 0
  prefixTokens : Nat := 256
  tenants : Nat := 1
  /-- The classes, each as likely as the others. -/
  sloClasses : List SloClass := [.standard]
  deriving Inhabited

namespace WorkloadConfig

/-- The first thing wrong with the parameters of the generator, if anything is. A
workload that is replayed has none. -/
def problem? (w : WorkloadConfig) : Option WorkloadProblem :=
  if w.trace.isSome then none
  else if w.rate.isNaN || w.rate ≤ 0.0 then some (.rate w.rate)
  else if w.maxTokens < w.minTokens then some (.tokenRange w.minTokens w.maxTokens)
  else if w.inputSpread < 0.0 || w.outputSpread < 0.0 then some .spread
  else if w.tenants = 0 then some .tenants
  else if w.sloClasses.isEmpty then some .sloClasses
  else none

def toDocument (w : WorkloadConfig) : Document :=
  .table [("trace", .option .text w.trace), ("rate", .real w.rate),
    ("num_requests", .count w.count), ("input_mean", .real w.inputMean),
    ("input_std", .real w.inputSpread), ("output_mean", .real w.outputMean),
    ("output_std", .real w.outputSpread), ("min_tokens", .count w.minTokens),
    ("max_tokens", .count w.maxTokens), ("prefix_groups", .count w.prefixGroups),
    ("prefix_tokens", .count w.prefixTokens), ("tenants", .count w.tenants),
    ("slo_classes", .ofList SloClass.toDocument w.sloClasses)]

def ofDocument? (d : Document) : Option WorkloadConfig := do
  let f ← d.fields? ["trace", "rate", "num_requests", "input_mean", "input_std", "output_mean",
    "output_std", "min_tokens", "max_tokens", "prefix_groups", "prefix_tokens", "tenants",
    "slo_classes"]
  let base : WorkloadConfig := {}
  let real (name : String) (x : Float) := f.withDefault name Document.asReal? x
  let count (bits : Nat) (name : String) (n : Nat) := f.withDefault name (Document.asCount? bits) n
  return {
    trace := ← f.withDefault "trace" (Document.asOption? Document.asText?) base.trace
    rate := ← real "rate" base.rate
    count := ← count 64 "num_requests" base.count
    inputMean := ← real "input_mean" base.inputMean
    inputSpread := ← real "input_std" base.inputSpread
    outputMean := ← real "output_mean" base.outputMean
    outputSpread := ← real "output_std" base.outputSpread
    minTokens := ← count 32 "min_tokens" base.minTokens
    maxTokens := ← count 32 "max_tokens" base.maxTokens
    prefixGroups := ← count 32 "prefix_groups" base.prefixGroups
    prefixTokens := ← count 32 "prefix_tokens" base.prefixTokens
    tenants := ← count 32 "tenants" base.tenants
    sloClasses :=
      ← f.withDefault "slo_classes" (Document.asList? SloClass.ofDocument?) base.sloClasses }

end WorkloadConfig

end InferenceSim
