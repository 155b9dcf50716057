import InferenceSim.Config.Error
import InferenceSim.Request.Basic

/-! How long things take. A model maps the shape of a batch to the ticks of a step.
One model is a fitted regression, the other one works from throughputs. -/
namespace InferenceSim

/-- The shape of the batch that a step runs. -/
structure StepShape where
  prefillTokens : Nat := 0
  decodeTokens : Nat := 0
  prefillRequests : Nat := 0
  decodeRequests : Nat := 0
  maxPrefillChunk : Nat := 0
  deriving DecidableEq, Repr, Inhabited

namespace StepShape

def isEmpty (s : StepShape) : Bool := s.prefillTokens = 0 && s.decodeTokens = 0

def requests (s : StepShape) : Nat := s.prefillRequests + s.decodeRequests

end StepShape

/-- Rates of computing prompts and of decoding. -/
structure Throughput where
  prefillPerSecond : Float := 50000.0
  /-- Decoding rate of a batch of one. -/
  decodePerSecond : Float := 80.0
  /-- The batch size from which the decoding rate no longer grows. -/
  saturationBatch : Nat := 64
  saturatedPerSecond : Float := 3200.0
  /-- Fixed ticks per step. -/
  stepOverhead : Nat := 0
  deriving Inhabited

namespace Throughput

def validate (t : Throughput) : Except ConfigProblem Unit :=
  if t.prefillPerSecond ≤ 0.0 || t.decodePerSecond ≤ 0.0 || t.saturatedPerSecond ≤ 0.0 then
    .error .throughputRates
  else if t.saturationBatch = 0 then .error (.mustBePositive "decode_throughput_saturation_batch")
  else .ok ()

/-- The decoding rate of a batch: a straight line from one request to saturation, and
flat beyond. -/
def decodeRate (t : Throughput) (batch : Nat) : Float :=
  if batch = 0 then 0.0
  else if t.saturationBatch ≤ batch then t.saturatedPerSecond
  else
    let part := Binary64.ofCount (batch - 1) / Binary64.ofCount (max (t.saturationBatch - 1) 1)
    t.decodePerSecond + part * (t.saturatedPerSecond - t.decodePerSecond)

def stepTime (t : Throughput) (shape : StepShape) : Nat :=
  let prefill := Binary64.ofCount shape.prefillTokens * 1e6 / t.prefillPerSecond
  let rate := t.decodeRate shape.decodeRequests
  let decode := if rate > 0.0 then Binary64.ofCount shape.decodeTokens * 1e6 / rate else 0.0
  t.stepOverhead + Binary64.toCount (prefill + decode).ceil

def members (t : Throughput) : List (String × Document) :=
  [("prefill_tokens_per_sec", .real t.prefillPerSecond),
    ("decode_tokens_per_sec_batch1", .real t.decodePerSecond),
    ("decode_throughput_saturation_batch", .count t.saturationBatch),
    ("decode_tokens_per_sec_saturated", .real t.saturatedPerSecond),
    ("step_overhead", .count t.stepOverhead)]

def toDocument (t : Throughput) : Document := .table t.members

def ofDocument? (d : Document) : Option Throughput := do
  let f ← d.fields? ["prefill_tokens_per_sec", "decode_tokens_per_sec_batch1",
    "decode_throughput_saturation_batch", "decode_tokens_per_sec_saturated", "step_overhead"]
  let real := Document.asReal?
  return {
    prefillPerSecond := ← f.withDefault "prefill_tokens_per_sec" real 50000.0
    decodePerSecond := ← f.withDefault "decode_tokens_per_sec_batch1" real 80.0
    saturationBatch :=
      ← f.withDefault "decode_throughput_saturation_batch" (Document.asCount? 32) 64
    saturatedPerSecond := ← f.withDefault "decode_tokens_per_sec_saturated" real 3200.0
    stepOverhead := ← f.withDefault "step_overhead" (Document.asCount? 64) 0 }

end Throughput

/-- A latency model. A regression has the coefficients `alpha0 + alpha1 * input` of
the queueing delay and `beta0 + beta1 * prefill + beta2 * decode` of the step time. -/
inductive LatencyModel where
  | regression (alpha beta : List Float) (schedulingOverhead preemptionOverhead : Nat)
  | throughput (t : Throughput)
  deriving Inhabited

namespace LatencyModel

def defaultAlpha : List Float := [1500.0, 2.0]

def defaultBeta : List Float := [6000.0, 15.0, 80.0]

def default : LatencyModel := .regression defaultAlpha defaultBeta 0 0

/-- A regression needs two and three coefficients, finite and not negative. -/
def validate : LatencyModel → Except ConfigProblem Unit
  | .regression alpha beta _ _ =>
    if alpha.length ≠ 2 ∨ beta.length ≠ 3 then
      .error (.coefficientCount alpha.length beta.length)
    else if (alpha ++ beta).any fun c => !c.isFinite || c < 0.0 then .error .coefficientRange
    else .ok ()
  | .throughput t => t.validate

def name : LatencyModel → String
  | .regression _ _ _ _ => "blackbox"
  | .throughput _ => "throughput"

def coefficient (cs : List Float) (i : Nat) : Float := cs.getD i 0.0

/-- The ticks of a step, without overheads for admissions and preemptions. -/
def stepTime (m : LatencyModel) (shape : StepShape) : Nat :=
  match m with
  | .regression _ beta _ _ =>
    let t := coefficient beta 0 + coefficient beta 1 * Binary64.ofCount shape.prefillTokens +
      coefficient beta 2 * Binary64.ofCount shape.decodeTokens
    Binary64.toCount t.round
  | .throughput t => t.stepTime shape

/-- The ticks from routing to the instance's queue. -/
def queueingDelay (m : LatencyModel) (inputTokens : Nat) : Nat :=
  match m with
  | .regression alpha _ _ _ =>
    Binary64.toCount (coefficient alpha 0 +
      coefficient alpha 1 * Binary64.ofCount inputTokens).round
  | .throughput _ => 0

def schedulingOverhead : LatencyModel → Nat
  | .regression _ _ s _ => s
  | .throughput _ => 0

def preemptionOverhead : LatencyModel → Nat
  | .regression _ _ _ p => p
  | .throughput _ => 0

def toDocument (m : LatencyModel) : Document :=
  match m with
  | .regression alpha beta s p =>
    .table [("model", .text m.name), ("alpha", .ofList .real alpha), ("beta", .ofList .real beta),
      ("scheduling_overhead", .count s), ("preemption_overhead", .count p)]
  | .throughput t => .table (("model", .text m.name) :: t.members)

def ofDocument? (d : Document) : Option LatencyModel := do
  let (name, d) ← d.tagged? "model"
  match name with
  | "blackbox" =>
    let f ← d.fields? ["alpha", "beta", "scheduling_overhead", "preemption_overhead"]
    let reals := Document.asList? Document.asReal?
    let tick := Document.asCount? 64
    return .regression (← f.withDefault "alpha" reals defaultAlpha)
      (← f.withDefault "beta" reals defaultBeta) (← f.withDefault "scheduling_overhead" tick 0)
      (← f.withDefault "preemption_overhead" tick 0)
  | "throughput" => (Throughput.ofDocument? d).map .throughput
  | _ => none

end LatencyModel

end InferenceSim
