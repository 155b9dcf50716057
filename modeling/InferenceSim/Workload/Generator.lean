import InferenceSim.Random.Streams
import InferenceSim.Request.Basic
import InferenceSim.Workload.Config

/-! Generated workloads. Arrivals follow a Poisson process; lengths, prefix groups,
tenants and classes are uniform. All draws come from one stream. -/
namespace InferenceSim

/-- Why the generator has no value to give. -/
inductive GeneratorFault where
  /-- The requests fit into no memory. -/
  | tooMany (count : Nat)
  /-- No length lies between the least and the most. -/
  | noLength (least most : Nat)
  | draw (e : Random.DrawError)
  deriving DecidableEq, Repr

abbrev Drawn := StateT Random.Generator (Except GeneratorFault)

namespace Drawn

def unit : Drawn Float := fun g => .ok g.unit

/-- A bounded value; the bound may leave none. -/
def bounded (draw : Random.Generator → Except Random.DrawError Nat × Random.Generator) :
    Drawn Nat := fun g =>
  match draw g with
  | (.ok n, g) => .ok (n, g)
  | (.error e, _) => .error (.draw e)

end Drawn

/-- How many requests of 208 bytes half of a 64-bit address space can hold. -/
def maxRequests : Nat := (Nat.pow 2 63 - 1) / 208

def maxTokenCount : Nat := Nat.pow 2 32 - 1

/-- The token count nearest to a real; what is negative or no number counts as zero. -/
def toTokens (x : Float) : Nat :=
  min (Binary64.toCount (Binary64.greater x.round 0.0)) maxTokenCount

/-- A length around its mean, moved into a range that must not be empty. -/
def drawLength (mean spread : Float) (least most : Nat) : Drawn Nat := do
  let u ← Drawn.unit
  let tokens := toTokens (mean + u * spread * 2.0 - spread)
  if most < least then throw (.noLength least most)
  else pure (min (max tokens least) most)

namespace WorkloadConfig

/-- The shared prefix of a request, if there are groups. -/
def drawPrefix (w : WorkloadConfig) (r : Request) : Drawn Request :=
  if w.prefixGroups = 0 then pure r
  else do
    let group ← Drawn.bounded (Random.Generator.below32 w.prefixGroups)
    pure (r.withPrefix group w.prefixTokens)

/-- The tenant of a request, if there are several. -/
def drawTenant (w : WorkloadConfig) (r : Request) : Drawn Request :=
  if w.tenants ≤ 1 then pure r
  else do
    let tenant ← Drawn.bounded (Random.Generator.below32 w.tenants)
    pure { r with tenant }

/-- The class of a request. The only one there is needs no draw. -/
def drawClass (w : WorkloadConfig) (r : Request) : Drawn Request :=
  match w.sloClasses with
  | [] => pure r
  | [sloClass] => pure { r with sloClass }
  | first :: rest => do
    let i ← Drawn.bounded (Random.Generator.below64 (first :: rest).length)
    pure { r with sloClass := (first :: rest).getD i first }

/-- The next request, and the time of its arrival in seconds. -/
def drawRequest (w : WorkloadConfig) (id : Nat) (clock : Float) : Drawn (Request × Float) := do
  let u ← Drawn.unit
  let clock := clock + -(1.0 - u).log / w.rate
  let arrivalTime := Binary64.toCount (clock * 1000000.0)
  let inputTokens ← drawLength w.inputMean w.inputSpread (max w.minTokens 1) w.maxTokens
  let outputTokens ← drawLength w.outputMean w.outputSpread w.minTokens w.maxTokens
  let r ← w.drawPrefix { id, arrivalTime, inputTokens, outputTokens }
  let r ← w.drawTenant r
  let r ← w.drawClass r
  pure (r, clock)

/-- Requests numbered from `id` on, the first of which arrives after `clock`. -/
def drawRequests (w : WorkloadConfig) : (count id : Nat) → (clock : Float) → Drawn (List Request)
  | 0, _, _ => pure []
  | count + 1, id, clock => do
    let (r, clock) ← w.drawRequest id clock
    let rest ← w.drawRequests count (id + 1) clock
    pure (r :: rest)

/-- All requests of a generated workload. Room for them is made before the first one. -/
def generate (w : WorkloadConfig) (g : Random.Generator) :
    Except GeneratorFault (List Request × Random.Generator) :=
  if maxRequests < w.count then .error (.tooMany w.count)
  else (w.drawRequests w.count 0 0.0).run g

end WorkloadConfig

end InferenceSim
