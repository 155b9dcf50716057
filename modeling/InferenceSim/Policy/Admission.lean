import InferenceSim.Policy.Error
import InferenceSim.Policy.Observation

/-! Admission: whether a request enters the cluster, is turned away, or has to ask
again later. -/
namespace InferenceSim

/-- The answer of admission, with its reason. -/
inductive Verdict where
  | accept (reason : String)
  | reject (reason : String)
  /-- Ask again after `duration` ticks. -/
  | delay (duration : Nat) (reason : String)
  deriving DecidableEq, Repr

namespace Verdict

def reason : Verdict → String
  | .accept r | .reject r | .delay _ r => r

def isAccept : Verdict → Bool
  | .accept _ => true
  | _ => false

def toDocument : Verdict → Document
  | .accept r => .table [("Admit", .table [("reason", .text r)])]
  | .reject r => .table [("Reject", .table [("reason", .text r)])]
  | .delay duration r =>
    .table [("Delay", .table [("duration", .count duration), ("reason", .text r)])]

def ofDocument? (d : Document) : Option Verdict := do
  let (name, d) ← d.variant?
  match name with
  | "Admit" => return .accept (← (← d.fields? ["reason"]).text "reason")
  | "Reject" => return .reject (← (← d.fields? ["reason"]).text "reason")
  | "Delay" =>
    let f ← d.fields? ["duration", "reason"]
    return .delay (← f.count 64 "duration") (← f.text "reason")
  | _ => none

end Verdict

/-- Which admission policy to use. -/
inductive AdmissionRule where
  | acceptAll
  /-- A bucket of `capacity` tokens, refilled at `refillRate` tokens per second. -/
  | tokenBucket (capacity refillRate : Float) (delayWhenEmpty : Bool)
  | rejectAll
  deriving Inhabited

namespace AdmissionRule

def toDocument : AdmissionRule → Document
  | .acceptAll => .table [("name", .text "always-admit")]
  | .tokenBucket capacity refillRate delayWhenEmpty =>
    .table [("name", .text "token-bucket"), ("capacity", .real capacity),
      ("refill_rate", .real refillRate), ("delay_when_empty", .bool delayWhenEmpty)]
  | .rejectAll => .table [("name", .text "reject-all")]

def ofDocument? (d : Document) : Option AdmissionRule := do
  let (name, d) ← d.tagged? "name"
  match name with
  | "always-admit" => d.bare?.map fun _ => .acceptAll
  | "token-bucket" =>
    let f ← d.fields? ["capacity", "refill_rate", "delay_when_empty"]
    return .tokenBucket (← f.real "capacity") (← f.real "refill_rate")
      (← f.withDefault "delay_when_empty" Document.asBool? false)
  | "reject-all" => d.bare?.map fun _ => .rejectAll
  | _ => none

end AdmissionRule

/-- A bucket that a request takes one token from for each token of its prompt. -/
structure TokenBucket where
  capacity : Float
  /-- Tokens per second of simulated time. -/
  refillRate : Float
  delayWhenEmpty : Bool
  tokens : Float
  lastRefill : Nat := 0
  deriving Inhabited

namespace TokenBucket

/-- A full bucket; capacity and refill rate have to be positive and finite. -/
def new (capacity refillRate : Float) (delayWhenEmpty : Bool) :
    Except PolicyError TokenBucket :=
  if !(capacity.isFinite && capacity > 0.0) then .error .bucketCapacity
  else if !(refillRate.isFinite && refillRate > 0.0) then .error .bucketRefill
  else .ok { capacity, refillRate, delayWhenEmpty, tokens := capacity }

/-- Adds what has flowed in since the last refill, up to the capacity. -/
def refill (b : TokenBucket) (clock : Nat) : TokenBucket :=
  if b.lastRefill < clock then
    let inflow := Binary64.ofCount (clock - b.lastRefill) * b.refillRate / 1e6
    { b with tokens := Binary64.lesser (b.tokens + inflow) b.capacity, lastRefill := clock }
  else b

/-- Charges the request its prompt if the bucket holds enough; if not, has it wait
for the deficit or turns it away. -/
def judge (b : TokenBucket) (request : RequestView) (clock : Nat) : Verdict × TokenBucket :=
  let b := b.refill clock
  let cost := Binary64.ofCount request.inputTokens
  if b.tokens ≥ cost then
    let b := { b with tokens := b.tokens - cost }
    (.accept s!"token-bucket: charged {Decimal.plain cost}, {Decimal.fixed 1 b.tokens} left", b)
  else if b.delayWhenEmpty && cost ≤ b.capacity then
    let deficit := cost - b.tokens
    let wait := Binary64.toCount (Binary64.greater (deficit * 1e6 / b.refillRate).ceil 1.0)
    (.delay wait s!"token-bucket: short by {Decimal.fixed 1 deficit}, retry in {wait}", b)
  else
    (.reject (s!"token-bucket: need {Decimal.plain cost}, have {Decimal.fixed 1 b.tokens} " ++
      s!"of {Decimal.plain b.capacity}"), b)

end TokenBucket

/-- An admission policy with its state. -/
inductive AdmissionPolicy where
  | acceptAll
  | tokenBucket (bucket : TokenBucket)
  | rejectAll
  deriving Inhabited

namespace AdmissionPolicy

def ofRule : AdmissionRule → Except PolicyError AdmissionPolicy
  | .acceptAll => .ok .acceptAll
  | .tokenBucket capacity refillRate delayWhenEmpty =>
    (TokenBucket.new capacity refillRate delayWhenEmpty).map .tokenBucket
  | .rejectAll => .ok .rejectAll

def name : AdmissionPolicy → String
  | .acceptAll => "always-admit"
  | .tokenBucket _ => "token-bucket"
  | .rejectAll => "reject-all"

/-- The verdict on a request, and the policy afterwards. -/
def judge (p : AdmissionPolicy) (request : RequestView) (view : ClusterView) :
    Verdict × AdmissionPolicy :=
  match p with
  | .acceptAll => (.accept "always-admit", p)
  | .tokenBucket b =>
    let (verdict, b) := b.judge request view.clock
    (verdict, .tokenBucket b)
  | .rejectAll => (.reject "reject-all", p)

end AdmissionPolicy

end InferenceSim
