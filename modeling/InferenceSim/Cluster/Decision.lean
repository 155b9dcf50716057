import InferenceSim.Policy.Routing

/-! The record of decisions. Each admission, routing, rejection, completion and anomaly
leaves a record, and a routing record tells what the choice has cost against the
best candidate. -/
namespace InferenceSim

/-- Where a request was turned away. -/
inductive RejectionStage where
  | admission
  | routing
  | host
  deriving DecidableEq, Repr, Inhabited

namespace RejectionStage

def all : List RejectionStage := [.admission, .routing, .host]

def name : RejectionStage → String
  | .admission => "admission"
  | .routing => "routing"
  | .host => "instance"

def toDocument (s : RejectionStage) : Document := .text s.name

def ofDocument? : Document → Option RejectionStage :=
  Document.asChoice? (all.map fun s => (s.name, s))

end RejectionStage

/-- A candidate of routing with its score and the load it was judged on. -/
structure Candidate where
  host : Nat
  score : Float
  queueDepth : Nat
  batchSize : Nat
  inFlight : Nat
  kvUtilization : Float
  freeKvBlocks : Nat
  deriving Inhabited

namespace Candidate

def toDocument (c : Candidate) : Document :=
  .table [("instance", .count c.host), ("score", .real c.score),
    ("queue_depth", .count c.queueDepth), ("batch_size", .count c.batchSize),
    ("in_flight", .count c.inFlight), ("kv_utilization", .real c.kvUtilization),
    ("free_kv_blocks", .count c.freeKvBlocks)]

def ofDocument? (d : Document) : Option Candidate := do
  let f ← d.fields? ["instance", "score", "queue_depth", "batch_size", "in_flight",
    "kv_utilization", "free_kv_blocks"]
  return {
    host := ← f.count 32 "instance"
    score := ← f.real "score"
    queueDepth := ← f.count 32 "queue_depth"
    batchSize := ← f.count 32 "batch_size"
    inFlight := ← f.count 32 "in_flight"
    kvUtilization := ← f.real "kv_utilization"
    freeKvBlocks := ← f.count 64 "free_kv_blocks" }

/-- A snapshot with its score. Without scores a smaller load is better. -/
def ofSnapshot (scores : Std.ExtTreeMap Nat Float) (s : Snapshot) : Candidate :=
  { host := s.id
    score := if scores.isEmpty then -Binary64.ofCount s.effectiveLoad
      else (scores[s.id]?).getD 0.0
    queueDepth := s.queueDepth
    batchSize := s.batchSize
    inFlight := s.inFlight
    kvUtilization := s.kvUtilization
    freeKvBlocks := s.freeKvBlocks }

def compare (a b : Candidate) : Ordering :=
  (Binary64.totalOrder b.score.toBits a.score.toBits).then (Ord.compare a.host b.host)

end Candidate

/-- The best `k` candidates, and how far the chosen one falls short of the best. -/
def counterfactual (chosen : Nat) (scores : Std.ExtTreeMap Nat Float)
    (snapshots : List Snapshot) (k : Nat) : List Candidate × Float :=
  if k = 0 then ([], 0.0)
  else
    let all := snapshots.map (Candidate.ofSnapshot scores)
    match all.find? fun c => c.host = chosen with
    | none => ([], 0.0)
    | some own =>
      let ranked := all.mergeSort fun a b => (a.compare b).isLE
      let regret := match ranked with
        | best :: _ => Binary64.greater (best.score - own.score) 0.0
        | [] => 0.0
      (ranked.take k, regret)

/-- One decision. -/
inductive DecisionRecord where
  | admission (request clock : Nat) (admitted : Bool) (reason : String)
  | routing (request clock chosen : Nat) (decode : Option Nat) (reason : String)
      (scores : Std.ExtTreeMap Nat Float) (candidates : List Candidate) (regret : Float)
  | rejection (request clock : Nat) (stage : RejectionStage) (reason : String)
  | completion (request clock host : Nat) (ttft : Option Nat) (e2e : Nat)
  | anomaly (clock : Nat) (kind detail : String)

namespace DecisionRecord

def toDocument : DecisionRecord → Document
  | .admission request clock admitted reason =>
    .table [("kind", .text "admission"), ("request", .count request), ("clock", .count clock),
      ("admitted", .bool admitted), ("reason", .text reason)]
  | .routing request clock chosen decode reason scores candidates regret =>
    .table [("kind", .text "routing"), ("request", .count request), ("clock", .count clock),
      ("chosen", .count chosen), ("decode", .option .count decode), ("reason", .text reason),
      ("scores", Route.scoresDocument scores),
      ("candidates", .ofList Candidate.toDocument candidates), ("regret", .real regret)]
  | .rejection request clock stage reason =>
    .table [("kind", .text "rejection"), ("request", .count request), ("clock", .count clock),
      ("stage", stage.toDocument), ("reason", .text reason)]
  | .completion request clock host ttft e2e =>
    .table [("kind", .text "completion"), ("request", .count request), ("clock", .count clock),
      ("instance", .count host), ("ttft", .option .count ttft), ("e2e", .count e2e)]
  | .anomaly clock kind detail =>
    .table [("kind", .text "anomaly"), ("clock", .count clock), ("anomaly", .text kind),
      ("detail", .text detail)]

def ofDocument? (d : Document) : Option DecisionRecord := do
  let (kind, d) ← d.tagged? "kind"
  match kind with
  | "admission" =>
    let f ← d.fields? ["request", "clock", "admitted", "reason"]
    return .admission (← f.count 64 "request") (← f.count 64 "clock") (← f.bool "admitted")
      (← f.text "reason")
  | "routing" =>
    let f ← d.fields? ["request", "clock", "chosen", "decode", "reason", "scores",
      "candidates", "regret"]
    return .routing (← f.count 64 "request") (← f.count 64 "clock") (← f.count 32 "chosen")
      (← f.optional "decode" (Document.asCount? 32)) (← f.text "reason")
      (← f.required "scores" Route.scoresOfDocument?)
      (← f.required "candidates" (Document.asList? Candidate.ofDocument?)) (← f.real "regret")
  | "rejection" =>
    let f ← d.fields? ["request", "clock", "stage", "reason"]
    return .rejection (← f.count 64 "request") (← f.count 64 "clock")
      (← f.required "stage" RejectionStage.ofDocument?) (← f.text "reason")
  | "completion" =>
    let f ← d.fields? ["request", "clock", "instance", "ttft", "e2e"]
    return .completion (← f.count 64 "request") (← f.count 64 "clock") (← f.count 32 "instance")
      (← f.optional "ttft" (Document.asCount? 64)) (← f.count 64 "e2e")
  | "anomaly" =>
    let f ← d.fields? ["clock", "anomaly", "detail"]
    return .anomaly (← f.count 64 "clock") (← f.text "anomaly") (← f.text "detail")
  | _ => none

end DecisionRecord

/-- The figures of a trace. -/
structure TraceSummary where
  totalDecisions : Nat := 0
  admitted : Nat := 0
  rejected : Nat := 0
  meanRegret : Float := 0.0
  maxRegret : Float := 0.0
  uniqueTargets : Nat := 0
  /-- How often each instance was chosen. -/
  targets : Std.ExtTreeMap Nat Nat := ∅
  anomalies : Nat := 0

namespace TraceSummary

def toDocument (s : TraceSummary) : Document :=
  .table [("total_decisions", .count s.totalDecisions), ("admitted", .count s.admitted),
    ("rejected", .count s.rejected), ("mean_regret", .real s.meanRegret),
    ("max_regret", .real s.maxRegret), ("unique_targets", .count s.uniqueTargets),
    ("target_distribution",
      .table (s.targets.toList.map fun (id, n) => (toString id, .count n))),
    ("anomalies", .count s.anomalies)]

def ofDocument? (d : Document) : Option TraceSummary := do
  let f ← d.fields? ["total_decisions", "admitted", "rejected", "mean_regret", "max_regret",
    "unique_targets", "target_distribution", "anomalies"]
  let targets (d : Document) : Option (Std.ExtTreeMap Nat Nat) :=
    (d.asNumbered? 32 (Document.asCount? 64)).map fun ms =>
      ms.foldl (fun m (id, n) => m.insert id n) ∅
  return {
    totalDecisions := ← f.count 64 "total_decisions"
    admitted := ← f.count 64 "admitted"
    rejected := ← f.count 64 "rejected"
    meanRegret := ← f.real "mean_regret"
    maxRegret := ← f.real "max_regret"
    uniqueTargets := ← f.count 64 "unique_targets"
    targets := ← f.required "target_distribution" targets
    anomalies := ← f.count 64 "anomalies" }

end TraceSummary

/-- The decisions of a run in order. No trace is kept where none is asked for. -/
structure DecisionTrace where
  /-- How many candidates a routing record keeps; zero keeps none and no regret. -/
  topK : Nat
  keep : Bool := true
  records : Array DecisionRecord := #[]

namespace DecisionTrace

def off : DecisionTrace := { topK := 0, keep := false }

def record (t : DecisionTrace) (r : DecisionRecord) : DecisionTrace :=
  if t.keep then { t with records := t.records.push r } else t

def lines (t : DecisionTrace) : List String :=
  t.records.toList.map fun r => Json.compact r.toDocument

def regrets (t : DecisionTrace) : List Float :=
  t.records.toList.filterMap fun r => match r with
    | .routing _ _ _ _ _ _ _ regret => some regret
    | _ => none

def targets (t : DecisionTrace) : Std.ExtTreeMap Nat Nat :=
  t.records.foldl (fun m r => match r with
    | .routing _ _ chosen _ _ _ _ _ => m.insert chosen ((m[chosen]?).getD 0 + 1)
    | _ => m) ∅

def summary (t : DecisionTrace) : TraceSummary :=
  let count (p : DecisionRecord → Bool) : Nat := t.records.countP p
  let admitted := count fun r => match r with
    | .admission _ _ admitted _ => admitted
    | _ => false
  let rejected := count fun r => match r with
    | .admission _ _ admitted _ => !admitted
    | _ => false
  let regrets := t.regrets
  let targets := t.targets
  { totalDecisions := admitted + rejected
    admitted, rejected, targets
    meanRegret := if regrets.isEmpty then 0.0
      else Binary64.sum regrets / Binary64.ofCount regrets.length
    maxRegret := regrets.foldl Binary64.greater 0.0
    uniqueTargets := targets.size
    anomalies := count fun r => match r with
      | .anomaly _ _ _ => true
      | _ => false }

end DecisionTrace

end InferenceSim
