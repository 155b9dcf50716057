import InferenceSim.Instance.Basic
import InferenceSim.Metrics.Completion

/-! Anomalies: behaviour that a run should not show. A priority inversion is a pair of
neighbours of one service class of which the earlier took more than twice as
long; an instance blocks at the head of its line when its queue is more than
twice as deep as the average. -/
namespace InferenceSim

inductive Anomaly where
  | priorityInversion (sloClass : SloClass) (earlier later earlierE2e laterE2e : Nat)
  | headOfLineBlocking (host : Nat) (meanQueueDepth clusterMean : Float)
  | invalidRouting (request clock : Nat) (reason : String)
  deriving Inhabited

namespace Anomaly

def kind : Anomaly → String
  | .priorityInversion _ _ _ _ _ => "priority-inversion"
  | .headOfLineBlocking _ _ _ => "head-of-line-blocking"
  | .invalidRouting _ _ _ => "invalid-routing"

/-- The text of an anomaly. -/
def detail : Anomaly → String
  | .priorityInversion sloClass earlier later earlierE2e laterE2e =>
    s!"{sloClass.label}: request {earlier} (e2e {earlierE2e}) finished far behind " ++
      s!"later request {later} (e2e {laterE2e})"
  | .headOfLineBlocking host depth mean =>
    s!"instance {host} mean queue depth {Decimal.fixed 2 depth} vs " ++
      s!"cluster mean {Decimal.fixed 2 mean}"
  | .invalidRouting request _ reason => s!"request {request}: {reason}"

def toDocument (a : Anomaly) : Document :=
  match a with
  | .priorityInversion sloClass earlier later earlierE2e laterE2e =>
    .table [("kind", .text a.kind), ("slo_class", sloClass.toDocument),
      ("earlier", .count earlier), ("later", .count later),
      ("earlier_e2e", .count earlierE2e), ("later_e2e", .count laterE2e)]
  | .headOfLineBlocking host depth mean =>
    .table [("kind", .text a.kind), ("instance", .count host),
      ("mean_queue_depth", .real depth), ("cluster_mean", .real mean)]
  | .invalidRouting request clock reason =>
    .table [("kind", .text a.kind), ("request", .count request), ("clock", .count clock),
      ("reason", .text reason)]

def ofDocument? (d : Document) : Option Anomaly := do
  let (name, d) ← d.tagged? "kind"
  match name with
  | "priority-inversion" =>
    let f ← d.fields? ["slo_class", "earlier", "later", "earlier_e2e", "later_e2e"]
    return .priorityInversion (← f.required "slo_class" SloClass.ofDocument?)
      (← f.count 64 "earlier") (← f.count 64 "later") (← f.count 64 "earlier_e2e")
      (← f.count 64 "later_e2e")
  | "head-of-line-blocking" =>
    let f ← d.fields? ["instance", "mean_queue_depth", "cluster_mean"]
    return .headOfLineBlocking (← f.count 32 "instance") (← f.real "mean_queue_depth")
      (← f.real "cluster_mean")
  | "invalid-routing" =>
    let f ← d.fields? ["request", "clock", "reason"]
    return .invalidRouting (← f.count 64 "request") (← f.count 64 "clock") (← f.text "reason")
  | _ => none

end Anomaly

def inversionFactor : Float := 2.0

def blockingFactor : Float := 2.0

/-- Whether `a` arrived no later than `b`, the lower id first among equals. -/
def Completion.arrivedBefore (a b : Completion) : Bool :=
  a.arrivalTime < b.arrivalTime || (a.arrivalTime = b.arrivalTime && a.request ≤ b.request)

/-- The inversion of two neighbours, if there is one. -/
def inversionOf? (sloClass : SloClass) (earlier later : Completion) : Option Anomaly :=
  if Binary64.ofCount earlier.e2e > inversionFactor * Binary64.ofCount later.e2e then
    some (.priorityInversion sloClass earlier.request later.request earlier.e2e later.e2e)
  else none

def ofClass (sloClass : SloClass) (completions : List Completion) : List Completion :=
  (completions.filter fun c => c.sloClass = sloClass).mergeSort Completion.arrivedBefore

def inversionsOfClass (sloClass : SloClass) (completions : List Completion) : List Anomaly :=
  let sorted := ofClass sloClass completions
  (sorted.zip sorted.tail).filterMap fun (earlier, later) => inversionOf? sloClass earlier later

def priorityInversions (completions : List Completion) : List Anomaly :=
  SloClass.all.flatMap fun c => inversionsOfClass c completions

/-- The instances that block at the head of their lines. One instance alone has no
average to be held against. -/
def headOfLineBlocking (instances : List Instance) : List Anomaly :=
  if instances.length < 2 then []
  else
    let mean := Binary64.sum (instances.map fun i => i.stats.meanQueueDepth) /
      Binary64.ofCount instances.length
    if mean ≤ 0.0 then []
    else
      (instances.filter fun i => i.stats.meanQueueDepth > blockingFactor * mean).map fun i =>
        .headOfLineBlocking i.id i.stats.meanQueueDepth mean

end InferenceSim
