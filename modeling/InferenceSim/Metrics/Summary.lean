import InferenceSim.Metrics.Anomaly
import InferenceSim.Metrics.Percentiles

/-! The summary of a run, and the log that it is drawn up from: the completions in
order, and how often requests were turned away or delayed. -/
namespace InferenceSim

/-- The figures of a whole run. Times are in milliseconds. -/
structure RunSummary where
  /-- The name of the run, usually that of its routing policy. -/
  label : String
  /-- From the first arrival to the last completion. -/
  durationMs : Float
  injected : Nat
  completed : Nat
  rejected : Nat
  rejectedAtAdmission : Nat
  rejectedAtRouting : Nat
  rejectedAtInstance : Nat
  /-- A request may be delayed more than once. -/
  admissionDelays : Nat
  stillQueued : Nat
  stillRunning : Nat
  /-- Requests between two stages when the run stopped. -/
  stillInTransit : Nat
  ttft : Percentiles
  gaps : Percentiles
  e2e : Percentiles
  queueWait : Percentiles
  schedulingDelay : Percentiles
  requestsPerSecond : Float
  inputTokensPerSecond : Float
  outputTokensPerSecond : Float
  totalTokensPerSecond : Float
  preemptions : Nat
  steps : Nat
  cacheHitRate : Float
  thrashRate : Float
  kvStats : List KvStats
  completedByInstance : List Nat
  loadVariation : Float
  jainIndex : Float
  inversions : Nat
  blockedInstances : List Nat
  anomalies : List Anomaly
  /-- Counters of the routing policy, by name. -/
  policyCounters : Std.ExtTreeMap String Float

namespace RunSummary

def toDocument (s : RunSummary) : Document :=
  .table [("label", .text s.label), ("duration_ms", .real s.durationMs),
    ("injected_requests", .count s.injected), ("completed_requests", .count s.completed),
    ("rejected_requests", .count s.rejected),
    ("rejected_at_admission", .count s.rejectedAtAdmission),
    ("rejected_at_routing", .count s.rejectedAtRouting),
    ("rejected_at_instance", .count s.rejectedAtInstance),
    ("admission_delays", .count s.admissionDelays), ("still_queued", .count s.stillQueued),
    ("still_running", .count s.stillRunning), ("still_in_transit", .count s.stillInTransit),
    ("ttft", s.ttft.toDocument), ("itl", s.gaps.toDocument),
    ("end_to_end_latency", s.e2e.toDocument), ("queue_wait", s.queueWait.toDocument),
    ("scheduling_delay", s.schedulingDelay.toDocument),
    ("requests_per_sec", .real s.requestsPerSecond),
    ("input_tokens_per_sec", .real s.inputTokensPerSecond),
    ("output_tokens_per_sec", .real s.outputTokensPerSecond),
    ("total_tokens_per_sec", .real s.totalTokensPerSecond),
    ("preemptions", .count s.preemptions), ("steps", .count s.steps),
    ("cache_hit_rate", .real s.cacheHitRate), ("kv_thrash_rate", .real s.thrashRate),
    ("per_instance_cache_stats", .ofList KvStats.toDocument s.kvStats),
    ("per_instance_completed", .ofList .count s.completedByInstance),
    ("load_cv", .real s.loadVariation), ("jains_fairness_index", .real s.jainIndex),
    ("priority_inversions", .count s.inversions),
    ("hol_blocked_instances", .ofList .count s.blockedInstances),
    ("anomalies", .ofList Anomaly.toDocument s.anomalies),
    ("custom_metrics",
      .table (s.policyCounters.toList.map fun (name, value) => (name, .real value)))]

def ofDocument? (d : Document) : Option RunSummary := do
  let f ← d.fields? ["label", "duration_ms", "injected_requests", "completed_requests",
    "rejected_requests", "rejected_at_admission", "rejected_at_routing", "rejected_at_instance",
    "admission_delays", "still_queued", "still_running", "still_in_transit", "ttft", "itl",
    "end_to_end_latency", "queue_wait", "scheduling_delay", "requests_per_sec",
    "input_tokens_per_sec", "output_tokens_per_sec", "total_tokens_per_sec", "preemptions",
    "steps", "cache_hit_rate", "kv_thrash_rate", "per_instance_cache_stats",
    "per_instance_completed", "load_cv", "jains_fairness_index", "priority_inversions",
    "hol_blocked_instances", "anomalies", "custom_metrics"]
  let percentiles (name : String) := f.required name Percentiles.ofDocument?
  let counters (d : Document) : Option (Std.ExtTreeMap String Float) :=
    (d.asMembers? Document.asReal?).map fun ms =>
      ms.foldl (fun m (name, value) => m.insert name value) ∅
  return {
    label := ← f.text "label"
    durationMs := ← f.real "duration_ms"
    injected := ← f.count 64 "injected_requests"
    completed := ← f.count 64 "completed_requests"
    rejected := ← f.count 64 "rejected_requests"
    rejectedAtAdmission := ← f.count 64 "rejected_at_admission"
    rejectedAtRouting := ← f.count 64 "rejected_at_routing"
    rejectedAtInstance := ← f.count 64 "rejected_at_instance"
    admissionDelays := ← f.count 64 "admission_delays"
    stillQueued := ← f.count 64 "still_queued"
    stillRunning := ← f.count 64 "still_running"
    stillInTransit := ← f.count 64 "still_in_transit"
    ttft := ← percentiles "ttft"
    gaps := ← percentiles "itl"
    e2e := ← percentiles "end_to_end_latency"
    queueWait := ← percentiles "queue_wait"
    schedulingDelay := ← percentiles "scheduling_delay"
    requestsPerSecond := ← f.real "requests_per_sec"
    inputTokensPerSecond := ← f.real "input_tokens_per_sec"
    outputTokensPerSecond := ← f.real "output_tokens_per_sec"
    totalTokensPerSecond := ← f.real "total_tokens_per_sec"
    preemptions := ← f.count 64 "preemptions"
    steps := ← f.count 64 "steps"
    cacheHitRate := ← f.real "cache_hit_rate"
    thrashRate := ← f.real "kv_thrash_rate"
    kvStats := ← f.required "per_instance_cache_stats" (Document.asList? KvStats.ofDocument?)
    completedByInstance :=
      ← f.required "per_instance_completed" (Document.asList? (Document.asCount? 64))
    loadVariation := ← f.real "load_cv"
    jainIndex := ← f.real "jains_fairness_index"
    inversions := ← f.count 64 "priority_inversions"
    blockedInstances :=
      ← f.required "hol_blocked_instances" (Document.asList? (Document.asCount? 32))
    anomalies := ← f.required "anomalies" (Document.asList? Anomaly.ofDocument?)
    policyCounters := ← f.required "custom_metrics" counters }

end RunSummary

/-- What a run is known by, apart from its log and its instances. -/
structure RunContext where
  label : String := ""
  injected : Nat := 0
  inTransit : Nat := 0
  /-- Inversions mean nothing where all priorities are the same. -/
  skipInversions : Bool := false
  policyCounters : Std.ExtTreeMap String Float := ∅

/-- The log of a run. -/
structure RunLog where
  /-- How many completions at the start count as warm-up and are left out. -/
  warmup : Nat
  /-- All completions in order. -/
  all : Array Completion := #[]
  rejectedAtAdmission : Nat := 0
  rejectedAtRouting : Nat := 0
  rejectedAtInstance : Nat := 0
  delays : Nat := 0
  /-- Routing decisions that no instance could serve, in order. -/
  misrouted : List Anomaly := []

namespace RunLog

def new (warmup : Nat) : RunLog := { warmup }

/-- Logs a completed request; one that is not complete leaves no trace. -/
def complete (l : RunLog) (r : Request) : RunLog :=
  match Completion.ofRequest? r with
  | some c => { l with all := l.all.push c }
  | none => l

def rejectAtAdmission (l : RunLog) : RunLog :=
  { l with rejectedAtAdmission := l.rejectedAtAdmission + 1 }

def rejectAtRouting (l : RunLog) : RunLog :=
  { l with rejectedAtRouting := l.rejectedAtRouting + 1 }

def rejectAtInstance (l : RunLog) : RunLog :=
  { l with rejectedAtInstance := l.rejectedAtInstance + 1 }

def delay (l : RunLog) : RunLog := { l with delays := l.delays + 1 }

def misroute (l : RunLog) (request clock : Nat) (reason : String) : RunLog :=
  { l with misrouted := l.misrouted ++ [.invalidRouting request clock reason] }

def completed (l : RunLog) : Nat := l.all.size

def rejected (l : RunLog) : Nat :=
  l.rejectedAtAdmission + l.rejectedAtRouting + l.rejectedAtInstance

def completions (l : RunLog) : List Completion := l.all.toList.drop l.warmup

def fraction (part whole : Nat) : Float :=
  if whole = 0 then 0.0 else Binary64.ofCount part / Binary64.ofCount whole

/-- The summary of a run from its log and its instances. -/
def summarize (l : RunLog) (context : RunContext) (instances : List Instance) : RunSummary :=
  let cs := l.completions
  let first := (cs.map (·.arrivalTime)).min?.getD 0
  let last := (cs.map (·.endTime)).max?.getD 0
  let duration := last - first
  let seconds := Binary64.ofCount duration / 1000000.0
  let perSecond (n : Nat) : Float :=
    if seconds > 0.0 then Binary64.ofCount n / seconds else 0.0
  let sum (f : Completion → Nat) : Nat := totalOf (cs.map f)
  let hits := sum (·.cacheHitBlocks)
  let kvStats := instances.map fun i => i.kv.stats
  let tiers := kvStats.filterMap (·.tier)
  let completedByInstance := instances.map (·.stats.completed)
  let inversions := if context.skipInversions then [] else priorityInversions cs
  let blocking := headOfLineBlocking instances
  { label := context.label
    durationMs := ticksToMs duration
    injected := context.injected
    completed := cs.length
    rejected := l.rejected
    rejectedAtAdmission := l.rejectedAtAdmission
    rejectedAtRouting := l.rejectedAtRouting
    rejectedAtInstance := l.rejectedAtInstance
    admissionDelays := l.delays
    stillQueued := totalOf (instances.map (·.queueDepth))
    stillRunning := totalOf (instances.map (·.batchSize))
    stillInTransit := context.inTransit
    ttft := .ofTicks (cs.map (·.ttft))
    gaps := .ofTicks (cs.flatMap (·.gaps))
    e2e := .ofTicks (cs.map (·.e2e))
    queueWait := .ofTicks (cs.map (·.queueWait))
    schedulingDelay := .ofTicks (cs.map (·.schedulingDelay))
    requestsPerSecond := perSecond cs.length
    inputTokensPerSecond := perSecond (sum (·.inputTokens))
    outputTokensPerSecond := perSecond (sum (·.outputTokens))
    totalTokensPerSecond := perSecond (sum (·.inputTokens) + sum (·.outputTokens))
    preemptions := totalOf (instances.map (·.stats.preemptions))
    steps := totalOf (instances.map (·.stats.steps))
    cacheHitRate := fraction hits (hits + sum (·.cacheMissBlocks))
    thrashRate := fraction (totalOf (tiers.map (·.thrashes))) (totalOf (tiers.map (·.reloads)))
    kvStats
    completedByInstance
    loadVariation := variation completedByInstance
    jainIndex := InferenceSim.jainIndex completedByInstance
    inversions := inversions.length
    blockedInstances := blocking.filterMap fun a => match a with
      | .headOfLineBlocking host _ _ => some host
      | _ => none
    anomalies := inversions ++ blocking ++ l.misrouted
    policyCounters := context.policyCounters }

end RunLog

end InferenceSim
