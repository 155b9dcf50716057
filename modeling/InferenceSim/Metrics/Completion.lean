import InferenceSim.Clock
import InferenceSim.Counting
import InferenceSim.Request.Form

/-! What is kept of a request once it is complete. All times are in ticks. -/
namespace InferenceSim

/-- The figures of one completed request. -/
structure Completion where
  request : Nat
  host : Nat
  arrivalTime : Nat
  inputTokens : Nat
  outputTokens : Nat
  sloClass : SloClass
  tenant : Nat
  /-- From the wait queue of the instance to the first batch. -/
  queueWait : Nat
  /-- From arrival to the first batch. -/
  schedulingDelay : Nat
  ttft : Nat
  e2e : Nat
  gaps : List Nat
  preemptions : Nat
  cacheHitBlocks : Nat
  cacheMissBlocks : Nat
  deriving DecidableEq, Repr, Inhabited

namespace Completion

/-- The figures of a request; there are none before its completion. -/
def ofRequest? (r : Request) : Option Completion :=
  r.e2e.map fun e2e =>
    { request := r.id
      host := r.host.getD 0
      arrivalTime := r.arrivalTime
      inputTokens := r.inputTokens
      outputTokens := r.outputTokens
      sloClass := r.sloClass
      tenant := r.tenant
      queueWait := r.queueWait.getD 0
      schedulingDelay := r.timing.firstScheduled.getD r.arrivalTime - r.arrivalTime
      ttft := r.ttft.getD e2e
      e2e
      gaps := r.timing.gaps
      preemptions := r.preemptions
      cacheHitBlocks := r.cacheHitBlocks
      cacheMissBlocks := r.cacheMissBlocks }

def endTime (c : Completion) : Nat := c.arrivalTime + c.e2e

def meanGapMs (c : Completion) : Float :=
  if c.gaps.isEmpty then 0.0 else ticksToMs (totalOf c.gaps) / Binary64.ofCount c.gaps.length

def toDocument (c : Completion) : Document :=
  .table [("request_id", .count c.request), ("instance", .count c.host),
    ("arrival_time", .count c.arrivalTime), ("input_tokens", .count c.inputTokens),
    ("output_tokens", .count c.outputTokens), ("slo_class", c.sloClass.toDocument),
    ("tenant_id", .count c.tenant), ("queue_wait", .count c.queueWait),
    ("scheduling_delay", .count c.schedulingDelay), ("ttft", .count c.ttft),
    ("e2e", .count c.e2e), ("itls", .ofList .count c.gaps),
    ("preemptions", .count c.preemptions), ("cache_hit_blocks", .count c.cacheHitBlocks),
    ("cache_miss_blocks", .count c.cacheMissBlocks)]

def ofDocument? (d : Document) : Option Completion := do
  let f ← d.fields? ["request_id", "instance", "arrival_time", "input_tokens", "output_tokens",
    "slo_class", "tenant_id", "queue_wait", "scheduling_delay", "ttft", "e2e", "itls",
    "preemptions", "cache_hit_blocks", "cache_miss_blocks"]
  return {
    request := ← f.count 64 "request_id"
    host := ← f.count 32 "instance"
    arrivalTime := ← f.count 64 "arrival_time"
    inputTokens := ← f.count 32 "input_tokens"
    outputTokens := ← f.count 32 "output_tokens"
    sloClass := ← f.required "slo_class" SloClass.ofDocument?
    tenant := ← f.count 32 "tenant_id"
    queueWait := ← f.count 64 "queue_wait"
    schedulingDelay := ← f.count 64 "scheduling_delay"
    ttft := ← f.count 64 "ttft"
    e2e := ← f.count 64 "e2e"
    gaps := ← f.required "itls" (Document.asList? (Document.asCount? 64))
    preemptions := ← f.count 32 "preemptions"
    cacheHitBlocks := ← f.count 32 "cache_hit_blocks"
    cacheMissBlocks := ← f.count 32 "cache_miss_blocks" }

end Completion

end InferenceSim
