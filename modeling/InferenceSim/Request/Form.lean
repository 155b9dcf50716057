import InferenceSim.Document.Toml
import InferenceSim.Request.Basic

/-! The written form of requests: records with the fields in a fixed order, from
which the request can be read back. -/
namespace InferenceSim

namespace Priority

/-- A priority on its own is written with the digits of its bits, which leave nothing to rounding. -/
def toDocument (p : Priority) : Document :=
  if p.toFloat.isNaN then .text "nan"
  else .text (String.ofList ((Nat.toDigits 16 p.bits.toNat).leftpad 16 '0'))

def ofDocument? : Document → Option Priority
  | .text "nan" => some (.ofFloat (0.0 / 0.0))
  | .text digits => (Toml.hexNumber? digits.toList).map fun n => ⟨.ofNat n⟩
  | _ => none

end Priority

namespace RequestView

def toDocument (r : RequestView) : Document :=
  .table [("id", .count r.id), ("arrival_time", .count r.arrivalTime),
    ("input_tokens", .count r.inputTokens), ("output_tokens", .count r.outputTokens),
    ("progress", .count r.progress), ("priority", .real r.priority.toFloat),
    ("tenant_id", .count r.tenant), ("slo_class", r.sloClass.toDocument),
    ("prefix", .option SharedPrefix.toDocument r.shared)]

def ofDocument? (d : Document) : Option RequestView := do
  let f ← d.fields? ["id", "arrival_time", "input_tokens", "output_tokens", "progress",
    "priority", "tenant_id", "slo_class", "prefix"]
  return {
    id := ← f.count 64 "id"
    arrivalTime := ← f.count 64 "arrival_time"
    inputTokens := ← f.count 32 "input_tokens"
    outputTokens := ← f.count 32 "output_tokens"
    progress := ← f.count 32 "progress"
    priority := ← f.real "priority"
    tenant := ← f.count 32 "tenant_id"
    sloClass := ← f.required "slo_class" SloClass.ofDocument?
    shared := ← f.optional "prefix" SharedPrefix.ofDocument? }

end RequestView

namespace RequestTiming

def toDocument (t : RequestTiming) : Document :=
  .table [("enqueue_time", .option .count t.enqueueTime),
    ("first_scheduled", .option .count t.firstScheduled),
    ("first_token_time", .option .count t.firstTokenTime),
    ("last_token_time", .option .count t.lastTokenTime), ("itls", .ofList .count t.gaps),
    ("completion_time", .option .count t.completionTime)]

def ofDocument? (d : Document) : Option RequestTiming := do
  let f ← d.fields? ["enqueue_time", "first_scheduled", "first_token_time", "last_token_time",
    "itls", "completion_time"]
  let tick := Document.asCount? 64
  return {
    enqueueTime := ← f.optional "enqueue_time" tick
    firstScheduled := ← f.optional "first_scheduled" tick
    firstTokenTime := ← f.optional "first_token_time" tick
    lastTokenTime := ← f.optional "last_token_time" tick
    gaps := ← f.required "itls" (Document.asList? tick)
    completionTime := ← f.optional "completion_time" tick }

end RequestTiming

namespace Request

def toDocument (r : Request) : Document :=
  .table [("id", .count r.id), ("arrival_time", .count r.arrivalTime),
    ("input_tokens", .count r.inputTokens), ("output_tokens", .count r.outputTokens),
    ("progress", .count r.progress), ("priority", .real r.priority.toFloat),
    ("tenant_id", .count r.tenant), ("slo_class", r.sloClass.toDocument),
    ("prefix", .option SharedPrefix.toDocument r.shared), ("state", r.state.toDocument),
    ("timing", r.timing.toDocument), ("preemptions", .count r.preemptions),
    ("decode_target", .option .count r.decodeTarget),
    ("instance", .option .count r.host), ("cache_hit_blocks", .count r.cacheHitBlocks),
    ("cache_miss_blocks", .count r.cacheMissBlocks),
    ("emitted_tokens", .count r.emittedTokens)]

def ofDocument? (d : Document) : Option Request := do
  let f ← d.fields? ["id", "arrival_time", "input_tokens", "output_tokens", "progress",
    "priority", "tenant_id", "slo_class", "prefix", "state", "timing", "preemptions",
    "decode_target", "instance", "cache_hit_blocks", "cache_miss_blocks", "emitted_tokens"]
  return {
    id := ← f.count 64 "id"
    arrivalTime := ← f.count 64 "arrival_time"
    inputTokens := ← f.count 32 "input_tokens"
    outputTokens := ← f.count 32 "output_tokens"
    progress := ← f.count 32 "progress"
    priority := ← f.real "priority"
    tenant := ← f.count 32 "tenant_id"
    sloClass := ← f.required "slo_class" SloClass.ofDocument?
    shared := ← f.optional "prefix" SharedPrefix.ofDocument?
    state := ← f.required "state" RequestState.ofDocument?
    timing := ← f.required "timing" RequestTiming.ofDocument?
    preemptions := ← f.count 32 "preemptions"
    decodeTarget := ← f.optional "decode_target" (Document.asCount? 32)
    host := ← f.optional "instance" (Document.asCount? 32)
    cacheHitBlocks := ← f.count 32 "cache_hit_blocks"
    cacheMissBlocks := ← f.count 32 "cache_miss_blocks"
    emittedTokens := ← f.count 32 "emitted_tokens" }

end Request

end InferenceSim
