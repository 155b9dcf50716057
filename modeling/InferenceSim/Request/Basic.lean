import InferenceSim.Counting
import InferenceSim.Request.Priority
import InferenceSim.Violation

/-! Requests: their token counts, their scheduling data, and the times recorded as
they move through the cluster. -/
namespace InferenceSim

/-- When things happened to a request, in absolute ticks; `gaps` holds the ticks
between consecutive output tokens. -/
structure RequestTiming where
  /-- The first time the request entered the wait queue of an instance. -/
  enqueueTime : Option Nat := none
  /-- The first time the request was taken into a running batch. -/
  firstScheduled : Option Nat := none
  firstTokenTime : Option Nat := none
  lastTokenTime : Option Nat := none
  gaps : List Nat := []
  completionTime : Option Nat := none
  deriving DecidableEq, Repr, Inhabited

/-- What policies see of a request. -/
structure RequestView where
  id : Nat
  arrivalTime : Nat
  inputTokens : Nat
  outputTokens : Nat
  progress : Nat
  priority : Priority
  tenant : Nat
  sloClass : SloClass
  shared : Option SharedPrefix
  deriving Inhabited

/-- A request for inference: a prompt of `inputTokens`, then `outputTokens` to be
generated one by one. -/
structure Request where
  id : Nat
  arrivalTime : Nat
  inputTokens : Nat
  outputTokens : Nat
  /-- Tokens whose KV has been computed so far, the prompt first. -/
  progress : Nat := 0
  priority : Priority := .ofFloat 0.0
  tenant : Nat := 0
  sloClass : SloClass := .standard
  shared : Option SharedPrefix := none
  state : RequestState := .arrived
  timing : RequestTiming := {}
  preemptions : Nat := 0
  /-- The instance that decodes after a handoff; none once handed off. -/
  decodeTarget : Option Nat := none
  /-- The instance that holds the request. -/
  host : Option Nat := none
  cacheHitBlocks : Nat := 0
  cacheMissBlocks : Nat := 0
  /-- Output tokens emitted so far. Preemption keeps it, so that recomputed tokens
  are not emitted twice. -/
  emittedTokens : Nat := 0
  deriving Inhabited

namespace Request

/-- Gives a fresh request a shared prefix, cut to its prompt. -/
def withPrefix (r : Request) (group tokens : Nat) : Request :=
  { r with shared := some { group, tokens := min tokens r.inputTokens } }

def transition (r : Request) (target : RequestState) : Except Violation Request :=
  if r.state.canMoveTo target then .ok { r with state := target }
  else .error (.illegalTransition r.id r.state target)

/-- The view handed to policies. -/
def view (r : Request) : RequestView :=
  { id := r.id, arrivalTime := r.arrivalTime, inputTokens := r.inputTokens
    outputTokens := r.outputTokens, progress := r.progress, priority := r.priority
    tenant := r.tenant, sloClass := r.sloClass, shared := r.shared }

/-- Whether part of the prompt is still to be computed. -/
def inPrefill (r : Request) : Bool := r.progress < r.inputTokens

def remainingPrefill (r : Request) : Nat := r.inputTokens - r.progress

/-- The progress at which the request is done, unless 32 bits are too few for it. Even a
request without output makes the one token that ends its prompt. -/
def completionProgress (r : Request) : Nat := wrap (r.inputTokens + max r.outputTokens 1 - 1)

/-- The most tokens whose KV the request may hold, as 32 bits count them. -/
def totalTokens (r : Request) : Nat := wrap (r.inputTokens + r.outputTokens)

def ttft (r : Request) : Option Nat := r.timing.firstTokenTime.map (· - r.arrivalTime)

def e2e (r : Request) : Option Nat := r.timing.completionTime.map (· - r.arrivalTime)

/-- The time from the first wait queue to the first batch. -/
def queueWait (r : Request) : Option Nat :=
  match r.timing.enqueueTime, r.timing.firstScheduled with
  | some enqueued, some scheduled => some (scheduled - enqueued)
  | _, _ => none

def isDone (r : Request) : Bool := r.completionProgress ≤ r.progress

/-- Records that a token came out at `now`: the first one starts the timing of
output, a later one adds the gap since the last. -/
def recordToken (t : RequestTiming) (now : Nat) : RequestTiming :=
  match t.lastTokenTime with
  | some last => { t with gaps := t.gaps ++ [now - last], lastTokenTime := some now }
  | none => { t with firstTokenTime := some now, lastTokenTime := some now }

/-- Records that computed progress reached `progress` at `now`. Reaching the end of
the prompt emits the first output token and each later advance one more; what
was emitted before a preemption is recomputed in silence. -/
def advance (r : Request) (progress now : Nat) : Request :=
  let r := { r with progress }
  if r.inPrefill then r
  else
    let emitted := progress - r.inputTokens + 1
    if emitted ≤ r.emittedTokens then r
    else { r with timing := recordToken r.timing now, emittedTokens := emitted }

end Request

end InferenceSim
