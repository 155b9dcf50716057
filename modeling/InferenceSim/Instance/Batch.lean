import InferenceSim.Kv.Cache
import InferenceSim.Latency
import InferenceSim.Policy.Scheduler

/-! Forming the batch of one step. The running requests are continued first; when
blocks run out, the request admitted last gives way. Then queued requests are
taken in while the limits allow, unless this step has preempted. -/
namespace InferenceSim

/-- The limits of every step. -/
structure BatchLimits where
  maxRunning : Nat
  maxTokens : Nat
  /-- The largest chunk of a prompt; zero sets no limit. -/
  longPrefill : Nat
  chunkedPrefill : Bool
  deriving DecidableEq, Repr, Inhabited

namespace BatchLimits

/-- The tokens of a prompt with `remaining` tokens to compute in this step; none if it
has to wait for a step with more budget. -/
def prefillChunk (l : BatchLimits) (remaining budget : Nat) : Option Nat :=
  if !l.chunkedPrefill then if remaining ≤ budget then some remaining else none
  else
    let tokens := min remaining budget
    some (if 0 < l.longPrefill then min tokens l.longPrefill else tokens)

def toDocument (l : BatchLimits) : Document :=
  .table [("max_running_requests", .count l.maxRunning),
    ("max_scheduled_tokens", .count l.maxTokens),
    ("long_prefill_threshold", .count l.longPrefill),
    ("chunked_prefill", .bool l.chunkedPrefill)]

def ofDocument? (d : Document) : Option BatchLimits := do
  let f ← d.fields? ["max_running_requests", "max_scheduled_tokens", "long_prefill_threshold",
    "chunked_prefill"]
  return {
    maxRunning := ← f.count 32 "max_running_requests"
    maxTokens := ← f.count 32 "max_scheduled_tokens"
    longPrefill := ← f.count 32 "long_prefill_threshold"
    chunkedPrefill := ← f.bool "chunked_prefill" }

end BatchLimits

/-- The work of one request in a step, and its progress once the step is done. -/
structure ScheduledWork where
  request : Nat
  newTokens : Nat
  progressAfter : Nat
  isPrefill : Bool
  deriving DecidableEq, Repr

/-- What forming a batch has decided. -/
structure BatchOutcome where
  scheduled : List ScheduledWork := []
  /-- Requests taken from the queue. -/
  admitted : List Nat := []
  preempted : List Nat := []
  deriving DecidableEq, Repr, Inhabited

namespace BatchOutcome

def isEmpty (o : BatchOutcome) : Bool := o.scheduled.isEmpty

/-- The shape that the latency model sees. -/
def shape (o : BatchOutcome) : StepShape :=
  o.scheduled.foldl (fun s w =>
    if w.isPrefill then
      { s with
        prefillTokens := s.prefillTokens + w.newTokens
        prefillRequests := s.prefillRequests + 1
        maxPrefillChunk := max s.maxPrefillChunk w.newTokens }
    else
      { s with
        decodeTokens := s.decodeTokens + w.newTokens
        decodeRequests := s.decodeRequests + 1 }) {}

end BatchOutcome

/-- The part of an instance that forming a batch works on. -/
structure BatchState where
  running : List Request
  queue : List Request
  kv : KvCache

/-- The outcome of continuing the running requests. -/
structure Continued where
  running : List Request
  scheduled : List ScheduledWork
  preempted : List Nat
  queue : List Request
  kv : KvCache
  budget : Nat

/-- The tokens that a running request computes in this step: a chunk of its prompt, or
one token of output. -/
def continuation (limits : BatchLimits) (r : Request) (budget : Nat) : Option Nat :=
  if r.inPrefill then limits.prefillChunk r.remainingPrefill budget else some 1

/-- Sends a running request back to the front of the queue, without blocks and with its
progress lost. -/
def preempt (r : Request) (queue : List Request) (kv : KvCache) :
    Except Fault (List Request × KvCache) := do
  let kv ← kv.releasing r.id
  match { r with progress := 0, preemptions := r.preemptions + 1 }.transition .queued with
  | .error v => throw (.violation v)
  | .ok r => return (r :: queue, kv)

/-- Continues the running requests in order. Every round settles one of them, so their
number is enough fuel. -/
def continueRunning (limits : BatchLimits) : (fuel : Nat) → (budget : Nat) →
    (todo queue : List Request) → KvCache → Except Fault Continued
  | 0, budget, todo, queue, kv =>
    .ok { running := todo, scheduled := [], preempted := [], queue, kv, budget }
  | fuel + 1, budget, todo, queue, kv =>
    match todo with
    | [] => .ok { running := [], scheduled := [], preempted := [], queue, kv, budget }
    | r :: rest =>
      if budget = 0 then
        .ok { running := todo, scheduled := [], preempted := [], queue, kv, budget }
      else match continuation limits r budget with
        | none => do
          let k ← continueRunning limits fuel budget rest queue kv
          return { k with running := r :: k.running }
        | some tokens =>
          match KvOp.allocate r r.progress (r.progress + tokens) {} kv with
          | .ok _ kv => do
            let work : ScheduledWork :=
              { request := r.id, newTokens := tokens, progressAfter := r.progress + tokens
                isPrefill := r.inPrefill }
            let k ← continueRunning limits fuel (budget - tokens) rest queue kv
            return { k with running := r :: k.running, scheduled := work :: k.scheduled }
          | .error (.fault f) _ => .error f
          | .error (.exhausted _ _) kv => do
            let victim := (r :: rest).getLast (List.cons_ne_nil r rest)
            let (queue, kv) ← preempt victim queue kv
            if rest.isEmpty then
              return { running := [], scheduled := [], preempted := [victim.id], queue, kv
                       budget }
            else
              let k ← continueRunning limits fuel budget (r :: rest).dropLast queue kv
              return { k with preempted := victim.id :: k.preempted }

/-- The outcome of taking in queued requests. -/
structure Admitted where
  entered : List Request
  scheduled : List ScheduledWork
  queue : List Request
  kv : KvCache

/-- Marks a request as running. A request that comes with its prompt computed was
already charged for the look-up of its prefix. -/
def enterBatch (r : Request) (m : PrefixMatch) (now : Nat) : Except Violation Request := do
  let r ← r.transition .running
  let r := { r with
    timing := { r.timing with firstScheduled := some (r.timing.firstScheduled.getD now) } }
  if r.inPrefill then
    return { r with
      cacheHitBlocks := wrap (r.cacheHitBlocks + m.size)
      cacheMissBlocks := wrap (r.cacheMissBlocks + (m.promptBlocks - m.size)) }
  else return r

/-- Takes in requests from the front of the queue until one does not fit. -/
def takeQueued (limits : BatchLimits) (now : Nat) : (queue : List Request) →
    (running budget : Nat) → KvCache → Except Fault Admitted
  | [], _, _, kv => .ok { entered := [], scheduled := [], queue := [], kv }
  | head :: rest, running, budget, kv =>
    let stop (kv : KvCache) : Except Fault Admitted :=
      .ok { entered := [], scheduled := [], queue := head :: rest, kv }
    if running < limits.maxRunning ∧ 0 < budget then do
      let m ← kv.lookup? head
      let start := max head.progress (m.cachedTokens kv.blockSize)
      let isPrefill := start < head.inputTokens
      match if isPrefill then limits.prefillChunk (head.inputTokens - start) budget
          else some 1 with
      | none => stop kv
      | some tokens =>
        match KvOp.allocate head start (start + tokens) m kv with
        | .error (.exhausted _ _) kv => stop kv
        | .error (.fault f) _ => throw f
        | .ok _ kv =>
          match enterBatch head m now with
          | .error v => throw (.violation v)
          | .ok r =>
            let work : ScheduledWork :=
              { request := head.id, newTokens := tokens, progressAfter := start + tokens
                isPrefill }
            let more ← takeQueued limits now rest (running + 1) (budget - tokens) kv
            return { more with
              entered := r :: more.entered, scheduled := work :: more.scheduled }
    else stop kv

/-- Forms the next batch. The queue is put in running order first. -/
def formBatch (limits : BatchLimits) (rule : SchedulerRule) (now : Nat) (s : BatchState) :
    Except Fault (BatchOutcome × BatchState) := do
  let queue := rule.sort Request.view s.queue
  let k ← continueRunning limits s.running.length limits.maxTokens s.running queue s.kv
  if k.preempted.isEmpty then
    let a ← takeQueued limits now k.queue k.running.length k.budget k.kv
    return ({ scheduled := k.scheduled ++ a.scheduled, admitted := a.entered.map (·.id) },
      { running := k.running ++ a.entered, queue := a.queue, kv := a.kv })
  else
    return ({ scheduled := k.scheduled, preempted := k.preempted },
      { running := k.running, queue := k.queue, kv := k.kv })

namespace BatchState

/-- Carries out some work: its request advances, and leaves once it is done. -/
def applyOne (now : Nat) (left : List Nat × BatchState) (w : ScheduledWork) :
    Except Fault (List Nat × BatchState) :=
  let (ids, s) := left
  match s.running.span fun r => r.id ≠ w.request with
  | (_, []) => .ok left
  | (before, r :: rest) => do
    let r := r.advance w.progressAfter now
    if r.isDone then
      let kv ← s.kv.releasing r.id
      return (ids ++ [r.id], { s with running := before ++ rest, kv })
    else return (ids, { s with running := before ++ r :: rest })

/-- Carries out a batch. The result has the requests that are done, in order. -/
def apply (s : BatchState) (o : BatchOutcome) (now : Nat) :
    Except Fault (List Nat × BatchState) :=
  o.scheduled.foldlM (applyOne now) ([], s)

end BatchState

end InferenceSim
