import InferenceSim.Event.Queue
import InferenceSim.Instance.Batch
import InferenceSim.Kv.Stats
import InferenceSim.Policy.Priority

/-! An instance: a wait queue, a running batch, a cache and a scheduler. It runs one
step at a time. A step forms a batch and schedules its completion; the completion
advances the requests, finishes them or hands them off, and schedules the next
step while work is left. -/
namespace InferenceSim

/-- What every instance is built from. -/
structure InstanceSpec where
  kvBlocks : Nat
  blockSize : Nat
  limits : BatchLimits
  tier : Option HostTierConfig
  deriving Inhabited

/-- Counters over a run. -/
structure InstanceStats where
  steps : Nat := 0
  completed : Nat := 0
  rejected : Nat := 0
  preemptions : Nat := 0
  handoffs : Nat := 0
  prefillTokens : Nat := 0
  decodeTokens : Nat := 0
  busyTicks : Nat := 0
  peakKvBlocks : Nat := 0
  /-- The depths of the wait queue at every step, added up. -/
  queueDepthSum : Nat := 0
  queueDepthSamples : Nat := 0
  deriving DecidableEq, Repr, Inhabited

namespace InstanceStats

def meanQueueDepth (s : InstanceStats) : Float :=
  if s.queueDepthSamples = 0 then 0.0
  else Binary64.ofCount s.queueDepthSum / Binary64.ofCount s.queueDepthSamples

def toDocument (s : InstanceStats) : Document :=
  .table [("steps", .count s.steps), ("completed", .count s.completed),
    ("rejected", .count s.rejected), ("preemptions", .count s.preemptions),
    ("handoffs", .count s.handoffs), ("prefill_tokens", .count s.prefillTokens),
    ("decode_tokens", .count s.decodeTokens), ("busy_ticks", .count s.busyTicks),
    ("peak_kv_blocks", .count s.peakKvBlocks), ("queue_depth_sum", .count s.queueDepthSum),
    ("queue_depth_samples", .count s.queueDepthSamples)]

def ofDocument? (d : Document) : Option InstanceStats := do
  let f ← d.fields? ["steps", "completed", "rejected", "preemptions", "handoffs",
    "prefill_tokens", "decode_tokens", "busy_ticks", "peak_kv_blocks", "queue_depth_sum",
    "queue_depth_samples"]
  return {
    steps := ← f.count 64 "steps"
    completed := ← f.count 64 "completed"
    rejected := ← f.count 64 "rejected"
    preemptions := ← f.count 64 "preemptions"
    handoffs := ← f.count 64 "handoffs"
    prefillTokens := ← f.count 64 "prefill_tokens"
    decodeTokens := ← f.count 64 "decode_tokens"
    busyTicks := ← f.count 64 "busy_ticks"
    peakKvBlocks := ← f.count 64 "peak_kv_blocks"
    queueDepthSum := ← f.count 64 "queue_depth_sum"
    queueDepthSamples := ← f.count 64 "queue_depth_samples" }

end InstanceStats

/-- The load of an instance right now. -/
structure LiveLoad where
  queueDepth : Nat
  batchSize : Nat
  kvUtilization : Float
  freeKvBlocks : Nat
  cacheHitRate : Float
  deriving Inhabited

/-- Why a request can never run on an instance. -/
inductive Unfit where
  | emptyPrompt
  | overBudget (prompt budget : Nat)
  | tooFewBlocks (needed total : Nat)
  deriving DecidableEq, Repr

def Unfit.message : Unfit → String
  | emptyPrompt => "empty prompt"
  | overBudget prompt budget =>
    s!"prompt of {prompt} tokens exceeds token budget {budget} with chunked prefill disabled"
  | tooFewBlocks needed total => s!"needs {needed} kv blocks, instance has {total}"

/-- What became of a request that was handed to an instance. -/
inductive Enqueued where
  | queued
  | rejected (request : Request) (reason : Unfit)

/-- A request whose prompt was computed here and which is decoded elsewhere. -/
structure Handoff where
  request : Request
  decode : Nat
  /-- The blocks to transfer. -/
  blocks : Nat
  deriving Inhabited

/-- What a completed step has produced. -/
structure StepReport where
  completed : List Request := []
  handoffs : List Handoff := []
  deriving Inhabited

/-- One serving instance. -/
structure Instance where
  id : Nat
  role : Role
  kv : KvCache
  scheduler : SchedulerRule
  limits : BatchLimits
  queue : List Request := []
  running : List Request := []
  /-- Whether a step or the completion of one is scheduled. -/
  busy : Bool := false
  inFlight : Option BatchOutcome := none
  stepStarted : Nat := 0
  stats : InstanceStats := {}

namespace Instance

def new (id : Nat) (role : Role) (spec : InstanceSpec) (scheduler : SchedulerRule) : Instance :=
  let kv := KvCache.new id spec.kvBlocks spec.blockSize
  { id, role, scheduler
    limits := spec.limits
    kv := match spec.tier with
      | some tier => kv.withTier tier
      | none => kv }

def queueDepth (i : Instance) : Nat := i.queue.length

def batchSize (i : Instance) : Nat := i.running.length

def isIdle (i : Instance) : Bool := !i.busy

def load (i : Instance) : LiveLoad :=
  { queueDepth := i.queueDepth, batchSize := i.batchSize, kvUtilization := i.kv.utilization
    freeKvBlocks := i.kv.free, cacheHitRate := i.kv.hitRate }

/-- Why a request can never run here, if it cannot. -/
def unfit? (i : Instance) (r : Request) : Except Fault (Option Unfit) :=
  if r.inputTokens = 0 then .ok (some .emptyPrompt)
  else if !i.limits.chunkedPrefill && i.limits.maxTokens < r.remainingPrefill then
    .ok (some (.overBudget r.inputTokens i.limits.maxTokens))
  else do
    let blocks ← i.kv.blocksFor? r.totalTokens
    return if i.kv.total < blocks then some (.tooFewBlocks blocks i.kv.total) else none

/-- Schedules an action and marks the instance as busy. What was done before stays when
the time has passed. -/
def wake (i : Instance) (time : Nat) (action : Action) (events : EventQueue) :
    Except Fault Unit × Instance × EventQueue :=
  match events.schedule time action with
  | .ok (_, events) => (.ok (), { i with busy := true }, events)
  | .error v => (.error (.violation v), { i with busy := true }, events)

/-- A request that is about to wait here: queued, and located at this instance. -/
def receive (i : Instance) (r : Request) : Except Fault Request :=
  let located (r : Request) : Request := { r with host := some i.id }
  if r.state = .arrived then
    match r.transition .queued with
    | .ok r => .ok (located r)
    | .error v => .error (.violation v)
  else .ok (located r)

/-- Puts a request on the wait queue, and wakes an idle instance. A request that can
never run here is rejected. -/
def enqueue (i : Instance) (r : Request) (now : Nat) (events : EventQueue) :
    Except Fault Enqueued × Instance × EventQueue :=
  match i.receive r with
  | .error f => (.error f, i, events)
  | .ok r =>
    match i.unfit? r with
    | .error f => (.error f, i, events)
    | .ok (some reason) =>
      match r.transition .rejected with
      | .error v => (.error (.violation v), i, events)
      | .ok r =>
        (.ok (.rejected r reason),
          { i with stats := { i.stats with rejected := i.stats.rejected + 1 } }, events)
    | .ok none =>
      let r := { r with
        timing := { r.timing with enqueueTime := some (r.timing.enqueueTime.getD now) } }
      let i := { i with queue := i.queue ++ [r] }
      if i.busy then (.ok .queued, i, events)
      else
        let (result, i, events) := i.wake now (.step i.id) events
        (result.map fun () => .queued, i, events)

/-- Forms a batch and schedules its completion. A step that could only preempt is tried
again once the preemptions are paid for; one that finds nothing to do idles. -/
def step (i : Instance) (now : Nat) (latency : LatencyModel) (events : EventQueue) :
    Except Fault (Instance × EventQueue) := do
  let (outcome, s) ← formBatch i.limits i.scheduler now
    { running := i.running, queue := i.queue, kv := i.kv.setClock now }
  let (transfer, kv) := s.kv.takePendingLatency
  let stats := { i.stats with
    queueDepthSum := i.stats.queueDepthSum + s.queue.length
    queueDepthSamples := i.stats.queueDepthSamples + 1
    preemptions := i.stats.preemptions + outcome.preempted.length
    peakKvBlocks := max i.stats.peakKvBlocks s.kv.used }
  let overheads := latency.schedulingOverhead * outcome.admitted.length +
    latency.preemptionOverhead * outcome.preempted.length
  if outcome.isEmpty then
    let i := { i with running := s.running, queue := s.queue, kv := s.kv, stats }
    if outcome.preempted.isEmpty then return ({ i with busy := false }, events)
    else
      match events.schedule (now + overheads) (.step i.id) with
      | .error v => throw (.violation v)
      | .ok (_, events) => return (i, events)
  else
    let shape := outcome.shape
    let duration := latency.stepTime shape + transfer + overheads
    let stats := { stats with
      steps := stats.steps + 1
      prefillTokens := stats.prefillTokens + shape.prefillTokens
      decodeTokens := stats.decodeTokens + shape.decodeTokens }
    let i := { i with
      running := s.running, queue := s.queue, kv, stats, stepStarted := now
      inFlight := some outcome }
    match events.schedule (now + duration) (.stepComplete i.id) with
    | .error v => throw (.violation v)
    | .ok (_, events) => return (i, events)

/-- Advances the request that some work belongs to. -/
def advanceOne (host : Nat) (w : ScheduledWork) (now : Nat) :
    List Request → Except Violation (List Request)
  | [] => .error (.unknownRequest host w.request)
  | r :: rest =>
    if r.id = w.request then .ok (r.advance w.progressAfter now :: rest)
    else (advanceOne host w now rest).map (r :: ·)

/-- The running requests after a step, sorted by what became of them. -/
structure Settled where
  running : List Request
  report : StepReport
  kv : KvCache

/-- Finishes the requests that are done and lets go of those that are decoded
elsewhere. -/
def settle (now : Nat) : List Request → KvCache → Except Fault Settled
  | [], kv => .ok { running := [], report := {}, kv }
  | r :: rest, kv =>
    if r.isDone then
      match r.transition .completed with
      | .error v => .error (.violation v)
      | .ok r => do
        let kv ← kv.releasing r.id
        let s ← settle now rest kv
        let r := { r with timing := { r.timing with completionTime := some now } }
        return { s with report := { s.report with completed := r :: s.report.completed } }
    else
      match r.inPrefill, r.decodeTarget with
      | false, some decode => do
        let blocks := kv.blocksFor r.progress
        let kv ← kv.releasing r.id
        match r.transition .queued with
        | .error v => throw (.violation v)
        | .ok r =>
          let s ← settle now rest kv
          let handoff : Handoff := { request := { r with decodeTarget := none }, decode, blocks }
          return { s with report := { s.report with handoffs := handoff :: s.report.handoffs } }
      | _, _ => do
        let s ← settle now rest kv
        return { s with running := r :: s.running }

/-- Applies the batch in flight, and schedules the next step while work is left. -/
def complete (i : Instance) (now : Nat) (events : EventQueue) :
    Except Fault StepReport × Instance × EventQueue :=
  match i.inFlight with
  | none => (.ok {}, i, events)
  | some outcome =>
    let i := { i with
      inFlight := none
      stats := { i.stats with busyTicks := i.stats.busyTicks + (now - i.stepStarted) } }
    match outcome.scheduled.foldlM (fun rs w => advanceOne i.id w now rs) i.running with
    | .error v => (.error (.violation v), i, events)
    | .ok running =>
      match settle now running i.kv with
      | .error f => (.error f, i, events)
      | .ok s =>
        let i := { i with
          running := s.running
          kv := s.kv
          stats := { i.stats with
            completed := i.stats.completed + s.report.completed.length
            handoffs := i.stats.handoffs + s.report.handoffs.length } }
        if i.running.isEmpty && i.queue.isEmpty then
          (.ok s.report, { i with busy := false }, events)
        else
          let (result, i, events) := i.wake now (.step i.id) events
          (result.map fun () => s.report, i, events)

def reprioritize (i : Instance) (rule : PriorityRule) (now : Nat) : Instance :=
  let rescore (r : Request) : Request := { r with priority := rule.score r.view now }
  { i with queue := i.queue.map rescore, running := i.running.map rescore }

end Instance

end InferenceSim
