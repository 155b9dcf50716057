import InferenceSim.Cluster.SnapshotBoard
import InferenceSim.Document.Toml
import InferenceSim.Policy.Admission
import InferenceSim.Policy.Routing
import InferenceSim.Random.Streams
import InferenceSim.Workload.Config

/-! The configuration of a run, in sections. Every setting has a default, so that an
empty file configures a run on one instance. -/
namespace InferenceSim

/-- Settings of the run as a whole. -/
structure RunSettings where
  name : String := "simulation"
  /-- The master seed of every random stream. -/
  seed : Nat := 42
  /-- The last tick at which events still run; without one the run ends by itself. -/
  horizon : Option Nat := none
  /-- How many completions count as warm-up. -/
  warmup : Nat := 0
  deriving Inhabited

namespace RunSettings

def toDocument (s : RunSettings) : Document :=
  .table [("name", .text s.name), ("seed", .count s.seed),
    ("horizon", .option .count s.horizon), ("warmup_requests", .count s.warmup)]

def ofDocument? (d : Document) : Option RunSettings := do
  let f ← d.fields? ["name", "seed", "horizon", "warmup_requests"]
  let base : RunSettings := {}
  let tick := Document.asCount? 64
  return {
    name := ← f.withDefault "name" Document.asText? base.name
    seed := ← f.withDefault "seed" tick base.seed
    horizon := ← f.withDefault "horizon" (Document.asOption? tick) base.horizon
    warmup := ← f.withDefault "warmup_requests" tick base.warmup }

end RunSettings

/-- Prompts on some instances and decoding on the others, and what it costs to move KV
between them. -/
structure Disaggregation where
  enabled : Bool := false
  prefillInstances : Nat := 0
  decodeInstances : Nat := 0
  /-- The fixed cost of a transfer in ticks. -/
  baseLatency : Nat := 500
  /-- In gigabytes per second. -/
  bandwidth : Float := 50.0
  layers : Nat := 80
  headDim : Nat := 128
  kvHeads : Nat := 8
  /-- The size of one element of KV. -/
  elementBytes : Nat := 2
  deriving Inhabited

namespace Disaggregation

def bytesPerToken (d : Disaggregation) : Nat :=
  2 * d.layers * d.kvHeads * d.headDim * d.elementBytes

/-- The ticks to move some blocks. A gigabyte per second is a thousand bytes per tick. -/
def transferLatency (d : Disaggregation) (blocks blockSize : Nat) : Nat :=
  let bytes := Binary64.ofCount blocks * Binary64.ofCount blockSize *
    Binary64.ofCount d.bytesPerToken
  let bytesPerTick := d.bandwidth * 1e3
  let transfer :=
    if bytesPerTick > 0.0 then Binary64.toCount (bytes / bytesPerTick).ceil else 0
  d.baseLatency + transfer

def toDocument (d : Disaggregation) : Document :=
  .table [("enabled", .bool d.enabled), ("prefill_instances", .count d.prefillInstances),
    ("decode_instances", .count d.decodeInstances),
    ("transfer_base_latency", .count d.baseLatency),
    ("transfer_bandwidth_gb_s", .real d.bandwidth), ("num_layers", .count d.layers),
    ("head_dim", .count d.headDim), ("num_kv_heads", .count d.kvHeads),
    ("dtype_bytes", .count d.elementBytes)]

def ofDocument? (d : Document) : Option Disaggregation := do
  let f ← d.fields? ["enabled", "prefill_instances", "decode_instances",
    "transfer_base_latency", "transfer_bandwidth_gb_s", "num_layers", "head_dim",
    "num_kv_heads", "dtype_bytes"]
  let base : Disaggregation := {}
  let count (name : String) (n : Nat) := f.withDefault name (Document.asCount? 32) n
  return {
    enabled := ← f.withDefault "enabled" Document.asBool? base.enabled
    prefillInstances := ← count "prefill_instances" base.prefillInstances
    decodeInstances := ← count "decode_instances" base.decodeInstances
    baseLatency :=
      ← f.withDefault "transfer_base_latency" (Document.asCount? 64) base.baseLatency
    bandwidth := ← f.withDefault "transfer_bandwidth_gb_s" Document.asReal? base.bandwidth
    layers := ← count "num_layers" base.layers
    headDim := ← count "head_dim" base.headDim
    kvHeads := ← count "num_kv_heads" base.kvHeads
    elementBytes := ← count "dtype_bytes" base.elementBytes }

end Disaggregation

/-- Settings of the cluster. -/
structure ClusterSettings where
  instances : Nat := 1
  /-- KV blocks on the device of each instance. -/
  kvBlocks : Nat := 8192
  /-- Tokens per block. -/
  blockSize : Nat := 16
  maxRunning : Nat := 256
  maxTokens : Nat := 2048
  longPrefill : Nat := 0
  chunkedPrefill : Bool := true
  /-- Ticks from arrival to the decision on admission. -/
  admissionLatency : Nat := 0
  /-- Ticks from admission to routing. -/
  routingLatency : Nat := 0
  tier : Option HostTierConfig := none
  disaggregated : Disaggregation := {}
  deriving Inhabited

namespace ClusterSettings

def spec (c : ClusterSettings) : InstanceSpec :=
  { kvBlocks := c.kvBlocks
    blockSize := c.blockSize
    limits := {
      maxRunning := c.maxRunning
      maxTokens := c.maxTokens
      longPrefill := c.longPrefill
      chunkedPrefill := c.chunkedPrefill }
    tier := c.tier }

/-- The role of each instance by id. Those that compute prompts come first. -/
def roles (c : ClusterSettings) : List Role :=
  if c.disaggregated.enabled then
    (List.range c.instances).map fun i =>
      if i < c.disaggregated.prefillInstances then .prefill else .decode
  else List.replicate c.instances .unified

def toDocument (c : ClusterSettings) : Document :=
  .table [("instances", .count c.instances), ("kv_blocks", .count c.kvBlocks),
    ("block_size", .count c.blockSize), ("max_running_requests", .count c.maxRunning),
    ("max_scheduled_tokens", .count c.maxTokens),
    ("long_prefill_threshold", .count c.longPrefill),
    ("chunked_prefill", .bool c.chunkedPrefill),
    ("admission_latency", .count c.admissionLatency),
    ("routing_latency", .count c.routingLatency),
    ("cpu_tier", .option HostTierConfig.toDocument c.tier),
    ("disaggregated", c.disaggregated.toDocument)]

def ofDocument? (d : Document) : Option ClusterSettings := do
  let f ← d.fields? ["instances", "kv_blocks", "block_size", "max_running_requests",
    "max_scheduled_tokens", "long_prefill_threshold", "chunked_prefill", "admission_latency",
    "routing_latency", "cpu_tier", "disaggregated"]
  let base : ClusterSettings := {}
  let count (name : String) (n : Nat) := f.withDefault name (Document.asCount? 32) n
  let tick (name : String) (n : Nat) := f.withDefault name (Document.asCount? 64) n
  return {
    instances := ← count "instances" base.instances
    kvBlocks := ← count "kv_blocks" base.kvBlocks
    blockSize := ← count "block_size" base.blockSize
    maxRunning := ← count "max_running_requests" base.maxRunning
    maxTokens := ← count "max_scheduled_tokens" base.maxTokens
    longPrefill := ← count "long_prefill_threshold" base.longPrefill
    chunkedPrefill := ← f.withDefault "chunked_prefill" Document.asBool? base.chunkedPrefill
    admissionLatency := ← tick "admission_latency" base.admissionLatency
    routingLatency := ← tick "routing_latency" base.routingLatency
    tier := ← f.withDefault "cpu_tier" (Document.asOption? HostTierConfig.ofDocument?) base.tier
    disaggregated :=
      ← f.withDefault "disaggregated" Disaggregation.ofDocument? base.disaggregated }

end ClusterSettings

/-- The four policies of a run. -/
structure PolicySettings where
  admission : AdmissionRule := .acceptAll
  priority : PriorityRule := .constant 0.0
  routing : RoutingRule := .roundRobin
  scheduler : SchedulerRule := .fcfs
  deriving Inhabited

namespace PolicySettings

def toDocument (p : PolicySettings) : Document :=
  .table [("admission", p.admission.toDocument), ("priority", p.priority.toDocument),
    ("routing", p.routing.toDocument), ("scheduler", p.scheduler.toDocument)]

def ofDocument? (d : Document) : Option PolicySettings := do
  let f ← d.fields? ["admission", "priority", "routing", "scheduler"]
  let base : PolicySettings := {}
  return {
    admission := ← f.withDefault "admission" AdmissionRule.ofDocument? base.admission
    priority := ← f.withDefault "priority" PriorityRule.ofDocument? base.priority
    routing := ← f.withDefault "routing" RoutingRule.ofDocument? base.routing
    scheduler := ← f.withDefault "scheduler" SchedulerRule.ofDocument? base.scheduler }

end PolicySettings

/-- Settings of the record of decisions. -/
structure TraceSettings where
  enabled : Bool := false
  /-- How many candidates a routing record keeps. -/
  topK : Nat := 3
  deriving Inhabited

namespace TraceSettings

def toDocument (t : TraceSettings) : Document :=
  .table [("enabled", .bool t.enabled), ("top_k", .count t.topK)]

def ofDocument? (d : Document) : Option TraceSettings := do
  let f ← d.fields? ["enabled", "top_k"]
  let base : TraceSettings := {}
  return {
    enabled := ← f.withDefault "enabled" Document.asBool? base.enabled
    topK := ← f.withDefault "top_k" (Document.asCount? 64) base.topK }

end TraceSettings

/-- The configuration of a run. -/
structure Config where
  run : RunSettings := {}
  cluster : ClusterSettings := {}
  latency : LatencyModel := .default
  policies : PolicySettings := {}
  snapshot : SnapshotConfig := {}
  workload : WorkloadConfig := {}
  trace : TraceSettings := {}
  deriving Inhabited

namespace Config

def toDocument (c : Config) : Document :=
  .table [("simulation", c.run.toDocument), ("cluster", c.cluster.toDocument),
    ("latency", c.latency.toDocument), ("policies", c.policies.toDocument),
    ("snapshot", c.snapshot.toDocument), ("workload", c.workload.toDocument),
    ("trace", c.trace.toDocument)]

def ofDocument? (d : Document) : Option Config := do
  let f ← d.fields? ["simulation", "cluster", "latency", "policies", "snapshot", "workload",
    "trace"]
  let base : Config := {}
  return {
    run := ← f.withDefault "simulation" RunSettings.ofDocument? base.run
    cluster := ← f.withDefault "cluster" ClusterSettings.ofDocument? base.cluster
    latency := ← f.withDefault "latency" LatencyModel.ofDocument? base.latency
    policies := ← f.withDefault "policies" PolicySettings.ofDocument? base.policies
    snapshot := ← f.withDefault "snapshot" SnapshotConfig.ofDocument? base.snapshot
    workload := ← f.withDefault "workload" WorkloadConfig.ofDocument? base.workload
    trace := ← f.withDefault "trace" TraceSettings.ofDocument? base.trace }

def withRouting (c : Config) (routing : RoutingRule) : Config :=
  { c with policies := { c.policies with routing } }

def routerSeed (c : Config) : UInt64 :=
  Random.deriveSeed (UInt64.ofNat c.run.seed) Random.routerStream

def streams (c : Config) : Random.Streams := .ofSeed (UInt64.ofNat c.run.seed)

def ensure (holds : Bool) (problem : ConfigProblem) : Except ConfigProblem Unit :=
  if holds then .ok () else .error problem

end Config

/-- A positive real; NaN is none. -/
def isPositive (x : Float) : Bool := !(x.isNaN || x ≤ 0.0)

namespace ClusterSettings

/-- Sizes are positive, and the two phases share all instances between them, as far as 32
bits count them. -/
def validate (c : ClusterSettings) : Except ConfigProblem Unit := do
  Config.ensure (c.instances ≠ 0) (.mustBePositive "instances")
  Config.ensure (c.kvBlocks ≠ 0) (.mustBePositive "kv_blocks")
  Config.ensure (c.blockSize ≠ 0) (.mustBePositive "block_size")
  Config.ensure (c.maxRunning ≠ 0) (.mustBePositive "max_running_requests")
  Config.ensure (c.maxTokens ≠ 0) (.mustBePositive "max_scheduled_tokens")
  Config.ensure (c.tier.all fun t => isPositive t.bandwidth)
    (.mustBePositive "cpu_tier.bandwidth")
  let d := c.disaggregated
  if d.enabled then
    Config.ensure (d.prefillInstances ≠ 0 && d.decodeInstances ≠ 0) .phasesMissing
    Config.ensure (wrap (d.prefillInstances + d.decodeInstances) = c.instances)
      (.phaseCount d.prefillInstances d.decodeInstances c.instances)
    Config.ensure (isPositive d.bandwidth) .transferBandwidth

end ClusterSettings

/-- Fields that are refreshed now and then are refreshed after some time. -/
def SnapshotConfig.validate (s : SnapshotConfig) : Except ConfigProblem Unit := do
  Config.ensure (s.queueDepth ≠ .periodic 0) (.snapshotInterval "queue_depth")
  Config.ensure (s.batchSize ≠ .periodic 0) (.snapshotInterval "batch_size")
  Config.ensure (s.kv ≠ .periodic 0) (.snapshotInterval "kv_utilization")

def WorkloadConfig.validate (w : WorkloadConfig) : Except ConfigProblem Unit :=
  match w.problem? with
  | some p => .error (.workload p)
  | none => .ok ()

namespace Config

/-- The settings other than the parameters of policies. Disaggregated routing needs a
disaggregated cluster, and the other way round. -/
def validateSettings (c : Config) : Except ConfigProblem Unit := do
  c.cluster.validate
  ensure (c.cluster.disaggregated.enabled = c.policies.routing.isDisaggregated) .routingMismatch
  c.snapshot.validate
  c.workload.validate

/-- The parameters of policies: they are good if the policies can be made. -/
def validatePolicies (c : Config) : Except PolicyError Unit := do
  let _ ← AdmissionPolicy.ofRule c.policies.admission
  c.policies.priority.validate
  let _ ← RoutingPolicy.ofRule c.policies.routing c.cluster.blockSize c.routerSeed

/-- Whether a run can be configured like this; the first thing wrong if not. -/
def validate (c : Config) : Except ConfigError Unit := do
  c.validateSettings.mapError .invalid
  c.validatePolicies.mapError .policy
  c.latency.validate.mapError .invalid

/-- Reads the text of a configuration. -/
def parse (text : String) : Except ConfigError Config :=
  match (Toml.parse? text).bind ofDocument? with
  | some c => .ok c
  | none => .error .malformed

/-- Reads the text of a configuration that makes sense. -/
def ofText (text : String) : Except ConfigError Config := do
  let c ← parse text
  c.validate
  return c

end Config

end InferenceSim
