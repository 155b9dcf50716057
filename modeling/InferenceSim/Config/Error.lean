import InferenceSim.Policy.Error
import InferenceSim.Workload.Problem

/-! What can be wrong with a configuration. -/
namespace InferenceSim

/-- A setting, or a combination of settings, that makes no sense. -/
inductive ConfigProblem where
  | mustBePositive (setting : String)
  | phasesMissing
  | phaseCount (prefill decode instances : Nat)
  | transferBandwidth
  | routingMismatch
  | snapshotInterval (field : String)
  | coefficientCount (alpha beta : Nat)
  | coefficientRange
  | throughputRates
  | workload (problem : WorkloadProblem)
  | unknownRouting (name : String) (available : List String)
  deriving Repr

def ConfigProblem.message : ConfigProblem → String
  | mustBePositive setting => s!"{setting} must be > 0"
  | phasesMissing => "disaggregated mode needs at least one prefill and one decode instance"
  | phaseCount prefill decode instances =>
    s!"Disaggregated prefill ({prefill}) + decode ({decode}) must equal instances ({instances})"
  | transferBandwidth => "transfer_bandwidth_gb_s must be > 0 when disaggregated is enabled"
  | routingMismatch =>
    "pd-split routing and cluster.disaggregated.enabled must be set together"
  | snapshotInterval field => s!"snapshot.{field} periodic interval must be > 0"
  | coefficientCount alpha beta =>
    "blackbox latency needs 2 alpha and 3 beta coefficients, got " ++ s!"{alpha} and {beta}"
  | coefficientRange => "blackbox latency coefficients must be finite and >= 0"
  | throughputRates => "throughput latency rates must be > 0"
  | workload problem => problem.message
  | unknownRouting name available =>
    let quoted := available.map fun a => "\"" ++ a ++ "\""
    s!"unknown routing policy '{name}', available: [" ++ ", ".intercalate quoted ++ "]"

/-- Why there is no configuration. -/
inductive ConfigError where
  /-- The file cannot be read. -/
  | unreadable (reason : String)
  /-- The text is no configuration. -/
  | malformed
  | policy (e : PolicyError)
  | invalid (p : ConfigProblem)
  deriving Repr

def ConfigError.message : ConfigError → String
  | unreadable reason => s!"Failed to read config file: {reason}"
  | malformed => "Failed to parse TOML: not a configuration"
  | policy e => s!"Invalid policy: {e.message}"
  | invalid p => s!"Invalid configuration: {p.message}"

end InferenceSim
