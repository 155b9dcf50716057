import InferenceSim.Cluster.Run
import InferenceSim.CommandLine.Help
import InferenceSim.CommandLine.Workspace
import InferenceSim.Metrics.Report

/-! Carrying out commands on a console. -/
namespace InferenceSim

/-- How a command ends when it does not succeed. -/
inductive CommandFailure where
  /-- Something was wrong, and was said. -/
  | reported
  /-- The words were no command. -/
  | usage
  /-- The simulator itself broke down. -/
  | broken
  deriving DecidableEq, Repr

/-- The exit status of a command. -/
def CommandFailure.status : CommandFailure → UInt32
  | reported => 1
  | usage => 2
  | broken => 101

abbrev Executing (m : Type → Type) := ExceptT CommandFailure m

namespace Executing

variable {m : Type → Type} [Monad m]

def print (console : Console m) (text : String) : Executing m Unit :=
  ExceptT.lift (console.print text)

def fail {α : Type} (console : Console m) (text : String) : Executing m α := do
  ExceptT.lift (console.complain (text ++ "\n"))
  throw .reported

/-- Goes on with a value, or ends with the reason why there is none. -/
def orFail {α : Type} (console : Console m) (what : String) :
    Except String α → Executing m α
  | .ok a => pure a
  | .error reason => fail console s!"Error {what}: {reason}"

def breakDown {α : Type} (console : Console m) (text : String) : Executing m α := do
  ExceptT.lift (console.complain (text ++ "\n"))
  throw .broken

/-- Writes a file. `say` puts the reason why it cannot be written into words. -/
def write (console : Console m) (what : String) (say : String → String) (path text : String) :
    Executing m Unit := do
  orFail console what ((← ExceptT.lift (console.write path text)).mapError say)

/-- The configuration in a file, or the default one. -/
def config (console : Console m) : Option String → Executing m Config
  | none => pure {}
  | some path => do
    let read ← ExceptT.lift (console.read path)
    let parsed : Except ConfigError Config := match read with
      | .error reason => .error (.unreadable reason)
      | .ok text => Config.ofText text
    orFail console "loading config" (parsed.mapError ConfigError.message)

def recorded (console : Console m) (what path : String) : Executing m (List Request) := do
  let read ← ExceptT.lift (console.read path)
  orFail console what ((Trace.load (fun _ => read) path).mapError TraceError.message)

/-- Generated requests. -/
def generated (console : Console m) (w : WorkloadConfig) (seed : Nat) :
    Executing m (List Request) :=
  let streams := Random.Streams.ofSeed (UInt64.ofNat seed)
  match w.generate (streams.generator Random.workloadStream) with
  | .ok (rs, _) => pure rs
  | .error e => breakDown console e.message

/-- The requests of a run: recorded ones if a file is named, or else the configured
workload. -/
def requests (console : Console m) (c : Config) : Option String → Executing m (List Request)
  | some path => recorded console "loading trace" path
  | none =>
    match c.workload.trace with
    | some path => recorded console "loading workload" path
    | none => generated console c.workload c.run.seed

/-- Writes results to a file, if one is named. -/
def writeResults (console : Console m) (d : Document) : Option String → Executing m Unit
  | none => pure ()
  | some path => do
    write console "writing output" id path (Json.pretty d)
    print console s!"Results written to {path}\n"

def quotedNames : String :=
  "[" ++ ", ".intercalate (RoutingRule.names.map fun n => "\"" ++ n ++ "\"") ++ "]"

/-- The configuration of a run, with what the command overrides. -/
def runConfig (console : Console m) (r : RunCommand) : Executing m Config := do
  let c ← config console r.config
  let c := match r.seed with
    | some seed => { c with run := { c.run with seed } }
    | none => c
  match r.routing with
  | none => pure c
  | some name =>
    match RoutingRule.ofName? name with
    | some rule => pure (c.withRouting rule)
    | none =>
      fail console (s!"Unknown routing policy: {name}. Available: " ++ quotedNames)

def decisionsLine (s : TraceSummary) : String :=
  s!"Decisions: {s.admitted} admitted, {s.rejected} rejected, " ++
    s!"mean regret {Decimal.fixed 4 s.meanRegret}, max regret {Decimal.fixed 4 s.maxRegret}\n"

def run (console : Console m) (r : RunCommand) : Executing m Unit := do
  let c ← runConfig console r
  let rs ← requests console c r.trace
  let traced := c.trace.enabled || r.decisions.isSome
  let trace : DecisionTrace := { topK := if traced then c.trace.topK else 0 }
  let cluster ← orFail console "building cluster"
    ((Cluster.new c trace).mapError fun e => (SimulationError.config e).message)
  let cluster ← orFail console "injecting workload"
    ((cluster.injectAll rs).mapError fun f => (SimulationError.fault f).message)
  let (result, cluster) := cluster.run
  let summary ← orFail console "running simulation"
    (result.mapError fun f => (SimulationError.fault f).message)
  print console (summary.table ++ "\n")
  if traced then print console (decisionsLine cluster.trace.summary)
  match r.decisions with
  | none => pure ()
  | some path =>
    write console "creating decision trace" id path
      (String.join (cluster.trace.lines.map (· ++ "\n")))
    print console s!"Decision trace written to {path}\n"
  writeResults console summary.toDocument r.output

/-- The policies that fit a cluster: disaggregated ones on a disaggregated cluster, and
the others on any other. -/
def fittingNames (c : Config) : List String :=
  (RoutingRule.all.filter fun r =>
    r.isDisaggregated == c.cluster.disaggregated.enabled).map RoutingRule.name

def compare (console : Console m) (r : CompareCommand) : Executing m Unit := do
  let c ← config console r.config
  let rs ← requests console c r.trace
  let names := if r.routing.isEmpty then fittingNames c else r.routing
  let summaries ← orFail console "comparing routing policies"
    ((c.compareRouting rs names).mapError SimulationError.message)
  print console (RunSummary.comparison summaries ++ "\n")
  summaries.forM fun s => print console (s.table ++ "\n")
  writeResults console (.ofList RunSummary.toDocument summaries) r.output

/-- The parameters of a generated workload, with what the command overrides. -/
def generatorConfig (w : WorkloadConfig) (r : GenerateCommand) : WorkloadConfig :=
  { w with
    trace := none
    rate := r.rate.getD w.rate
    count := r.count.getD w.count
    inputMean := r.inputMean.getD w.inputMean
    outputMean := r.outputMean.getD w.outputMean
    prefixGroups := r.prefixGroups.getD w.prefixGroups }

def generate (console : Console m) (r : GenerateCommand) : Executing m Unit := do
  let c ← config console r.config
  let w := generatorConfig c.workload r
  match w.problem? with
  | some p => fail console s!"Error in workload parameters: {p.message}"
  | none =>
    let rs ← generated console w r.seed
    let say (reason : String) : String := (TraceError.unreadable reason).message
    write console "writing trace" say r.output (Trace.write rs)
    print console s!"Generated {rs.length} requests to {r.output}\n"

/-- The list of policies. -/
def policiesText : String :=
  "Admission: always-admit, token-bucket, reject-all\n" ++
    "Priority:  constant, slo-based, inverted-slo\n" ++
    "Scheduler: fcfs, priority-fcfs, sjf, reverse-priority\n" ++
    "Routing:\n" ++ String.join (RoutingRule.names.map fun n => s!"  - {n}\n")

/-- Carries out a command. -/
def command (console : Console m) : Command → Executing m Unit
  | .run r => run console r
  | .compare r => compare console r
  | .generate r => generate console r
  | .policies => print console policiesText
  | .help none => print console programHelp
  | .help (some t) => print console t.manual
  | .version => print console s!"{programName} {programVersion}\n"

/-- Carries out the command that the words after the program's name stand for. -/
def words (console : Console m) (ws : List String) : Executing m Unit :=
  match Command.ofWords ws with
  | .ok c => command console c
  | .error p => do
    ExceptT.lift (console.complain s!"error: {p.message}\n")
    throw .usage

end Executing

/-- The exit status of carrying out words on a workspace, and the workspace afterwards. -/
def Workspace.execute (w : Workspace) (words : List String) : UInt32 × Workspace :=
  match StateT.run (ExceptT.run (Executing.words Workspace.console words)) w with
  | (.ok (), w) => (0, w)
  | (.error f, w) => (f.status, w)

end InferenceSim
