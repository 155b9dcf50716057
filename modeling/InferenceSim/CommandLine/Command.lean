import InferenceSim.CommandLine.Options
import InferenceSim.Decimal.Reading

/-! The commands and their options. -/
namespace InferenceSim

/-- Runs one simulation. -/
structure RunCommand where
  config : Option String := none
  /-- Replayed in place of the configured workload. -/
  trace : Option String := none
  routing : Option String := none
  seed : Option Nat := none
  output : Option String := none
  decisions : Option String := none
  deriving DecidableEq, Repr, Inhabited

/-- Runs the same requests under several routing policies. -/
structure CompareCommand where
  config : Option String := none
  trace : Option String := none
  /-- The names of the policies; without names, all that fit the cluster. -/
  routing : List String := []
  output : Option String := none
  deriving DecidableEq, Repr, Inhabited

/-- Writes a generated workload. -/
structure GenerateCommand where
  config : Option String := none
  rate : Option Float := none
  count : Option Nat := none
  inputMean : Option Float := none
  outputMean : Option Float := none
  prefixGroups : Option Nat := none
  seed : Nat := 42
  output : String := ""
  deriving Repr, Inhabited

/-- The commands by name. -/
inductive Topic where
  | run
  | compare
  | generate
  | policies
  | help
  deriving DecidableEq, Repr, Inhabited

inductive Command where
  | run (c : RunCommand)
  | compare (c : CompareCommand)
  | generate (c : GenerateCommand)
  | policies
  | help (topic : Option Topic)
  | version
  deriving Repr, Inhabited

namespace Topic

def all : List Topic := [.run, .compare, .generate, .policies, .help]

def name : Topic → String
  | .run => "run"
  | .compare => "compare"
  | .generate => "gen-workload"
  | .policies => "list-policies"
  | .help => "help"

def ofName? (name : String) : Option Topic := (all.map fun t => (t.name, t)).lookup name

def about : Topic → String
  | .run => "Run a simulation"
  | .compare => "Compare routing policies on the same workload"
  | .generate => "Generate a synthetic workload as a compact JSONL trace"
  | .policies => "List available policy templates"
  | .help => "Print this message or the help of the given subcommand(s)"

end Topic

namespace Command

def path? (s : String) : Option String := if s.isEmpty then none else some s

def count? (bits : Nat) (s : String) : Option Nat := Decimal.parseCount? bits s.toList

def real? (s : String) : Option Float := Decimal.parseReal? s.toList

/-- A small count may be written as minus zero. -/
def smallCount? (s : String) : Option Nat :=
  match s.toList with
  | '-' :: '0' :: zeros => if zeros.all (· = '0') then some 0 else none
  | cs => Decimal.parseCount? 32 cs

def names (s : String) : List String :=
  (Text.splitAt (· = ',') s.toList).map String.ofList

def runRules : List (OptionRule RunCommand) := [
  { name := "config", letter := some 'c', placeholder := "CONFIG"
    about := "Path to TOML configuration file. Defaults apply when omitted"
    set := fun c s => (path? s).map fun p => { c with config := some p } },
  { name := "trace", letter := some 't', placeholder := "TRACE"
    about := "Replay this compact JSONL trace instead of the configured workload"
    set := fun c s => (path? s).map fun p => { c with trace := some p } },
  { name := "routing", letter := some 'r', placeholder := "ROUTING"
    about := "Override the routing policy by name"
    set := fun c s => some { c with routing := some s } },
  { name := "seed", letter := some 's', placeholder := "SEED"
    about := "Override the master seed"
    set := fun c s => (count? 64 s).map fun n => { c with seed := some n } },
  { name := "output", letter := some 'o', placeholder := "OUTPUT"
    about := "Output metrics to JSON file"
    set := fun c s => (path? s).map fun p => { c with output := some p } },
  { name := "decisions", letter := some 'd', placeholder := "DECISIONS"
    about := "Write the decision trace as JSONL"
    set := fun c s => (path? s).map fun p => { c with decisions := some p } }]

def compareRules : List (OptionRule CompareCommand) := [
  { name := "config", letter := some 'c', placeholder := "CONFIG"
    about := "Path to TOML configuration file"
    set := fun c s => (path? s).map fun p => { c with config := some p } },
  { name := "trace", letter := some 't', placeholder := "TRACE"
    about := "Replay this compact JSONL trace instead of the configured workload"
    set := fun c s => (path? s).map fun p => { c with trace := some p } },
  { name := "routing", letter := some 'R', placeholder := "ROUTING"
    about := "Comma-separated routing policy names. Defaults to every policy compatible " ++
      "with the cluster"
    repeatable := true
    set := fun c s => some { c with routing := c.routing ++ names s } },
  { name := "output", letter := some 'o', placeholder := "OUTPUT"
    about := "Output results to JSON file"
    set := fun c s => (path? s).map fun p => { c with output := some p } }]

def generateRules : List (OptionRule GenerateCommand) := [
  { name := "config", letter := some 'c', placeholder := "CONFIG"
    about := "Take generator parameters from this configuration's [workload]"
    set := fun c s => (path? s).map fun p => { c with config := some p } },
  { name := "rate", placeholder := "RATE"
    about := "Request rate (requests/sec)"
    set := fun c s => (real? s).map fun x => { c with rate := some x } },
  { name := "num-requests", letter := some 'n', placeholder := "NUM_REQUESTS"
    about := "Number of requests"
    set := fun c s => (count? 64 s).map fun n => { c with count := some n } },
  { name := "input-mean", placeholder := "INPUT_MEAN"
    about := "Mean prompt tokens"
    set := fun c s => (real? s).map fun x => { c with inputMean := some x } },
  { name := "output-mean", placeholder := "OUTPUT_MEAN"
    about := "Mean output tokens"
    set := fun c s => (real? s).map fun x => { c with outputMean := some x } },
  { name := "prefix-groups", placeholder := "PREFIX_GROUPS"
    about := "Number of shared-prefix groups"
    set := fun c s => (smallCount? s).map fun n => { c with prefixGroups := some n } },
  { name := "seed", letter := some 's', placeholder := "SEED"
    about := "Master seed [default: 42]"
    set := fun c s => (count? 64 s).map fun n => { c with seed := n } },
  { name := "output", letter := some 'o', placeholder := "OUTPUT"
    about := "Output file path"
    set := fun c s => (path? s).map fun p => { c with output := p } }]

def policiesRules : List (OptionRule Unit) := []

/-- The command that asks for help about the command it names. -/
def ofHelp : List String → Except UsageStop Command
  | [] => .ok (.help none)
  | word :: rest =>
    match Topic.ofName? word, rest with
    | none, _ => .error (.problem (.unknownCommand word))
    | some t, [] => .ok (.help (some t))
    | some _, extra :: _ => .error (.problem (.unknownCommand extra))

/-- Reads the words after the name of a command. -/
def ofOptions (t : Topic) (words : List String) : Except UsageStop Command :=
  match t with
  | .run => do
    let (c, _) ← OptionRule.readWords runRules words [] {}
    return .run c
  | .compare => do
    let (c, _) ← OptionRule.readWords compareRules words [] {}
    return .compare c
  | .generate => do
    let (c, seen) ← OptionRule.readWords generateRules words [] {}
    if seen.contains "output" then return .generate c
    else throw (.problem (.required "output"))
  | .policies => do
    let _ ← OptionRule.readWords policiesRules words [] ()
    return .policies
  | .help => ofHelp words

/-- Reads a command from the words after the program's name. -/
def ofWords : List String → Except UsageProblem Command
  | [] => .error .noCommand
  | word :: rest =>
    match Topic.ofName? word with
    | some t =>
      match ofOptions t rest with
      | .ok c => .ok c
      | .error .help => .ok (.help (some t))
      | .error (.problem p) => .error p
    | none =>
      if word = "--help" || word.startsWith "-h" then .ok (.help none)
      else if word = "--version" || word.startsWith "-V" then .ok .version
      else if OptionRule.isValue word then .error (.unknownCommand word)
      else .error (.unexpected word)

end Command

end InferenceSim
