import InferenceSim.CommandLine.Command
import InferenceSim.Decimal.Notation

/-! The texts about the program and its commands. -/
namespace InferenceSim

def programName : String := "blis"

def programVersion : String := "0.1.0"

/-- Two columns, the left one as wide as its widest cell. -/
def columns (rows : List (String × String)) : String :=
  let width := ((rows.map fun r => r.1.length).max?).getD 0
  String.join (rows.map fun (left, right) =>
    "  " ++ Decimal.padRight width left ' ' ++ "  " ++ right ++ "\n")

/-- How an option is given. -/
def OptionRule.form {σ : Type} (r : OptionRule σ) : String :=
  let long := s!"--{r.name} <{r.placeholder}>"
  match r.letter with
  | some c => "-" ++ c.toString ++ ", " ++ long
  | none => "    " ++ long

def commandHelp {σ : Type} (t : Topic) (usage : String) (rules : List (OptionRule σ)) : String :=
  let options := (rules.map fun r => (r.form, r.about)) ++ [("-h, --help", "Print help")]
  s!"{t.about}\n\nUsage: {programName} {t.name}{usage}\n\nOptions:\n" ++ columns options

/-- The text about a command. -/
def Topic.manual (t : Topic) : String :=
  match t with
  | .run => commandHelp t " [OPTIONS]" Command.runRules
  | .compare => commandHelp t " [OPTIONS]" Command.compareRules
  | .generate => commandHelp t " [OPTIONS] --output <OUTPUT>" Command.generateRules
  | .policies => commandHelp t "" Command.policiesRules
  | .help =>
    s!"{t.about}\n\nUsage: {programName} {t.name} [COMMAND]...\n\nArguments:\n" ++
      columns [("[COMMAND]...", "Print help for the subcommand(s)")]

/-- The text about the program. -/
def programHelp : String :=
  let commands := Topic.all.map fun t => (t.name, t.about)
  "Simulate LLM inference clusters and compare serving policies without GPUs\n\n" ++
    s!"Usage: {programName} <COMMAND>\n\nCommands:\n" ++ columns commands ++ "\nOptions:\n" ++
    columns [("-h, --help", "Print help"), ("-V, --version", "Print version")]

end InferenceSim
