import InferenceSim.Text.Blank

/-! Options of a command: `--name value`, `--name=value`, `-n value` and `-nvalue`. They
are read from the left, so that a call for help counts only if nothing was wrong
before it. -/
namespace InferenceSim

/-- What is wrong with the words of a command. -/
inductive UsageProblem where
  | noCommand
  | unknownCommand (word : String)
  | unexpected (word : String)
  | noValue (option : String)
  | badValue (option value : String)
  | repeated (option : String)
  | required (option : String)
  deriving DecidableEq, Repr

def UsageProblem.message : UsageProblem → String
  | noCommand => "a command is required"
  | unknownCommand word => s!"unrecognized subcommand '{word}'"
  | unexpected word => s!"unexpected argument '{word}' found"
  | noValue option => s!"a value is required for '--{option}' but none was supplied"
  | badValue option value => s!"invalid value '{value}' for '--{option}'"
  | repeated option => s!"the argument '--{option}' cannot be used multiple times"
  | required option => s!"the argument '--{option}' was not provided"

/-- Why words are no command to carry out. -/
inductive UsageStop where
  | help
  | problem (p : UsageProblem)
  deriving DecidableEq, Repr

/-- An option that takes a value and adds it to the settings read so far. -/
structure OptionRule (σ : Type) where
  name : String
  letter : Option Char := none
  /-- What the value stands for. -/
  placeholder : String
  about : String
  /-- Whether the option may be given again. -/
  repeatable : Bool := false
  set : σ → String → Option σ

namespace OptionRule

variable {σ : Type}

def isValue (word : String) : Bool := !word.startsWith "-" || word = "-"

/-- What a word says about options. -/
inductive Word (σ : Type) where
  | help
  /-- The end of all options. -/
  | final
  | option (rule : OptionRule σ) (value : Option String)
  | unexpected

/-- Reads a word; a value may be attached to it. -/
def readWord (rules : List (OptionRule σ)) (word : String) : Word σ :=
  match word.toList with
  | ['-', '-'] => .final
  | '-' :: '-' :: cs =>
    let (name, value) := match Text.splitOnce? '=' cs with
      | some (name, value) => (String.ofList name, some (String.ofList value))
      | none => (String.ofList cs, none)
    if name = "help" then if value.isNone then .help else .unexpected
    else match rules.find? fun r => r.name = name with
      | some r => .option r value
      | none => .unexpected
  | '-' :: c :: cs =>
    if c = 'h' then .help
    else match rules.find? fun r => r.letter = some c with
      | some r =>
        let value := match cs with
          | [] => none
          | '=' :: value => some (String.ofList value)
          | value => some (String.ofList value)
        .option r value
      | none => .unexpected
  | _ => .unexpected

/-- Takes the value of an option into the settings. -/
def apply (r : OptionRule σ) (value : String) (seen : List String) (s : σ) :
    Except UsageStop σ :=
  if !r.repeatable && seen.contains r.name then .error (.problem (.repeated r.name))
  else match r.set s value with
    | some s => .ok s
    | none => .error (.problem (.badValue r.name value))

/-- Reads the words of a command. `seen` names the options read before. -/
def readWords (rules : List (OptionRule σ)) : (words seen : List String) → σ →
    Except UsageStop (σ × List String)
  | [], seen, s => .ok (s, seen)
  | word :: rest, seen, s =>
    match readWord rules word with
    | .help => .error .help
    | .unexpected => .error (.problem (.unexpected word))
    | .final =>
      match rest with
      | [] => .ok (s, seen)
      | extra :: _ => .error (.problem (.unexpected extra))
    | .option r (some value) => do
      let s ← r.apply value seen s
      readWords rules rest (r.name :: seen) s
    | .option r none =>
      match rest with
      | [] => .error (.problem (.noValue r.name))
      | value :: rest =>
        if isValue value then do
          let s ← r.apply value seen s
          readWords rules rest (r.name :: seen) s
        else .error (.problem (.noValue r.name))

end OptionRule

end InferenceSim
