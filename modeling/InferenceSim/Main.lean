import InferenceSim.CommandLine.Execute

/-! The program: commands carried out on the files and streams of the system. -/
namespace InferenceSim

/-- Why the system could not do something. -/
def systemReason (e : IO.Error) : String :=
  match e with
  | .noFileOrDirectory _ code details => s!"{details} (os error {code})"
  | .inappropriateType _ code details => s!"{details} (os error {code})"
  | .permissionDenied _ code details => s!"{details} (os error {code})"
  | .invalidArgument _ code details => s!"{details} (os error {code})"
  | e => toString e

/-- The console of the system. -/
def systemConsole : Console IO where
  read path := do
    try return .ok (← IO.FS.readFile path)
    catch e => return .error (systemReason e)
  write path text := do
    try
      IO.FS.writeFile path text
      return .ok ()
    catch e => return .error (systemReason e)
  print text := IO.print text
  complain text := IO.eprint text

end InferenceSim

def main (args : List String) : IO UInt32 := do
  match ← ExceptT.run (InferenceSim.Executing.words InferenceSim.systemConsole args) with
  | .ok () => return 0
  | .error f => return f.status
