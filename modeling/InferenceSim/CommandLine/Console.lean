/-! What a command needs from outside: files to read and write, and two streams of text
to print to. A command is written against any such console. -/
namespace InferenceSim

/-- A console for the effects of `m`. A file that cannot be read or written gives the
reason. -/
structure Console (m : Type → Type) where
  read : String → m (Except String String)
  write : String → String → m (Except String Unit)
  print : String → m Unit
  complain : String → m Unit

end InferenceSim
