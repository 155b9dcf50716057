import InferenceSim.CommandLine.Console

/-! A workspace in memory: a directory of files and what has been printed. Paths are
followed from the workspace name by name, and each name on the way has to be a
directory. -/
namespace InferenceSim

/-- Why a path leads to no file. -/
inductive PathError where
  | missing
  | throughFile
  | directory
  | tooLong
  /-- The path holds the character that ends a path. -/
  | ended
  deriving DecidableEq, Repr

def PathError.message : PathError → String
  | missing => "No such file or directory (os error 2)"
  | throughFile => "Not a directory (os error 20)"
  | directory => "Is a directory (os error 21)"
  | tooLong => "File name too long (os error 36)"
  | ended => "file name contained an unexpected NUL byte"

/-- A place by the names that lead to it from the workspace. Outside of it, a place starts
with `..` for each level above, or with `/` if it is named from the root. -/
abbrev Place := List String

namespace Place

def root : Place := ["/"]

/-- The file that is always empty. -/
def nothing : Place := ["/", "dev", "null"]

def isAbove (p : Place) : Bool := p = root || p.all (· = "..")

def parent (p : Place) : Place :=
  if p = root then root else if p.isAbove then ".." :: p else p.dropLast

end Place

/-- A directory of files, each at its place, and the text printed so far. -/
structure Workspace where
  files : List (Place × String) := []
  output : String := ""
  errors : String := ""
  deriving Inhabited

namespace Workspace

def names (path : String) : List String := (path.splitOn "/").filter (· ≠ "")

def isLong (name : String) : Bool := 255 < name.utf8ByteSize

/-- The files of the workspace, and the one that is always empty. -/
def allFiles (w : Workspace) : List (Place × String) := (Place.nothing, "") :: w.files

def isFile (w : Workspace) (p : Place) : Bool := w.allFiles.any fun f => f.1 = p

/-- Whether a place is a directory: one above the workspace, or one on the way to a file. -/
def isDirectory (w : Workspace) (p : Place) : Bool :=
  p.isAbove || w.allFiles.any fun f => p.isPrefixOf f.1 && p ≠ f.1

/-- The directory that a name leads to from another one. -/
def enter (w : Workspace) (p : Place) (name : String) : Except PathError Place :=
  if name = "." then .ok p
  else if name = ".." then .ok p.parent
  else if isLong name then .error .tooLong
  else if w.isDirectory (p ++ [name]) then .ok (p ++ [name])
  else if w.isFile (p ++ [name]) then .error .throughFile
  else .error .missing

/-- The file that a name stands for in a directory. A new one may only be created under a
name without a slash after it. -/
def fileAt (w : Workspace) (creates slash : Bool) (p : Place) (name : String) :
    Except PathError Place :=
  let file := p ++ [name]
  if name = "." || name = ".." || (creates && slash) then .error .directory
  else if isLong name then .error .tooLong
  else if w.isDirectory file then .error .directory
  else if w.isFile file then if slash then .error .throughFile else .ok file
  else if creates then .ok file
  else .error .missing

/-- The file that a path leads to; `creates` tells whether it may be a new one. -/
def locate (w : Workspace) (creates : Bool) (path : String) : Except PathError Place :=
  if path.contains '\x00' then .error .ended
  else if path = "" then .error .missing
  else if 4096 ≤ path.utf8ByteSize then .error .tooLong
  else match (names path).getLast? with
    | none => .error .directory
    | some name => do
      let start := if path.startsWith "/" then Place.root else []
      let p ← (names path).dropLast.foldlM w.enter start
      w.fileAt creates (path.endsWith "/") p name

def read (w : Workspace) (path : String) : Except PathError String := do
  let p ← w.locate false path
  match w.allFiles.lookup p with
  | some text => return text
  | none => throw .missing

def write (w : Workspace) (path text : String) : Except PathError Workspace := do
  let p ← w.locate true path
  return { w with files := (p, text) :: w.files.filter fun f => f.1 ≠ p }

/-- The console that works on a workspace. -/
def console : Console (StateM Workspace) where
  read path := return ((← get).read path).mapError PathError.message
  write path text := do
    match (← get).write path text with
    | .ok w =>
      set w
      return .ok ()
    | .error e => return .error e.message
  print text := modify fun w => { w with output := w.output ++ text }
  complain text := modify fun w => { w with errors := w.errors ++ text }

end Workspace

end InferenceSim
