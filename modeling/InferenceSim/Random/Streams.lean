import InferenceSim.Hash.Xxh3
import InferenceSim.Random.Generator
import Std.Data.ExtTreeMap

/-! Named random streams of one master seed. A stream's seed hangs on the master
seed and the stream's name alone, so a new consumer of randomness never shifts
the draws of another. -/
namespace InferenceSim.Random

def workloadStream : String := "workload"

def routerStream : String := "router"

/-- The workload draws from the master seed itself; any other stream from the
master seed mixed with the digest of its name. -/
def deriveSeed (master : UInt64) (name : String) : UInt64 :=
  if name = workloadStream then master else master ^^^ Hash.digest name.toUTF8 0

/-- The generators created so far, by name. -/
structure Streams where
  master : UInt64
  generators : Std.ExtTreeMap String Generator := ∅

def Streams.ofSeed (master : UInt64) : Streams := { master }

def Streams.generator (s : Streams) (name : String) : Generator :=
  (s.generators[name]?).getD (.ofSeed (deriveSeed s.master name))

def Streams.put (s : Streams) (name : String) (g : Generator) : Streams :=
  { s with generators := s.generators.insert name g }

/-- Draws from one stream; the stream exists afterwards. -/
def Streams.draw {α : Type} (s : Streams) (name : String) (f : Generator → α × Generator) :
    α × Streams :=
  let (a, g) := f (s.generator name)
  (a, s.put name g)

def Streams.names (s : Streams) : List String := s.generators.keys

end InferenceSim.Random
