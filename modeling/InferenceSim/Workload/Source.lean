import InferenceSim.Workload.Generator
import InferenceSim.Workload.Trace

/-! Loading the workload that a configuration names: the replay of a file, or generated
requests. -/
namespace InferenceSim

/-- Why there is no workload. -/
inductive WorkloadError where
  | trace (e : TraceError)
  | generator (e : GeneratorFault)
  deriving DecidableEq, Repr

def GeneratorFault.message : GeneratorFault → String
  | tooMany count => s!"no room for {count} requests"
  | noLength least most => s!"no length between {least} and {most}"
  | draw .emptyRange => "cannot draw from an empty range"

def WorkloadError.message : WorkloadError → String
  | trace e => e.message
  | generator e => e.message

namespace Trace

/-- Reads the recorded requests of a file. `read` gives its text or the reason why there
is none. -/
def load (read : String → Except String String) (path : String) :
    Except TraceError (List Request) :=
  match read path with
  | .error reason => .error (.unreadable reason)
  | .ok text => parse text

end Trace

/-- The requests of a workload. Generated ones come from the workload stream. -/
def WorkloadConfig.load (w : WorkloadConfig) (read : String → Except String String)
    (streams : Random.Streams) : Except WorkloadError (List Request) :=
  match w.trace with
  | some path => (Trace.load read path).mapError .trace
  | none =>
    match w.generate (streams.generator Random.workloadStream) with
    | .error e => .error (.generator e)
    | .ok (rs, _) => .ok rs

end InferenceSim
