import InferenceSim.Clock
import InferenceSim.Violation

/-! What can stop a simulation in the middle. A valid configuration keeps all of it
from happening. -/
namespace InferenceSim

inductive Fault where
  | violation (v : Violation)
  /-- Blocks of no size hold no tokens. -/
  | noBlockSize
  | backwardsClock (e : BackwardsClock)
  deriving DecidableEq, Repr

def Fault.message : Fault → String
  | .violation v => v.message
  | .noBlockSize => "blocks hold no tokens"
  | .backwardsClock e => e.message

end InferenceSim
