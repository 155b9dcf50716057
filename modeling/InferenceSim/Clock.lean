import InferenceSim.Document.Fields

/-! Simulated time. A tick is one microsecond, and the clock never goes back. Times are taken to fit
64 bits, also those that are sums of a time and a delay. -/
namespace InferenceSim

def ticksPerMs : Float := 1000.0

def ticksToMs (ticks : Nat) : Float := Binary64.ofCount ticks / ticksPerMs

/-- The clock of a simulation. -/
structure Clock where
  now : Nat := 0
  deriving DecidableEq, Repr

/-- A request to move the clock to a time that has passed. -/
structure BackwardsClock where
  current : Nat
  target : Nat
  deriving DecidableEq, Repr

def BackwardsClock.message (e : BackwardsClock) : String :=
  s!"Cannot move clock backwards: current={e.current}, target={e.target}"

namespace Clock

def advanceTo (c : Clock) (tick : Nat) : Except BackwardsClock Clock :=
  if tick < c.now then .error { current := c.now, target := tick } else .ok { now := tick }

def toDocument (c : Clock) : Document := .table [("now", .count c.now)]

def ofDocument? (d : Document) : Option Clock := do
  let f ← d.fields? ["now"]
  return { now := ← f.count 64 "now" }

end Clock

end InferenceSim
