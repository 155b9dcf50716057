import InferenceSim.Document.Fields

/-! What a request is classed as, and the states it moves through on its way to
completion or rejection. -/
namespace InferenceSim

/-- The service class of a request, the most urgent first. -/
inductive SloClass where
  | critical
  | standard
  | sheddable
  | batch
  | background
  deriving DecidableEq, Repr, Inhabited

namespace SloClass

def all : List SloClass := [.critical, .standard, .sheddable, .batch, .background]

def name : SloClass → String
  | .critical => "critical"
  | .standard => "standard"
  | .sheddable => "sheddable"
  | .batch => "batch"
  | .background => "background"

/-- The name that reports use. -/
def label : SloClass → String
  | .critical => "Critical"
  | .standard => "Standard"
  | .sheddable => "Sheddable"
  | .batch => "Batch"
  | .background => "Background"

/-- The place of a class in the order of urgency. -/
def rank : SloClass → Nat
  | .critical => 0
  | .standard => 1
  | .sheddable => 2
  | .batch => 3
  | .background => 4

def toDocument (c : SloClass) : Document := .text c.name

def ofDocument? : Document → Option SloClass :=
  Document.asChoice? (all.map fun c => (c.name, c))

end SloClass

/-- The start of the prompt that all requests of one group have in common. -/
structure SharedPrefix where
  group : Nat
  tokens : Nat
  deriving DecidableEq, Repr

namespace SharedPrefix

def toDocument (p : SharedPrefix) : Document :=
  .table [("group", .count p.group), ("tokens", .count p.tokens)]

def ofDocument? (d : Document) : Option SharedPrefix := do
  let f ← d.fields? ["group", "tokens"]
  return { group := ← f.count 64 "group", tokens := ← f.count 32 "tokens" }

end SharedPrefix

/-- Where a request is in its life. A request arrives, waits in a queue and runs;
preemption and handoff send it back to a queue. -/
inductive RequestState where
  | arrived
  | queued
  | running
  | completed
  | rejected
  deriving DecidableEq, Repr, Inhabited

namespace RequestState

def all : List RequestState := [.arrived, .queued, .running, .completed, .rejected]

def isTerminal : RequestState → Bool
  | .completed | .rejected => true
  | _ => false

/-- The legal moves. -/
def canMoveTo : RequestState → RequestState → Bool
  | .arrived, .queued => true
  | .arrived, .rejected => true
  | .queued, .running => true
  | .queued, .rejected => true
  | .running, .queued => true
  | .running, .completed => true
  | _, _ => false

/-- The name that reports use. -/
def label : RequestState → String
  | .arrived => "Arrived"
  | .queued => "Queued"
  | .running => "Running"
  | .completed => "Completed"
  | .rejected => "Rejected"

/-- The name that records use. -/
def name : RequestState → String
  | .arrived => "arrived"
  | .queued => "queued"
  | .running => "running"
  | .completed => "completed"
  | .rejected => "rejected"

def toDocument (s : RequestState) : Document := .text s.name

def ofDocument? : Document → Option RequestState :=
  Document.asChoice? (all.map fun s => (s.name, s))

end RequestState

end InferenceSim
