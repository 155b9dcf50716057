import InferenceSim.Policy.Observation

/-! Scheduling inside an instance: the order of the wait queue, and which running
request gives way when blocks run out. Every order but first come, first served
ends in the arrival and the id, so it never leaves two requests tied. -/
namespace InferenceSim

inductive SchedulerRule where
  /-- First come, first served: the queue stays as it is. -/
  | fcfs
  /-- The highest priority first. -/
  | priorityFcfs
  /-- The shortest prompt first. -/
  | shortestFirst
  /-- The lowest priority first. -/
  | reversePriority
  deriving DecidableEq, Repr, Inhabited

namespace SchedulerRule

def all : List SchedulerRule := [.fcfs, .priorityFcfs, .shortestFirst, .reversePriority]

def name : SchedulerRule → String
  | .fcfs => "fcfs"
  | .priorityFcfs => "priority-fcfs"
  | .shortestFirst => "sjf"
  | .reversePriority => "reverse-priority"

def byArrival (a b : RequestView) : Ordering :=
  (compare a.arrivalTime b.arrivalTime).then (compare a.id b.id)

/-- `lt` when `a` runs before `b`. -/
def compare (rule : SchedulerRule) (a b : RequestView) : Ordering :=
  match rule with
  | .fcfs => .eq
  | .priorityFcfs => (b.priority.compare a.priority).then (byArrival a b)
  | .shortestFirst => (Ord.compare a.inputTokens b.inputTokens).then (byArrival a b)
  | .reversePriority => (a.priority.compare b.priority).then (byArrival a b)

/-- A list in running order, by the views of its members. The sort is stable. -/
def sort {α : Type} (rule : SchedulerRule) (view : α → RequestView) (queue : List α) : List α :=
  queue.mergeSort fun a b => (rule.compare (view a) (view b)).isLE

def order (rule : SchedulerRule) (queue : List RequestView) : List Nat :=
  (rule.sort (·.1) queue.zipIdx).map (·.2)

/-- The position of the running request to preempt: the one admitted last. -/
def victim? (running : Nat) : Option Nat := if running = 0 then none else some (running - 1)

def toDocument (rule : SchedulerRule) : Document := .table [("name", .text rule.name)]

def ofDocument? (d : Document) : Option SchedulerRule := do
  let (name, d) ← d.tagged? "name"
  d.bare?
  (all.map fun r => (r.name, r)).lookup name

end SchedulerRule

end InferenceSim
