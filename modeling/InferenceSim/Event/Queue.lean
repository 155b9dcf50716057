import InferenceSim.Event.Basic

/-! The queue of pending events, kept in the order in which they run, and the time
of the event that ran last. -/
namespace InferenceSim

/-- Pending events in running order. -/
structure EventQueue where
  pending : List Event := []
  nextSeq : Nat := 0
  now : Nat := 0
  deriving Inhabited

namespace EventQueue

def insert (e : Event) : List Event → List Event
  | [] => [e]
  | head :: rest => if e.before head then e :: head :: rest else head :: insert e rest

/-- Schedules an event and gives its number; a time that has passed is refused. -/
def schedule (q : EventQueue) (time : Nat) (action : Action) :
    Except Violation (Nat × EventQueue) :=
  if time < q.now then .error (.eventInPast action.label time q.now)
  else
    let e : Event := { time, seq := q.nextSeq, action }
    .ok (q.nextSeq, { q with pending := insert e q.pending, nextSeq := q.nextSeq + 1 })

/-- Takes the event that runs next and moves the queue's time to it. -/
def pop? (q : EventQueue) : Option (Event × EventQueue) :=
  match q.pending with
  | [] => none
  | e :: rest => some (e, { q with pending := rest, now := e.time })

def nextTime? (q : EventQueue) : Option Nat := q.pending.head?.map (·.time)

def size (q : EventQueue) : Nat := q.pending.length

def inTransit (q : EventQueue) : Nat :=
  q.pending.countP fun e => e.action.request?.isSome

end EventQueue

end InferenceSim
