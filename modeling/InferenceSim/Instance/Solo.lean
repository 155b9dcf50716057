import InferenceSim.Instance.Basic

/-! An instance on its own, with nothing but the events that it schedules itself. -/
namespace InferenceSim

structure Solo where
  server : Instance
  events : EventQueue := {}

namespace Solo

def enqueue (s : Solo) (r : Request) (now : Nat) : Except Fault Enqueued × Solo :=
  let (result, server, events) := s.server.enqueue r now s.events
  (result, { server, events })

def complete (s : Solo) (now : Nat) : Except Fault StepReport × Solo :=
  let (result, server, events) := s.server.complete now s.events
  (result, { server, events })

/-- Runs the next event. The completion of a step has a report. -/
def next? (s : Solo) (latency : LatencyModel) :
    Option (Event × Except Fault (Option StepReport) × Solo) :=
  s.events.pop?.map fun (e, events) =>
    let s := { s with events }
    match e.action with
    | .step _ =>
      match s.server.step e.time latency s.events with
      | .ok (server, events) => (e, .ok none, { server, events })
      | .error f => (e, .error f, s)
    | .stepComplete _ =>
      let (result, s) := s.complete e.time
      (e, result.map some, s)
    | _ => (e, .ok none, s)

/-- Runs at most `count` events. -/
def run (latency : LatencyModel) : (count : Nat) → Solo →
    List (Event × Except Fault (Option StepReport)) × Solo
  | 0, s => ([], s)
  | count + 1, s =>
    match s.next? latency with
    | none => ([], s)
    | some (e, result, s) =>
      let (rest, s) := run latency count s
      ((e, result) :: rest, s)

end Solo

end InferenceSim
