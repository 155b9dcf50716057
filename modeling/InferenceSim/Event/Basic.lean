import InferenceSim.Request.Basic

/-! Events of the simulation. An event of the cluster pipeline carries the request
it acts on, so a request between two stages belongs to its event. -/
namespace InferenceSim

/-- What an event does, with what it carries. -/
inductive Action where
  | clusterArrival (request : Request)
  | admission (request : Request)
  | routing (request : Request)
  | instanceArrival (host : Nat) (request : Request)
  /-- The prompt was computed elsewhere and its KV has reached the decode instance. -/
  | kvTransferComplete (host : Nat) (request : Request)
  | stepComplete (host : Nat)
  | step (host : Nat)
  | snapshotRefresh
  deriving Inhabited

namespace Action

def label : Action → EventLabel
  | .clusterArrival _ => .clusterArrival
  | .admission _ => .admission
  | .routing _ => .routing
  | .instanceArrival _ _ => .instanceArrival
  | .kvTransferComplete _ _ => .kvTransferComplete
  | .stepComplete _ => .stepComplete
  | .step _ => .step
  | .snapshotRefresh => .snapshotRefresh

def priority (a : Action) : Nat := a.label.priority

/-- The instance an event is addressed to. -/
def host? : Action → Option Nat
  | .instanceArrival host _ | .kvTransferComplete host _ | .stepComplete host | .step host =>
    some host
  | _ => none

/-- The request an event carries. -/
def request? : Action → Option Request
  | .clusterArrival r | .admission r | .routing r | .instanceArrival _ r
  | .kvTransferComplete _ r => some r
  | _ => none

end Action

/-- A scheduled event; `seq` counts the events scheduled before it. -/
structure Event where
  time : Nat
  seq : Nat
  action : Action
  deriving Inhabited

namespace Event

/-- Whether an event runs before another: by time, then by the priority of its
kind, then by the order of scheduling. -/
def before (a b : Event) : Bool :=
  a.time < b.time || (a.time = b.time &&
    (a.action.priority < b.action.priority ||
      (a.action.priority = b.action.priority && a.seq < b.seq)))

end Event

end InferenceSim
