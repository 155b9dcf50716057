/-! The kinds of events, without what they carry, and their fixed order among
events of one tick. -/
namespace InferenceSim

/-- The stage of the simulation that an event belongs to. -/
inductive EventLabel where
  | clusterArrival
  | admission
  | routing
  | instanceArrival
  | kvTransferComplete
  | stepComplete
  | step
  | snapshotRefresh
  deriving DecidableEq, Repr, Inhabited

namespace EventLabel

def all : List EventLabel :=
  [.clusterArrival, .admission, .routing, .instanceArrival, .kvTransferComplete, .stepComplete,
    .step, .snapshotRefresh]

/-- The tie-break among events of one tick; lower runs first. -/
def priority : EventLabel → Nat
  | .clusterArrival => 0
  | .admission => 1
  | .routing => 2
  | .instanceArrival => 3
  | .kvTransferComplete => 4
  | .stepComplete => 5
  | .step => 6
  | .snapshotRefresh => 7

def name : EventLabel → String
  | .clusterArrival => "ClusterArrival"
  | .admission => "Admission"
  | .routing => "Routing"
  | .instanceArrival => "InstanceArrival"
  | .kvTransferComplete => "KvTransferComplete"
  | .stepComplete => "StepComplete"
  | .step => "Step"
  | .snapshotRefresh => "SnapshotRefresh"

def ofName? (name : String) : Option EventLabel := (all.map fun l => (l.name, l)).lookup name

end EventLabel

end InferenceSim
