import InferenceSim.Request.State
import InferenceSim.Event.Label

/-! The ways in which the simulator's own bookkeeping can turn out broken. None
of them is recoverable: a run that meets one stops. -/
namespace InferenceSim

/-- Where KV blocks live: in device memory or in the host tier behind it. -/
inductive Tier where
  | gpu
  | cpu
  deriving DecidableEq, Repr

namespace Tier

def name : Tier → String
  | .gpu => "gpu"
  | .cpu => "cpu"

def label : Tier → String
  | .gpu => "Gpu"
  | .cpu => "Cpu"

def toDocument (t : Tier) : Document := .text t.label

def ofDocument? : Document → Option Tier :=
  Document.asChoice? ([gpu, cpu].map fun t => (t.label, t))

end Tier

/-- A broken invariant, with what it was seen on. -/
inductive Violation where
  | kvConservation (host : Nat) (tier : Tier) (used free total : Nat)
  | negativeRefcount (host block : Nat)
  | evictReferenced (host block refcount : Nat)
  | unknownBlock (host block : Nat)
  | eventInPast (kind : EventLabel) (time now : Nat)
  | illegalTransition (request : Nat) (source target : RequestState)
  | unknownRequest (host request : Nat)
  | unknownInstance (host count : Nat)
  deriving DecidableEq, Repr

/-- The name of the broken invariant. -/
def Violation.kind : Violation → String
  | kvConservation _ _ _ _ _ => "KvConservation"
  | negativeRefcount _ _ => "NegativeRefcount"
  | evictReferenced _ _ _ => "EvictReferenced"
  | unknownBlock _ _ => "UnknownBlock"
  | eventInPast _ _ _ => "EventInPast"
  | illegalTransition _ _ _ => "IllegalTransition"
  | unknownRequest _ _ => "UnknownRequest"
  | unknownInstance _ _ => "UnknownInstance"

/-- The text of a violation. -/
def Violation.message : Violation → String
  | kvConservation i tier used free total =>
    s!"kv conservation broken on instance {i} tier {tier.name}: used {used} + free {free} " ++
      s!"!= total {total}"
  | negativeRefcount i block => s!"refcount of block {block} on instance {i} would go negative"
  | evictReferenced i block refcount =>
    s!"block {block} on instance {i} evicted with refcount {refcount}"
  | unknownBlock i block => s!"block {block} does not exist on instance {i}"
  | eventInPast kind time now =>
    s!"event {kind.name} scheduled at {time} before current time {now}"
  | illegalTransition request source target =>
    s!"request {request}: illegal transition {source.label} -> {target.label}"
  | unknownRequest i request => s!"request {request} not found on instance {i}"
  | unknownInstance i count => s!"event targets instance {i} but the cluster has {count}"

end InferenceSim
