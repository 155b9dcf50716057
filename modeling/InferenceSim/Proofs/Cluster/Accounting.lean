import InferenceSim.Proofs.Cluster.Running
import Mathlib.Data.List.Perm.Basic

/-! Where the requests of a run are. At any time each of them is on its way in one event,
waits at one instance, runs there, was logged as complete or was counted as turned away. -/
namespace InferenceSim

def Action.stage : Action → RequestState
  | .kvTransferComplete _ _ => .queued
  | _ => .arrived

namespace Cluster

/-- The requests on their way, in the payload of an event each. -/
def travelling (c : Cluster) : List Request := c.events.pending.filterMap (·.action.request?)

def waiting (c : Cluster) : List Request := c.instances.flatMap (·.queue)

def running (c : Cluster) : List Request := c.instances.flatMap (·.running)

def finished (c : Cluster) : List Nat := c.log.all.toList.map (·.request)

/-- Requests with some ids are in one place each, and in the state of this place. Those
that were turned away are only counted. -/
structure Accounted (ids : List Nat) (c : Cluster) : Prop where
  places : ∃ refused : List Nat, refused.length = c.log.rejected ∧
    (c.travelling.map (·.id) ++ c.waiting.map (·.id) ++ c.running.map (·.id) ++ c.finished ++
      refused).Perm ids
  travel : ∀ e ∈ c.events.pending, ∀ r, e.action.request? = some r → r.state = e.action.stage
  wait : ∀ r ∈ c.waiting, r.state = .queued
  run : ∀ r ∈ c.running, r.state = .running

variable {config : Config} {rs : List Request} {c : Cluster} {l : Ledger}

theorem stage_of_proper {spec : InstanceSpec} {n : Nat} {a : Action} {r : Request}
    (proper : a.Proper spec n) (own : a.request? = some r) : r.state = a.stage := by
  cases a with
  | clusterArrival | admission | routing =>
      obtain rfl := Option.some.inj own
      exact proper.1
  | instanceArrival =>
      obtain rfl := Option.some.inj own
      exact proper.2.1
  | kvTransferComplete =>
      obtain rfl := Option.some.inj own
      exact proper.2.state
  | _ => cases own

namespace Coherent

theorem ids_perm (k : Coherent config rs [] c l) :
    (c.travelling.map (·.id) ++ (c.waiting.map (·.id) ++ c.running.map (·.id)) ++
      l.all.map (·.id)).Perm (rs.map (·.id)) := by
  have travels : carried ([] ++ c.events.actions) = c.travelling := List.filterMap_map ..
  have parts : (c.waiting ++ c.running).Perm (c.instances.flatMap Instance.requests) :=
    List.perm_append_comm.trans (List.flatMap_append_perm c.instances (·.running) (·.queue))
  have owners := k.owners.map (·.id)
  rw [travels, List.map_append, List.map_map, List.map_append] at owners
  refine .trans ?_ owners
  rw [← List.map_append]
  exact ((parts.map (·.id)).append_left _).append_right _

theorem accounted (k : Coherent config rs [] c l) (g : Logged config rs c l) :
    Accounted (rs.map (·.id)) c where
  places := by
    refine ⟨(l.refused ++ l.misrouted ++ l.unserved).map (·.id), ?_, ?_⟩
    · rw [RunLog.rejected, g.refused, g.misrouted, g.unserved, List.length_map, List.length_append,
        List.length_append]
    · refine .trans (.of_eq ?_) k.ids_perm
      rw [finished, g.completed, Ledger.all]
      simp only [List.map_append, List.append_assoc]
  travel e he r own := by
    refine stage_of_proper (k.proper e.action ?_) own
    exact List.mem_map_of_mem (f := Event.action) he
  wait r hr := by
    obtain ⟨i, hi, hr⟩ := List.mem_flatMap.mp hr
    obtain ⟨id, at'⟩ := List.getElem?_of_mem hi
    exact ((k.employs id i at').coherent.fitting.waits r hr).1
  run r hr := by
    obtain ⟨i, hi, hr⟩ := List.mem_flatMap.mp hr
    obtain ⟨id, at'⟩ := List.getElem?_of_mem hi
    exact ((k.employs id i at').coherent.fitting.runs r hr).1

end Coherent

end Cluster
end InferenceSim
