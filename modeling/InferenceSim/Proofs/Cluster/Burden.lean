import InferenceSim.Proofs.Cluster.Coherence

/-! A measure of what is left to happen. Requests become lighter from stage to stage;
where none moves on, some instance comes nearer to the end of its first request. -/
namespace InferenceSim

/-- The stages that the request of an action is away from its end. -/
def Action.weight : Action → Nat
  | .clusterArrival _ => 7
  | .admission _ => 6
  | .routing _ => 5
  | .instanceArrival _ _ => 4
  | .kvTransferComplete _ _ => 2
  | .stepComplete _ | .step _ | .snapshotRefresh => 0

/-- The stages that a request of an instance is away from its end. -/
def Request.weight (r : Request) : Nat := if r.decodeTarget.isSome then 3 else 1

theorem Request.weight_of_stem {r s : Request} (same : r.stem = s.stem) : r.weight = s.weight := by
  rw [weight, decodeTarget_of_stem same, weight]

def weightOf (rs : List Request) : Nat := totalOf (rs.map Request.weight)

def loadOf (actions : List Action) : Nat := totalOf (actions.map Action.weight)

theorem weightOf_stems {rs ss : List Request}
    (same : (rs.map (·.stem)).Perm (ss.map (·.stem))) : weightOf rs = weightOf ss := by
  have weights : ∀ rs : List Request, (rs.map (·.stem)).map Request.weight =
      rs.map Request.weight := fun rs => by
    rw [List.map_map]
    exact List.map_congr_left fun r _ => rfl
  have total := totalOf_perm (same.map Request.weight)
  rwa [weights, weights] at total

@[simp] theorem weightOf_append (rs ss : List Request) :
    weightOf (rs ++ ss) = weightOf rs + weightOf ss := by
  rw [weightOf, List.map_append, totalOf_append]
  rfl

@[simp] theorem loadOf_append (as bs : List Action) :
    loadOf (as ++ bs) = loadOf as + loadOf bs := by
  rw [loadOf, List.map_append, totalOf_append]
  rfl

theorem loadOf_of_wakes {actions : List Action} {host : Nat} (own : ∀ a ∈ actions, a.wakes host) :
    loadOf actions = 0 := by
  refine totalOf_zero fun n hn => ?_
  obtain ⟨a, ha, rfl⟩ := List.mem_map.mp hn
  rcases Action.wakes_iff.mp (own a ha) with rfl | rfl <;> rfl

namespace Cluster

/-- The stages that all requests of a cluster are away from their ends. -/
def burden (hand : List Action) (c : Cluster) : Nat :=
  loadOf (hand ++ c.events.actions) + weightOf (c.instances.flatMap Instance.requests)

/-- How far the instances are from the next ends of their first requests. -/
def potential (c : Cluster) : Nat := totalOf (c.instances.map Instance.potential)

def Lighter (hand : List Action) (c : Cluster) (hand' : List Action) (d : Cluster) : Prop :=
  burden hand' d < burden hand c ∨
    burden hand' d = burden hand c ∧ potential d < potential c

variable {hand hand' : List Action} {c d : Cluster}

theorem Lighter.trans_eq {hand'' : List Action} {e : Cluster} (less : Lighter hand c hand' d)
    (instances : e.instances = d.instances) (same : burden hand'' e = burden hand' d) :
    Lighter hand c hand'' e := by
  rw [Lighter, potential, instances, same]
  exact less

theorem burden_rearrange (instances : d.instances = c.instances)
    (same : (hand' ++ d.events.actions).Perm (hand ++ c.events.actions)) :
    burden hand' d = burden hand c := by
  rw [burden, instances, loadOf, totalOf_perm (same.map _)]
  rfl

theorem burden_schedule {e : Event} {q : EventQueue}
    (joined : q.pending.Perm (e :: c.events.pending)) :
    burden hand { c with events := q } = burden (e.action :: hand) c := by
  refine burden_rearrange rfl ?_
  exact ((joined.map Event.action).append_left hand).trans List.perm_middle

theorem burden_replace (hand hand' : List Action) {host : Nat} {i j : Instance} {spent : List Action}
    (at' : c.instances[host]? = some i) (replaces : Replaces c host j d)
    (moved : i.Moved c.events spent j d.events) :
    burden hand' d + (loadOf hand + weightOf i.requests) =
      burden hand c + (loadOf hand' + weightOf j.requests) := by
  obtain ⟨added, gains, _, wakes⟩ := moved.events
  have load : loadOf d.events.actions = loadOf c.events.actions := by
    have total : loadOf d.events.actions = loadOf (added ++ c.events.actions) :=
      totalOf_perm (gains.actions.map Action.weight)
    rw [total, loadOf_append, loadOf_of_wakes wakes, Nat.zero_add]
  have weight := totalOf_perm ((flatMap_modify (fun _ => j) Instance.requests at').map
    Request.weight)
  rw [← replaces.instances, List.map_append, List.map_append, totalOf_append, totalOf_append] at weight
  simp only [burden, loadOf_append, load, weightOf]
  omega

theorem potential_replace {host : Nat} {i j : Instance} (at' : c.instances[host]? = some i)
    (replaces : Replaces c host j d) :
    potential d + i.potential = potential c + j.potential := by
  rw [potential, replaces.instances]
  exact totalOf_modify (fun _ => j) Instance.potential at'

theorem lighter_replace {host : Nat} {i j : Instance} {spent : List Action}
    (at' : c.instances[host]? = some i) (replaces : Replaces c host j d)
    (moved : i.Moved c.events spent j d.events)
    (less : loadOf hand' + weightOf j.requests < loadOf hand + weightOf i.requests ∨
      loadOf hand' + weightOf j.requests = loadOf hand + weightOf i.requests ∧
        j.potential < i.potential) : Lighter hand c hand' d := by
  have weight := burden_replace hand hand' at' replaces moved
  have nearer := potential_replace at' replaces
  unfold Lighter
  omega

/-- A cluster once an action was carried out. -/
structure Handled (config : Config) (rs : List Request) (a : Action) (c d : Cluster)
    (l : Ledger) : Prop where
  coherent : Coherent config rs [] d l
  logged : Logged config rs d l
  lighter : config.policies.admission = .acceptAll → (∀ r ∈ rs, r.Counted) → Lighter [a] c [] d

end Cluster
end InferenceSim
