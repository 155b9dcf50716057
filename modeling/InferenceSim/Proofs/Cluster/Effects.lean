import InferenceSim.Proofs.Cluster.Deeds

/-! What an action that was carried out has done: to each instance, to the events to come
and to the log. -/
namespace InferenceSim
namespace Cluster

/-- What an instance does while an action is carried out. -/
inductive Turn (c : Cluster) (id : Nat) (i : Instance) : Action → Instance → Prop
  | rest {a : Action} (other : a.host? ≠ some id) : Turn c id i a i
  | arrive {r : Request} {out : Enqueued} {j : Instance} {q : EventQueue}
      (done : i.enqueue r c.now c.events = (.ok out, j, q)) :
      Turn c id i (.instanceArrival id r) j
  | transfer {r : Request} {out : Enqueued} {j : Instance} {q : EventQueue}
      (done : i.enqueue r c.now c.events = (.ok out, j, q)) :
      Turn c id i (.kvTransferComplete id r) j
  | step {j : Instance} {q : EventQueue}
      (done : i.step c.now c.config.latency c.events = .ok (j, q)) : Turn c id i (.step id) j
  | complete {report : StepReport} {j k : Instance} {q : EventQueue}
      (done : i.complete c.now c.events = (.ok report, j, q))
      (rescored : k = j ∨ ∃ rule, k = j.reprioritize rule c.now) :
      Turn c id i (.stepComplete id) k

/-- What an action may send on. -/
inductive Sent (c : Cluster) : Action → Action → Prop
  | accept (r : Request) : Sent c (.clusterArrival r) (.admission r)
  | delay (r : Request) : Sent c (.admission r) (.admission r)
  | route (r : Request) : Sent c (.admission r) (.routing r)
  | send (r : Request) (host : Nat) (priority : Priority) (decodeTarget : Option Nat) :
      Sent c (.routing r) (.instanceArrival host { r with priority, decodeTarget })
  | handoff {host : Nat} {i j : Instance} {report : StepReport} {q : EventQueue} {h : Handoff}
      (at' : c.instances[host]? = some i)
      (done : i.complete c.now c.events = (.ok report, j, q)) (left : h ∈ report.handoffs) :
      Sent c (.stepComplete host) (.kvTransferComplete h.decode h.request)
  | bare (a : Action) {b : Action} (none : b.request? = none) : Sent c a b

structure Effect (c : Cluster) (a : Action) (d : Cluster) : Prop where
  clock : d.clock = c.clock
  config : d.config = c.config
  size : d.instances.length = c.instances.length
  turn : ∀ (id : Nat) (i j : Instance), c.instances[id]? = some i → d.instances[id]? = some j →
    Turn c id i a j
  sent : ∃ added, c.events.Joins added d.events ∧ ∀ e ∈ added, Sent c a e.action
  log : d.log.all.toList = c.log.all.toList ++ (c.finishing a).filterMap Completion.ofRequest?

variable {c d : Cluster} {a : Action} {host : Nat} {sent : List Action}
  {notes : List DecisionRecord} {ms : List Member}

namespace Effect
variable {i j : Instance}

/-- Every instance was there before the action. -/
theorem turned (effect : Effect c a d) (after : d.instances[host]? = some j) :
    ∃ i, c.instances[host]? = some i ∧ Turn c host i a j := by
  have inside := effect.size ▸ (List.getElem?_eq_some_iff.mp after).1
  have before := List.getElem?_eq_getElem inside
  exact ⟨_, before, effect.turn host _ j before after⟩

/-- Every instance is still there after the action. -/
theorem turns (effect : Effect c a d) (before : c.instances[host]? = some i) :
    ∃ j, d.instances[host]? = some j ∧ Turn c host i a j := by
  have inside := (List.getElem?_eq_some_iff.mp before).1
  have after := List.getElem?_eq_getElem (effect.size ▸ inside : host < d.instances.length)
  exact ⟨_, after, effect.turn host i _ before after⟩

end Effect

theorem turn_modify {i j : Instance} (at' : c.instances[host]? = some i)
    (instances : d.instances = c.instances.modify host fun _ => j) (own : a.host? = some host)
    (turn : Turn c host i a j) (id : Nat) (s t : Instance) (before : c.instances[id]? = some s)
    (after : d.instances[id]? = some t) : Turn c id s a t := by
  rw [instances] at after
  by_cases same : host = id
  · obtain rfl := same
    rw [List.getElem?_modify_eq, at'] at after
    rw [at'] at before
    obtain rfl : i = s := Option.some.inj before
    obtain rfl : j = t := Option.some.inj after
    exact turn
  · rw [List.getElem?_modify_ne _ _ same, before] at after
    obtain rfl := Option.some.inj after
    exact .rest (own ▸ fun eq => same (Option.some.inj eq))

theorem servers_modify (ms : List Member) (host : Nat) {f : Member → Member}
    (same : ∀ m, (f m).server = m.server) :
    (ms.modify host f).map (·.server) = ms.map (·.server) :=
  (map_modify (g := fun i => i) same ms host).trans (List.modify_id host _)

theorem servers_replace (c : Cluster) (host : Nat) {f : Member → Member} {j : Instance}
    (server : ∀ m, (f m).server = j) :
    (c.members.modify host f).map (·.server) = c.instances.modify host fun _ => j :=
  instances_change c host server

theorem servers_countFinished (host : Nat) (rs : List Request) (ms : List Member) :
    (countFinished host rs ms).map (·.server) = ms.map (·.server) := by
  induction rs generalizing ms with
  | nil => rfl
  | cons r rest ih => exact (ih _).trans (servers_modify ms host fun _ => rfl)

theorem servers_countHanded (host : Nat) (hs : List Handoff) (ms : List Member) :
    (countHanded host hs ms).map (·.server) = ms.map (·.server) := by
  induction hs generalizing ms with
  | nil => rfl
  | cons h rest ih =>
      refine (ih _).trans ((servers_modify _ h.decode ?_).trans (servers_modify ms host ?_)) <;>
        exact fun _ => rfl

theorem turn_of_deed (deed : Deed c a sent notes ms) :
    (a.host? = none ∧ ms.map (·.server) = c.instances) ∨
      ∃ host i j, a.host? = some host ∧ c.instances[host]? = some i ∧ Turn c host i a j ∧
        ms.map (·.server) = c.instances.modify host fun _ => j := by
  have found : ∀ {m : Member} {host : Nat}, c.members[host]? = some m →
      c.instances[host]? = some m.server := fun at' => by
    rw [instances, List.getElem?_map, at']
    rfl
  cases deed with
  | send => exact .inl ⟨rfl, servers_modify _ _ fun _ => rfl⟩
  | join own at' done bare =>
      refine .inr ⟨_, _, _, ?_, found at', ?_, servers_replace c _ fun _ => rfl⟩
      · rcases own with rfl | rfl <;> rfl
      · rcases own with rfl | rfl
        · exact .arrive done
        · exact .transfer done
  | turnAway own at' done bare =>
      refine .inr ⟨_, _, _, ?_, found at', ?_, servers_replace c _ fun _ => rfl⟩
      · rcases own with rfl | rfl <;> rfl
      · rcases own with rfl | rfl
        · exact .arrive done
        · exact .transfer done
  | step at' done bare =>
      exact .inr ⟨_, _, _, rfl, found at', .step done, servers_replace c _ fun _ => rfl⟩
  | complete at' done rescored bare =>
      refine .inr ⟨_, _, _, rfl, found at', .complete done rescored, ?_⟩
      rw [servers_countHanded, servers_countFinished]
      exact servers_replace c _ fun _ => rfl
  | _ => exact .inl ⟨rfl, rfl⟩

theorem sent_of_deed (deed : Deed c a sent notes ms) : ∀ b ∈ sent, Sent c a b := by
  cases deed with
  | accept r => exact List.forall_mem_singleton.mpr (.accept r)
  | grant r => exact List.forall_mem_singleton.mpr (.route r)
  | delay r => exact List.forall_mem_singleton.mpr (.delay r)
  | send => exact List.forall_mem_singleton.mpr (.send _ _ _ _)
  | refuse | forgo | misroute => exact List.forall_mem_nil _
  | join _ _ _ bare | turnAway _ _ _ bare | step _ _ bare | refresh bare =>
      exact fun b hb => .bare _ (bare b hb)
  | complete at' done rescored bare =>
      refine List.forall_mem_append.mpr ⟨List.forall_mem_map.mpr fun h hh => ?_,
        fun b hb => .bare _ (bare b hb)⟩
      refine .handoff ?_ done hh
      rw [instances, List.getElem?_map, at']
      rfl

theorem effect_of_dispatch (done : c.dispatch a = .ok d) : Effect c a d := by
  obtain ⟨sent, notes, deed, leaves⟩ := does_of_dispatch done
  obtain ⟨added, joins, same⟩ := leaves.events
  have sends : ∀ e ∈ added, Sent c a e.action := fun e he =>
    sent_of_deed deed _ (same.mem_iff.mp (List.mem_map_of_mem he))
  rcases turn_of_deed deed with ⟨nobody, servers⟩ | ⟨host, i, j, own, at', turn, servers⟩
  · refine ⟨leaves.clock, leaves.config, congrArg List.length servers, fun id i j before after => ?_,
      ⟨added, joins, sends⟩, leaves.log⟩
    rw [instances, servers, before] at after
    obtain rfl := Option.some.inj after
    exact .rest (nobody ▸ (Option.some_ne_none id).symm)
  · refine ⟨leaves.clock, leaves.config, ?_, turn_modify at' servers own turn,
      ⟨added, joins, sends⟩, leaves.log⟩
    exact (congrArg List.length servers).trans (List.length_modify ..)

end Cluster
end InferenceSim
