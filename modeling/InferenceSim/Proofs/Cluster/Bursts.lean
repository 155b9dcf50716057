import InferenceSim.Proofs.Cluster.Counters
import InferenceSim.Proofs.Cluster.Reaching
import InferenceSim.Proofs.Cluster.Stories
import InferenceSim.Proofs.Routing.Freshness
import InferenceSim.Proofs.Scheduling

/-! Bursts of requests. Reading the board again at the same time shows the same loads, and what is
routed counts at once. So each of the requests that are routed at one time to the least loaded
instance finds the loads as the ones before it have left them, and none gets far ahead. -/
namespace InferenceSim

theorem RefreshMode.reread {α : Type} (mode : RefreshMode) (refreshed clock : Nat) (live old : α) :
    (if mode.due (if mode.due refreshed clock then clock else refreshed) clock then live
      else if mode.due refreshed clock then live else old) =
      if mode.due refreshed clock then live else old := by
  by_cases due : mode.due refreshed clock
  · simp only [if_pos due, ite_self]
  · simp only [if_neg due]

namespace PostedSnapshot
variable (p : PostedSnapshot) (c : SnapshotConfig) (live : LiveLoad) (clock : Nat)

def shownLoad : Nat :=
  (p.refreshDue c live clock).snapshot.queueDepth + (p.refreshDue c live clock).snapshot.batchSize

theorem shownLoad_reread (pending inFlight timestamp : Nat) :
    ({ p.refreshDue c live clock with
        snapshot := { (p.refreshDue c live clock).snapshot with pending, inFlight, timestamp } } :
      PostedSnapshot).shownLoad c live clock = p.shownLoad c live clock := by
  simp only [shownLoad, refreshDue_eq, RefreshMode.reread]

end PostedSnapshot

namespace SnapshotBoard
variable (b : SnapshotBoard) (live : LiveLoad) (pending inFlight clock : Nat)

/-- The queued and running requests that a reading shows for an instance. -/
def shownLoad (id : Nat) : Nat :=
  ((b.posted[id]?).map fun p => p.shownLoad b.config live clock).getD 0

theorem read_effectiveLoad {id : Nat} (inside : id < b.posted.size) :
    (b.read id live pending inFlight clock).1.effectiveLoad =
      b.shownLoad live clock id + pending := by
  unfold shownLoad read
  rw [Array.getElem?_eq_getElem inside]
  rfl

theorem shownLoad_read {id id' : Nat} {live' : LiveLoad} (same : id = id' → live = live') :
    (b.read id live pending inFlight clock).2.shownLoad live' clock id' =
      b.shownLoad live' clock id' := by
  unfold read
  cases found : b.posted[id]? with
  | none => rfl
  | some p =>
      have inside := (Array.getElem?_eq_some_iff.mp found).1
      simp only [shownLoad, Array.getElem?_setIfInBounds]
      by_cases own : id = id'
      · obtain rfl := same own
        subst own
        rw [if_pos rfl, if_pos inside, found]
        exact p.shownLoad_reread b.config live clock pending inFlight clock
      · rw [if_neg own]

end SnapshotBoard

theorem Posted.readBoard_loads {roles : List Role} {b : SnapshotBoard} (k : Posted roles b)
    (now : Nat) {all ms : List Member} (among : ms ⊆ all)
    (inside : ∀ m ∈ all, m.server.id < roles.length)
    (alone : ∀ m ∈ all, ∀ n ∈ all, m.server.id = n.server.id → m.server.load = n.server.load) :
    (Cluster.readBoard now ms b).1.map (fun s => (s.id, s.effectiveLoad)) =
      ms.map (fun m =>
        (m.server.id, b.shownLoad m.server.load now m.server.id + m.pending)) ∧
    ∀ n ∈ all, (Cluster.readBoard now ms b).2.shownLoad n.server.load now n.server.id =
      b.shownLoad n.server.load now n.server.id := by
  induction ms generalizing b with
  | nil => exact ⟨rfl, fun _ _ => rfl⟩
  | cons m rest ih =>
      have here : m ∈ all := among List.mem_cons_self
      obtain ⟨id, _, posted⟩ := k.read (inside m here) m.server.load m.pending m.inFlight now
      have load := b.read_effectiveLoad m.server.load m.pending m.inFlight now
        (k.size.symm ▸ inside m here : m.server.id < b.posted.size)
      have still : ∀ n ∈ all,
          (b.read m.server.id m.server.load m.pending m.inFlight now).2.shownLoad n.server.load now
            n.server.id = b.shownLoad n.server.load now n.server.id := fun n hn =>
        b.shownLoad_read m.server.load m.pending m.inFlight now (alone m here n hn)
      obtain ⟨shown, later⟩ := ih posted (List.subset_of_cons_subset among)
      refine ⟨List.cons_eq_cons.mpr ⟨Prod.ext id load, shown.trans ?_⟩, fun n hn => ?_⟩
      · exact List.map_congr_left fun n hn => by
          rw [still n (among (List.mem_cons_of_mem m hn))]
      · exact (later n hn).trans (still n hn)

/-- Loads of which those that were hit belong to a pool and are at most one ahead of it. -/
def Even (loads : List Nat) (pool hit : Nat → Prop) : Prop :=
  ∀ i, hit i → pool i ∧ ∃ x, loads[i]? = some x ∧
    ∀ (j y : Nat), pool j → loads[j]? = some y → x ≤ y + 1

theorem Even.add_least {loads : List Nat} {pool hit hit' : Nat → Prop} (k : Even loads pool hit)
    {host x : Nat} (inside : pool host) (at' : loads[host]? = some x)
    (least : ∀ (j y : Nat), pool j → loads[j]? = some y → x ≤ y)
    (more : ∀ i, hit' i → hit i ∨ host = i) : Even (loads.modify host (· + 1)) pool hit' := by
  have grown : ∀ (j y : Nat), (loads.modify host (· + 1))[j]? = some y →
      ∃ z, loads[j]? = some z ∧ z ≤ y := by
    intro j y at''
    rw [List.getElem?_modify] at at''
    obtain ⟨z, before, rfl⟩ := Option.map_eq_some_iff.mp at''
    refine ⟨z, before, ?_⟩
    split
    · exact Nat.le_succ z
    · exact Nat.le_refl z
  intro i hits
  by_cases own : host = i
  · subst own
    refine ⟨inside, x + 1, by rw [List.getElem?_modify_eq, at']; rfl, fun j y within at'' => ?_⟩
    obtain ⟨z, before, le⟩ := grown j y at''
    exact Nat.succ_le_succ (Nat.le_trans (least j z within before) le)
  · obtain ⟨inside', w, before, close⟩ := k i ((more i hits).resolve_right own)
    refine ⟨inside', w, by rw [List.getElem?_modify_ne _ _ own, before], fun j y within at'' => ?_⟩
    obtain ⟨z, before', le⟩ := grown j y at''
    exact Nat.le_trans (close j z within before') (Nat.succ_le_succ le)

/-- A policy that sends requests to the least loaded instance of a pool. -/
def RoutingPolicy.Picks (policy : RoutingPolicy) (roles : List Role)
    (pool : Nat → Prop) : Prop :=
  ∀ {view : RequestView} {seen : ClusterView} {host : Nat} {decode : Option Nat},
    Seen roles seen.snapshots → (policy.route view seen).1.target = .towards host decode →
    ∃ s ∈ seen.snapshots, s.id = host ∧ pool host ∧
      ∀ u ∈ seen.snapshots, pool u.id → s.effectiveLoad ≤ u.effectiveLoad

namespace Cluster
variable {config : Config} {roles : List Role} {policy : RoutingPolicy} {b c d : Cluster}
  {a : Action} {e : Event} {r : Request} {time : Nat}

def seenAt (c : Cluster) (time : Nat) : ClusterView :=
  ({ c with clock := { now := time } } : Cluster).observe.1

/-- The load that the router would see of a member at some time. -/
def loadAt (c : Cluster) (time : Nat) (m : Member) : Nat :=
  c.board.shownLoad m.server.load time m.server.id + m.pending

/-- The loads that the router would see at some time, by id. -/
def loadsAt (c : Cluster) (time : Nat) : List Nat := c.members.map (c.loadAt time)

/-- How many requests are on their way to the queue of an instance. -/
def arriving (c : Cluster) (host : Nat) : Nat := c.events.actions.countP (·.reaches host)

/-- Every member has its id, its role and a snapshot with them, and a policy routes. -/
structure Levels (roles : List Role) (policy : RoutingPolicy) (c : Cluster) : Prop where
  routing : c.routing = policy
  size : c.instances.length = roles.length
  own : ∀ (id : Nat) (i : Instance), c.instances[id]? = some i → i.id = id
  role : ∀ (id : Nat) (i : Instance), c.instances[id]? = some i → roles[id]? = some i.role
  posted : Posted roles c.board

theorem Turn.keeps {host : Nat} {i j : Instance} (turn : Turn c host i a j) :
    j.id = i.id ∧ j.role = i.role := by
  cases turn with
  | rest => exact ⟨rfl, rfl⟩
  | arrive done | transfer done =>
      rcases Instance.enqueue_cases done with rfl | ⟨_, _, rfl⟩ <;> exact ⟨rfl, rfl⟩
  | step done =>
      obtain ⟨_, _, _, stepped⟩ := Instance.step_cases done
      cases stepped <;> exact ⟨rfl, rfl⟩
  | complete done rescored =>
      obtain ⟨_, _, _, _, _, _, _, rfl⟩ := Instance.complete_keeps done
      rcases rescored with rfl | ⟨rule, rfl⟩ <;> exact ⟨rfl, rfl⟩

namespace Looks
variable {board : SnapshotBoard} {routing : RoutingPolicy}

theorem posted (looks : Looks c a board routing) (k : Posted roles c.board)
    (inside : ∀ m ∈ c.members, m.server.id < roles.length) : Posted roles board := by
  cases looks with
  | ask | choose => exact (k.readBoard c.now c.members inside).2.2
  | refresh loads => exact k.refreshAll loads c.now
  | rest => exact k

theorem steady (looks : Looks c a board routing) (steady : c.routing.Steady) :
    routing = c.routing := by
  cases looks with
  | choose r view => exact steady view c.observe.1
  | _ => rfl

theorem board_eq (looks : Looks c (.routing r) board routing) : board = c.observe.2.board := by
  cases looks with
  | choose => rfl
  | rest other => exact absurd rfl (other r)

end Looks

namespace Levels

theorem member (k : Levels roles policy c) {m : Member} (hm : m ∈ c.members) :
    c.members[m.server.id]? = some m := by
  obtain ⟨id, at'⟩ := List.getElem?_of_mem hm
  have found : c.instances[id]? = some m.server := by
    rw [instances, List.getElem?_map, at']
    rfl
  rwa [k.own id m.server found]

theorem inside (k : Levels roles policy c) : ∀ m ∈ c.members, m.server.id < roles.length := by
  intro m hm
  rw [← k.size, instances, List.length_map]
  exact (List.getElem?_eq_some_iff.mp (k.member hm)).1

theorem alone (k : Levels roles policy c) : ∀ m ∈ c.members, ∀ n ∈ c.members,
    m.server.id = n.server.id → m.server.load = n.server.load := by
  intro m hm n hn same
  have found := k.member hm
  rw [same, k.member hn] at found
  rw [Option.some.inj found]

/-- It does not matter what the time is, nor what is to happen. -/
theorem moved (k : Levels roles policy c) (clock : Clock) (events : EventQueue)
    (eventLog : Option (Array LoggedEvent)) :
    Levels roles policy { c with clock, events, eventLog } :=
  ⟨k.routing, k.size, k.own, k.role, k.posted⟩

/-- The router sees all members with their loads. -/
theorem shows (k : Levels roles policy c) (time : Nat) :
    (c.seenAt time).snapshots.map Snapshot.standing =
      c.members.map fun m => (m.server.id, c.loadAt time m) :=
  (k.posted.readBoard_loads time (List.Subset.refl _) k.inside k.alone).1

theorem shows_member (k : Levels roles policy c) (time : Nat) {m : Member} (hm : m ∈ c.members) :
    ∃ s ∈ (c.seenAt time).snapshots, s.id = m.server.id ∧ s.effectiveLoad = c.loadAt time m := by
  have listed : (m.server.id, c.loadAt time m) ∈
      c.members.map fun m => (m.server.id, c.loadAt time m) := List.mem_map_of_mem hm
  rw [← k.shows] at listed
  obtain ⟨s, hs, same⟩ := List.mem_map.mp listed
  exact ⟨s, hs, congrArg Prod.fst same, congrArg Prod.snd same⟩

theorem shown (k : Levels roles policy c) {s : Snapshot} (hs : s ∈ (c.seenAt time).snapshots) :
    ∃ m ∈ c.members, m.server.id = s.id ∧ c.loadAt time m = s.effectiveLoad := by
  have listed : s.standing ∈ (c.seenAt time).snapshots.map Snapshot.standing :=
    List.mem_map_of_mem hs
  rw [k.shows] at listed
  obtain ⟨m, hm, same⟩ := List.mem_map.mp listed
  exact ⟨m, hm, congrArg Prod.fst same, congrArg Prod.snd same⟩

theorem loadsAt_shown (k : Levels roles policy c) {s : Snapshot}
    (hs : s ∈ (c.seenAt time).snapshots) : (c.loadsAt time)[s.id]? = some s.effectiveLoad := by
  obtain ⟨m, hm, own, load⟩ := k.shown hs
  rw [loadsAt, List.getElem?_map, ← own, k.member hm, ← load]
  rfl

theorem shown_at (k : Levels roles policy c) {id x : Nat}
    (at' : (c.loadsAt time)[id]? = some x) :
    ∃ s ∈ (c.seenAt time).snapshots, s.id = id ∧ s.effectiveLoad = x := by
  rw [loadsAt, List.getElem?_map] at at'
  obtain ⟨m, found, rfl⟩ := Option.map_eq_some_iff.mp at'
  obtain ⟨s, hs, own, load⟩ := k.shows_member time (List.mem_of_getElem? found)
  refine ⟨s, hs, own.trans (k.own id m.server ?_), load⟩
  rw [instances, List.getElem?_map, found]
  rfl

/-- The router sees every instance under its id and with its role. -/
theorem seen (k : Levels roles policy c) (time : Nat) : Seen roles (c.seenAt time).snapshots where
  known := (k.posted.readBoard time c.members k.inside).1
  all i inside := by
    have below : i < (c.loadsAt time).length := by
      rwa [loadsAt, List.length_map, ← List.length_map (·.server), ← instances, k.size]
    obtain ⟨s, hs, own, _⟩ := k.shown_at (List.getElem?_eq_getElem below)
    exact ⟨s, hs, own⟩

theorem dispatch (k : Levels roles policy c) (steady : policy.Steady) (done : c.dispatch a = .ok d) :
    Levels roles policy d := by
  obtain ⟨_, _, _, leaves⟩ := does_of_dispatch done
  have effect := effect_of_dispatch done
  constructor
  case routing => exact (leaves.looks.steady (k.routing ▸ steady)).trans k.routing
  case size => exact effect.size.trans k.size
  case own =>
    intro id j after
    obtain ⟨i, before, turn⟩ := effect.turned after
    exact turn.keeps.1.trans (k.own id i before)
  case role =>
    intro id j after
    obtain ⟨i, before, turn⟩ := effect.turned after
    exact turn.keeps.2 ▸ k.role id i before
  case posted => exact leaves.looks.posted k.posted k.inside

theorem begin (k : Levels roles policy c) {q : EventQueue} (begun : c.begin e q = .ok b) :
    Levels roles policy b := by
  rw [begin_inv begun]
  exact k.moved _ _ _

theorem ran (k : Levels roles policy c) (steady : policy.Steady) (ran : Ran c e b d) :
    Levels roles policy d := by
  obtain ⟨q, _, begun⟩ := ran.popped
  obtain ⟨d', done, rfl⟩ := ran.dispatched
  have after := (k.begin begun).dispatch steady done
  exact ⟨after.routing, after.size, after.own, after.role, after.posted⟩

end Levels

/-- Routing sends a request to an instance that expects it then, or turns it away for its target. -/
theorem Deed.routes {sent : List Action} {notes : List DecisionRecord} {ms : List Member}
    (deed : Deed c (.routing r) sent notes ms) : ∃ view,
      (sent = [] ∧ ms = c.members ∧ ((c.routing.route view c.observe.1).1.target = .reject ∨
        ∃ m, (c.routing.route view c.observe.1).1.target.misroute? (c.instances.map (·.role)) =
          some m)) ∨
      ∃ host s, (c.routing.route view c.observe.1).1.target = .towards host s.decodeTarget ∧
        sent = [.instanceArrival host s] ∧ ms = c.members.modify host Member.expecting := by
  cases deed with
  | send priority candidates regret chosen target =>
      exact ⟨_, .inr ⟨_, _, chosen ▸ target, rfl, rfl⟩⟩
  | forgo chosen target => exact ⟨_, .inl ⟨rfl, rfl, .inl (chosen ▸ target)⟩⟩
  | misroute chosen wrong => exact ⟨_, .inl ⟨rfl, rfl, .inr ⟨_, chosen ▸ wrong⟩⟩⟩
  | join own | turnAway own => rcases own with own | own <;> cases own

/-- What routing at some time makes of the loads and of what is to come: nothing, if the target
takes no request, or one more for the target, where a request is on its way to. -/
inductive Routes (policy : RoutingPolicy) (time : Nat) (c d : Cluster) (rest : List Action) : Prop
  | away (view : RequestView) (unfit : (policy.route view (c.seenAt time)).1.target = .reject ∨
        ∃ m, (policy.route view (c.seenAt time)).1.target.misroute? (c.instances.map (·.role)) =
          some m)
      (loads : d.loadsAt time = c.loadsAt time) (less : d.events.actions.Perm rest)
  | send (view : RequestView) (host : Nat) (s : Request)
      (target : (policy.route view (c.seenAt time)).1.target = .towards host s.decodeTarget)
      (loads : d.loadsAt time = (c.loadsAt time).modify host (· + 1))
      (sent : d.events.actions.Perm (.instanceArrival host s :: rest))

theorem Levels.routes (k : Levels roles policy c) (ran : Ran c e b d) (own : e.action = .routing r) :
    d.now = e.time ∧
      ∃ rest, c.events.actions = .routing r :: rest ∧ Routes policy e.time c d rest := by
  obtain ⟨q, popped, begun⟩ := ran.popped
  obtain ⟨sent, notes, deed, leaves⟩ := ran.does
  obtain rfl := begin_inv begun
  have kb := k.begin begun
  have rest : c.events.actions = .routing r :: q.actions := by
    rw [EventQueue.actions, (EventQueue.pop?_inv popped).1, List.map_cons, own]
    rfl
  rw [own] at deed leaves
  have still : ∀ m ∈ c.members, d.loadAt e.time m = c.loadAt e.time m := by
    intro m hm
    rw [loadAt, leaves.looks.board_eq]
    exact congrArg (· + m.pending) ((kb.posted.readBoard_loads e.time (List.Subset.refl _) kb.inside
      kb.alone).2 m hm)
  refine ⟨congrArg Clock.now leaves.clock, _, rest, ?_⟩
  obtain ⟨view, ⟨rfl, members, unfit⟩ | ⟨host, s, target, rfl, members⟩⟩ := deed.routes
  · refine .away view (k.routing ▸ unfit) ?_ leaves.actions
    rw [loadsAt, loadsAt, members]
    exact List.map_congr_left still
  · refine .send view host s (k.routing ▸ target) ?_ leaves.actions
    have counted : ∀ m, d.loadAt e.time (Member.expecting m) = d.loadAt e.time m + 1 := fun m => rfl
    rw [loadsAt, loadsAt, members, ← List.map_congr_left still]
    exact map_modify counted c.members host

def RoutesAt (time : Nat) (c : Cluster) : Prop :=
  ∃ x q, c.events.pop? = some (x, q) ∧ x.time = time ∧ x.action.label = .routing

instance (time : Nat) (c : Cluster) : Decidable (c.RoutesAt time) :=
  decidable_of_iff ((c.events.pop?.any fun p => p.1.time = time ∧ p.1.action.label = .routing) = true)
    (by simp [RoutesAt, Option.any_eq_true])

theorem burst_keeps (holds : Nat → Cluster → Prop)
    (keeps : ∀ {n : Nat} {c b d : Cluster} {e : Event} {r : Request}, Ran c e b d → e.time = time →
      e.action = .routing r → holds n c → holds (n + 1) d) {n burst : Nat} (start : holds n c)
    (ran : c.runEvents burst = (.ok (), d)) (routes : ∀ b ∈ c.path burst, b.RoutesAt time) :
    holds (n + (c.path burst).length) d := by
  induction burst generalizing n c with
  | zero =>
      obtain rfl := (Prod.mk.inj ran).2
      exact start
  | succ burst ih =>
      rw [runEvents] at ran
      rw [path] at routes ⊢
      cases stepped : c.step with
      | none =>
          rw [stepped] at ran
          obtain rfl := (Prod.mk.inj ran).2
          exact start
      | some next =>
          obtain ⟨out, m⟩ := next
          rw [stepped] at ran routes
          cases out with
          | error f => cases (Prod.mk.inj ran).1
          | ok =>
              obtain ⟨⟨x, q, popped, due, label⟩, later⟩ := List.forall_mem_cons.mp routes
              obtain ⟨e, b, ran'⟩ := ran_of_step stepped
              obtain ⟨q', popped', _⟩ := ran'.popped
              obtain rfl := (Prod.mk.inj (Option.some.inj (popped.symm.trans popped'))).1
              obtain ⟨r, own⟩ : ∃ r, x.action = .routing r := by
                cases action : x.action with
                | routing r => exact ⟨r, rfl⟩
                | _ =>
                    rw [action] at label
                    cases label
              have after := ih (keeps ran' due own start) ran later
              rwa [List.length_cons, Nat.add_comm _ 1, ← Nat.add_assoc]

/-- A cluster within a burst. The instances that more requests are on their way to than before
belong to the pool that they are sent to, and are at most one ahead of it. -/
structure Spread (roles : List Role) (policy : RoutingPolicy) (pool : Nat → Prop) (time : Nat)
    (before : Nat → Nat) (c : Cluster) : Prop where
  levels : Levels roles policy c
  clock : c.now = time ∨ ∀ i, c.arriving i = before i
  even : Even (c.loadsAt time) pool fun i => before i < c.arriving i

namespace Spread
variable {pool : Nat → Prop} {before : Nat → Nat}

theorem begins (k : Levels roles policy c) (pool : Nat → Prop) (time : Nat) :
    Spread roles policy pool time c.arriving c :=
  ⟨k, .inr fun _ => rfl, fun _ more => absurd more (Nat.lt_irrefl _)⟩

theorem ran (k : Spread roles policy pool time before c) (steady : policy.Steady)
    (picks : policy.Picks roles pool) (ran : Ran c e b d) (due : e.time = time)
    (own : e.action = .routing r) : Spread roles policy pool time before d := by
  subst due
  obtain ⟨now, rest, was, routes⟩ := k.levels.routes ran own
  refine ⟨k.levels.ran steady ran, .inl now, ?_⟩
  have arriving : ∀ i, c.arriving i = rest.countP (·.reaches i) := by
    intro i
    rw [Cluster.arriving, was, List.countP_cons]
    rfl
  cases routes with
  | away _ _ loads less =>
      have same : ∀ i, d.arriving i = c.arriving i := fun i =>
        (less.countP_eq _).trans (arriving i).symm
      simp only [loads, same]
      exact k.even
  | send view host s target loads sent =>
      obtain ⟨s, hs, rfl, inside, least⟩ := picks (k.levels.seen e.time) target
      rw [loads]
      refine k.even.add_least inside (k.levels.loadsAt_shown hs) (fun j y within at' => ?_)
        fun i more => ?_
      · obtain ⟨u, hu, rfl, rfl⟩ := k.levels.shown_at at'
        exact least u hu within
      · have grown : d.arriving i = c.arriving i + if s.id = i then 1 else 0 := by
          rw [Cluster.arriving, sent.countP_eq, ← List.singleton_append, List.countP_append,
            countP_arrival (.inl rfl), arriving, Nat.add_comm]
        rw [grown] at more
        by_cases own : s.id = i
        · exact .inr own
        · rw [if_neg own] at more
          exact .inl more

theorem run (k : Spread roles policy pool time before c) (steady : policy.Steady)
    (picks : policy.Picks roles pool) {burst : Nat} (ran : c.runEvents burst = (.ok (), d))
    (routes : ∀ b ∈ c.path burst, b.RoutesAt time) : Spread roles policy pool time before d :=
  burst_keeps (fun _ => Spread roles policy pool time before) (n := 0)
    (fun ran due own k => k.ran steady picks ran due own) k ran routes

theorem shows (k : Spread roles policy pool time before c) {host : Nat}
    (received : before host < c.arriving host) : pool host ∧
      ∃ s ∈ (c.seenAt time).snapshots, s.id = host ∧
        ∀ u ∈ (c.seenAt time).snapshots, pool u.id → s.effectiveLoad ≤ u.effectiveLoad + 1 := by
  obtain ⟨inside, x, at', close⟩ := k.even host received
  obtain ⟨s, hs, own, rfl⟩ := k.levels.shown_at at'
  exact ⟨inside, s, hs, own, fun u hu within => close u.id _ within (k.levels.loadsAt_shown hu)⟩

end Spread

theorem levels_of_new {trace : DecisionTrace} (made : new config trace = .ok c)
    (starts : RoutingPolicy.ofRule config.policies.routing config.cluster.blockSize
      config.routerSeed = .ok policy) : Levels config.cluster.roles policy c := by
  obtain ⟨_, _, made⟩ := ok_of_bind made
  obtain ⟨_, _, made⟩ := ok_of_bind made
  obtain ⟨routing, chosen, made⟩ := ok_of_bind made
  rw [starts] at chosen
  obtain rfl := Except.ok.inj chosen
  obtain rfl := Except.ok.inj made
  constructor
  case routing => rfl
  case size => rw [instances, List.length_map, List.length_map, List.length_zipIdx]
  case own =>
    intro id i at'
    simp only [instances, List.getElem?_map, List.getElem?_zipIdx, Option.map_map] at at'
    obtain ⟨role, _, rfl⟩ := Option.map_eq_some_iff.mp at'
    exact Nat.zero_add id
  case role =>
    intro id i at'
    simp only [instances, List.getElem?_map, List.getElem?_zipIdx, Option.map_map] at at'
    obtain ⟨role, here, rfl⟩ := Option.map_eq_some_iff.mp at'
    exact here
  case posted => exact Posted.new _ _

theorem Reachable.levels (k : Reachable config c) (starts : RoutingPolicy.ofRule
      config.policies.routing config.cluster.blockSize config.routerSeed = .ok policy)
    (steady : policy.Steady) : Levels config.cluster.roles policy c := by
  induction k with
  | new made => exact levels_of_new made starts
  | log _ ih => exact ih.moved _ _ _
  | inject _ done ih =>
      obtain ⟨_, _, rfl, _⟩ := inject_inv done
      exact ⟨ih.routing, ih.size, ih.own, ih.role, ih.posted⟩
  | start _ done ih =>
      obtain ⟨_, rfl⟩ := start_inv done
      exact ih.moved _ _ _
  | step _ stepped ih =>
      rcases step_cases stepped with ⟨f, _, rfl | ⟨e, q, _, begun⟩⟩ | ⟨_, e, b, ran⟩
      · exact ih
      · exact ih.begin begun
      · exact ih.ran steady ran
  | note _ s ih =>
      obtain ⟨_, same, _⟩ := recordAnomalies_inv _ s
      rw [same]
      exact ⟨ih.routing, ih.size, ih.own, ih.role, ih.posted⟩

theorem picks_leastLoaded
    (whole : ∀ {i : Nat} {role : Role}, roles[i]? = some role → role = .unified) :
    RoutingPolicy.leastLoaded.Picks roles fun _ => True := by
  intro view seen host decode known target
  rw [RoutingPolicy.route] at target
  split at target
  · next s chosen =>
    have towards : Target.towards s.id none = .towards host decode := target
    obtain ⟨rfl, rfl⟩ := Target.towards_inj towards
    refine ⟨s, (List.mem_filter.mp (mem_of_leastLoaded chosen)).1, rfl, trivial, fun u hu _ => ?_⟩
    refine leastLoaded_le chosen u (List.mem_filter.mpr ⟨hu, ?_⟩)
    rw [whole (known.known u hu)]
    rfl
  · cases decode <;> cases target

/-- After any number of events that route requests at one time to unified instances, an instance
that one of them was sent to has in the eyes of the router at most one request more than any
other one, whatever the snapshots are refreshed by. -/
theorem bursts_spread (reached : Reachable config c)
    (unified : config.cluster.disaggregated.enabled = false)
    (rule : config.policies.routing = .leastLoaded) {burst time : Nat}
    (ran : c.runEvents burst = (.ok (), d)) (routes : ∀ b ∈ c.path burst, b.RoutesAt time)
    (host : Nat) (received : c.arriving host < d.arriving host) :
    ∃ s ∈ d.observe.1.snapshots, s.id = host ∧
      ∀ u ∈ d.observe.1.snapshots, s.effectiveLoad ≤ u.effectiveLoad + 1 := by
  have starts : RoutingPolicy.ofRule config.policies.routing config.cluster.blockSize
      config.routerSeed = .ok .leastLoaded := by
    rw [rule]
    rfl
  have levels := reached.levels starts RoutingPolicy.steady_leastLoaded
  have spread := (Spread.begins levels (fun _ => True) time).run RoutingPolicy.steady_leastLoaded
    (picks_leastLoaded (ClusterSettings.roles_whole unified)) ran routes
  obtain ⟨_, s, hs, own, close⟩ := spread.shows received
  rcases spread.clock with rfl | same
  · exact ⟨s, hs, own, fun u hu => close u hu trivial⟩
  · exact absurd received (Nat.not_lt.mpr (Nat.le_of_eq (same host)))

/-- Three instances that are slow to be seen. -/
def slowlySeen : Config where
  cluster := { instances := 3 }
  policies := { routing := .leastLoaded }
  latency := .throughput {}
  snapshot := { queueDepth := .periodic 5, batchSize := .onDemand }

/-- Two requests at once go to different ones of them. -/
theorem slow_burst_spreads : ∃ c d e f g, new slowlySeen .off = .ok c ∧
    c.injectAll [{ id := 4, arrivalTime := 2, inputTokens := 20, outputTokens := 3 },
      { id := 1, arrivalTime := 2, inputTokens := 0, outputTokens := 1 }] = .ok d ∧
    d.start = .ok e ∧ e.runEvents 4 = (.ok (), f) ∧ f.runEvents 2 = (.ok (), g) ∧
    (∀ b ∈ f.path 2, b.RoutesAt 2) ∧ f.arriving 1 < g.arriving 1 ∧
    ∃ s ∈ g.observe.1.snapshots, s.id = 1 ∧
      ∀ u ∈ g.observe.1.snapshots, s.effectiveLoad ≤ u.effectiveLoad + 1 := by
  obtain ⟨c, d, e, f, made, injected, started, before, done, routes, more⟩ : ∃ c d e f,
      new slowlySeen .off = .ok c ∧
      c.injectAll [{ id := 4, arrivalTime := 2, inputTokens := 20, outputTokens := 3 },
        { id := 1, arrivalTime := 2, inputTokens := 0, outputTokens := 1 }] = .ok d ∧
      d.start = .ok e ∧ e.runEvents 4 = (.ok (), f) ∧ (f.runEvents 2).1 = .ok () ∧
      (∀ b ∈ f.path 2, b.RoutesAt 2) ∧ f.arriving 1 < (f.runEvents 2).2.arriving 1 :=
    ⟨_, _, _, _, rfl, rfl, rfl, rfl, by decide +kernel, by decide +kernel, by decide +kernel⟩
  have reached := (((Reachable.new made).injectAll injected).start started).runEvents 4
  rw [before] at reached
  have ran : f.runEvents 2 = (.ok (), (f.runEvents 2).2) := Prod.ext done rfl
  exact ⟨c, d, e, f, _, made, injected, started, before, ran, routes, more,
    bursts_spread reached rfl rfl ran routes 1 more⟩

end Cluster
end InferenceSim
