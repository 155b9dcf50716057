import InferenceSim.Cluster.Dispatch
import InferenceSim.Proofs.Requests
import InferenceSim.Proofs.Results
import InferenceSim.Proofs.Routing.Choice

/-! What the router sees, and what it makes of it. Under a valid configuration every
request is sent to instances that can take it. -/
namespace InferenceSim

namespace ClusterSettings

/-- What a valid configuration says about a cluster. -/
structure Valid (c : ClusterSettings) : Prop where
  instances : 0 < c.instances
  usable : c.spec.Usable
  phases : c.disaggregated.enabled = true → 0 < c.disaggregated.prefillInstances

/-- Whether an instance is left to decode what the others compute the prompts of. The counts of
both may add up to all instances in 32 bits and leave none. -/
def Paired (c : ClusterSettings) : Prop :=
  c.disaggregated.enabled = true → c.disaggregated.prefillInstances < c.instances

instance (c : ClusterSettings) : Decidable c.Paired :=
  inferInstanceAs (Decidable (_ → _))

theorem holds_of_ensure {holds : Bool} {problem : ConfigProblem}
    (done : Config.ensure holds problem = .ok ()) : holds = true := by
  cases holds with
  | true => rfl
  | false => cases done

theorem valid_of_validate {c : ClusterSettings} (valid : c.validate = .ok ()) : c.Valid := by
  unfold validate at valid
  obtain ⟨_, instances, valid⟩ := ok_of_bind valid
  obtain ⟨_, _, valid⟩ := ok_of_bind valid
  obtain ⟨_, blockSize, valid⟩ := ok_of_bind valid
  obtain ⟨_, maxRunning, valid⟩ := ok_of_bind valid
  obtain ⟨_, maxTokens, valid⟩ := ok_of_bind valid
  obtain ⟨_, _, valid⟩ := ok_of_bind valid
  replace instances := of_decide_eq_true (holds_of_ensure instances)
  replace blockSize := of_decide_eq_true (holds_of_ensure blockSize)
  replace maxRunning := of_decide_eq_true (holds_of_ensure maxRunning)
  replace maxTokens := of_decide_eq_true (holds_of_ensure maxTokens)
  refine ⟨Nat.pos_of_ne_zero instances, ⟨Nat.pos_of_ne_zero blockSize,
    Nat.pos_of_ne_zero maxTokens, Nat.pos_of_ne_zero maxRunning⟩, fun enabled => ?_⟩
  rw [if_pos enabled] at valid
  obtain ⟨_, phases, _⟩ := ok_of_bind valid
  replace phases := holds_of_ensure phases
  simp only [ne_eq, Bool.and_eq_true, decide_eq_true_eq] at phases
  exact Nat.pos_of_ne_zero phases.1

variable {c : ClusterSettings}

@[simp] theorem length_roles (c : ClusterSettings) : c.roles.length = c.instances := by
  unfold roles
  split <;> simp

theorem roles_whole (whole : c.disaggregated.enabled = false) {i : Nat} {r : Role}
    (at' : c.roles[i]? = some r) : r = .unified := by
  rw [roles, whole] at at'
  exact (List.mem_replicate.mp (List.mem_of_getElem? at')).2

theorem roles_pair (valid : c.Valid) (pairs : c.disaggregated.enabled = true) (paired : c.Paired) :
    c.roles[0]? = some .prefill ∧ c.roles[c.disaggregated.prefillInstances]? = some .decode := by
  have prefill := valid.phases pairs
  have first : 0 < c.instances := valid.instances
  have second : c.disaggregated.prefillInstances < c.instances := paired pairs
  simp [roles, pairs, first, second, prefill]

theorem roles_unpaired (unpaired : ¬c.Paired) :
    c.disaggregated.enabled = true ∧ ∀ i : Nat, c.roles[i]? ≠ some .decode := by
  rw [Paired, Classical.not_imp] at unpaired
  obtain ⟨pairs, most⟩ := unpaired
  refine ⟨pairs, fun i at' => ?_⟩
  rw [roles, if_pos pairs] at at'
  obtain ⟨j, inside, role⟩ := List.mem_map.mp (List.mem_of_getElem? at')
  rw [List.mem_range] at inside
  split at role
  · cases role
  · omega

/-- Counts that are accepted and add up within 32 bits leave an instance to decode. -/
theorem paired_of_sum (valid : c.validate = .ok ())
    (sum : c.disaggregated.prefillInstances + c.disaggregated.decodeInstances < 4294967296) :
    c.Paired := by
  intro pairs
  unfold validate at valid
  obtain ⟨_, _, valid⟩ := ok_of_bind valid
  obtain ⟨_, _, valid⟩ := ok_of_bind valid
  obtain ⟨_, _, valid⟩ := ok_of_bind valid
  obtain ⟨_, _, valid⟩ := ok_of_bind valid
  obtain ⟨_, _, valid⟩ := ok_of_bind valid
  obtain ⟨_, _, valid⟩ := ok_of_bind valid
  rw [if_pos pairs] at valid
  obtain ⟨_, phases, valid⟩ := ok_of_bind valid
  obtain ⟨_, all, _⟩ := ok_of_bind valid
  replace phases := holds_of_ensure phases
  replace all := of_decide_eq_true (holds_of_ensure all)
  simp only [ne_eq, Bool.and_eq_true, decide_eq_true_eq] at phases
  rw [wrap_of_lt sum] at all
  omega

end ClusterSettings

/-- A board with a snapshot of each instance, under its id and with its role. -/
structure Posted (roles : List Role) (b : SnapshotBoard) : Prop where
  size : b.posted.size = roles.length
  known : ∀ (i : Nat) (p : PostedSnapshot), b.posted[i]? = some p →
    p.snapshot.id = i ∧ roles[i]? = some p.snapshot.role

/-- Snapshots of each instance with its role. -/
structure Seen (roles : List Role) (snapshots : List Snapshot) : Prop where
  known : ∀ s ∈ snapshots, roles[s.id]? = some s.role
  all : ∀ i, i < roles.length → ∃ s ∈ snapshots, s.id = i

namespace PostedSnapshot
variable (p : PostedSnapshot) (c : SnapshotConfig) (live : LiveLoad) (clock : Nat)

theorem refreshDue_keeps : (p.refreshDue c live clock).snapshot.id = p.snapshot.id ∧
    (p.refreshDue c live clock).snapshot.role = p.snapshot.role := by
  unfold refreshDue
  dsimp only
  split <;> split <;> split <;> exact ⟨rfl, rfl⟩

end PostedSnapshot

namespace Posted
variable {roles : List Role} {b : SnapshotBoard}

theorem new (config : SnapshotConfig) (roles : List Role) :
    Posted roles (.new config roles) where
  size := by simp [SnapshotBoard.new]
  known i p found := by
    simp only [SnapshotBoard.new, List.getElem?_toArray, List.getElem?_map,
      List.getElem?_zipIdx] at found
    obtain ⟨⟨role, id⟩, at', rfl⟩ := Option.map_eq_some_iff.mp found
    obtain ⟨role', here, same⟩ := Option.map_eq_some_iff.mp at'
    obtain ⟨rfl, rfl⟩ := Prod.mk.inj same
    exact ⟨Nat.zero_add i, here⟩

theorem read (k : Posted roles b) {id : Nat} (inside : id < roles.length) (live : LiveLoad)
    (pending inFlight clock : Nat) :
    (b.read id live pending inFlight clock).1.id = id ∧
      roles[id]? = some (b.read id live pending inFlight clock).1.role ∧
      Posted roles (b.read id live pending inFlight clock).2 := by
  have below : id < b.posted.size := k.size ▸ inside
  obtain ⟨p, found⟩ : ∃ p, b.posted[id]? = some p := ⟨_, Array.getElem?_eq_getElem below⟩
  obtain ⟨same, role⟩ := k.known id p found
  obtain ⟨same', role'⟩ := p.refreshDue_keeps b.config live clock
  simp only [SnapshotBoard.read, found]
  refine ⟨same'.trans same, by rw [role', role], by simpa using k.size, fun i q found' => ?_⟩
  rw [Array.getElem?_setIfInBounds] at found'
  split at found'
  · next own =>
    obtain rfl := Option.some.inj found'
    exact ⟨(same'.trans same).trans own, by rw [← own, role, role']⟩
  · exact k.known i q found'

theorem refreshAll (k : Posted roles b) (loads : List LiveLoad) (clock : Nat) :
    Posted roles (b.refreshAll loads clock) where
  size := by simpa [SnapshotBoard.refreshAll] using k.size
  known i p found := by
    simp only [SnapshotBoard.refreshAll, Array.getElem?_mapIdx] at found
    obtain ⟨q, at', rfl⟩ := Option.map_eq_some_iff.mp found
    split
    · exact k.known i q at'
    · exact k.known i q at'

theorem readBoard (k : Posted roles b) (now : Nat) (members : List Member)
    (inside : ∀ m ∈ members, m.server.id < roles.length) :
    (∀ s ∈ (Cluster.readBoard now members b).1, roles[s.id]? = some s.role) ∧
      (Cluster.readBoard now members b).1.map (·.id) = members.map (·.server.id) ∧
      Posted roles (Cluster.readBoard now members b).2 := by
  induction members generalizing b with
  | nil => exact ⟨(List.forall_mem_nil _), rfl, k⟩
  | cons m rest ih =>
      obtain ⟨id, role, posted⟩ := k.read (inside m List.mem_cons_self) m.server.load m.pending
        m.inFlight now
      obtain ⟨known, ids, posted⟩ := ih posted fun n hn => inside n (List.mem_cons_of_mem m hn)
      refine ⟨fun s hs => ?_, ?_, posted⟩
      · rcases List.mem_cons.mp hs with rfl | later
        · exact id.symm ▸ role
        · exact known s later
      · exact List.cons_eq_cons.mpr ⟨id, ids⟩

/-- The counters of a member are shown as they are. -/
theorem shows (k : Posted roles b) (now : Nat) (members : List Member)
    (inside : ∀ m ∈ members, m.server.id < roles.length) :
    ∀ s ∈ (Cluster.readBoard now members b).1, ∃ m ∈ members, m.server.id = s.id ∧
      s.pending = m.pending := by
  induction members generalizing b with
  | nil => exact List.forall_mem_nil _
  | cons m rest ih =>
      have own := inside m List.mem_cons_self
      obtain ⟨id, _, posted⟩ := k.read own m.server.load m.pending m.inFlight now
      intro s hs
      rcases List.mem_cons.mp hs with rfl | later
      · refine ⟨m, List.mem_cons_self, id.symm, ?_⟩
        have found := Array.getElem?_eq_getElem (k.size.symm ▸ own : m.server.id < b.posted.size)
        show (b.read m.server.id m.server.load m.pending m.inFlight now).1.pending = m.pending
        simp only [SnapshotBoard.read, found]
      · obtain ⟨n, hn, same⟩ := ih posted (fun n hn => inside n (List.mem_cons_of_mem m hn)) s later
        exact ⟨n, List.mem_cons_of_mem m hn, same⟩

end Posted

/-- The target of a request that is decoded on an instance of its own, or not. -/
def Target.towards (host : Nat) : Option Nat → Target
  | none => .single host
  | some decode => .split host decode

theorem Target.towards_inj {host host' : Nat} {decode decode' : Option Nat}
    (same : towards host decode = towards host' decode') : host = host' ∧ decode = decode' := by
  cases decode with
  | none =>
      cases decode' with
      | none => exact ⟨Target.single.inj same, rfl⟩
      | some => cases same
  | some =>
      cases decode' with
      | none => cases same
      | some =>
          obtain ⟨rfl, rfl⟩ := Target.split.inj same
          exact ⟨rfl, rfl⟩

/-- Where a request may be sent: to an instance for all of it, or to one for each phase. -/
def ClusterSettings.Assigns (c : ClusterSettings) (host : Nat) : Option Nat → Prop
  | none => c.disaggregated.enabled = false ∧ c.roles[host]? = some .unified
  | some decode => c.disaggregated.enabled = true ∧ c.roles[host]? = some .prefill ∧
      c.roles[decode]? = some .decode

section
variable {c : ClusterSettings} {p : RoutingPolicy} {view : ClusterView}

theorem target_assigned (valid : c.Valid) (agree : p.splits = c.disaggregated.enabled)
    (seen : Seen c.roles view.snapshots) (request : RequestView) :
    (∃ host decode, c.Assigns host decode ∧
      (p.route request view).1.target = .towards host decode) ∨
    ¬c.Paired ∧ (p.route request view).1.target = .reject := by
  cases pairs : c.disaggregated.enabled with
  | false =>
      have more : prefillCandidates view.snapshots ≠ [] := by
        obtain ⟨s, hs, _⟩ := seen.all 0 (c.length_roles ▸ valid.instances)
        refine List.ne_nil_of_mem (List.mem_filter.mpr ⟨hs, ?_⟩)
        rw [ClusterSettings.roles_whole pairs (seen.known s hs)]
        rfl
      obtain ⟨s, hs, target⟩ := RoutingPolicy.route_whole request (agree.trans pairs) more
      have role := seen.known s (List.mem_filter.mp hs).1
      exact .inl ⟨s.id, none,
        ⟨pairs, role.trans (congrArg _ (ClusterSettings.roles_whole pairs role))⟩, target⟩
  | true =>
      have role : ∀ {r : Role} {s : Snapshot}, s ∈ withRole r view.snapshots →
          c.roles[s.id]? = Option.some r := by
        intro r s hs
        obtain ⟨inside, same⟩ := List.mem_filter.mp hs
        exact of_decide_eq_true same ▸ seen.known s inside
      by_cases paired : c.Paired
      · obtain ⟨first, second⟩ := ClusterSettings.roles_pair valid pairs paired
        have some : ∀ {i : Nat} {role : Role}, c.roles[i]? = some role →
            withRole role view.snapshots ≠ [] := by
          intro i role at'
          obtain ⟨s, hs, rfl⟩ := seen.all i (List.getElem?_eq_some_iff.mp at').1
          refine List.ne_nil_of_mem (List.mem_filter.mpr ⟨hs, decide_eq_true ?_⟩)
          exact Option.some.inj ((seen.known s hs).symm.trans at')
        obtain ⟨s, hs, t, ht, target⟩ := RoutingPolicy.route_pair request
          (agree.trans pairs) (some first) (some second)
        exact .inl ⟨s.id, Option.some t.id, ⟨pairs, role hs, role ht⟩, target⟩
      · refine .inr ⟨paired, RoutingPolicy.route_unpaired request (agree.trans pairs) ?_⟩
        refine List.eq_nil_iff_forall_not_mem.mpr fun s hs => ?_
        exact (ClusterSettings.roles_unpaired paired).2 s.id (role hs)

/-- Instances for the phases of a request can take it. -/
theorem ClusterSettings.Assigns.sound {host : Nat} {decode : Option Nat}
    (k : c.Assigns host decode) : (Target.towards host decode).misroute? c.roles = none := by
  cases decode with
  | none =>
      rw [Target.towards, Target.misroute?, k.2]
      rfl
  | some decode =>
      obtain ⟨_, prefill, decodes⟩ := k
      have apart : host ≠ decode := by
        rintro rfl
        cases prefill.symm.trans decodes
      rw [Target.towards, Target.misroute?, prefill, decodes]
      simp [Role.acceptsPrefill, Role.acceptsDecode, apart]

theorem ClusterSettings.Assigns.inside {host : Nat} {decode : Option Nat}
    (k : c.Assigns host decode) : host < c.instances ∧ ∀ d, decode = some d → d < c.instances := by
  have inside : ∀ {i : Nat} {r : Role}, c.roles[i]? = some r → i < c.instances := fun at' =>
    c.length_roles ▸ (List.getElem?_eq_some_iff.mp at').1
  cases decode with
  | none => exact ⟨inside k.2, fun _ none => by cases none⟩
  | some decode => exact ⟨inside k.2.1, fun d same => Option.some.inj same ▸ inside k.2.2⟩

end

end InferenceSim
