import InferenceSim.Proofs.Cluster.Holding
import InferenceSim.Proofs.Cluster.Lines
import InferenceSim.Proofs.Cluster.Phases
import InferenceSim.Proofs.Instance.Charging

/-! Look-ups over a run. A request is charged for one look-up of its prompt more than it was
preempted, wherever it is decoded. Where no request is handed off, an instance has counted in its
cache what was charged to all the requests that have joined it. -/
namespace InferenceSim

/-- A request that is decoded where its prompt is computed. -/
def Stand.Whole (s : Stand) : Prop :=
  match s.place with
  | .arriving | .asking | .routed => True
  | .sent _ | .held _ => s.stem.decodeTarget = none
  | .crossing _ => False

theorem Moved.whole {settings : ClusterSettings} {s t : Stand} {n : News}
    (together : settings.disaggregated.enabled = false) (k : Moved settings s n t)
    (whole : s.Whole) : t.Whole := by
  cases k with
  | stay | join => exact whole
  | ask | delay | grant => exact trivial
  | @send r host decode assigned =>
      cases decode with
      | none => exact rfl
      | some decode => cases together.symm.trans assigned.1
  | handOff host target => cases target.symm.trans whole
  | resume => exact whole.elim

namespace Cluster

/-- Requests are charged for look-ups of their prompts wherever they are. -/
def charging (blockSize : Nat) : Law where
  server _ i := i.Charging blockSize
  arrived _ r := r.Untouched
  handed _ r := r.Computed blockSize
  completed r := r.Charged blockSize (r.preemptions + 1)

def leaving (host : Nat) (c : Cluster) : Action → List Request
  | .stepComplete h => if h = host then c.finishing (.stepComplete h) else []
  | _ => []

/-- The requests that were completed on an instance in some states that a run has passed through. -/
def left (host : Nat) (past : List Cluster) : List Request :=
  ((past.flatMap endingNext).filter (·.1 = host)).map (·.2)

/-- The requests that have joined an instance in a run: those that it has, and as they were in the
end those that it has completed. -/
def served (host limit : Nat) (c : Cluster) (i : Instance) : List Request :=
  i.requests ++ ((c.endings limit).filter (·.1 = host)).map (·.2)

/-- A cluster in which requests stay where they are sent, and whose instances have counted what they
have charged, in the states that it has passed through. -/
structure Reconciled (past : List Cluster) (c : Cluster) : Prop where
  whole : ∀ s ∈ c.stands, s.Whole
  accounts : ∀ (host : Nat) (i : Instance), c.instances[host]? = some i →
    i.Accounts (past.filterMap (next? (joining host))) (left host past)

variable {config : Config} {rs : List Request} {b c d : Cluster} {l m : Ledger} {a : Action}
  {e : Event} {past : List Cluster} {host : Nat} {i j : Instance} {joined : List Nat}
  {gone : List Request}

theorem leaving_other (other : a.host? ≠ some host) : b.leaving host a = [] := by
  cases a with
  | stepComplete h => exact if_neg fun here => other (congrArg some here)
  | _ => rfl

theorem Ran.left_eq (ran : Ran c e b d) (host : Nat) :
    left host (past ++ [c]) = left host past ++ b.leaving host e.action := by
  have next : (c.endingNext.filter (·.1 = host)).map (·.2) = b.leaving host e.action := by
    obtain ⟨q, popped, _⟩ := ran.popped
    obtain ⟨time, n, action⟩ := e
    rw [endingNext, popped]
    cases action with
    | stepComplete h =>
        dsimp only
        have named : ∀ x ∈ (b.finishing (.stepComplete h)).map (h, ·), x.1 = h :=
          List.forall_mem_map.mpr fun _ _ => rfl
        rw [ran.completing_eq, leaving]
        split
        · next here =>
          rw [List.filter_eq_self.mpr fun x hx => decide_eq_true ((named x hx).trans here),
            List.map_map]
          exact List.map_id _
        · next other =>
          rw [List.filter_eq_nil_iff.mpr fun x hx => by rwa [named x hx, decide_eq_true_eq]]
          rfl
    | _ => rfl
  rw [left, List.flatMap_append, List.flatMap_singleton, List.filter_append, List.map_append, next]
  rfl

theorem accounts_turn (usable : config.cluster.spec.Usable) (k : Coherent config rs [a] b l)
    (at' : b.instances[host]? = some i) (turn : Turn b host i a j)
    (new : ∀ r, a = .instanceArrival host r → r.Untouched)
    (apart : ∀ r, a ≠ .kvTransferComplete host r) (lends : i.Lends)
    (whole : ∀ r ∈ i.requests, r.decodeTarget = none) (accounts : i.Accounts joined gone) :
    j.Accounts (joined ++ (b.joining host a).toList) (gone ++ b.leaving host a) := by
  have coherent := (k.employs host i at').coherent
  cases turn with
  | rest other =>
      rw [joining_other other, leaving_other other, Option.toList_none, List.append_nil,
        List.append_nil]
      exact accounts
  | @arrive r out j q done =>
      have nobody : b.leaving host (.instanceArrival host r) = [] := rfl
      rw [joining, if_pos rfl, at', Option.bind_some, Instance.joining, done, nobody,
        List.append_nil]
      cases out with
      | queued => exact accounts.join (new r rfl) done
      | rejected s reason =>
          rw [Option.toList_none, List.append_nil]
          exact accounts.refuse done
  | transfer => exact absurd rfl (apart _)
  | step done =>
      obtain ⟨_, ready⟩ := Instance.ready_of_awaited (k.awaits at' (decide_eq_true rfl))
      have level := provided_idle.mp (Instance.works_of_ready ready ▸ lends.provided)
      have nobody : b.joining host (.step host) = none := rfl
      have nothing : b.leaving host (.step host) = [] := rfl
      rw [nobody, nothing, Option.toList_none, List.append_nil, List.append_nil]
      exact accounts.step usable coherent level done
  | @complete report j' _ q done rescored =>
      obtain ⟨_, o, flight⟩ := Instance.flight_of_awaited (k.awaits at' (decide_eq_true rfl))
      have nobody : b.joining host (.stepComplete host) = none := rfl
      have ended : b.leaving host (.stepComplete host) = report.completed := by
        rw [leaving, if_pos rfl, finishing, at']
        simp only [Instance.finishing, done]
      rw [nobody, ended, Option.toList_none, List.append_nil]
      have after := accounts.complete coherent
        (fun r hr => whole r (List.mem_append_left _ hr)) flight done
      rcases rescored with rfl | ⟨rule, rfl⟩
      · exact after
      · exact after.rescore rule

namespace Reconciled

/-- One event keeps the accounts of all instances. -/
theorem ran (valid : config.cluster.Valid) (distinct : (rs.map (·.id)).Nodup)
    (together : config.cluster.disaggregated.enabled = false) (k : Coherent config rs [] c l)
    (g : Logged config rs c l) (ran : Ran c e b d) (lends : backing.Holds c)
    (charged : (charging config.cluster.spec.blockSize).Holds c) (before : Reconciled past c) :
    Reconciled (past ++ [c]) d := by
  obtain ⟨k', instances, _, _, pending, _⟩ := ran.begins k g
  obtain ⟨notes, reported⟩ := ran.reported valid distinct k g
  refine ⟨fun t ht => ?_, fun host j after => ?_⟩
  · obtain ⟨s, hs, _, moved⟩ := reported.passage.moved t ht
    exact moved.whole together (before.whole s hs)
  · obtain ⟨i, at', turn⟩ := ran.effect.turned after
    have here : e ∈ c.events.pending := pending ▸ List.mem_cons_self
    have joins : (past ++ [c]).filterMap (next? (joining host)) =
        past.filterMap (next? (joining host)) ++ (b.joining host e.action).toList := by
      rw [List.filterMap_append, List.filterMap_cons, List.filterMap_nil, ran.next?_eq]
      cases b.joining host e.action <;> rfl
    rw [joins, ran.left_eq]
    have inside' : i ∈ c.instances := instances ▸ List.mem_of_getElem? at'
    refine accounts_turn valid.usable k' at' turn
      (fun r own => ?_) (fun r own => ?_) (lends.servers i inside') (fun r hr => ?_)
      (before.accounts host i (instances ▸ at'))
    · have law := charged.actions e here
      rw [own] at law
      exact law
    · have crosses := before.whole ⟨r.stem, .crossing host⟩
        (mem_stands (List.mem_map_of_mem here) (own ▸ rfl))
      exact crosses
    · exact before.whole ⟨r.stem, .held _⟩ (List.mem_append_right _
        (List.mem_flatMap.mpr ⟨_, inside', List.mem_map_of_mem hr⟩))

theorem of_awaits (awaits : Awaits config rs c) : Reconciled [] c where
  whole s hs := by
    obtain ⟨r, _, rfl⟩ := awaits.arriving s hs
    exact trivial
  accounts host i at' := by
    obtain ⟨id, role, rule, rfl⟩ := awaits.servers i (List.mem_of_getElem? at')
    exact .new id role rule

end Reconciled

end Cluster
end InferenceSim
