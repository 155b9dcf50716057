import InferenceSim.Proofs.Cluster.Journeys
import InferenceSim.Proofs.Instance.Prefilling

/-! The phases of requests in a cluster where prompts are computed apart from the rest. Each
request is sent to an instance for prompts and is handed off once, to an instance that decodes
it, or is done with its prompt. -/
namespace InferenceSim

/-- Where a request stands that was handed off some times. -/
inductive Phase (roles : List Role) : Stand → Nat → Prop
  | arriving (r : Request) : Phase roles ⟨r, .arriving⟩ 0
  | asking (r : Request) : Phase roles ⟨r, .asking⟩ 0
  | routed (r : Request) : Phase roles ⟨r, .routed⟩ 0
  | sent (r : Request) {host decode : Nat} (prefills : roles[host]? = some .prefill)
      (target : r.decodeTarget = some decode) (decodes : roles[decode]? = some .decode) :
      Phase roles ⟨r, .sent host⟩ 0
  | prefilling (r : Request) {host decode : Nat} (prefills : roles[host]? = some .prefill)
      (target : r.decodeTarget = some decode) (decodes : roles[decode]? = some .decode) :
      Phase roles ⟨r, .held host⟩ 0
  | crossing (r : Request) {host : Nat} (decodes : roles[host]? = some .decode)
      (target : r.decodeTarget = none) (more : 2 ≤ r.outputTokens) :
      Phase roles ⟨r, .crossing host⟩ 1
  | decoding (r : Request) {host : Nat} (decodes : roles[host]? = some .decode)
      (target : r.decodeTarget = none) (more : 2 ≤ r.outputTokens) :
      Phase roles ⟨r, .held host⟩ 1

namespace Phase
variable {settings : ClusterSettings} {roles : List Role} {s t : Stand} {n : Nat} {told : News}

theorem le_one (phase : Phase roles s n) : n ≤ 1 := by
  cases phase <;> decide

theorem of_sent {r : Request} {host : Nat} (phase : Phase roles ⟨r, .sent host⟩ n) :
    roles[host]? = some .prefill ∧ r.decodeTarget.isSome := by
  cases phase with
  | sent _ prefills target => exact ⟨prefills, target ▸ rfl⟩

theorem of_crossing {r : Request} {host : Nat} (phase : Phase roles ⟨r, .crossing host⟩ n) :
    roles[host]? = some .decode := by
  cases phase with
  | crossing _ decodes => exact decodes

/-- Whatever takes a request further takes it from phase to phase. -/
theorem moved (apart : settings.disaggregated.enabled = true) (phase : Phase settings.roles s n)
    (moved : Moved settings s told t) : Phase settings.roles t (n + told.handed) := by
  cases moved with
  | stay => exact phase
  | ask r =>
      cases phase
      exact .asking r
  | delay r => exact phase
  | grant r =>
      cases phase
      exact .routed r
  | @send r host decode assigned =>
      cases phase
      cases decode with
      | none => cases apart.symm.trans assigned.1
      | some decode => exact .sent _ assigned.2.1 rfl assigned.2.2
  | join r host =>
      cases phase with
      | sent _ prefills target decodes => exact .prefilling r prefills target decodes
  | handOff host target further more =>
      subst further
      cases phase with
      | prefilling _ _ target' decodes =>
          obtain rfl := Option.some.inj (target.symm.trans target')
          exact .crossing _ decodes rfl more
      | decoding _ _ none => cases target.symm.trans none
  | resume r host =>
      cases phase with
      | crossing _ decodes target more => exact .decoding r decodes target more

end Phase

/-- What is so of a request that was done on an instance: one of several tokens was decoded there
after one handoff, if 32 bits count the tokens until its end, and one of a single token was done
with its prompt. -/
structure Ends (role : Option Role) (r : Request) (handoffs : Nat) : Prop where
  decoded : 2 ≤ r.outputTokens → r.span < 4294967296 → role = some .decode ∧ handoffs = 1
  prefilled : r.outputTokens ≤ 1 → role = some .prefill ∧ handoffs = 0

theorem Phase.ends {roles : List Role} {host n : Nat} {r : Request}
    (phase : Phase roles ⟨r.stem, .held host⟩ n)
    (short : roles[host]? = some .prefill → r.span < 4294967296 → r.outputTokens ≤ 1) :
    Ends roles[host]? r n := by
  cases phase with
  | prefilling _ prefills =>
      exact ⟨fun more fits => absurd (short prefills fits) (Nat.not_le.mpr more),
        fun _ => ⟨prefills, rfl⟩⟩
  | decoding _ decodes _ more =>
      exact ⟨fun _ _ => ⟨decodes, rfl⟩, fun less => absurd less (Nat.not_le.mpr more)⟩

namespace Cluster

/-- The requests that the next event completes, with the instance that each of them ran on. -/
def endingNext (c : Cluster) : List (Nat × Request) :=
  match c.events.pop? with
  | some (⟨_, _, .stepComplete host⟩, _) => c.completing.map (host, ·)
  | _ => []

/-- The requests that a run completes, with the instances that they ran on. -/
def endings (limit : Nat) (c : Cluster) : List (Nat × Request) := (c.path limit).flatMap endingNext

def handoffs (limit : Nat) (c : Cluster) : List Handoff := (c.path limit).flatMap handingNext

def handedOff (hs : List Handoff) (id : Nat) : Nat := hs.countP (·.request.id = id)

def roleAt (c : Cluster) (host : Nat) : Option Role := (c.instances[host]?).map (·.role)

/-- Prompts are computed on the instances for prompts and nothing else is, in what is to come, in
what has run, in the handoffs and for the requests that are done. -/
structure Divided (handoffs : List Handoff) (endings : List (Nat × Request)) (c : Cluster) :
    Prop where
  arrivals : ∀ host r, .instanceArrival host r ∈ c.events.actions → c.roleAt host = some .prefill
  transfers : ∀ host r, .kvTransferComplete host r ∈ c.events.actions →
    c.roleAt host = some .decode
  prefills : ∀ i ∈ c.instances, i.role = .prefill →
    i.stats.decodeTokens = 0 ∧ ∀ w ∈ i.works, w.isPrefill = true
  once : ∀ id, handedOff handoffs id ≤ 1
  ends : ∀ x ∈ endings, Ends (c.roleAt x.1) x.2 (handedOff handoffs x.2.id)

/-- The requests and instances of a cluster that has passed through some states. -/
structure Phased (roles : List Role) (rs : List Request) (past : List Cluster) (c : Cluster) :
    Prop where
  phases : ∀ s ∈ c.stands, Phase roles s (handedOff (past.flatMap handingNext) s.id)
  once : ∀ id, handedOff (past.flatMap handingNext) id ≤ 1
  prefilling : ∀ i ∈ c.instances, i.role = .prefill → i.Prefilling
  ends : ∀ x ∈ past.flatMap endingNext, x.2.origin ∈ rs ∧ (∀ s ∈ c.stands, s.id ≠ x.2.id) ∧
    Ends roles[x.1]? x.2 (handedOff (past.flatMap handingNext) x.2.id)

variable {config : Config} {rs : List Request} {b c d : Cluster} {l m : Ledger} {a : Action}
  {e : Event} {past : List Cluster} {host : Nat} {r : Request} {i j : Instance}

theorem roleAt_eq {hand : List Action} (k : Coherent config rs hand c l) (host : Nat) :
    c.roleAt host = config.cluster.roles[host]? := by
  rw [roleAt, ← List.getElem?_map, k.roles_eq]

theorem map_endingNext (c : Cluster) : c.endingNext.map (·.2) = c.completing := by
  cases popped : c.events.pop? with
  | none => simp only [endingNext, completing, popped, List.map_nil]
  | some next =>
      obtain ⟨⟨time, n, action⟩, q⟩ := next
      cases action with
      | stepComplete host =>
          simp only [endingNext, popped, List.map_map]
          exact List.map_id _
      | _ =>
          simp only [endingNext, completing, popped]
          split <;> rfl

theorem map_endings (limit : Nat) (c : Cluster) :
    (c.endings limit).map (·.2) = c.completions limit := by
  rw [endings, completions, List.map_flatMap]
  exact congrArg (List.flatMap · _) (funext map_endingNext)

theorem ending_inv (ran : Ran c e b d) (ended : (host, r) ∈ c.endingNext) :
    e.action = .stepComplete host ∧ r ∈ c.completing := by
  obtain ⟨q, popped, _⟩ := ran.popped
  rw [endingNext, popped] at ended
  obtain ⟨time, n, action⟩ := e
  cases action with
  | stepComplete host' =>
      obtain ⟨s, hs, same⟩ := List.mem_map.mp ended
      obtain ⟨rfl, rfl⟩ := Prod.mk.inj same
      exact ⟨rfl, hs⟩
  | _ => cases ended

theorem handedOff_append (hs more : List Handoff) (id : Nat) :
    handedOff (hs ++ more) id = handedOff hs id + handedOff more id := List.countP_append

theorem prefilling_turn (k : Coherent config rs [a] b l) (at' : b.instances[host]? = some i)
    (turn : Turn b host i a j) (coherent : j.Coherent config.cluster.spec)
    (phase : ∀ s, a.stand? = some s → ∃ n, Phase config.cluster.roles s n)
    (role : i.role = .prefill) (prefilling : i.Prefilling) : j.Prefilling := by
  have own := (k.employs host i at').role
  cases turn with
  | rest => exact prefilling
  | @arrive r out j q done =>
      obtain ⟨n, phase⟩ := phase _ rfl
      obtain ⟨_, _, start, _⟩ := k.proper (.instanceArrival host r) List.mem_cons_self
      have target : r.decodeTarget.isSome := phase.of_sent.2
      exact prefilling.enqueue coherent target start done
  | transfer done =>
      obtain ⟨n, phase⟩ := phase _ rfl
      cases (role ▸ own).symm.trans phase.of_crossing
  | step done =>
      exact prefilling.step (Instance.ready_of_awaited (k.awaits at' (decide_eq_true rfl))).2 done
  | complete done rescored =>
      obtain ⟨_, o, flight⟩ := Instance.flight_of_awaited (k.awaits at' (decide_eq_true rfl))
      have left := (prefilling.complete (k.employs host i at').coherent flight done).1
      rcases rescored with rfl | ⟨rule, rfl⟩
      · exact left
      · exact left.rescore rule

namespace Phased

/-- A request that is done has been on the instance for its last phase. -/
theorem ending (k : Coherent config rs [] c l) (g : Logged config rs c l) (ran : Ran c e b d)
    (before : Phased config.cluster.roles rs past c) (ended : (host, r) ∈ c.endingNext) :
    r.origin ∈ rs ∧ ⟨r.stem, .held host⟩ ∈ c.stands ∧ r ∈ c.completing ∧
      Ends config.cluster.roles[host]? r (handedOff (past.flatMap handingNext) r.id) := by
  obtain ⟨action, done⟩ := ending_inv ran ended
  obtain ⟨k', instances, _⟩ := ran.begins k g
  have finishes := ran.completing_eq ▸ done
  obtain ⟨host', i, j, o, report, q, own, at', flight, complete, inside, known⟩ :=
    finishing_inv k' finishes
  obtain rfl := Action.stepComplete.inj (action.symm.trans own)
  have employed := k'.employs host i at'
  have here : i ∈ c.instances := instances ▸ List.mem_of_getElem? at'
  have held : ⟨r.stem, .held host⟩ ∈ c.stands := by
    refine List.mem_append_right _ (List.mem_flatMap.mpr ⟨i, here, ?_⟩)
    obtain ⟨s, hs, stem⟩ := List.mem_map.mp known
    rw [← stem, ← employed.own]
    exact List.mem_map_of_mem hs
  refine ⟨finishing_origin k' r finishes, held, done, (before.phases _ held).ends fun prefills => ?_⟩
  have role : i.role = .prefill := Option.some.inj (employed.role.symm.trans prefills)
  exact ((before.prefilling i here role).complete employed.coherent flight complete).2 r inside

/-- One event keeps requests in their phases. -/
theorem ran (valid : config.cluster.Valid) (distinct : (rs.map (·.id)).Nodup)
    (apart : config.cluster.disaggregated.enabled = true) (k : Coherent config rs [] c l)
    (g : Logged config rs c l) (ran : Ran c e b d) (after : Coherent config rs [] d m)
    (before : Phased config.cluster.roles rs past c) :
    Phased config.cluster.roles rs (past ++ [c]) d := by
  obtain ⟨k', instances, _⟩ := ran.begins k g
  obtain ⟨notes, reported⟩ := ran.reported valid distinct k g
  have passage := reported.passage
  have handed : ∀ id, handedOff ((past ++ [c]).flatMap handingNext) id =
      handedOff (past.flatMap handingNext) id + (news e.action notes c.handingNext id).handed :=
    fun id => by
      rw [List.flatMap_append, List.flatMap_singleton, handedOff_append]
      rfl
  have phases : ∀ t ∈ d.stands, Phase config.cluster.roles t
      (handedOff ((past ++ [c]).flatMap handingNext) t.id) := by
    intro t ht
    obtain ⟨s, hs, same, moved⟩ := passage.moved t ht
    rw [handed, ← same]
    exact (before.phases s hs).moved apart moved
  refine ⟨phases, fun id => ?_, fun j hj role => ?_, fun x hx => ?_⟩
  · rcases Stand.known_or_absent d.stands id with ⟨t, ht, rfl⟩ | away
    · exact (phases t ht).le_one
    · rw [handed, passage.handed away]
      exact before.once id
  · obtain ⟨host, at''⟩ := List.getElem?_of_mem hj
    obtain ⟨i, at', turn⟩ := ran.effect.turned at''
    have employed := after.employs host j at''
    have same : i.role = .prefill := by
      rw [← role]
      exact Option.some.inj ((k'.employs host i at').role.symm.trans employed.role)
    refine prefilling_turn k' at' turn employed.coherent
      (fun s own => ⟨_, before.phases s (mem_stands ?_ own)⟩) same
      (before.prefilling i (instances ▸ List.mem_of_getElem? at') same)
    rw [ran.actions k g]
    exact List.mem_cons_self
  · rw [List.flatMap_append, List.flatMap_singleton] at hx
    rw [handed]
    rcases List.mem_append.mp hx with old | new
    · obtain ⟨origin, gone, ends⟩ := before.ends x old
      rw [passage.silent _ gone]
      exact ⟨origin, passage.absent gone, ends⟩
    · obtain ⟨origin, held, done, ends⟩ := before.ending k g ran new
      obtain ⟨gone, none⟩ := passage.finished held (reported.completed x.2 done)
      have none : (news e.action notes c.handingNext x.2.id).handed = 0 := none
      rw [none]
      exact ⟨origin, gone, ends⟩

theorem of_awaits (awaits : Awaits config rs c) : Phased config.cluster.roles rs [] c where
  phases s hs := by
    obtain ⟨r, _, rfl⟩ := awaits.arriving s hs
    exact .arriving r.stem
  once _ := Nat.zero_le 1
  prefilling i hi _ := by
    obtain ⟨id, role, rule, rfl⟩ := awaits.servers i hi
    exact .new id role rule
  ends := List.forall_mem_nil _

theorem divided (k : Coherent config rs [] c l) (phased : Phased config.cluster.roles rs past c) :
    Divided (past.flatMap handingNext) (past.flatMap endingNext) c where
  arrivals host r here := by
    rw [roleAt_eq k]
    exact (phased.phases _ (mem_stands here rfl)).of_sent.1
  transfers host r here := by
    rw [roleAt_eq k]
    exact (phased.phases _ (mem_stands here rfl)).of_crossing
  prefills i hi role := ⟨(phased.prefilling i hi role).decoded, (phased.prefilling i hi role).works⟩
  once := phased.once
  ends x hx := by
    rw [roleAt_eq k]
    exact (phased.ends x hx).2.2

end Phased

/-- With prompts computed apart and however far a run has come, requests arrive at instances for
prompts and are handed off to those that decode, once at most; nothing is decoded on an instance
for prompts. A request of several tokens is done where it was handed off to, if 32 bits count the
tokens until its end, and one of a single token is done with its prompt, never handed off. -/
theorem phases_divided (valid : config.validate = .ok ())
    (apart : config.cluster.disaggregated.enabled = true) (trace : DecisionTrace)
    (fresh : ∀ r ∈ rs, r.Fresh) (distinct : (rs.map (·.id)).Nodup) :
    ∃ c d e, new config trace = .ok c ∧ c.injectAll rs = .ok d ∧ d.start = .ok e ∧
      ∀ limit, ∃ f, e.runEvents limit = (.ok (), f) ∧
        (e.endings limit).map (·.2) = e.completions limit ∧
        (∀ r ∈ e.completions limit, r.origin ∈ rs) ∧
        Divided (e.handoffs limit) (e.endings limit) f := by
  have promised := promised_of_validate valid
  obtain ⟨c, d, e, made, injected, started, _, coherent, logged⟩ := launch_ok valid trace fresh
  have awaits : Awaits config rs e := ((awaits_of_new made).injectAll injected).start started
  refine ⟨c, d, e, made, injected, started, fun limit => ?_⟩
  obtain ⟨f, l, ran, k, _⟩ := runEvents_ok promised.valid distinct coherent logged limit
  have phased := run_keeps (Phased config.cluster.roles rs) promised.valid distinct
    (fun k g ran after before => before.ran promised.valid distinct apart k g ran after)
    coherent logged [] (.of_awaits awaits) limit
  rw [ran] at phased
  refine ⟨f, ran, map_endings limit e, fun r hr => ?_, phased.divided k⟩
  rw [← map_endings] at hr
  obtain ⟨x, hx, rfl⟩ := List.mem_map.mp hr
  exact (phased.ends x hx).1

theorem paired_phases_divided : ∃ c d e,
    new { cluster := { instances := 2,
                       disaggregated := { enabled := true, prefillInstances := 1, decodeInstances := 1 } }
          policies := { routing := .pdSplit } } .off = .ok c ∧
    c.injectAll [{ id := 8, arrivalTime := 3, inputTokens := 25, outputTokens := 4 },
      { id := 2, arrivalTime := 5, inputTokens := 9, outputTokens := 1 }] = .ok d ∧
    d.start = .ok e ∧
    ∀ limit, ∃ f, e.runEvents limit = (.ok (), f) ∧
      (e.endings limit).map (·.2) = e.completions limit ∧
      (∀ r ∈ e.completions limit, r.origin ∈
        [{ id := 8, arrivalTime := 3, inputTokens := 25, outputTokens := 4 },
          { id := 2, arrivalTime := 5, inputTokens := 9, outputTokens := 1 }]) ∧
      Divided (e.handoffs limit) (e.endings limit) f :=
  phases_divided rfl rfl .off
    (List.forall_mem_cons.mpr ⟨rfl, List.forall_mem_singleton.mpr rfl⟩) (by decide)

end Cluster
end InferenceSim
