import InferenceSim.Proofs.Cluster.Laws
import Mathlib.Data.List.Nodup

/-! The way of a request through the cluster. It stands in one place, and each event takes it to
the next one, lets it go or leaves it where it is. -/
namespace InferenceSim

/-- What a decision says about its request. -/
inductive Heading where
  | admitted
  | refused
  | routed
  | turnedAway (stage : RejectionStage)
  | completed
  deriving DecidableEq, Repr

/-- The request that a decision is about, and what it says. -/
def DecisionRecord.subject? : DecisionRecord → Option (Nat × Heading)
  | .admission request _ admitted _ => some (request, if admitted then .admitted else .refused)
  | .routing request _ _ _ _ _ _ _ => some (request, .routed)
  | .rejection request _ stage _ => some (request, .turnedAway stage)
  | .completion request _ _ _ _ => some (request, .completed)
  | .anomaly _ _ _ => none

def DecisionRecord.clock : DecisionRecord → Nat
  | .admission _ clock _ _ | .routing _ clock _ _ _ _ _ _ | .rejection _ clock _ _
  | .completion _ clock _ _ _ | .anomaly clock _ _ => clock

def headings (id : Nat) (notes : List DecisionRecord) : List Heading :=
  notes.filterMap fun n => (n.subject?.filter fun s => s.1 = id).map (·.2)

/-- Where a request is, from its arrival to its end. -/
inductive Station where
  | arriving
  | asking
  | routed
  | sent (host : Nat)
  | held (host : Nat)
  | crossing (host : Nat)

/-- A request in its place: as it was made, and where it is going to be decoded. -/
structure Stand where
  stem : Request
  place : Station

def Stand.id (s : Stand) : Nat := s.stem.id

theorem Stand.known_or_absent (stands : List Stand) (id : Nat) :
    (∃ s ∈ stands, s.id = id) ∨ ∀ s ∈ stands, s.id ≠ id := by
  by_cases known : ∃ s ∈ stands, s.id = id
  · exact .inl known
  · exact .inr fun s hs own => known ⟨s, hs, own⟩

def Action.stand? : Action → Option Stand
  | .clusterArrival r => some ⟨r.stem, .arriving⟩
  | .admission r => some ⟨r.stem, .asking⟩
  | .routing r => some ⟨r.stem, .routed⟩
  | .instanceArrival host r => some ⟨r.stem, .sent host⟩
  | .kvTransferComplete host r => some ⟨r.stem, .crossing host⟩
  | .stepComplete _ | .step _ | .snapshotRefresh => none

def Instance.stands (i : Instance) : List Stand := i.requests.map fun r => ⟨r.stem, .held i.id⟩

/-- The requests that some actions carry and some instances have. -/
def standing (actions : List Action) (instances : List Instance) : List Stand :=
  actions.filterMap Action.stand? ++ instances.flatMap Instance.stands

/-- What an event tells about a request: how it is logged if it carried the request, what was
decided, and how often the request was handed off. -/
structure News where
  logged : List EventLabel := []
  noted : List Heading := []
  handed : Nat := 0

def news (a : Action) (notes : List DecisionRecord) (hs : List Handoff) (id : Nat) : News :=
  { logged := if a.request?.map (·.id) = some id then [a.label] else []
    noted := headings id notes
    handed := hs.countP (·.request.id = id) }

/-- How an event takes a request to its next place, and what it tells about it. -/
inductive Moved (settings : ClusterSettings) : Stand → News → Stand → Prop
  | stay (s : Stand) : Moved settings s {} s
  | ask (r : Request) :
      Moved settings ⟨r, .arriving⟩ { logged := [.clusterArrival] } ⟨r, .asking⟩
  | delay (r : Request) : Moved settings ⟨r, .asking⟩ { logged := [.admission] } ⟨r, .asking⟩
  | grant (r : Request) :
      Moved settings ⟨r, .asking⟩ { logged := [.admission], noted := [.admitted] } ⟨r, .routed⟩
  | send (r : Request) {host : Nat} {decode : Option Nat}
      (assigned : settings.Assigns host decode) :
      Moved settings ⟨r, .routed⟩ { logged := [.routing], noted := [.routed] }
        ⟨{ r with decodeTarget := decode }, .sent host⟩
  | join (r : Request) (host : Nat) :
      Moved settings ⟨r, .sent host⟩ { logged := [.instanceArrival] } ⟨r, .held host⟩
  | handOff {r s : Request} {decode : Nat} (host : Nat) (target : r.decodeTarget = some decode)
      (further : s = { r with decodeTarget := none }) (more : 2 ≤ s.outputTokens) :
      Moved settings ⟨r, .held host⟩ { handed := 1 } ⟨s, .crossing decode⟩
  | resume (r : Request) (host : Nat) :
      Moved settings ⟨r, .crossing host⟩ { logged := [.kvTransferComplete] } ⟨r, .held host⟩

/-- How an event lets a request go, and what it tells about it. -/
inductive Departed (settings : ClusterSettings) : Stand → News → Prop
  | refuse (r : Request) :
      Departed settings ⟨r, .asking⟩
        { logged := [.admission], noted := [.refused, .turnedAway .admission] }
  | forgo (r : Request) (unpaired : ¬settings.Paired) :
      Departed settings ⟨r, .routed⟩ { logged := [.routing], noted := [.turnedAway .routing] }
  | turnAway (r : Request) (host : Nat) :
      Departed settings ⟨r, .sent host⟩
        { logged := [.instanceArrival], noted := [.turnedAway .host] }
  | finish (r : Request) (host : Nat) :
      Departed settings ⟨r, .held host⟩ { noted := [.completed] }

theorem Moved.unfinished {settings : ClusterSettings} {s t : Stand} {n : News}
    (k : Moved settings s n t) : .completed ∉ n.noted := by
  cases k <;> simp

theorem Departed.handed {settings : ClusterSettings} {s : Stand} {n : News}
    (k : Departed settings s n) : n.handed = 0 := by
  cases k <;> rfl

/-- How requests are taken further while there is some news of them. -/
structure Passage (settings : ClusterSettings) (told : Nat → News) (before after : List Stand) :
    Prop where
  moved : ∀ t ∈ after, ∃ s ∈ before, s.id = t.id ∧ Moved settings s (told s.id) t
  departed : ∀ s ∈ before, (∀ t ∈ after, t.id ≠ s.id) → Departed settings s (told s.id)
  silent : ∀ id, (∀ s ∈ before, s.id ≠ id) → told id = {}

namespace Passage
variable {settings : ClusterSettings} {told : Nat → News} {before after more : List Stand}

theorem of_parts (gone : List Stand) (went : List (Stand × Stand)) (rest : List Stand)
    (distinct : (before.map (·.id)).Nodup)
    (split : before.Perm (gone ++ went.map (·.1) ++ rest))
    (split' : after.Perm (went.map (·.2) ++ rest)) (goes : ∀ s ∈ gone, Departed settings s (told s.id))
    (moves : ∀ x ∈ went, x.1.id = x.2.id ∧ Moved settings x.1 (told x.1.id) x.2)
    (silent : ∀ id, (∀ s ∈ gone ++ went.map (·.1), s.id ≠ id) → told id = {}) :
    Passage settings told before after where
  moved t ht := by
    rcases List.mem_append.mp (split'.mem_iff.mp ht) with came | still
    · obtain ⟨x, hx, rfl⟩ := List.mem_map.mp came
      exact ⟨x.1, split.mem_iff.mpr (List.mem_append_left _ (List.mem_append_right _
        (List.mem_map_of_mem hx))), moves x hx⟩
    · refine ⟨t, split.mem_iff.mpr (List.mem_append_right _ still), rfl, ?_⟩
      have apart := (split.map (·.id)).nodup_iff.mp distinct
      rw [List.map_append] at apart
      have other := (List.nodup_append.mp apart).2.2
      rw [silent t.id fun s hs => other _ (List.mem_map_of_mem hs) _ (List.mem_map_of_mem still)]
      exact .stay t
  departed s hs away := by
    rcases List.mem_append.mp (split.mem_iff.mp hs) with news | still
    · rcases List.mem_append.mp news with goes' | left
      · exact goes s goes'
      · obtain ⟨x, hx, rfl⟩ := List.mem_map.mp left
        refine absurd (moves x hx).1.symm (away x.2 (split'.mem_iff.mpr ?_))
        exact List.mem_append_left _ (List.mem_map_of_mem hx)
    · exact absurd rfl (away s (split'.mem_iff.mpr (List.mem_append_right _ still)))
  silent id away := silent id fun s hs => away s (split.mem_iff.mpr (List.mem_append_left _ hs))

/-- A request that has left does not come back. -/
theorem absent (k : Passage settings told before after) {id : Nat}
    (away : ∀ s ∈ before, s.id ≠ id) : ∀ t ∈ after, t.id ≠ id := by
  intro t ht own
  obtain ⟨s, hs, same, _⟩ := k.moved t ht
  exact away s hs (same.trans own)

/-- A request that is done leaves, and is not handed off. -/
theorem finished {s : Stand} (k : Passage settings told before after) (hs : s ∈ before)
    (done : .completed ∈ (told s.id).noted) :
    (∀ t ∈ after, t.id ≠ s.id) ∧ (told s.id).handed = 0 := by
  have away : ∀ t ∈ after, t.id ≠ s.id := by
    intro t ht own
    obtain ⟨p, _, same, moved⟩ := k.moved t ht
    rw [same, own] at moved
    exact moved.unfinished done
  exact ⟨away, (k.departed s hs away).handed⟩

/-- Only a request that goes on was handed off. -/
theorem handed (k : Passage settings told before after) {id : Nat}
    (away : ∀ t ∈ after, t.id ≠ id) : (told id).handed = 0 := by
  rcases Stand.known_or_absent before id with ⟨s, hs, rfl⟩ | absent
  · exact (k.departed s hs away).handed
  · rw [k.silent id absent]

theorem perm (k : Passage settings told before after) (same : more.Perm after) :
    Passage settings told before more where
  moved t ht := k.moved t (same.mem_iff.mp ht)
  departed s hs away := k.departed s hs fun t ht => away t (same.mem_iff.mpr ht)
  silent := k.silent

theorem still (distinct : (before.map (·.id)).Nodup) (split : after.Perm before)
    (silent : ∀ id, told id = {}) : Passage settings told before after :=
  of_parts [] [] before distinct (.refl _) split (List.forall_mem_nil _)
    (List.forall_mem_nil _) fun id _ => silent id

end Passage

section
variable {a : Action} {r : Request} {notes : List DecisionRecord} {id : Nat} {s : Stand}
  {actions rings : List Action} {instances : List Instance} {i j : Instance} {host : Nat}

theorem headings_own {n : DecisionRecord} {h : Heading} (own : n.subject? = some (id, h)) :
    headings id (n :: notes) = h :: headings id notes := by
  rw [headings, List.filterMap_cons, own, Option.filter_some, if_pos (decide_eq_true rfl)]
  rfl

theorem headings_other {n : DecisionRecord} {own : Nat} {h : Heading}
    (subject : n.subject? = some (own, h)) (other : own ≠ id) :
    headings id (n :: notes) = headings id notes := by
  rw [headings, List.filterMap_cons, subject, Option.filter_some,
    if_neg (by rwa [decide_eq_true_eq])]
  rfl

theorem stand_id (own : a.request? = some r) (stands : a.stand? = some s) : s.id = r.id := by
  cases a with
  | step | stepComplete | snapshotRefresh => cases own
  | _ =>
      obtain rfl := Option.some.inj own
      obtain rfl := Option.some.inj stands
      rfl

theorem standing_cons (own : a.stand? = some s) :
    standing ([a] ++ actions) instances = s :: standing actions instances := by
  rw [standing, List.singleton_append, List.filterMap_cons, own]
  rfl

theorem stand_bare (bare : a.request? = none) : a.stand? = none := by
  cases a with
  | step | stepComplete | snapshotRefresh => rfl
  | _ => cases bare

theorem standing_bare (bare : ∀ x ∈ rings, x.request? = none) :
    standing (rings ++ actions) instances = standing actions instances := by
  have none : rings.filterMap Action.stand? = [] :=
    List.filterMap_eq_nil_iff.mpr fun x hx => stand_bare (bare x hx)
  rw [standing, List.filterMap_append, none]
  rfl

theorem standing_ids : (standing actions instances).map (·.id) =
    (carried actions ++ instances.flatMap Instance.requests).map (·.id) := by
  have same : ∀ x : Action, x.stand?.map (·.id) = x.request?.map (·.id) := fun x => by
    cases x <;> rfl
  have own : ∀ i : Instance, i.stands.map (·.id) = i.requests.map (·.id) := fun i => List.map_map
  simp only [standing, carried, List.map_append, List.map_filterMap, List.map_flatMap, same, own]

theorem standing_replace (actions : List Action) (gained lost : List Stand)
    (at' : instances[host]? = some i)
    (same : (i.stands ++ gained).Perm (j.stands ++ lost)) :
    (standing actions (instances.modify host fun _ => j) ++ lost).Perm
      (standing actions instances ++ gained) := by
  classical
  refine List.perm_iff_count.mpr fun s => ?_
  have whole := (flatMap_modify (fun _ => j) Instance.stands at').count_eq s
  have same := same.count_eq s
  simp only [standing, List.count_append] at whole same ⊢
  omega

theorem standing_gain (actions : List Action) (at' : instances[host]? = some i)
    (more : j.stands = i.stands ++ [s]) :
    (standing actions (instances.modify host fun _ => j)).Perm (s :: standing actions instances) := by
  have whole := standing_replace actions [s] [] at' (by rw [more, List.append_nil])
  rw [List.append_nil] at whole
  exact whole.trans (List.perm_append_singleton s _)

theorem standing_same (actions : List Action) (at' : instances[host]? = some i)
    (same : j.stands.Perm i.stands) :
    (standing actions (instances.modify host fun _ => j)).Perm (standing actions instances) := by
  have whole := standing_replace actions [] [] at' (same.symm.append_right [])
  rwa [List.append_nil, List.append_nil] at whole

namespace Passage
variable {settings : ClusterSettings} {after : List Stand} {t : Stand}

theorem news_own (own : a.request? = some r) :
    news a notes [] r.id = { logged := [a.label], noted := headings r.id notes } := by
  rw [news, own, Option.map_some, if_pos rfl]
  rfl

theorem news_other (own : a.request? = some r) (other : r.id ≠ id) (none : headings id notes = []) :
    news a notes [] id = {} := by
  rw [news, own, Option.map_some, if_neg (other ∘ Option.some.inj), none]
  rfl

/-- An event takes the request that it carries further. -/
theorem carry (own : a.request? = some r) (stands : a.stand? = some s)
    (distinct : ((standing ([a] ++ actions) instances).map (·.id)).Nodup)
    (split : after.Perm (t :: standing actions instances)) (same : s.id = t.id)
    (only : ∀ id, r.id ≠ id → headings id notes = [])
    (step : Moved settings s { logged := [a.label], noted := headings r.id notes } t) :
    Passage settings (news a notes []) (standing ([a] ++ actions) instances) after := by
  have id := stand_id own stands
  refine of_parts [] [(s, t)] (standing actions instances) distinct (.of_eq (standing_cons stands))
    split (List.forall_mem_nil _) (List.forall_mem_singleton.mpr ⟨same, ?_⟩) fun n away => ?_
  · rw [id, news_own own]
    exact step
  · have other : r.id ≠ n := id ▸ away s List.mem_cons_self
    exact news_other own other (only n other)

/-- An event lets the request go that it carries. -/
theorem leave (own : a.request? = some r) (stands : a.stand? = some s)
    (distinct : ((standing ([a] ++ actions) instances).map (·.id)).Nodup)
    (split : after.Perm (standing actions instances))
    (only : ∀ id, r.id ≠ id → headings id notes = [])
    (goes : Departed settings s { logged := [a.label], noted := headings r.id notes }) :
    Passage settings (news a notes []) (standing ([a] ++ actions) instances) after := by
  have id := stand_id own stands
  refine of_parts [s] [] (standing actions instances) distinct (.of_eq (standing_cons stands))
    split (List.forall_mem_singleton.mpr ?_) (List.forall_mem_nil _) fun n away => ?_
  · rw [id, news_own own]
    exact goes
  · have other : r.id ≠ n := id ▸ away s List.mem_cons_self
    exact news_other own other (only n other)

end Passage

end

theorem countP_id (rs : List Request) (id : Nat) :
    rs.countP (·.id = id) = (rs.map (·.id)).count id := by
  rw [List.count, List.countP_map]
  exact List.countP_congr fun r _ => by simp

theorem countP_request_id (hs : List Handoff) (id : Nat) :
    hs.countP (·.request.id = id) = ((hs.map Handoff.source).map (·.id)).count id := by
  rw [List.count, List.map_map, List.countP_map]
  exact List.countP_congr fun h _ => by simp [Handoff.source]

theorem headings_completions (now host id : Nat) (rs : List Request) :
    headings id (rs.map (Cluster.completionOf now host)) =
      .replicate (rs.countP (·.id = id)) .completed := by
  induction rs with
  | nil => rfl
  | cons r rest ih =>
      rw [headings, List.map_cons, List.filterMap_cons, List.countP_cons]
      by_cases own : r.id = id
      · simp only [Cluster.completionOf, DecisionRecord.subject?, Option.filter_some, own,
          decide_true, if_true, Option.map_some, List.replicate_succ]
        exact congrArg _ ih
      · simp only [Cluster.completionOf, DecisionRecord.subject?, Option.filter_some, own,
          decide_false, Bool.false_eq_true, if_false, Option.map_none]
        exact ih

/-- A request that is handed off has more than the token that ends its prompt to make. -/
theorem HandedOff.outputTokens {spec : InstanceSpec} {r : Request} (k : HandedOff spec r) :
    2 ≤ r.outputTokens := by
  have unfinished := k.resident.unfinished
  have prompt := k.prompt
  rw [Request.span] at unfinished
  omega

/-- The requests that the end of a step hands off. -/
def Instance.handing (i : Instance) (now : Nat) (q : EventQueue) : List Handoff :=
  match (i.complete now q).1 with
  | .ok report => report.handoffs
  | .error _ => []

namespace Cluster

/-- The requests that an action hands off. -/
def handing (c : Cluster) : Action → List Handoff
  | .stepComplete host =>
    match c.instances[host]? with
    | some i => i.handing c.now c.events
    | none => []
  | _ => []

variable {config : Config} {rs : List Request} {b c d : Cluster} {l : Ledger} {a : Action}
  {e : Event} {sent hand : List Action} {notes : List DecisionRecord} {ms : List Member}

theorem Coherent.standing_nodup (distinct : (rs.map (·.id)).Nodup)
    (k : Coherent config rs hand c l) :
    ((standing (hand ++ c.events.actions) c.instances).map (·.id)).Nodup := by
  have ids := (k.owners.map (·.id)).nodup_iff.mpr distinct
  rw [List.map_append, List.map_map] at ids
  rw [standing_ids]
  exact (List.nodup_append.mp ids).1

theorem news_ended (host now : Nat) (report : StepReport) (id : Nat) :
    news (.stepComplete host) (report.completed.map (completionOf now host)) report.handoffs id =
      { noted := .replicate ((report.completed.map (·.id)).count id) .completed
        handed := ((report.handoffs.map Handoff.source).map (·.id)).count id } := by
  rw [news, headings_completions, countP_id, countP_request_id]
  rfl

theorem stands_ended {spec : InstanceSpec} {now : Nat} {i j : Instance} {report : StepReport}
    (same : j.id = i.id) (ended : Instance.Ended spec now i report j) :
    i.stands.Perm (j.stands ++ (report.completed.map (fun r => ⟨r.stem, .held i.id⟩) ++
      report.handoffs.map fun h => ⟨h.source.stem, .held i.id⟩)) := by
  have stands := (ended.stems.map fun r => Stand.mk r (.held i.id)).symm
  simp only [List.map_append, List.map_map] at stands
  rw [Instance.stands, Instance.stands, same]
  exact stands.trans List.perm_append_comm

theorem passage_ended {settings : ClusterSettings} {host : Nat} {instances : List Instance}
    {i j : Instance} {report : StepReport} {spec : InstanceSpec} {now : Nat}
    {rings coming : List Action} (at' : instances[host]? = some i) (own : i.id = host)
    (same : j.id = i.id) (ended : Instance.Ended spec now i report j)
    (bare : ∀ x ∈ rings, x.request? = none) (apart : (i.requests.map (·.id)).Nodup)
    (distinct : ((standing coming instances).map (·.id)).Nodup) :
    Passage settings
      (news (.stepComplete host) (report.completed.map (completionOf now host)) report.handoffs)
      (standing coming instances)
      (standing (report.handoffs.map Handoff.action ++ rings ++ coming)
        (instances.modify host fun _ => j)) := by
  subst own
  have ids : (report.completed.map (·.id) ++ ((report.handoffs.map Handoff.source).map (·.id) ++
      j.requests.map (·.id))).Nodup := by
    have stems := ended.stems.map Request.id
    rw [List.map_map, List.map_map, List.map_append, List.map_append, List.append_assoc] at stems
    exact stems.nodup_iff.mpr apart
  obtain ⟨once, others, different⟩ := List.nodup_append.mp ids
  have once' := (List.nodup_append.mp others).1
  refine Passage.of_parts (report.completed.map fun r => ⟨r.stem, .held i.id⟩)
    (report.handoffs.map fun h =>
      (⟨h.source.stem, .held i.id⟩, ⟨h.request.stem, .crossing h.decode⟩))
    (standing coming (instances.modify i.id fun _ => j)) distinct ?split ?split' ?goes ?moves ?silent
  case split' =>
    have sent : (report.handoffs.map Handoff.action).filterMap Action.stand? =
        report.handoffs.map fun h => ⟨h.request.stem, .crossing h.decode⟩ := by
      rw [List.filterMap_map]
      exact congrFun List.filterMap_eq_map report.handoffs
    rw [List.append_assoc, standing, List.filterMap_append, sent, List.append_assoc, List.map_map]
    exact .of_eq (congrArg _ (standing_bare bare))
  case split =>
    have lost := stands_ended same ended
    rw [← List.append_nil i.stands] at lost
    have replaced := (standing_replace coming [] _ at' lost).symm.trans List.perm_append_comm
    rw [List.append_nil] at replaced
    rw [List.map_map]
    exact replaced
  case goes =>
    refine List.forall_mem_map.mpr fun r hr => ?_
    have inside : r.id ∈ report.completed.map (·.id) := List.mem_map_of_mem hr
    have away : r.id ∉ (report.handoffs.map Handoff.source).map (·.id) := fun inside' =>
      different _ inside _ (List.mem_append_left _ inside') rfl
    rw [news_ended, Stand.id, show r.stem.id = r.id from rfl, List.count_eq_one_of_mem once inside,
      List.count_eq_zero_of_not_mem away]
    exact .finish r.stem i.id
  case moves =>
    refine List.forall_mem_map.mpr fun h hh => ⟨rfl, ?_⟩
    have inside : h.source.id ∈ (report.handoffs.map Handoff.source).map (·.id) :=
      List.mem_map_of_mem (List.mem_map_of_mem hh)
    have away : h.source.id ∉ report.completed.map (·.id) := fun inside' =>
      different _ inside' _ (List.mem_append_left _ inside) rfl
    have off := ended.handoffs h hh
    rw [news_ended, Stand.id, show h.source.stem.id = h.source.id from rfl,
      List.count_eq_one_of_mem once' inside, List.count_eq_zero_of_not_mem away]
    refine .handOff i.id rfl ?_ off.outputTokens
    rw [Request.stem, off.target]
    rfl
  case silent =>
    intro id away
    have first : id ∉ report.completed.map (·.id) := fun inside => by
      obtain ⟨r, hr, own⟩ := List.mem_map.mp inside
      exact away _ (List.mem_append_left _ (List.mem_map_of_mem hr)) own
    have second : id ∉ (report.handoffs.map Handoff.source).map (·.id) := fun inside => by
      obtain ⟨r, hr, own⟩ := List.mem_map.mp inside
      obtain ⟨h, hh, rfl⟩ := List.mem_map.mp hr
      refine away ⟨h.source.stem, .held i.id⟩ (List.mem_append_right _ ?_) own
      exact List.mem_map.mpr ⟨_, List.mem_map_of_mem hh, rfl⟩
    rw [news_ended, List.count_eq_zero_of_not_mem first, List.count_eq_zero_of_not_mem second]
    rfl

theorem passage_of_deed (valid : config.cluster.Valid) (distinct : (rs.map (·.id)).Nodup)
    (k : Coherent config rs [a] b l) (deed : Deed b a sent notes ms) :
    Passage config.cluster (news a notes (b.handing a))
      (standing ([a] ++ b.events.actions) b.instances)
      (standing (sent ++ b.events.actions) (ms.map (·.server))) := by
  have apart := k.standing_nodup distinct
  cases deed with
  | accept r =>
      exact .carry rfl rfl apart (.of_eq (standing_cons rfl)) rfl (fun _ _ => rfl) (.ask r.stem)
  | grant r reason =>
      refine .carry rfl rfl apart (.of_eq (standing_cons rfl)) rfl
        (fun _ other => headings_other rfl other) ?_
      rw [headings_own rfl]
      exact .grant r.stem
  | refuse r reason =>
      refine .leave rfl rfl apart (.refl _)
        (fun _ other => (headings_other rfl other).trans (headings_other rfl other)) ?_
      rw [headings_own rfl, headings_own rfl]
      exact .refuse r.stem
  | delay r =>
      exact .carry rfl rfl apart (.of_eq (standing_cons rfl)) rfl (fun _ _ => rfl) (.delay r.stem)
  | @send r view route host decode priority candidates regret chosen target =>
      obtain ⟨host', decode', assigned, target'⟩ := (k.assigned valid view).2.resolve_right
        fun nowhere => by
          rw [chosen, target] at nowhere
          cases decode <;> cases nowhere.2
      rw [chosen, target] at target'
      obtain ⟨rfl, rfl⟩ := Target.towards_inj target'
      have servers : (b.members.modify host Member.expecting).map (·.server) = b.instances :=
        servers_modify _ _ fun _ => rfl
      rw [servers]
      refine .carry rfl rfl apart (.of_eq (standing_cons rfl)) rfl
        (fun _ other => headings_other rfl other) ?_
      rw [headings_own rfl]
      exact .send r.stem assigned
  | @forgo r view route chosen target =>
      rcases (k.assigned valid view).2 with ⟨host, decode, _, target'⟩ | ⟨unpaired, _⟩
      · rw [chosen, target] at target'
        cases decode <;> cases target'
      · refine .leave rfl rfl apart (.refl _) (fun _ other => headings_other rfl other) ?_
        rw [headings_own rfl]
        exact .forgo r.stem unpaired
  | @misroute r view route m chosen wrong =>
      obtain ⟨sound, _⟩ := k.assigned valid view
      rw [chosen, wrong] at sound
      cases sound
  | @join _ host r m j q rings own at' done bare =>
      obtain ⟨found, rfl⟩ := k.host_eq at'
      obtain ⟨s, ⟨state, host, rfl⟩, same⟩ := Instance.queued_inv done
      have servers : (b.members.modify m.server.id fun n =>
          { n with server := j, pending := m.pending - 1 }).map (·.server) =
          b.instances.modify m.server.id fun _ => j := servers_replace b _ fun _ => rfl
      have more : j.stands = m.server.stands ++ [⟨r.stem, .held m.server.id⟩] := by
        rw [same]
        simp [Instance.stands, Instance.requests]
        rfl
      have split := standing_gain b.events.actions found more
      rw [servers, standing_bare bare]
      rcases own with rfl | rfl
      · exact .carry rfl rfl apart split rfl (fun _ _ => rfl) (.join r.stem _)
      · exact .carry rfl rfl apart split rfl (fun _ _ => rfl) (.resume r.stem _)
  | @turnAway _ host r s reason m j q rings own at' done bare =>
      obtain ⟨found, rfl⟩ := k.host_eq at'
      rcases own with rfl | rfl
      · obtain ⟨same, left⟩ := Instance.rejected_inv done
        have servers : (b.members.modify m.server.id fun n => { n with
            server := j, pending := m.pending - 1, inFlight := n.inFlight - 1 }).map (·.server) =
            b.instances.modify m.server.id fun _ => j := servers_replace b _ fun _ => rfl
        have stands : j.stands = m.server.stands := by rw [left]; rfl
        rw [servers, standing_bare bare, Request.id_of_origin same]
        refine .leave rfl rfl apart (standing_same _ found (.of_eq stands))
          (fun _ other => headings_other rfl other) ?_
        rw [headings_own rfl]
        exact .turnAway r.stem _
      · cases k.queued_of_handed distinct found done
  | @step host m j q rings at' done bare =>
      obtain ⟨found, rfl⟩ := k.host_eq at'
      obtain ⟨same, stems⟩ := k.stems_step valid.usable found done
      have servers : (b.members.modify m.server.id fun n => { n with server := j }).map (·.server) =
          b.instances.modify m.server.id fun _ => j := servers_replace b _ fun _ => rfl
      have stands : j.stands.Perm m.server.stands := by
        have stands := stems.map fun r => Stand.mk r (.held m.server.id)
        rw [List.map_map, List.map_map] at stands
        rw [Instance.stands, same]
        exact stands
      rw [servers, standing_bare bare]
      rw [standing_bare (List.forall_mem_singleton.mpr rfl)] at apart ⊢
      exact .still apart (standing_same _ found stands) fun id => rfl
  | @complete host m report j i q rings at' done rescored bare =>
      obtain ⟨found, id⟩ := k.host_eq at'
      obtain ⟨same, ended⟩ := k.ended_complete found done rescored
      have hands : b.handing (.stepComplete host) = report.handoffs := by
        simp only [handing, found, Instance.handing, done]
      have here : standing ([.stepComplete host] ++ b.events.actions) b.instances =
        standing b.events.actions b.instances := standing_bare (List.forall_mem_singleton.mpr rfl)
      rw [here] at apart
      have servers : (b.members.modify host fun n => { n with server := i }).map (·.server) =
          b.instances.modify host fun _ => i := servers_replace b _ fun _ => rfl
      rw [servers_countHanded, servers_countFinished, servers, hands, here]
      exact passage_ended found id same ended bare (k.employs host _ found).coherent.fitting.nodup apart
  | refresh bare =>
      rw [standing_bare (List.forall_mem_singleton.mpr rfl)] at apart ⊢
      rw [standing_bare bare]
      exact .still apart (.refl _) fun _ => rfl

theorem clock_of_deed (deed : Deed c a sent notes ms) : ∀ n ∈ notes, n.clock = c.now := by
  cases deed with
  | grant | send | forgo | turnAway => exact List.forall_mem_singleton.mpr rfl
  | refuse | misroute => exact List.forall_mem_cons.mpr ⟨rfl, List.forall_mem_singleton.mpr rfl⟩
  | complete => exact List.forall_mem_map.mpr fun _ _ => rfl
  | _ => exact List.forall_mem_nil _

theorem completed_of_deed (deed : Deed c a sent notes ms) :
    ∀ r ∈ c.finishing a, .completed ∈ headings r.id notes := by
  cases deed with
  | join own | turnAway own => rcases own with rfl | rfl <;> exact List.forall_mem_nil _
  | complete at' done =>
      rw [finishing_eq at' done]
      intro r hr
      rw [headings_completions]
      refine List.mem_replicate.mpr ⟨Nat.ne_of_gt (List.countP_pos_iff.mpr ⟨r, hr, ?_⟩), rfl⟩
      exact decide_eq_true rfl
  | _ => exact List.forall_mem_nil _

def stands (c : Cluster) : List Stand := standing c.events.actions c.instances

theorem mem_stands {s : Stand} (here : a ∈ c.events.actions) (own : a.stand? = some s) :
    s ∈ c.stands := List.mem_append_left _ (List.mem_filterMap.mpr ⟨a, here, own⟩)

/-- The requests that the next event hands off. -/
def handingNext (c : Cluster) : List Handoff :=
  match c.events.pop? with
  | some (e, q) =>
    match c.begin e q with
    | .ok b => b.handing e.action
    | .error _ => []
  | none => []

/-- One event takes requests further, and logs and records what it tells about them. -/
structure Reported (settings : ClusterSettings) (c : Cluster) (e : Event)
    (notes : List DecisionRecord) (d : Cluster) : Prop where
  eventLog : d.eventLog = c.eventLog.map fun log => log.push (.ofEvent e)
  trace : d.trace = notes.foldl DecisionTrace.record c.trace
  clock : ∀ n ∈ notes, n.clock = d.now
  later : c.now ≤ d.now
  completed : ∀ r ∈ c.completing, .completed ∈ headings r.id notes
  passage : Passage settings (news e.action notes c.handingNext) c.stands d.stands

theorem Ran.reported (valid : config.cluster.Valid) (distinct : (rs.map (·.id)).Nodup)
    (k : Coherent config rs [] c l) (g : Logged config rs c l) (ran : Ran c e b d) :
    ∃ notes, Reported config.cluster c e notes d := by
  obtain ⟨k', instances, now, later, _⟩ := ran.begins k g
  obtain ⟨q, popped, begun⟩ := ran.popped
  obtain ⟨sent, notes, deed, leaves⟩ := ran.does
  have same := begin_inv begun
  have now' : d.now = b.now := congrArg Clock.now leaves.clock
  have hands : c.handingNext = b.handing e.action := by simp only [handingNext, popped, begun]
  have before : c.stands = standing ([e.action] ++ b.events.actions) b.instances := by
    rw [stands, ran.actions k g, instances]
    rfl
  refine ⟨notes, ?_, ?_, fun n hn => ?_, ?_, ?_, ?_⟩
  · rw [leaves.eventLog, same]
  · rw [leaves.trace, same]
  · rw [clock_of_deed deed n hn, now']
  · rw [now', now]
    exact later
  · rw [ran.completing_eq]
    exact completed_of_deed deed
  · rw [hands, before]
    refine (passage_of_deed valid distinct k' deed).perm ?_
    exact (leaves.actions.filterMap _).append_right _

/-- At the start of a run all requests are arriving. -/
theorem Awaits.arriving (k : Awaits config rs c) :
    ∀ s ∈ c.stands, ∃ r ∈ rs, s = ⟨r.stem, .arriving⟩ := by
  intro s hs
  rcases List.mem_append.mp hs with carried | held
  · obtain ⟨a, ha, own⟩ := List.mem_filterMap.mp carried
    obtain ⟨e, he, rfl⟩ := List.mem_map.mp ha
    rcases k.arrivals e he with refresh | ⟨r, hr, _, arrives⟩
    · rw [refresh] at own
      cases own
    · rw [arrives] at own
      exact ⟨r, hr, (Option.some.inj own).symm⟩
  · obtain ⟨i, hi, holds⟩ := List.mem_flatMap.mp held
    obtain ⟨_, _, _, rfl⟩ := k.servers i hi
    cases holds

end Cluster
end InferenceSim
