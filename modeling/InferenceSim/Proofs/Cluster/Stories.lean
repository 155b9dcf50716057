import InferenceSim.Proofs.Cluster.Journeys

/-! The stories that the event log and the trace of decisions tell about requests. Whatever
happens to other requests in between, each is told in the order of the pipeline, and nothing
more is told about it once it has ended. -/
namespace InferenceSim

/-- The kinds of the events of a request that has asked for admission some times. -/
def asked (times : Nat) : List EventLabel := .clusterArrival :: .replicate times .admission

/-- The kinds of the events of a request once it is admitted. Only where prompts are computed
apart from the rest does its KV move. -/
def served (split : Bool) : List EventLabel :=
  [.routing, .instanceArrival] ++ if split then [.kvTransferComplete] else []

/-- The kinds of the events of a request in their order, with one admission more than delays. -/
def pipeline (split : Bool) (delays : Nat) : List EventLabel := asked (delays + 1) ++ served split

namespace Heading

def stories : List (List Heading) :=
  [[.admitted, .routed, .completed], [.admitted, .routed, .turnedAway .host],
    [.refused, .turnedAway .admission]]

def isLast : Heading → Bool
  | .turnedAway _ | .completed => true
  | .admitted | .refused | .routed => false

end Heading

/-- What is told of a request in its place. -/
inductive Trail (split : Bool) : Stand → List EventLabel → List Heading → Prop
  | arriving (r : Request) : Trail split ⟨r, .arriving⟩ [] []
  | asking (r : Request) (delays : Nat) : Trail split ⟨r, .asking⟩ (asked delays) []
  | routed (r : Request) (delays : Nat) :
      Trail split ⟨r, .routed⟩ (asked (delays + 1)) [.admitted]
  | sent (r : Request) (host delays : Nat) (phased : r.decodeTarget.isSome → split) :
      Trail split ⟨r, .sent host⟩ (asked (delays + 1) ++ [.routing]) [.admitted, .routed]
  | held (r : Request) (host delays : Nat) (phased : r.decodeTarget.isSome → split) :
      Trail split ⟨r, .held host⟩ (asked (delays + 1) ++ [.routing, .instanceArrival])
        [.admitted, .routed]
  | crossing (r : Request) (host delays : Nat) (phased : split) (decodes : r.decodeTarget = none) :
      Trail split ⟨r, .crossing host⟩ (asked (delays + 1) ++ [.routing, .instanceArrival])
        [.admitted, .routed]
  | resumed (r : Request) (host delays : Nat) (phased : split) (decodes : r.decodeTarget = none) :
      Trail split ⟨r, .held host⟩
        (asked (delays + 1) ++ [.routing, .instanceArrival, .kvTransferComplete])
        [.admitted, .routed]

/-- What is told of a request in no place: it is unknown, or its story is over. -/
inductive Over (split : Bool) : List EventLabel → List Heading → Prop
  | unknown : Over split [] []
  | refused (delays : Nat) : Over split (asked (delays + 1)) [.refused, .turnedAway .admission]
  | turnedAway (delays : Nat) :
      Over split (asked (delays + 1) ++ [.routing, .instanceArrival])
        [.admitted, .routed, .turnedAway .host]
  | completed (delays : Nat) :
      Over split (asked (delays + 1) ++ [.routing, .instanceArrival])
        [.admitted, .routed, .completed]
  | resumed (delays : Nat) (phased : split) :
      Over split (asked (delays + 1) ++ [.routing, .instanceArrival, .kvTransferComplete])
        [.admitted, .routed, .completed]

section
variable {settings : ClusterSettings} {split : Bool} {s t : Stand} {n : News}
  {labels rest : List EventLabel} {notes : List Heading}

theorem asked_again (times : Nat) : asked times ++ [.admission] = asked (times + 1) := by
  rw [asked, asked, List.cons_append, ← List.replicate_succ']

theorem asked_prefix (delays : Nat) : asked delays <+: pipeline split delays := by
  rw [pipeline, ← asked_again, List.append_assoc]
  exact List.prefix_append _ _

theorem served_prefix (delays : Nat) (of : rest <+: served split) :
    asked (delays + 1) ++ rest <+: pipeline split delays :=
  (List.prefix_append_right_inj _).mpr of

/-- The trail of a request goes on with what is told when it is taken further. -/
theorem Trail.moved (trail : Trail settings.disaggregated.enabled s labels notes)
    (moved : Moved settings s n t) :
    Trail settings.disaggregated.enabled t (labels ++ n.logged) (notes ++ n.noted) := by
  cases moved with
  | stay =>
      rw [List.append_nil, List.append_nil]
      exact trail
  | ask r =>
      cases trail
      exact .asking r 0
  | delay r =>
      cases trail with
      | asking _ delays =>
          rw [asked_again]
          exact .asking r (delays + 1)
  | grant r =>
      cases trail with
      | asking _ delays =>
          rw [asked_again]
          exact .routed r delays
  | @send r host decode assigned =>
      cases trail with
      | routed _ delays =>
          refine .sent _ host delays fun some => ?_
          cases decode with
          | none => cases some
          | some decode => exact assigned.1
  | join r host =>
      cases trail with
      | sent _ _ delays phased =>
          rw [List.append_assoc]
          exact .held r host delays phased
  | @handOff r _ decode host target further =>
      subst further
      rw [List.append_nil, List.append_nil]
      cases trail with
      | held _ _ delays phased =>
          exact .crossing _ decode delays (phased (by rw [target]; rfl)) rfl
      | resumed _ _ _ _ decodes => cases target.symm.trans decodes
  | resume r host =>
      cases trail with
      | crossing _ _ delays phased decodes =>
          rw [List.append_assoc]
          exact .resumed r host delays phased decodes

theorem Trail.departed (trail : Trail split s labels notes) (paired : settings.Paired)
    (departed : Departed settings s n) : Over split (labels ++ n.logged) (notes ++ n.noted) := by
  cases departed with
  | forgo r unpaired => exact absurd paired unpaired
  | refuse r =>
      cases trail with
      | asking _ delays =>
          rw [asked_again]
          exact .refused delays
  | turnAway r host =>
      cases trail with
      | sent _ _ delays =>
          rw [List.append_assoc]
          exact .turnedAway delays
  | finish r host =>
      rw [List.append_nil]
      cases trail with
      | held _ _ delays => exact .completed delays
      | resumed _ _ delays phased => exact .resumed delays phased

theorem Trail.labels_prefix (trail : Trail split s labels notes) :
    ∃ delays, labels <+: pipeline split delays := by
  cases trail with
  | arriving => exact ⟨0, List.nil_prefix⟩
  | asking _ delays => exact ⟨delays, asked_prefix delays⟩
  | routed _ delays => exact ⟨delays, List.prefix_append _ _⟩
  | sent _ _ delays => exact ⟨delays, served_prefix delays ⟨.instanceArrival :: _, rfl⟩⟩
  | held _ _ delays => exact ⟨delays, served_prefix delays (List.prefix_append _ _)⟩
  | crossing _ _ delays => exact ⟨delays, served_prefix delays (List.prefix_append _ _)⟩
  | resumed _ _ delays phased =>
      subst phased
      exact ⟨delays, List.prefix_rfl⟩

theorem Over.labels_prefix (gone : Over split labels notes) :
    ∃ delays, labels <+: pipeline split delays := by
  cases gone with
  | unknown => exact ⟨0, List.nil_prefix⟩
  | refused delays => exact ⟨delays, List.prefix_append _ _⟩
  | turnedAway delays => exact ⟨delays, served_prefix delays (List.prefix_append _ _)⟩
  | completed delays => exact ⟨delays, served_prefix delays (List.prefix_append _ _)⟩
  | resumed delays phased =>
      subst phased
      exact ⟨delays, List.prefix_rfl⟩

theorem Trail.story (trail : Trail split s labels notes) :
    ∃ story ∈ Heading.stories, notes <+: story := by
  cases trail <;> decide

theorem Over.story (gone : Over split labels notes) :
    ∃ story ∈ Heading.stories, notes <+: story := by
  cases gone <;> decide

/-- While a request stands in some place its story is not over. -/
theorem Trail.open (trail : Trail split s labels notes) : notes.any Heading.isLast = false := by
  cases trail <;> rfl

theorem countP_isLast {story : List Heading} (told : story ∈ Heading.stories)
    (of : notes <+: story) : notes.countP Heading.isLast ≤ 1 := by
  have once : ∀ story ∈ Heading.stories, story.countP Heading.isLast = 1 := by decide
  exact once story told ▸ of.sublist.countP_le

end

namespace Cluster

def kindsOf (c : Cluster) (id : Nat) : List String :=
  ((c.eventLog.getD #[]).toList.filter (·.request = some id)).map (·.kind)

def headingsOf (c : Cluster) (id : Nat) : List Heading := headings id c.trace.records.toList

/-- The stories of all requests as far as they have been told. -/
structure Told (split : Bool) (c : Cluster) : Prop where
  logging : c.eventLog.isSome
  events : ∀ id, ∃ delays, c.kindsOf id <+: (pipeline split delays).map EventLabel.name
  decisions : ∀ id, ∃ story ∈ Heading.stories, c.headingsOf id <+: story
  once : ∀ id, (c.headingsOf id).countP Heading.isLast ≤ 1
  clocks : c.trace.records.toList.Pairwise fun m n => m.clock ≤ n.clock

/-- The stories that are over in one state are told no further in another one. -/
def Closes (c d : Cluster) : Prop :=
  ∀ id, (c.headingsOf id).any Heading.isLast →
    d.kindsOf id = c.kindsOf id ∧ d.headingsOf id = c.headingsOf id

/-- What is told of every request fits the place that it stands in, or that it has left. -/
structure Chronicle (split : Bool) (c : Cluster) : Prop where
  logging : c.eventLog.isSome
  keeps : c.trace.keep = true
  trails : ∀ s ∈ c.stands, ∃ labels, c.kindsOf s.id = labels.map EventLabel.name ∧
    Trail split s labels (c.headingsOf s.id)
  gone : ∀ id, (∀ s ∈ c.stands, s.id ≠ id) → ∃ labels,
    c.kindsOf id = labels.map EventLabel.name ∧ Over split labels (c.headingsOf id)
  clocks : c.trace.records.toList.Pairwise fun m n => m.clock ≤ n.clock
  past : ∀ n ∈ c.trace.records.toList, n.clock ≤ c.now

variable {config : Config} {rs : List Request} {b c d : Cluster} {l : Ledger} {e : Event}
  {settings : ClusterSettings} {split : Bool} {notes : List DecisionRecord} {id : Nat}

theorem Closes.refl (c : Cluster) : Closes c c := fun _ _ => ⟨rfl, rfl⟩

theorem Closes.trans {m : Cluster} (first : Closes b c) (next : Closes c m) : Closes b m := by
  intro id ended
  obtain ⟨kinds, headings⟩ := first id ended
  rw [← kinds, ← headings]
  exact next id (headings.symm ▸ ended)

theorem records_foldl (notes : List DecisionRecord) {t : DecisionTrace} (keeps : t.keep = true) :
    (notes.foldl DecisionTrace.record t).records.toList = t.records.toList ++ notes ∧
      (notes.foldl DecisionTrace.record t).keep = true := by
  induction notes generalizing t with
  | nil => exact ⟨(List.append_nil _).symm, keeps⟩
  | cons n rest ih =>
      have one : t.record n = { t with records := t.records.push n } := if_pos keeps
      rw [List.foldl_cons, one]
      obtain ⟨records, kept⟩ := ih (t := { t with records := t.records.push n }) keeps
      rw [records, Array.toList_push, List.append_assoc]
      exact ⟨rfl, kept⟩

theorem clocks_append {old notes : List DecisionRecord} {now : Nat}
    (clocks : old.Pairwise fun m n => m.clock ≤ n.clock) (past : ∀ n ∈ old, n.clock ≤ now)
    (here : ∀ n ∈ notes, n.clock = now) :
    ((old ++ notes).Pairwise fun m n => m.clock ≤ n.clock) ∧ ∀ n ∈ old ++ notes, n.clock ≤ now := by
  refine ⟨List.pairwise_append.mpr ⟨clocks, ?_, fun m hm n hn => here n hn ▸ past m hm⟩,
    fun n hn => ?_⟩
  · refine List.pairwise_of_forall_mem_list fun m hm n hn => ?_
    exact Nat.le_of_eq ((here m hm).trans (here n hn).symm)
  · rcases List.mem_append.mp hn with old | new
    · exact past n old
    · exact Nat.le_of_eq (here n new)

theorem recordAnomalies_inv (c : Cluster) (s : RunSummary) :
    ∃ notes : List DecisionRecord,
      c.recordAnomalies s = { c with trace := notes.foldl DecisionTrace.record c.trace } ∧
      ∀ n ∈ notes, n.subject? = none ∧ n.clock = c.now := by
  unfold recordAnomalies
  generalize s.anomalies = found
  induction found generalizing c with
  | nil => exact ⟨[], rfl, List.forall_mem_nil _⟩
  | cons a rest ih =>
      rw [List.foldl_cons]
      cases a with
      | invalidRouting => exact ih c
      | priorityInversion | headOfLineBlocking =>
          obtain ⟨notes, same, bare⟩ := ih (c.record (.anomaly c.now (Anomaly.kind _) (Anomaly.detail _)))
          exact ⟨_ :: notes, same, List.forall_mem_cons.mpr ⟨⟨rfl, rfl⟩, bare⟩⟩

namespace Reported

theorem records (k : Reported settings c e notes d) (keeps : c.trace.keep = true) :
    d.trace.records.toList = c.trace.records.toList ++ notes ∧ d.trace.keep = true := by
  rw [k.trace]
  exact records_foldl notes keeps

theorem headingsOf (k : Reported settings c e notes d) (keeps : c.trace.keep = true) (id : Nat) :
    d.headingsOf id = c.headingsOf id ++ (news e.action notes c.handingNext id).noted := by
  rw [Cluster.headingsOf, (k.records keeps).1, headings, List.filterMap_append]
  rfl

theorem kindsOf (k : Reported settings c e notes d) (logging : c.eventLog.isSome) (id : Nat) :
    d.kindsOf id = c.kindsOf id ++
      (news e.action notes c.handingNext id).logged.map EventLabel.name := by
  obtain ⟨log, same⟩ := Option.isSome_iff_exists.mp logging
  rw [Cluster.kindsOf, k.eventLog, Cluster.kindsOf, same, Option.map_some, Option.getD_some,
    Option.getD_some, Array.toList_push, List.filter_append, List.map_append, List.filter_singleton]
  congr 1
  by_cases own : e.action.request?.map (·.id) = some id
  · simp [news, LoggedEvent.ofEvent, own]
  · simp [news, LoggedEvent.ofEvent, own]

theorem closes (k : Reported settings c e notes d) (chronicle : Chronicle split c) :
    Closes c d := by
  intro id ended
  have away : ∀ s ∈ c.stands, s.id ≠ id := by
    rintro s hs rfl
    obtain ⟨_, _, trail⟩ := chronicle.trails s hs
    cases trail.open.symm.trans ended
  rw [k.kindsOf chronicle.logging, k.headingsOf chronicle.keeps, k.passage.silent id away]
  exact ⟨List.append_nil _, List.append_nil _⟩

end Reported

namespace Chronicle

/-- One event tells every story further as it takes the request further. -/
theorem reported (k : Chronicle settings.disaggregated.enabled c) (paired : settings.Paired)
    (r : Reported settings c e notes d) : Chronicle settings.disaggregated.enabled d := by
  obtain ⟨records, keeps⟩ := r.records k.keeps
  obtain ⟨clocks, past⟩ :=
    clocks_append k.clocks (fun n hn => Nat.le_trans (k.past n hn) r.later) r.clock
  rw [← records] at clocks past
  refine ⟨?_, keeps, fun t ht => ?_, fun id away => ?_, clocks, past⟩
  · rw [r.eventLog, Option.isSome_map]
    exact k.logging
  · obtain ⟨s, hs, same, moved⟩ := r.passage.moved t ht
    obtain ⟨labels, kinds, trail⟩ := k.trails s hs
    rw [← same, r.kindsOf k.logging, r.headingsOf k.keeps, kinds, ← List.map_append]
    exact ⟨_, rfl, trail.moved moved⟩
  · rw [r.kindsOf k.logging, r.headingsOf k.keeps]
    rcases Stand.known_or_absent c.stands id with ⟨s, hs, rfl⟩ | absent
    · obtain ⟨labels, kinds, trail⟩ := k.trails s hs
      rw [kinds, ← List.map_append]
      exact ⟨_, rfl, trail.departed paired (r.passage.departed s hs away)⟩
    · obtain ⟨labels, kinds, gone⟩ := k.gone id absent
      rw [r.passage.silent id absent, List.map_nil, List.append_nil, List.append_nil]
      exact ⟨labels, kinds, gone⟩

theorem told (k : Chronicle split c) : Told split c := by
  have known : ∀ id, (∃ labels, c.kindsOf id = labels.map EventLabel.name ∧
      ∃ delays, labels <+: pipeline split delays) ∧
      ∃ story ∈ Heading.stories, c.headingsOf id <+: story := by
    intro id
    rcases Stand.known_or_absent c.stands id with ⟨s, hs, rfl⟩ | absent
    · obtain ⟨labels, kinds, trail⟩ := k.trails s hs
      exact ⟨⟨labels, kinds, trail.labels_prefix⟩, trail.story⟩
    · obtain ⟨labels, kinds, gone⟩ := k.gone id absent
      exact ⟨⟨labels, kinds, gone.labels_prefix⟩, gone.story⟩
  refine ⟨k.logging, fun id => ?_, fun id => (known id).2, fun id => ?_, k.clocks⟩
  · obtain ⟨⟨labels, kinds, delays, of⟩, _⟩ := known id
    exact ⟨delays, kinds ▸ of.map _⟩
  · obtain ⟨_, story, told, of⟩ := known id
    exact countP_isLast told of

/-- A run tells every story further, but for those that are over. -/
theorem run (k : Chronicle config.cluster.disaggregated.enabled c) (valid : config.cluster.Valid)
    (paired : config.cluster.Paired) (distinct : (rs.map (·.id)).Nodup)
    (coherent : Coherent config rs [] c l)
    (logged : Logged config rs c l) (limit : Nat) :
    Chronicle config.cluster.disaggregated.enabled (c.runEvents limit).2 ∧
      Closes c (c.runEvents limit).2 := by
  refine run_keeps (fun _ d => Chronicle config.cluster.disaggregated.enabled d ∧ Closes c d)
    valid distinct (fun coherent logged ran _ before => ?_) coherent logged [] ⟨k, .refl c⟩ limit
  obtain ⟨_, reported⟩ := ran.reported valid distinct coherent logged
  exact ⟨before.1.reported paired reported, before.2.trans (reported.closes before.1)⟩

theorem closes_later (k : Chronicle config.cluster.disaggregated.enabled c)
    (valid : config.cluster.Valid) (paired : config.cluster.Paired)
    (distinct : (rs.map (·.id)).Nodup) (coherent : Coherent config rs [] c l)
    (logged : Logged config rs c l) {limit later : Nat}
    (le : limit ≤ later) : Closes (c.runEvents limit).2 (c.runEvents later).2 := by
  obtain ⟨more, rfl⟩ := Nat.exists_eq_add_of_le le
  obtain ⟨d, m, ran, coherent', logged'⟩ := runEvents_ok valid distinct coherent logged limit
  have now := (k.run valid paired distinct coherent logged limit).1
  rw [runEvents_add ran]
  rw [ran] at now ⊢
  exact (now.run valid paired distinct coherent' logged' more).2

/-- The anomalies recorded at the end of a run tell no story further. -/
theorem recordAnomalies (k : Chronicle split c) (s : RunSummary) :
    Chronicle split (c.recordAnomalies s) ∧ Closes c (c.recordAnomalies s) := by
  obtain ⟨notes, same, bare⟩ := recordAnomalies_inv c s
  obtain ⟨records, keeps⟩ := records_foldl notes k.keeps
  obtain ⟨clocks, past⟩ := clocks_append k.clocks k.past fun n hn => (bare n hn).2
  rw [← records] at clocks past
  rw [same]
  have still : ∀ id, headings id (notes.foldl DecisionTrace.record c.trace).records.toList =
      c.headingsOf id := fun id => by
    have none : headings id notes = [] :=
      List.filterMap_eq_nil_iff.mpr fun n hn => by rw [(bare n hn).1]; rfl
    rw [records, headings, List.filterMap_append]
    exact (congrArg _ none).trans (List.append_nil _)
  refine ⟨⟨k.logging, keeps, fun t ht => ?_, fun id away => ?_, clocks, past⟩,
    fun id _ => ⟨rfl, still id⟩⟩
  · rw [headingsOf, still]
    exact k.trails t ht
  · rw [headingsOf, still]
    exact k.gone id away

theorem of_launch {launched : Cluster} {topK : Nat} (made : new config { topK } = .ok c)
    (injected : c.withEventLog.injectAll rs = .ok d) (started : d.start = .ok launched)
    (arriving : ∀ s ∈ launched.stands, ∃ r ∈ rs, s = ⟨r.stem, .arriving⟩) :
    Chronicle split launched := by
  obtain ⟨_, _, rfl⟩ := new_inv made
  obtain ⟨_, _, rfl⟩ := injectAll_inv injected
  obtain ⟨_, rfl⟩ := start_inv started
  refine ⟨rfl, rfl, fun s hs => ?_, fun id _ => ⟨[], rfl, .unknown⟩, .nil, List.forall_mem_nil _⟩
  obtain ⟨r, _, rfl⟩ := arriving s hs
  exact ⟨[], rfl, .arriving r.stem⟩

end Chronicle

/-- However far a run has come, the logged events of each request are the first ones of its
pipeline, and the recorded decisions about it are the first ones of a story. No story has two
ends, none goes on after its end, and decisions are recorded in the order of their times. If
requests are decoded apart, some instance must be left to do so. -/
theorem stories_told (valid : config.validate = .ok ()) (paired : config.cluster.Paired) (topK : Nat)
    (fresh : ∀ r ∈ rs, r.Fresh) (distinct : (rs.map (·.id)).Nodup) :
    ∃ c d e, new config { topK } = .ok c ∧ c.withEventLog.injectAll rs = .ok d ∧
      d.start = .ok e ∧
      (∀ limit, ∃ f, e.runEvents limit = (.ok (), f) ∧
        Told config.cluster.disaggregated.enabled f ∧
        ∀ later, limit ≤ later → Closes f (e.runEvents later).2) ∧
      ∃ s f, d.run = (.ok s, f) ∧ Told config.cluster.disaggregated.enabled f ∧
        ∀ limit ≤ eventLimit, Closes (e.runEvents limit).2 f := by
  have promised := promised_of_validate valid
  obtain ⟨c, made, empty⟩ := new_ok valid { topK }
  obtain ⟨d, injected, loaded⟩ := injectAll_ok empty.withEventLog fresh
  obtain ⟨e, started, coherent, logged⟩ := start_ok loaded
  have awaits : Awaits config rs e :=
    ((awaits_of_new made).withEventLog.injectAll injected).start started
  have begins : Chronicle config.cluster.disaggregated.enabled e :=
    .of_launch made injected started awaits.arriving
  refine ⟨c, d, e, made, injected, started, fun limit => ?_, ?_⟩
  · obtain ⟨f, _, ran, _, _⟩ := runEvents_ok promised.valid distinct coherent logged limit
    have now := (begins.run promised.valid paired distinct coherent logged limit).1
    refine ⟨f, ran, ?_, fun later le => ?_⟩
    · rw [ran] at now
      exact now.told
    · have closes := begins.closes_later promised.valid paired distinct coherent logged le
      rwa [ran] at closes
  · obtain ⟨f, _, ran, _, _⟩ := runEvents_ok promised.valid distinct coherent logged eventLimit
    have now := (begins.run promised.valid paired distinct coherent logged eventLimit).1
    rw [ran] at now
    obtain ⟨ended, closes⟩ := now.recordAnomalies f.summary
    refine ⟨f.summary, _, ?_, ended.told, fun limit le => ?_⟩
    · rw [run, started]
      dsimp only
      rw [ran]
    · have earlier := begins.closes_later promised.valid paired distinct coherent logged le
      rw [ran] at earlier
      exact earlier.trans closes

theorem default_stories_told : ∃ c d e, new {} { topK := 2 } = .ok c ∧
    c.withEventLog.injectAll [{ id := 9, arrivalTime := 4, inputTokens := 33, outputTokens := 2 },
      { id := 3, arrivalTime := 1, inputTokens := 7, outputTokens := 6 }] = .ok d ∧
    d.start = .ok e ∧
    (∀ limit, ∃ f, e.runEvents limit = (.ok (), f) ∧ Told false f ∧
      ∀ later, limit ≤ later → Closes f (e.runEvents later).2) ∧
    ∃ s f, d.run = (.ok s, f) ∧ Told false f ∧
      ∀ limit ≤ eventLimit, Closes (e.runEvents limit).2 f :=
  stories_told rfl (fun apart => by cases apart) 2
      (List.forall_mem_cons.mpr ⟨rfl, List.forall_mem_singleton.mpr rfl⟩) (by decide)

end Cluster
end InferenceSim
