import InferenceSim.Proofs.Cluster.Stories

/-! Where requests are sent. Under a valid configuration the router always has an answer, and
the instances that it names are there and take the phases it names them for. So no request is
turned away for its route, and nothing that a run records speaks of a wrong one. -/
namespace InferenceSim

/-- A target that is served: an instance for all of a request, or one for each phase. -/
inductive Target.Fits (roles : List Role) : Target → Prop
  | whole {host : Nat} (unified : roles[host]? = some .unified) : Fits roles (.single host)
  | phases {prefill decode : Nat} (prefills : roles[prefill]? = some .prefill)
      (decodes : roles[decode]? = some .decode) (apart : prefill ≠ decode) :
      Fits roles (.split prefill decode)

namespace ClusterSettings
variable {c : ClusterSettings} {host : Nat} {decode : Option Nat}

theorem Assigns.fits (k : c.Assigns host decode) : (Target.towards host decode).Fits c.roles := by
  cases decode with
  | none => exact .whole k.2
  | some decode =>
      obtain ⟨_, prefills, decodes⟩ := k
      refine .phases prefills decodes ?_
      rintro rfl
      cases prefills.symm.trans decodes

end ClusterSettings

theorem Target.Fits.served {roles : List Role} {t : Target} (k : t.Fits roles) : t ≠ .reject := by
  cases k <;> exact fun same => by cases same

/-- Whether a decision says that a request could not be routed. -/
def DecisionRecord.blamesRoute : DecisionRecord → Bool
  | .rejection _ _ stage _ => stage = .routing
  | .anomaly _ kind _ => kind = "invalid-routing"
  | .admission _ _ _ _ | .routing _ _ _ _ _ _ _ _ | .completion _ _ _ _ _ => false

theorem blamesRoute_anomaly {clock : Nat} {kind detail : String} (other : kind ≠ "invalid-routing") :
    (DecisionRecord.anomaly clock kind detail).blamesRoute = false := decide_eq_false other

theorem kind_of_inversions {cs : List Completion} {a : Anomaly} (found : a ∈ priorityInversions cs) :
    a.kind = "priority-inversion" := by
  obtain ⟨sloClass, _, found⟩ := List.mem_flatMap.mp found
  obtain ⟨⟨earlier, later⟩, _, found⟩ := List.mem_filterMap.mp found
  dsimp only [inversionOf?] at found
  split at found
  · rw [← Option.some.inj found]
    rfl
  · cases found

theorem kind_of_blocking {is : List Instance} {a : Anomaly} (found : a ∈ headOfLineBlocking is) :
    a.kind = "head-of-line-blocking" := by
  unfold headOfLineBlocking at found
  dsimp only at found
  split at found
  · cases found
  · split at found
    · cases found
    · obtain ⟨i, _, rfl⟩ := List.mem_map.mp found
      rfl

namespace Cluster

/-- The answer of the router when the turn of a request has come. -/
def routeOf (c : Cluster) (r : Request) : Route :=
  let r := { r with priority := c.config.policies.priority.score r.view c.now }
  (c.routing.route r.view c.observe.1).1

/-- No route was found wrong, and no decision speaks of one. -/
structure Blameless (c : Cluster) : Prop where
  misrouted : c.log.misrouted = []
  recorded : ∀ n ∈ c.trace.records.toList, n.blamesRoute = false

variable {config : Config} {rs : List Request} {b c d : Cluster} {l : Ledger} {a : Action}
  {e : Event}

theorem misrouted_of_reject {stage : RejectionStage} {reason : String}
    (done : c.reject r stage reason = .ok d) : d.log.misrouted = c.log.misrouted := by
  unfold reject at done
  split at done
  · rw [← Except.ok.inj done]
    cases stage <;> rfl
  · cases done

theorem misrouted_of_schedule {time : Nat} (done : c.schedule time a = .ok d) :
    d.log.misrouted = c.log.misrouted := by
  obtain ⟨_, _, rfl, _⟩ := schedule_inv done
  rfl

theorem misrouted_of_finishAll (host : Nat) (rs : List Request) (c : Cluster) :
    (rs.foldl (finishRequest host) c).log.misrouted = c.log.misrouted := by
  induction rs generalizing c with
  | nil => rfl
  | cons r rest ih =>
      refine (ih _).trans ?_
      show (c.log.complete r).misrouted = c.log.misrouted
      unfold RunLog.complete
      split <;> rfl

theorem misrouted_of_dispatch (done : c.dispatch a = .ok d)
    (sound : ∀ r, a = .routing r → (c.routeOf r).target.misroute? (c.instances.map (·.role)) = none) :
    d.log.misrouted = c.log.misrouted := by
  have enqueued : ∀ {host : Nat} {r : Request}, c.handleEnqueue host r = .ok d →
      d.log.misrouted = c.log.misrouted := by
    intro host r done
    obtain ⟨m, _, done⟩ := ok_of_bind done
    obtain ⟨outcome, _, done⟩ := ok_of_bind done
    cases outcome with
    | queued => rw [← Except.ok.inj done]; rfl
    | rejected => exact (misrouted_of_reject done).trans rfl
  cases a with
  | clusterArrival r => exact misrouted_of_schedule done
  | admission r =>
      unfold dispatch handleAdmission at done
      dsimp only at done
      split at done
      · exact (misrouted_of_schedule done).trans rfl
      · exact (misrouted_of_reject done).trans rfl
      · exact (misrouted_of_schedule done).trans rfl
  | routing r =>
      have right := sound r rfl
      unfold dispatch handleRouting at done
      dsimp only at done
      split at done
      · next wrong => cases right.symm.trans wrong
      · split at done
        · exact (misrouted_of_reject done).trans rfl
        · exact (misrouted_of_schedule done).trans rfl
        · exact (misrouted_of_schedule done).trans rfl
  | instanceArrival host r => exact enqueued done
  | kvTransferComplete host r => exact enqueued done
  | stepComplete host =>
      obtain ⟨m, _, done⟩ := ok_of_bind done
      obtain ⟨report, _, done⟩ := ok_of_bind done
      obtain ⟨_, _, done⟩ := ok_of_bind done
      obtain ⟨_, _, rfl, _⟩ := handOffAll_inv done
      exact misrouted_of_finishAll host report.completed _
  | step host =>
      obtain ⟨m, _, done⟩ := ok_of_bind done
      obtain ⟨⟨j, q⟩, _, done⟩ := ok_of_bind done
      rw [← Except.ok.inj done]
      rfl
  | snapshotRefresh =>
      unfold dispatch handleRefresh at done
      dsimp only at done
      split at done
      · split at done
        · rw [← Except.ok.inj done]
        · exact (misrouted_of_schedule done).trans rfl
      · rw [← Except.ok.inj done]

theorem mem_foldl_record {n : DecisionRecord} (notes : List DecisionRecord) {t : DecisionTrace}
    (found : n ∈ (notes.foldl DecisionTrace.record t).records.toList) :
    n ∈ t.records.toList ∨ n ∈ notes := by
  induction notes generalizing t with
  | nil => exact .inl found
  | cons first rest ih =>
      rcases ih found with before | later
      · unfold DecisionTrace.record at before
        split at before
        · rw [Array.toList_push] at before
          rcases List.mem_append.mp before with old | new
          · exact .inl old
          · exact .inr (List.mem_singleton.mp new ▸ List.mem_cons_self)
        · exact .inl before
      · exact .inr (List.mem_cons_of_mem first later)

theorem Coherent.route_fits (valid : config.cluster.Valid) (paired : config.cluster.Paired)
    (k : Coherent config rs [a] b l) (r : Request) :
    (b.routeOf r).target.Fits (b.instances.map (·.role)) ∧
      (b.routeOf r).target.misroute? (b.instances.map (·.role)) = none := by
  obtain ⟨sound, named⟩ := k.assigned valid
    { r with priority := b.config.policies.priority.score r.view b.now }.view
  obtain ⟨host, decode, assigned, target⟩ := named.resolve_right fun none => none.1 paired
  refine ⟨?_, sound⟩
  rw [k.roles_eq, routeOf, target]
  exact assigned.fits

theorem blameless_of_deed {sent : List Action} {notes : List DecisionRecord} {ms : List Member}
    (valid : config.cluster.Valid) (paired : config.cluster.Paired) (k : Coherent config rs [a] b l)
    (deed : Deed b a sent notes ms) : ∀ n ∈ notes, n.blamesRoute = false := by
  cases deed with
  | grant | send | turnAway => exact List.forall_mem_singleton.mpr rfl
  | refuse => exact List.forall_mem_cons.mpr ⟨rfl, List.forall_mem_singleton.mpr rfl⟩
  | complete => exact List.forall_mem_map.mpr fun _ _ => rfl
  | @forgo r view route chosen target =>
      obtain ⟨_, named⟩ := k.assigned valid view
      obtain ⟨host, decode, _, towards⟩ := named.resolve_right fun none => none.1 paired
      rw [chosen, target] at towards
      cases decode <;> cases towards
  | @misroute r view route m chosen wrong =>
      obtain ⟨sound, _⟩ := k.assigned valid view
      rw [chosen, wrong] at sound
      cases sound
  | _ => exact List.forall_mem_nil _

/-- One event finds no route wrong. -/
theorem Blameless.ran (valid : config.cluster.Valid) (paired : config.cluster.Paired)
    (k : Coherent config rs [] c l) (g : Logged config rs c l) (ran : Ran c e b d)
    (before : Blameless c) : Blameless d := by
  obtain ⟨k', _⟩ := ran.begins k g
  obtain ⟨q, _, begun⟩ := ran.popped
  obtain ⟨sent, notes, deed, leaves⟩ := ran.does
  obtain ⟨d', done, rfl⟩ := ran.dispatched
  have same := begin_inv begun
  refine ⟨?_, fun n hn => ?_⟩
  · refine (misrouted_of_dispatch done fun r _ => (k'.assigned valid _).1).trans ?_
    rw [same]
    exact before.misrouted
  · rw [leaves.trace, same] at hn
    rcases mem_foldl_record notes hn with old | new
    · exact before.recorded n old
    · exact blameless_of_deed valid paired k' deed n new

/-- The anomalies that a run is found to have at its end are no wrong routes either. -/
theorem Blameless.recordAnomalies (k : Blameless c) (s : RunSummary) :
    Blameless (c.recordAnomalies s) := by
  unfold Cluster.recordAnomalies
  generalize s.anomalies = found
  induction found generalizing c with
  | nil => exact k
  | cons a rest ih =>
      have noted : ∀ n : DecisionRecord, n.blamesRoute = false → Blameless (c.record n) :=
        fun n other => ⟨k.misrouted, fun m hm => by
          rcases mem_foldl_record [n] hm with old | new
          · exact k.recorded m old
          · exact List.mem_singleton.mp new ▸ other⟩
      rw [List.foldl_cons]
      cases a with
      | invalidRouting => exact ih k
      | priorityInversion =>
          refine ih (noted _ (blamesRoute_anomaly ?_))
          exact show "priority-inversion" ≠ "invalid-routing" by decide
      | headOfLineBlocking =>
          refine ih (noted _ (blamesRoute_anomaly ?_))
          exact show "head-of-line-blocking" ≠ "invalid-routing" by decide

theorem Blameless.summary (k : Blameless c) : ∀ a ∈ c.summary.anomalies, a.kind ≠ "invalid-routing" := by
  intro a ha
  simp only [Cluster.summary, RunLog.summarize, k.misrouted, List.append_nil] at ha
  rcases List.mem_append.mp ha with inversion | blocking
  · have inversion : a ∈ priorityInversions c.log.completions := by
      split at inversion
      · cases inversion
      · exact inversion
    rw [kind_of_inversions inversion]
    decide
  · rw [kind_of_blocking blocking]
    decide

/-- However far a run has come, the router has an answer for the request whose turn it is, and
the instances that it names fit, if some instance is left to decode what others prefill. So at no
time has a request been refused for its route, and neither the summary of a run nor its decisions
speak of a wrong one. -/
theorem routes_fit (valid : config.validate = .ok ()) (paired : config.cluster.Paired)
    (trace : DecisionTrace) (blank : trace.records = #[]) (fresh : ∀ r ∈ rs, r.Fresh)
    (distinct : (rs.map (·.id)).Nodup) :
    ∃ c d e, new config trace = .ok c ∧ c.injectAll rs = .ok d ∧ d.start = .ok e ∧
      (∀ limit, ∃ f, e.runEvents limit = (.ok (), f) ∧ f.log.rejectedAtRouting = 0 ∧ Blameless f ∧
        ∀ x q b r, f.events.pop? = some (x, q) → f.begin x q = .ok b → x.action = .routing r →
          (b.routeOf r).target ≠ .reject ∧
          (b.routeOf r).target.misroute? (b.instances.map (·.role)) = none ∧
          (b.routeOf r).target.Fits (b.instances.map (·.role))) ∧
      ∃ s f, d.run = (.ok s, f) ∧ s.rejectedAtRouting = 0 ∧
        (∀ a ∈ s.anomalies, a.kind ≠ "invalid-routing") ∧ Blameless f := by
  have promised := promised_of_validate valid
  obtain ⟨c, d, e, made, injected, started, _, coherent, logged⟩ := launch_ok valid trace fresh
  have begins : Blameless e := by
    obtain ⟨_, _, rfl⟩ := new_inv made
    obtain ⟨_, _, rfl⟩ := injectAll_inv injected
    obtain ⟨_, rfl⟩ := start_inv started
    refine ⟨rfl, fun n hn => ?_⟩
    rw [show _ = #[] from blank] at hn
    cases hn
  have blameless : ∀ limit, Blameless (e.runEvents limit).2 := fun limit =>
    run_keeps (fun _ c => Blameless c) promised.valid distinct
      (fun k g ran _ before => before.ran promised.valid paired k g ran) coherent logged [] begins limit
  refine ⟨c, d, e, made, injected, started, fun limit => ?_, ?_⟩
  · obtain ⟨f, l, ran, k, g⟩ := runEvents_ok promised.valid distinct coherent logged limit
    refine ⟨f, ran, g.misrouted.trans (congrArg List.length (k.ledger.misrouted paired)),
      by simpa only [ran] using blameless limit, fun x q b r popped begun turn => ?_⟩
    obtain ⟨b', begun', k', _⟩ := begin_ok k g popped
    obtain rfl := Except.ok.inj (begun.symm.trans begun')
    obtain ⟨fits, sound⟩ := k'.route_fits promised.valid paired r
    exact ⟨fits.served, sound, fits⟩
  · obtain ⟨f, _, ran, k, g⟩ := runEvents_ok promised.valid distinct coherent logged eventLimit
    have right : Blameless f := by simpa only [ran] using blameless eventLimit
    refine ⟨f.summary, _, ?_, g.misrouted.trans (congrArg List.length (k.ledger.misrouted paired)),
      right.summary, right.recordAnomalies f.summary⟩
    rw [run, started]
    dsimp only
    rw [ran]

theorem random_routes_fit : ∃ c d e,
    new { cluster := { instances := 3 }, policies := { routing := .random }
          snapshot := { queueDepth := .onDemand, refreshInterval := some 50 } } { topK := 2 } = .ok c ∧
    c.injectAll [{ id := 6, arrivalTime := 2, inputTokens := 50, outputTokens := 3 },
      { id := 1, arrivalTime := 2, inputTokens := 18, outputTokens := 7 }] = .ok d ∧
    d.start = .ok e ∧
    (∀ limit, ∃ f, e.runEvents limit = (.ok (), f) ∧ f.log.rejectedAtRouting = 0 ∧ Blameless f ∧
      ∀ x q b r, f.events.pop? = some (x, q) → f.begin x q = .ok b → x.action = .routing r →
        (b.routeOf r).target ≠ .reject ∧
        (b.routeOf r).target.misroute? (b.instances.map (·.role)) = none ∧
        (b.routeOf r).target.Fits (b.instances.map (·.role))) ∧
    ∃ s f, d.run = (.ok s, f) ∧ s.rejectedAtRouting = 0 ∧
      (∀ a ∈ s.anomalies, a.kind ≠ "invalid-routing") ∧ Blameless f :=
  routes_fit rfl (by decide) { topK := 2 } rfl
    (List.forall_mem_cons.mpr ⟨rfl, List.forall_mem_singleton.mpr rfl⟩) (by decide)

end Cluster
end InferenceSim
