import InferenceSim.Proofs.Batch.Rounds
import InferenceSim.Proofs.Instance.Turns

/-! Instances that compute prompts only. Whoever comes there with another instance to be decoded
on leaves once the prompt is computed, so no token is decoded there. -/
namespace InferenceSim

/-- A request whose prompt is still to be computed, and which another instance decodes. -/
structure Request.Prefills (r : Request) : Prop where
  target : r.decodeTarget.isSome
  prompt : r.progress < r.inputTokens

namespace Request.Prefills
variable {r s : Request}

theorem inPrefill (k : r.Prefills) : r.inPrefill = true := decide_eq_true k.prompt

theorem preempted (k : r.Prefills) : (InferenceSim.preempted r).Prefills :=
  ⟨k.target, Nat.lt_of_le_of_lt (Nat.zero_le _) k.prompt⟩

theorem rescored (k : r.Prefills) (priority : Priority) : Prefills { r with priority } :=
  ⟨k.target, k.prompt⟩

theorem entered {m : PrefixMatch} {now : Nat} (k : r.Prefills) (done : enterBatch r m now = .ok s) :
    s.Prefills := by
  obtain ⟨_, _, rfl⟩ := enterBatch_inv done
  exact ⟨k.target, k.prompt⟩

end Request.Prefills

section
variable {limits : BatchLimits} {rule : SchedulerRule} {budget running now : Nat}
  {todo queue : List Request} {kv : KvCache} {k : Continued} {a : Admitted} {s t : BatchState}
  {o : BatchOutcome}

theorem Continues.prefills (c : Continues limits budget todo queue kv k)
    (all : ∀ r ∈ todo, r.Prefills) : ∀ w ∈ k.scheduled, w.isPrefill = true := by
  induction c with
  | idle => exact List.forall_mem_nil _
  | pass left waits more ih => exact ih fun s hs => all s (List.mem_cons_of_mem _ hs)
  | work left going allocated more ih =>
      refine List.forall_mem_cons.mpr ⟨?_, ih fun s hs => all s (List.mem_cons_of_mem _ hs)⟩
      exact (all _ List.mem_cons_self).inPrefill
  | preempt left going failed split gone more ih =>
      exact ih fun s hs => all s (split ▸ List.mem_append_left _ hs)

/-- What a request finds cached falls short of its prompt. -/
theorem Enters.prefills (c : Enters limits now queue running budget kv a)
    (all : ∀ r ∈ queue, r.Prefills) : ∀ w ∈ a.scheduled, w.isPrefill = true := by
  induction c with
  | stop => exact List.forall_mem_nil _
  | full failed => exact List.forall_mem_nil _
  | @enter head r rest running budget start tokens kv d a k room begins going allocated entered
      more ih =>
      refine List.forall_mem_cons.mpr ⟨decide_eq_true ?_,
        ih fun s hs => all s (List.mem_cons_of_mem _ hs)⟩
      have prompt := (all head List.mem_cons_self).prompt
      have cached : (kv.lookup head).cachedTokens kv.blockSize ≤ head.inputTokens - 1 :=
        lookup_cached kv head
      omega

theorem Forms.prefills (c : Forms limits rule now s o t) (all : ∀ r ∈ s.running ++ s.queue, r.Prefills) :
    (∀ r ∈ t.running ++ t.queue, r.Prefills) ∧ ∀ w ∈ o.scheduled, w.isPrefill = true := by
  have runs : ∀ r ∈ s.running, r.Prefills := fun r hr => all r (List.mem_append_left _ hr)
  have waits : ∀ r ∈ s.queue, r.Prefills := fun r hr => all r (List.mem_append_right _ hr)
  refine ⟨fun r hr => ?_, ?_⟩
  · rcases List.mem_append.mp hr with inBatch | inQueue
    · rcases c.running_cases r inBatch with before | ⟨q, hq, m, entered⟩
      · exact runs r before
      · exact (waits q hq).entered entered
    · rcases c.queue_cases r inQueue with before | ⟨q, hq, rfl⟩
      · exact waits r before
      · exact (runs q hq).preempted
  · cases c with
    | calm continued none entered =>
        refine List.forall_mem_append.mpr ⟨continued.prefills runs, entered.prefills fun r hr => ?_⟩
        rw [continued.calm none] at hr
        exact waits r (mem_sort.mp hr)
    | tight continued some => exact continued.prefills runs

theorem shape_decode_eq_zero (all : ∀ w ∈ o.scheduled, w.isPrefill = true) :
    o.shape.tokens false = 0 := by
  rw [o.shape_tokens, tokensIn, List.filter_eq_nil_iff.mpr fun w hw => by rw [all w hw]; decide]
  rfl

/-- A request that goes on running works on its prompt, or is not decoded elsewhere. -/
theorem Settles.stays {s : Instance.Settled} (c : Settles now todo kv s) :
    ∀ r ∈ s.running, r.inPrefill = true ∨ r.decodeTarget = none := by
  induction c with
  | nil => exact List.forall_mem_nil _
  | done reached gone more ih => exact ih
  | leave unfinished past target gone more ih => exact ih
  | stay unfinished stays more ih => exact List.forall_mem_cons.mpr ⟨stays, ih⟩

end

namespace Instance

/-- An instance all of whose requests have their prompts computed here and are decoded on another
one, and that has decoded nothing. -/
structure Prefilling (i : Instance) : Prop where
  requests : ∀ r ∈ i.requests, r.Prefills
  reach : WorksFor i.running i.works
  works : ∀ w ∈ i.works, w.isPrefill = true
  decoded : i.stats.decodeTokens = 0

namespace Prefilling
variable {spec : InstanceSpec} {i j : Instance} {r : Request} {now : Nat} {q d : EventQueue}

theorem new (id : Nat) (role : Role) (rule : SchedulerRule) :
    (Instance.new id role spec rule).Prefilling :=
  ⟨List.forall_mem_nil _, List.forall_mem_nil _, List.forall_mem_nil _, rfl⟩

theorem rescore (k : i.Prefilling) (rule : PriorityRule) :
    (i.reprioritize rule now).Prefilling where
  requests s hs := by
    rcases List.mem_append.mp hs with runs | waits
    · obtain ⟨r, hr, rfl⟩ := List.mem_map.mp runs
      exact (k.requests r (List.mem_append_left _ hr)).rescored _
    · obtain ⟨r, hr, rfl⟩ := List.mem_map.mp waits
      exact (k.requests r (List.mem_append_right _ hr)).rescored _
  reach := k.reach.map fun r => ⟨rfl, rfl, rfl⟩
  works := k.works
  decoded := k.decoded

theorem enqueue {out : Enqueued} (k : i.Prefilling) (after : j.Coherent spec)
    (target : r.decodeTarget.isSome) (start : r.progress = 0)
    (done : i.enqueue r now q = (.ok out, j, d)) : j.Prefilling := by
  rcases enqueue_cases done with rfl | ⟨s, ⟨state, host, same⟩, rfl⟩
  · exact ⟨k.requests, k.reach, k.works, k.decoded⟩
  · refine ⟨fun p hp => ?_, k.reach, k.works, k.decoded⟩
    rcases List.mem_append.mp hp with runs | waits
    · exact k.requests p (List.mem_append_left _ runs)
    · have serves := (after.fitting.waits p waits).2.serves
      rcases List.mem_append.mp waits with before | last
      · exact k.requests p (List.mem_append_right _ before)
      · obtain rfl := List.mem_singleton.mp last
        have prompt := InstanceSpec.prompt_of_serves serves
        rw [same] at prompt ⊢
        exact ⟨target, start ▸ prompt⟩

theorem step {latency : LatencyModel} (k : i.Prefilling) (ready : i.inFlight = none)
    (done : i.step now latency q = .ok (j, d)) : j.Prefilling := by
  obtain ⟨o, t, formed, stepped⟩ := step_cases done
  have forms := forms_of_ok formed
  obtain ⟨requests, works⟩ := forms.prefills k.requests
  cases stepped with
  | rest empty ticks rings tokens =>
      have idle : ∀ w, w ∉ i.works := by
        rw [works_of_ready ready]
        exact fun w => List.not_mem_nil
      exact ⟨requests, fun w hw => absurd hw (idle w), fun w hw => absurd hw (idle w),
        (tokens false).trans k.decoded⟩
  | begin _ ticks joins tokens =>
      refine ⟨requests, forms.works, works, (tokens false).trans ?_⟩
      rw [shape_decode_eq_zero works]
      exact k.decoded

/-- The work in flight brings no request beyond its prompt. -/
theorem within {o : BatchOutcome} (k : i.Prefilling) (coherent : i.Coherent spec)
    (flight : i.inFlight = some o) (hr : r ∈ i.running) :
    (advanced now o.scheduled r).progress ≤ r.inputTokens := by
  have works := works_of_flight flight
  have nodup := coherent.fitting.nodup_running
  have prompt := (k.requests r (List.mem_append_left _ hr)).prompt
  refine (advanced_progress now (fun w hw own => ?_) ⟨Nat.le_refl _, Nat.le_of_lt prompt⟩).2.1
  obtain ⟨s, hs, named, further, _⟩ := (coherent.flight o flight).1 w hw
  obtain ⟨p, hp, named', reaches⟩ := k.reach w (works ▸ hw)
  rw [Request.eq_of_id nodup hs hr (named.symm.trans own)] at further
  rw [Request.eq_of_id nodup hp hr (named'.symm.trans own)] at reaches
  refine ⟨further, ?_⟩
  rcases reaches with inPrompt | next <;> omega

/-- Only requests are done here that the end of their prompt completes, or whose end could not be
counted. -/
theorem complete {o : BatchOutcome} {report : StepReport} (k : i.Prefilling)
    (coherent : i.Coherent spec) (flight : i.inFlight = some o)
    (done : i.complete now q = (.ok report, j, d)) :
    j.Prefilling ∧ ∀ r ∈ report.completed, r.span < 4294967296 → r.outputTokens ≤ 1 := by
  have decoded : j.stats.decodeTokens = 0 := by
    obtain ⟨_, _, _, _, same⟩ := complete_stats done
    rw [same]
    exact k.decoded
  obtain ⟨s, stats, busy, settled, rfl, rfl, _⟩ := complete_cases coherent flight done
  have settles := settles_of_ok settled
  have fates := settles.fates
  refine ⟨⟨fun r hr => ?_, List.forall_mem_nil _, List.forall_mem_nil _, decoded⟩, fun r hr ends => ?_⟩
  · rcases List.mem_append.mp hr with runs | waits
    · have stays := settles.stays r runs
      obtain ⟨p, hp, rfl⟩ := List.mem_map.mp (fates.stays r runs).1
      have target := (k.requests p (List.mem_append_left _ hp)).target
      rw [← Request.decodeTarget_of_stem (advanced_stem now o.scheduled p)] at target
      refine ⟨target, of_decide_eq_true (stays.resolve_right fun none => ?_)⟩
      rw [none] at target
      cases target
    · exact k.requests r (List.mem_append_right _ waits)
  · obtain ⟨p', inside, reached, rfl⟩ := fates.completed r hr
    obtain ⟨p, hp, rfl⟩ := List.mem_map.mp inside
    have upto : (advanced now o.scheduled p).progress ≤ p.inputTokens := k.within coherent flight hp
    have stem := advanced_stem now o.scheduled p
    have reached := of_decide_eq_true reached
    have ends : (advanced now o.scheduled p).span < 4294967296 := ends
    rw [Request.completionProgress_eq ends, Request.span_of_stem stem, Request.span] at reached
    show (advanced now o.scheduled p).outputTokens ≤ 1
    rw [Request.outputTokens_of_stem stem]
    omega

end Prefilling
end Instance
end InferenceSim
