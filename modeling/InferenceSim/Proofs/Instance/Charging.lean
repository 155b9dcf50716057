import InferenceSim.Proofs.Batch.Lookups
import InferenceSim.Proofs.Instance.Turns

/-! What requests are charged for look-ups of their prompts: one look-up for each time that a
request enters a batch with its prompt ahead. Where all requests come with their prompts ahead,
an instance has counted in its cache what it has charged. -/
namespace InferenceSim

namespace Request
variable {blockSize times : Nat} {r s : Request} {now : Nat}

/-- A request was charged for so many look-ups of its prompt, as far as 32 bits count them. -/
def Charged (blockSize times : Nat) (r : Request) : Prop :=
  Lapped (times * (r.inputTokens / blockSize)) (r.counts .hits + r.counts .misses)

/-- A request that has not run yet. -/
structure Untouched (r : Request) : Prop where
  start : r.progress = 0
  calm : r.preemptions = 0
  free : ∀ x, r.counts x = 0

/-- A request whose prompt was computed, with one more look-up than preemptions. -/
structure Computed (blockSize : Nat) (r : Request) : Prop where
  prompt : r.inputTokens ≤ r.progress
  charged : r.Charged blockSize (r.preemptions + 1)

/-- A request that waits: it will be charged at its entry if its prompt is ahead. -/
inductive Due (blockSize : Nat) (r : Request) : Prop
  | ahead (start : r.progress = 0) (charged : r.Charged blockSize r.preemptions)
  | past (computed : r.Computed blockSize)

theorem Untouched.of_fresh (fresh : r.Fresh) : r.Untouched := by
  refine ⟨congrArg Request.progress fresh, congrArg Request.preemptions fresh, fun x => ?_⟩
  rw [fresh]
  cases x <;> rfl

theorem Untouched.routed {priority : Priority} {decodeTarget : Option Nat} (k : r.Untouched) :
    Untouched { r with priority, decodeTarget } :=
  ⟨k.start, k.calm, fun x => by rw [← k.free x]; cases x <;> rfl⟩

theorem Untouched.due (k : r.Untouched) : r.Due blockSize := by
  refine .ahead k.start ?_
  rw [Charged, k.free, k.free, k.calm, Nat.zero_mul]
  exact .refl 0

theorem Due.rescored (k : r.Due blockSize) (priority : Priority) :
    { r with priority }.Due blockSize := by
  cases k with
  | ahead start charged => exact .ahead start charged
  | past computed => exact .past ⟨computed.prompt, computed.charged⟩

theorem Due.joined (k : r.Due blockSize) (joined : r.Joined now s) : s.Due blockSize := by
  obtain ⟨state, host, rfl⟩ := joined.same
  cases k with
  | ahead start charged => exact .ahead start charged
  | past computed => exact .past ⟨computed.prompt, computed.charged⟩

/-- A preempted request is due again. -/
theorem Charged.preempted (k : r.Charged blockSize (r.preemptions + 1)) :
    (preempted r).Due blockSize := .ahead rfl k

/-- Whoever enters a batch was charged for one look-up more than it was preempted. -/
theorem Due.entered {m : PrefixMatch} (k : r.Due blockSize) (prompt : 0 < r.inputTokens)
    (entered : r.Entered s blockSize now m) : s.Charged blockSize (s.preemptions + 1) := by
  have charge : ∀ x, s.counts x = _ := Request.counts_entered entered.enters
  have whole := entered.whole
  have fits := entered.fits
  obtain ⟨_, _, same⟩ := enterBatch_inv entered.enters
  have preemptions : s.preemptions = r.preemptions := by rw [same]
  have tokens : s.inputTokens = r.inputTokens := by rw [same]
  rw [Charged, charge, charge, preemptions, tokens]
  cases k with
  | ahead start charged =>
      have ahead : r.inPrefill = true := decide_eq_true (start ▸ prompt)
      have both : r.counts .hits + r.counts .misses + r.inputTokens / blockSize =
          (r.counts .hits + m.counts .hits) + (r.counts .misses + m.counts .misses) := by
        simp only [← whole, PrefixMatch.counts]
        omega
      rw [if_pos ahead, if_pos ahead, Nat.succ_mul]
      exact (both ▸ charged.add (.refl _)).trans ((Lapped.wrap _).add (.wrap _))
  | past computed =>
      have past : ¬r.inPrefill = true := fun ahead =>
        Nat.not_lt.mpr computed.prompt (of_decide_eq_true ahead)
      rw [if_neg past, if_neg past]
      exact computed.charged

theorem Charged.advanced (k : r.Charged blockSize (r.preemptions + 1)) (now : Nat)
    (works : List ScheduledWork) :
    (advanced now works r).Charged blockSize ((advanced now works r).preemptions + 1) := by
  obtain ⟨progress, timing, emitted, same⟩ := advanced_inv now works r
  rw [same]
  exact k

end Request

section
variable {now : Nat} {todo : List Request} {kv : KvCache} {u : Instance.Settled}

/-- A request that is handed off has its prompt computed. -/
theorem Settles.past (c : Settles now todo kv u) :
    ∀ h ∈ u.report.handoffs, h.request.inputTokens ≤ h.request.progress := by
  induction c with
  | nil => exact List.forall_mem_nil _
  | done reached gone more ih => exact ih
  | leave unfinished past target gone more ih =>
      exact List.forall_mem_cons.mpr ⟨Nat.le_of_not_lt (of_decide_eq_false past), ih⟩
  | stay unfinished stays more ih => exact ih

/-- Only a request that is to be decoded elsewhere is handed off. -/
theorem Settles.kept (c : Settles now todo kv u) (whole : ∀ r ∈ todo, r.decodeTarget = none) :
    u.report.handoffs = [] := by
  induction c with
  | nil => rfl
  | done reached gone more ih => exact ih fun s hs => whole s (List.mem_cons_of_mem _ hs)
  | leave unfinished past target gone more ih =>
      cases target.symm.trans (whole _ List.mem_cons_self)
  | stay unfinished stays more ih => exact ih fun s hs => whole s (List.mem_cons_of_mem _ hs)

end

namespace Instance

/-- The requests of an instance are charged for their entries into its batches. -/
structure Charging (blockSize : Nat) (i : Instance) : Prop where
  runs : ∀ r ∈ i.running, r.Charged blockSize (r.preemptions + 1)
  waits : ∀ r ∈ i.queue, r.Due blockSize

variable {spec : InstanceSpec} {i j : Instance} {r : Request} {now : Nat} {q d : EventQueue}

theorem complete_perm {β : Type} {f : Request → β} {o : BatchOutcome} {report : StepReport}
    (coherent : i.Coherent spec) (flight : i.inFlight = some o)
    (done : i.complete now q = (.ok report, j, d))
    (completed : ∀ r, f (r.completedAt now) = f r) (handed : ∀ r : Request, f r.handed = f r) :
    ((report.completed ++ report.handoffs.map (·.request) ++ j.requests).map f).Perm
      ((i.running.map (advanced now o.scheduled) ++ i.queue).map f) := by
  obtain ⟨s, stats, busy, settled, rfl, rfl, _⟩ := complete_cases coherent flight done
  have kept := ((settles_of_ok settled).perm completed handed).append_right (i.queue.map f)
  rw [← List.map_append, ← List.map_append, List.append_assoc] at kept
  exact kept

theorem handed_past {o : BatchOutcome} {report : StepReport} (coherent : i.Coherent spec)
    (flight : i.inFlight = some o) (done : i.complete now q = (.ok report, j, d)) :
    ∀ h ∈ report.handoffs, h.request.inputTokens ≤ h.request.progress := by
  obtain ⟨_, _, _, settled, rfl, _⟩ := complete_cases coherent flight done
  exact (settles_of_ok settled).past

namespace Charging
variable {blockSize : Nat}

theorem new (id : Nat) (role : Role) (rule : SchedulerRule) :
    (Instance.new id role spec rule).Charging blockSize :=
  ⟨List.forall_mem_nil _, List.forall_mem_nil _⟩

theorem rescore (k : i.Charging blockSize) (rule : PriorityRule) :
    (i.reprioritize rule now).Charging blockSize where
  runs s hs := by
    obtain ⟨r, hr, rfl⟩ := List.mem_map.mp hs
    exact k.runs r hr
  waits s hs := by
    obtain ⟨r, hr, rfl⟩ := List.mem_map.mp hs
    exact (k.waits r hr).rescored _

theorem enqueue {out : Enqueued} (k : i.Charging blockSize) (due : r.Due blockSize)
    (done : i.enqueue r now q = (.ok out, j, d)) : j.Charging blockSize := by
  rcases enqueue_cases done with rfl | ⟨s, joined, rfl⟩
  · exact ⟨k.runs, k.waits⟩
  · refine ⟨k.runs, List.forall_mem_append.mpr ⟨k.waits, ?_⟩⟩
    exact List.forall_mem_singleton.mpr (due.joined joined)

theorem step {latency : LatencyModel} (coherent : i.Coherent spec) (k : i.Charging spec.blockSize)
    (done : i.step now latency q = .ok (j, d)) : j.Charging spec.blockSize := by
  obtain ⟨o, t, formed, stepped⟩ := step_cases done
  have forms := forms_of_ok formed
  have runs : ∀ r ∈ t.running, r.Charged spec.blockSize (r.preemptions + 1) := by
    intro r hr
    rcases forms.looks r hr with before | ⟨s, hs, m, entered⟩
    · exact k.runs r before
    · have serves := (coherent.fitting.waits s hs).2.serves
      exact (k.waits s hs).entered (InstanceSpec.prompt_of_serves serves)
        (coherent.fitting.blockSize ▸ entered)
  have waits : ∀ r ∈ t.queue, r.Due spec.blockSize := by
    intro r hr
    rcases forms.queue_cases r hr with before | ⟨s, hs, rfl⟩
    · exact k.waits r before
    · exact (k.runs s hs).preempted
  cases stepped with
  | rest => exact ⟨runs, waits⟩
  | begin => exact ⟨runs, waits⟩

theorem complete {o : BatchOutcome} {report : StepReport} (coherent : i.Coherent spec)
    (k : i.Charging blockSize) (flight : i.inFlight = some o)
    (done : i.complete now q = (.ok report, j, d)) :
    j.Charging blockSize ∧ (∀ r ∈ report.completed, r.Charged blockSize (r.preemptions + 1)) ∧
      ∀ h ∈ report.handoffs, h.request.Computed blockSize := by
  obtain ⟨s, stats, busy, settled, rfl, rfl, _⟩ := complete_cases coherent flight done
  have fates := (settles_of_ok settled).fates
  have charged : ∀ r ∈ i.running.map (advanced now o.scheduled),
      r.Charged blockSize (r.preemptions + 1) :=
    List.forall_mem_map.mpr fun r hr => (k.runs r hr).advanced now o.scheduled
  refine ⟨⟨fun r hr => charged r (fates.stays r hr).1, k.waits⟩, fun r hr => ?_, fun h hh => ?_⟩
  · obtain ⟨p, inside, _, rfl⟩ := fates.completed r hr
    exact charged p inside
  · have past := (settles_of_ok settled).past h hh
    obtain ⟨p, inside, _, same⟩ := fates.handoffs h hh
    rw [same] at past ⊢
    exact ⟨past, charged p inside⟩

end Charging

/-- An instance has counted in its cache what it has charged to the requests that have joined it,
those that it has and those that are gone, but for laps of theirs. Their prompts were all ahead
when they joined. -/
structure Accounts (joined : List Nat) (gone : List Request) (i : Instance) : Prop where
  ahead : ∀ r ∈ i.queue, r.progress = 0
  joined : ((i.requests ++ gone).map (·.id)).Perm joined
  counts : ∀ x, Lapped (i.kv.counts x) (totalOf ((i.requests ++ gone).map (·.counts x)))

namespace Accounts
variable {joined : List Nat} {gone : List Request}

theorem new (id : Nat) (role : Role) (rule : SchedulerRule) :
    (Instance.new id role spec rule).Accounts [] [] where
  ahead := List.forall_mem_nil _
  joined := .refl _
  counts x := by
    have none : (Instance.new id role spec rule).kv.counts x = 0 := by
      rw [new_kv]
      cases x <;> cases spec.tier <;> rfl
    rw [none]
    exact .refl 0

theorem rescore (k : i.Accounts joined gone) (rule : PriorityRule) :
    (i.reprioritize rule now).Accounts joined gone := by
  have same : ∀ {β : Type} (f : Request → β), (∀ r priority, f { r with priority } = f r) →
      ((i.reprioritize rule now).requests ++ gone).map f = (i.requests ++ gone).map f := by
    intro β f keeps
    simp only [requests, reprioritize, List.map_append, List.map_map]
    congr 2 <;> exact List.map_congr_left fun r _ => keeps r _
  refine ⟨fun s hs => ?_, ?_, fun x => ?_⟩
  · obtain ⟨r, hr, rfl⟩ := List.mem_map.mp hs
    exact k.ahead r hr
  · rw [same _ fun _ _ => rfl]
    exact k.joined
  · rw [same _ fun r priority => by cases x <;> rfl]
    exact k.counts x

/-- A request is turned away. -/
theorem refuse {s : Request} {reason : Unfit} (k : i.Accounts joined gone)
    (done : i.enqueue r now q = (.ok (.rejected s reason), j, d)) : j.Accounts joined gone := by
  obtain ⟨_, rfl⟩ := rejected_inv done
  exact ⟨k.ahead, k.joined, k.counts⟩

/-- A request joins that has not run yet. -/
theorem join (k : i.Accounts joined gone) (new : r.Untouched)
    (done : i.enqueue r now q = (.ok .queued, j, d)) : j.Accounts (joined ++ [r.id]) gone := by
  obtain ⟨s, ⟨state, host, same⟩, rfl⟩ := queued_inv done
  have more : (i.running ++ (i.queue ++ [s]) ++ gone).Perm (s :: (i.requests ++ gone)) := by
    rw [← List.append_assoc, List.append_assoc, List.singleton_append]
    exact List.perm_middle
  refine ⟨List.forall_mem_append.mpr ⟨k.ahead, List.forall_mem_singleton.mpr ?_⟩, ?_, fun x => ?_⟩
  · rw [same]
    exact new.start
  · have own : s.id = r.id := by rw [same]
    refine (more.map (·.id)).trans ?_
    rw [List.map_cons, own]
    exact (k.joined.cons r.id).trans (List.perm_append_singleton _ _).symm
  · have free : s.counts x = 0 := by
      rw [← new.free x, same]
      cases x <;> rfl
    have counts := totalOf_perm (more.map (·.counts x))
    rw [List.map_cons, totalOf_cons, free, Nat.zero_add] at counts
    exact counts ▸ k.counts x

theorem step {latency : LatencyModel} (usable : spec.Usable) (coherent : i.Coherent spec)
    (level : ∀ r ∈ i.running, i.kv.tokens? r.id = some r.progress) (k : i.Accounts joined gone)
    (done : i.step now latency q = .ok (j, d)) : j.Accounts joined gone := by
  have fitting := coherent.clocked now
  obtain ⟨o, t, formed, stepped⟩ := step_cases done
  obtain ⟨o', t', formed', f⟩ := coherent.formed usable now
  obtain ⟨rfl, rfl⟩ := Prod.mk.inj (Except.ok.inj (formed.symm.trans formed'))
  have forms := forms_of_ok formed
  have ahead : ∀ r ∈ t.queue, r.progress = 0 := by
    intro r hr
    rcases forms.queue_cases r hr with before | ⟨s, _, rfl⟩
    · exact k.ahead r before
    · rfl
  have ids : ((t.running ++ t.queue ++ gone).map (·.id)).Perm joined := by
    have same := f.stems.map Request.id
    rw [List.map_map, List.map_map] at same
    rw [List.map_append]
    refine (same.append_right _).trans ?_
    have before := k.joined
    rwa [List.map_append] at before
  have counts : ∀ x,
      Lapped (t.kv.counts x) (totalOf ((t.running ++ t.queue ++ gone).map (·.counts x))) := by
    intro x
    obtain ⟨laps, entered⟩ := forms.counts fitting.sound fitting.nodup level fitting.unheld_queue
      (fun r hr => decide_eq_true ((k.ahead r hr).symm ▸
        InstanceSpec.prompt_of_serves (coherent.fitting.waits r hr).2.serves)) x
    obtain ⟨lost, before⟩ := k.counts x
    have clocked : (i.kv.setClock now).counts x = i.kv.counts x := by cases x <;> rfl
    refine ⟨laps + lost, ?_⟩
    simp only [requests, List.map_append, totalOf_append, clocked] at entered before ⊢
    omega
  cases stepped with
  | rest => exact ⟨ahead, ids, counts⟩
  | begin =>
      refine ⟨ahead, ids, fun x => ?_⟩
      exact ((KvCache.takePendingLatency_uncounted t.kv).counts x).symm ▸ counts x

/-- Where no request is decoded elsewhere, those that leave are complete. -/
theorem complete {o : BatchOutcome} {report : StepReport} (coherent : i.Coherent spec)
    (whole : ∀ r ∈ i.running, r.decodeTarget = none) (k : i.Accounts joined gone)
    (flight : i.inFlight = some o) (done : i.complete now q = (.ok report, j, d)) :
    j.Accounts joined (gone ++ report.completed) := by
  have kept : report.handoffs = [] := by
    obtain ⟨s, _, _, settled, rfl, _⟩ := complete_cases coherent flight done
    refine (settles_of_ok settled).kept (List.forall_mem_map.mpr fun r hr => ?_)
    exact (Request.decodeTarget_of_stem (advanced_stem now o.scheduled r)).trans (whole r hr)
  have same : ∀ {β : Type} (f : Request → β), (∀ r, f (r.completedAt now) = f r) →
      (∀ r : Request, f r.handed = f r) → (∀ r, f (advanced now o.scheduled r) = f r) →
      ((j.requests ++ (gone ++ report.completed)).map f).Perm ((i.requests ++ gone).map f) := by
    intro β f completed handed further
    have ended := complete_perm coherent flight done completed handed
    have still : (i.running.map (advanced now o.scheduled)).map f = i.running.map f := by
      rw [List.map_map]
      exact List.map_congr_left fun r _ => further r
    rw [kept, List.map_nil, List.append_nil,
      show (i.running.map (advanced now o.scheduled) ++ i.queue).map f = i.requests.map f by
        rw [List.map_append, still, ← List.map_append, requests]] at ended
    have split : (j.requests ++ (gone ++ report.completed)).Perm
        (report.completed ++ j.requests ++ gone) := by
      rw [← List.append_assoc, List.append_assoc report.completed]
      exact List.perm_append_comm
    refine (split.map f).trans ?_
    have images := ended.append_right (gone.map f)
    rwa [← List.map_append, ← List.map_append] at images
  refine ⟨?_, ?_, fun x => ?_⟩
  · obtain ⟨s, _, _, _, _, rfl, _⟩ := complete_cases coherent flight done
    exact k.ahead
  · refine (same (·.id) (fun _ => rfl) (fun _ => rfl) fun r => ?_).trans k.joined
    exact Request.id_of_stem (advanced_stem now o.scheduled r)
  · have counted : j.kv.counts x = i.kv.counts x := by
      obtain ⟨s, _, _, settled, _, rfl, _⟩ := complete_cases coherent flight done
      exact (settles_of_ok settled).uncounted.counts x
    have charges := totalOf_perm (same (·.counts x) (fun r => by cases x <;> rfl)
      (fun r => by cases x <;> rfl) fun r => ?_)
    · rw [counted, charges]
      exact k.counts x
    · obtain ⟨progress, timing, emitted, further⟩ := advanced_inv now o.scheduled r
      rw [further]
      cases x <;> rfl

end Accounts
end Instance
end InferenceSim
