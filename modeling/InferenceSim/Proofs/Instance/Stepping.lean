import InferenceSim.Proofs.Instance.Coherence
import InferenceSim.Proofs.Totals

/-! The steps of an instance. A step that begins with requests has work for the first of
them, so it ends with this request further on, done or handed off. -/
namespace InferenceSim

theorem Fitting.recache {spec : InstanceSpec} {running queue : List Request} {kv d : KvCache}
    (k : Fitting spec running queue kv) (sound : d.Sound) (blockSize : d.blockSize = kv.blockSize)
    (total : d.total = kv.total) (held : d.held = kv.held) : Fitting spec running queue d where
  sound := sound
  blockSize := blockSize.trans k.blockSize
  total := total.trans k.total
  waits := k.waits
  nodup := k.nodup
  held := held ▸ k.held
  runs := k.runs

theorem Fitting.takePendingLatency {spec : InstanceSpec} {running queue : List Request}
    {kv : KvCache} (k : Fitting spec running queue kv) :
    Fitting spec running queue kv.takePendingLatency.2 := by
  refine k.recache k.sound.takePendingLatency ?_ ?_ ?_ <;> unfold KvCache.takePendingLatency <;>
    split <;> rfl

/-- Requests may change in what their place does not depend on. -/
theorem Housed.map {spec : InstanceSpec} {running queue : List Request} {kv : KvCache}
    {f g : Request → Request} (k : Housed spec running queue kv)
    (stem : ∀ r, (f r).stem = r.stem)
    (same : ∀ r, (g r).stem = r.stem ∧ (g r).state = r.state ∧ (g r).progress = r.progress) :
    Housed spec (running.map f) (queue.map g) kv where
  sound := k.sound
  blockSize := k.blockSize
  total := k.total
  waits r hr := by
    obtain ⟨s, hs, rfl⟩ := List.mem_map.mp hr
    obtain ⟨state, resident⟩ := k.waits s hs
    obtain ⟨stem, state', progress⟩ := same s
    refine ⟨state'.trans state, InstanceSpec.serves_of_stem stem ▸ resident.serves, ?_⟩
    rw [progress, Request.span_of_stem stem]
    exact resident.unfinished
  nodup := by
    have nodup := k.nodup
    rw [List.map_append] at nodup ⊢
    rw [List.map_map, List.map_map]
    have first : running.map ((·.id) ∘ f) = running.map (·.id) :=
      List.map_congr_left fun r _ => Request.id_of_stem (stem r)
    have second : queue.map ((·.id) ∘ g) = queue.map (·.id) :=
      List.map_congr_left fun r _ => Request.id_of_stem (same r).1
    rw [first, second]
    exact nodup
  held id h own := by
    obtain ⟨r, hr, rfl, bounded⟩ := k.held id h own
    refine ⟨f r, List.mem_map_of_mem hr, Request.id_of_stem (stem r), ?_⟩
    rw [Request.span_of_stem (stem r)]
    exact bounded

def Request.remaining (r : Request) : Nat := r.span - r.progress

namespace Instance

/-- How far an instance is from the next end of its first request. -/
def potential (i : Instance) : Nat :=
  if i.busy then
    match i.running with
    | r :: _ => if i.inFlight.isSome then 2 * r.remaining else 2 * r.remaining + 1
    | [] => 2 * totalOf (i.queue.map Request.span) + 2
  else 0

theorem awaited_step {i : Instance} (busy : i.busy = true) (ready : i.inFlight = none) :
    i.awaited = [.step i.id] := by
  simp only [awaited, busy, ready]
  rfl

theorem awaited_complete {i : Instance} {o : BatchOutcome} (busy : i.busy = true)
    (flight : i.inFlight = some o) : i.awaited = [.stepComplete i.id] := by
  simp only [awaited, busy, flight]
  rfl

theorem ready_of_awaited {i : Instance} {n : Nat} (waits : .step n ∈ i.awaited) :
    i.busy = true ∧ i.inFlight = none := by
  unfold awaited at waits
  split at waits
  · next busy =>
    split at waits
    · cases List.mem_singleton.mp waits
    · next ready => exact ⟨busy, Option.not_isSome_iff_eq_none.mp ready⟩
  · cases waits

theorem flight_of_awaited {i : Instance} {n : Nat} (waits : .stepComplete n ∈ i.awaited) :
    i.busy = true ∧ ∃ o, i.inFlight = some o := by
  unfold awaited at waits
  split at waits
  · next busy =>
    split at waits
    · next flight => exact ⟨busy, Option.isSome_iff_exists.mp flight⟩
    · cases List.mem_singleton.mp waits
  · cases waits

theorem potential_pos {i : Instance} (busy : i.busy = true) (ready : i.inFlight = none) :
    0 < i.potential := by
  rw [potential, if_pos busy, ready]
  split <;> exact Nat.succ_pos _

theorem targets_of_stems {rs ss : List Request} {n : Nat}
    (same : (rs.map (·.stem)).Perm (ss.map (·.stem)))
    (targets : ∀ r ∈ ss, ∀ target, r.decodeTarget = some target → target < n) :
    ∀ r ∈ rs, ∀ target, r.decodeTarget = some target → target < n := by
  intro r hr target
  obtain ⟨s, hs, stem⟩ := List.mem_map.mp (same.mem_iff.mp (List.mem_map_of_mem hr))
  rw [← Request.decodeTarget_of_stem stem]
  exact targets s hs target

theorem potential_of_formed {spec : InstanceSpec} {i j : Instance} {o : BatchOutcome}
    {t : BatchState} {kv : KvCache} (busy : i.busy = true) (ready : i.inFlight = none)
    (formed : Formed spec ⟨i.running, i.queue, kv⟩ o t) (works : HeadWorks t.running o.scheduled)
    (running : j.running = t.running) (flight : j.inFlight.isSome = true) :
    j.potential < i.potential := by
  obtain ⟨r, rest, split, _⟩ := works
  have after : j.potential ≤ 2 * r.remaining := by
    simp only [potential, running, split, flight, if_true]
    split
    · exact Nat.le_refl _
    · exact Nat.zero_le _
  cases before : i.running with
  | cons first others =>
      obtain ⟨_, same⟩ : ∃ others', t.running = first :: others' :=
        (formed.first first others before).resolve_right fun none => by cases split.symm.trans none
      obtain rfl : r = first := (List.cons.inj (split.symm.trans same)).1
      have start : i.potential = 2 * r.remaining + 1 := by
        simp only [potential, busy, before, ready]
        rfl
      omega
  | nil =>
      have start : i.potential = 2 * totalOf (i.queue.map Request.span) + 2 := by
        simp only [potential, busy, before]
        rfl
      have stems := formed.stems
      have inside : r.stem ∈ (t.running ++ t.queue).map (·.stem) :=
        List.mem_map_of_mem (List.mem_append_left _ (split ▸ List.mem_cons_self))
      rw [before, List.nil_append] at stems
      obtain ⟨s, hs, stem⟩ := List.mem_map.mp (stems.mem_iff.mp inside)
      have atMost : s.span ≤ totalOf (i.queue.map Request.span) :=
        le_totalOf (List.mem_map_of_mem hs)
      have same := Request.span_of_stem stem
      have remaining : r.remaining ≤ r.span := Nat.sub_le _ _
      omega

variable {spec : InstanceSpec} {i : Instance} {q : EventQueue} {now : Nat}

theorem step_idle {o : BatchOutcome} {t : BatchState} (latency : LatencyModel)
    (formed : formBatch i.limits i.scheduler now ⟨i.running, i.queue, i.kv.setClock now⟩ =
      .ok (o, t)) (idle : o.isEmpty = true) (calm : o.preempted = []) :
    ∃ stats : InstanceStats, stats.completed = i.stats.completed ∧
      i.step now latency q = .ok ({ i with
        running := t.running, queue := t.queue, kv := t.kv, stats, busy := false }, q) := by
  refine ⟨{ i.stats with
    queueDepthSum := i.stats.queueDepthSum + t.queue.length
    queueDepthSamples := i.stats.queueDepthSamples + 1
    preemptions := i.stats.preemptions + o.preempted.length
    peakKvBlocks := max i.stats.peakKvBlocks t.kv.used }, rfl, ?_⟩
  simp only [step, formed, bind, Except.bind, if_pos idle, calm]
  rfl

theorem step_retry {o : BatchOutcome} {t : BatchState} (latency : LatencyModel)
    (formed : formBatch i.limits i.scheduler now ⟨i.running, i.queue, i.kv.setClock now⟩ =
      .ok (o, t)) (idle : o.isEmpty = true) (some : o.preempted ≠ []) (later : q.now ≤ now) :
    ∃ stats d, stats.completed = i.stats.completed ∧ q.Gains [.step i.id] d ∧
      i.step now latency q = .ok ({ i with
        running := t.running, queue := t.queue, kv := t.kv, stats }, d) := by
  obtain ⟨time, htime⟩ : ∃ time, time = now + (latency.schedulingOverhead * o.admitted.length +
    latency.preemptionOverhead * o.preempted.length) := ⟨_, rfl⟩
  have later' : q.now ≤ time := Nat.le_trans later (htime ▸ Nat.le_add_right _ _)
  obtain ⟨n, d, scheduled, gains, _⟩ := q.schedule_ok later' (.step i.id)
  refine ⟨{ i.stats with
    queueDepthSum := i.stats.queueDepthSum + t.queue.length
    queueDepthSamples := i.stats.queueDepthSamples + 1
    preemptions := i.stats.preemptions + o.preempted.length
    peakKvBlocks := max i.stats.peakKvBlocks t.kv.used }, d, rfl, gains, ?_⟩
  have paid : ¬o.preempted.isEmpty = true := fun none => some (List.isEmpty_iff.mp none)
  simp only [step, formed, bind, Except.bind, if_pos idle, if_neg paid, ← htime, scheduled]
  rfl

theorem step_begin {o : BatchOutcome} {t : BatchState} (latency : LatencyModel)
    (formed : formBatch i.limits i.scheduler now ⟨i.running, i.queue, i.kv.setClock now⟩ =
      .ok (o, t)) (works : o.isEmpty = false) (later : q.now ≤ now) :
    ∃ stats d, stats.completed = i.stats.completed ∧ q.Gains [.stepComplete i.id] d ∧
      i.step now latency q = .ok ({ i with
        running := t.running, queue := t.queue, kv := t.kv.takePendingLatency.2, stats
        stepStarted := now, inFlight := some o }, d) := by
  obtain ⟨time, htime⟩ : ∃ time, time = now + (latency.stepTime o.shape +
    t.kv.takePendingLatency.1 + (latency.schedulingOverhead * o.admitted.length +
      latency.preemptionOverhead * o.preempted.length)) := ⟨_, rfl⟩
  have later' : q.now ≤ time := Nat.le_trans later (htime ▸ Nat.le_add_right _ _)
  obtain ⟨n, d, scheduled, gains, _⟩ := q.schedule_ok later' (.stepComplete i.id)
  refine ⟨{ i.stats with
    queueDepthSum := i.stats.queueDepthSum + t.queue.length
    queueDepthSamples := i.stats.queueDepthSamples + 1
    preemptions := i.stats.preemptions + o.preempted.length
    peakKvBlocks := max i.stats.peakKvBlocks t.kv.used
    steps := i.stats.steps + 1
    prefillTokens := i.stats.prefillTokens + o.shape.prefillTokens
    decodeTokens := i.stats.decodeTokens + o.shape.decodeTokens }, d, rfl, gains, ?_⟩
  have working : ¬ o.isEmpty = true := works ▸ Bool.false_ne_true
  simp only [step, formed, bind, Except.bind, if_neg working, ← htime, scheduled]
  rfl

theorem Coherent.clocked (k : i.Coherent spec) (now : Nat) :
    Fitting spec i.running i.queue (i.kv.setClock now) :=
  k.fitting.recache (k.fitting.sound.setClock now) rfl rfl rfl

/-- At any time an instance can form a batch. -/
theorem Coherent.formed (usable : spec.Usable) (k : i.Coherent spec) (now : Nat) :
    ∃ o t, formBatch i.limits i.scheduler now ⟨i.running, i.queue, i.kv.setClock now⟩ =
        .ok (o, t) ∧
      Formed spec ⟨i.running, i.queue, i.kv.setClock now⟩ o t := by
  rw [k.limits]
  exact formBatch_ok usable i.scheduler now (k.clocked now)

/-- A step begins, and its end is scheduled if there is anything to do. With requests whose tokens
can be counted, that is so whenever there are any. -/
theorem step_ok (usable : spec.Usable) (k : i.Coherent spec) (busy : i.busy = true)
    (ready : i.inFlight = none) (latency : LatencyModel) (later : q.now ≤ now) :
    ∃ j d, i.step now latency q = .ok (j, d) ∧ j.Coherent spec ∧
      i.Moved q [.step i.id] j d ∧ (j.requests.map (·.stem)).Perm (i.requests.map (·.stem)) ∧
      j.stats.completed = i.stats.completed ∧
      ((∀ r ∈ i.requests, r.Counted) → j.potential < i.potential) := by
  obtain ⟨o, t, formed, f⟩ := k.formed usable now
  by_cases idle : o.isEmpty = true
  · have asleep : ∀ o', i.inFlight = some o' →
        Advances t.running o'.scheduled ∧ HeadWorks t.running o'.scheduled := by
      intro o' flight
      cases ready.symm.trans flight
    by_cases calm : o.preempted = []
    · obtain ⟨stats, count, stepped⟩ := step_idle (q := q) latency formed idle calm
      refine ⟨_, q, stepped, ⟨k.limits, f.fitting, asleep, fun _ => ⟨ready, f.running_of_idle idle, ?_⟩⟩,
        ⟨rfl, rfl, [], .refl, .of_eq ?_, List.forall_mem_nil _⟩, f.stems, count, fun _ => ?_⟩
      · intro counted
        have stems := f.stems
        rw [f.running_of_idle idle, List.nil_append] at stems
        rw [f.nothing_of_counted idle fun r hr => ?_] at stems
        · exact List.map_eq_nil_iff.mp stems.eq_nil
        · obtain ⟨s, hs, same⟩ := List.mem_map.mp (stems.mem_iff.mpr (List.mem_map_of_mem hr))
          exact (Request.counted_of_stem same).mp (counted s hs)
      · rw [awaited_step busy ready]
        rfl
      · rw [show Instance.potential _ = 0 from rfl]
        exact potential_pos busy ready
    · obtain ⟨stats, d, count, gains, stepped⟩ := step_retry latency formed idle calm later
      refine ⟨_, d, stepped, ⟨k.limits, f.fitting, asleep, fun rests => ?_⟩,
        ⟨rfl, rfl, [.step i.id], gains, ?_, by simp [Action.wakes]⟩, f.stems, count, fun counted => ?_⟩
      · cases busy.symm.trans rests
      · rw [awaited_step busy ready, awaited, busy, ready]
        rfl
      · refine absurd (f.calm ?_) calm
        exact (List.append_eq_nil_iff.mp (f.nothing_of_counted idle counted)).1
  · have some : i.running ++ i.queue ≠ [] := by
      intro none
      have stems := f.stems
      rw [show i.running ++ i.queue = [] from none] at stems
      have left := List.append_eq_nil_iff.mp (List.map_eq_nil_iff.mp stems.eq_nil)
      refine idle ?_
      rw [BatchOutcome.isEmpty, List.isEmpty_iff, List.eq_nil_iff_forall_not_mem]
      intro w hw
      obtain ⟨r, inside, _⟩ := f.advances w hw
      rw [left.1] at inside
      cases inside
    have works : HeadWorks t.running o.scheduled := by
      refine (f.head some).resolve_right fun starves => idle ?_
      rw [BatchOutcome.isEmpty, starves.works]
      rfl
    obtain ⟨stats, d, count, gains, stepped⟩ := step_begin latency formed works.busy later
    refine ⟨_, d, stepped, ⟨k.limits, f.fitting.takePendingLatency, ?_, fun asleep => ?_⟩,
      ⟨rfl, rfl, [.stepComplete i.id], gains, ?_, by simp [Action.wakes]⟩, f.stems, count, fun _ => ?_⟩
    · intro o' flight
      obtain rfl := Option.some.inj flight
      exact ⟨f.advances, works⟩
    · exact absurd (busy.symm.trans asleep) Bool.false_ne_true.symm
    · rw [awaited_step busy ready]
      simp only [awaited, busy]
      exact .swap _ _ []
    · exact potential_of_formed busy ready f works rfl rfl

/-- What the end of a step has produced, and the instance after it. -/
structure Ended (spec : InstanceSpec) (now : Nat) (i : Instance) (report : StepReport)
    (j : Instance) : Prop where
  stems : ((report.completed ++ report.handoffs.map Handoff.source ++ j.requests).map
    (·.stem)).Perm (i.requests.map (·.stem))
  completed : ∀ r ∈ report.completed, r.timing.completionTime = some now
  handoffs : ∀ h ∈ report.handoffs, HandedOff spec h.request
  count : j.stats.completed = i.stats.completed + report.completed.length
  further : report.completed = [] → report.handoffs = [] → j.potential < i.potential

theorem potential_of_advanced {o : BatchOutcome} {j : Instance} (busy : i.busy = true)
    (flight : i.inFlight = some o) (nodup : (i.running.map (·.id)).Nodup)
    (advances : Advances i.running o.scheduled) (works : HeadWorks i.running o.scheduled)
    (running : j.running = i.running.map (advanced now o.scheduled)) (ready : j.inFlight = none) :
    j.potential < i.potential := by
  obtain ⟨r, rest, split, some⟩ := works
  have inside : r ∈ i.running := split ▸ List.mem_cons_self
  have before : i.potential = 2 * r.remaining := by
    simp only [potential, busy, split, flight]
    rfl
  have after : j.potential ≤ 2 * (advanced now o.scheduled r).remaining + 1 := by
    simp only [potential, running, split, ready]
    split
    · exact Nat.le_refl _
    · exact Nat.zero_le _
  have within := advances.within nodup inside
  obtain ⟨w, hw, own⟩ := some
  have bounds := within w hw own
  have moved := advanced_progress now within ⟨Nat.le_refl _, by omega⟩
  have further := moved.2.2 (.inr ⟨w, hw, own⟩)
  have ends := Request.span_of_stem (advanced_stem now o.scheduled r)
  rw [Request.remaining, ends] at after
  rw [Request.remaining] at before
  omega

theorem complete_settled {o : BatchOutcome} {rs : List Request} {s : Settled}
    (flight : i.inFlight = some o)
    (moved : o.scheduled.foldlM (fun rs w => advanceOne i.id w now rs) i.running = .ok rs)
    (settled : settle now rs i.kv = .ok s) (later : q.now ≤ now) :
    ∃ stats busy d, stats.completed = i.stats.completed + s.report.completed.length ∧
      i.complete now q = (.ok s.report, { i with
        inFlight := none, running := s.running, kv := s.kv, stats, busy }, d) ∧
      q.Gains (if busy then [.step i.id] else []) d ∧
      (busy = false → s.running ++ i.queue = []) := by
  obtain ⟨stats, hstats⟩ : ∃ stats : InstanceStats, stats = { i.stats with
    busyTicks := i.stats.busyTicks + (now - i.stepStarted)
    completed := i.stats.completed + s.report.completed.length
    handoffs := i.stats.handoffs + s.report.handoffs.length } := ⟨_, rfl⟩
  have count : stats.completed = i.stats.completed + s.report.completed.length := by rw [hstats]
  by_cases left : (s.running.isEmpty && i.queue.isEmpty) = true
  · refine ⟨stats, false, q, count, ?_, .refl, fun _ => ?_⟩
    · simp only [complete, flight, moved, settled, if_pos left, hstats]
    · rw [Bool.and_eq_true, List.isEmpty_iff, List.isEmpty_iff] at left
      exact List.append_eq_nil_iff.mpr left
  · obtain ⟨d, woken, gains⟩ := wake_ok
      { i with inFlight := none, running := s.running, kv := s.kv, stats } later (.step i.id)
    refine ⟨stats, true, d, count, ?_, gains, fun asleep => by cases asleep⟩
    rw [hstats] at woken
    simp only [complete, flight, moved, settled, if_neg left, woken, hstats]
    rfl

theorem complete_ok (k : i.Coherent spec) (busy : i.busy = true) {o : BatchOutcome}
    (flight : i.inFlight = some o) (later : q.now ≤ now) :
    ∃ report j d, i.complete now q = (.ok report, j, d) ∧ j.Coherent spec ∧
      i.Moved q [.stepComplete i.id] j d ∧ Ended spec now i report j := by
  obtain ⟨advances, works⟩ := k.flight o flight
  have nodup := k.fitting.nodup_running
  have moved := advanceAll_ok i.id now nodup (fun w hw => by
    obtain ⟨r, hr, own, _⟩ := advances w hw
    exact ⟨r, hr, own⟩)
  have housed := k.fitting.toHoused.map (advanced_stem now o.scheduled)
    (g := fun r => r) (fun r => ⟨rfl, rfl, rfl⟩)
  rw [List.map_id'] at housed
  obtain ⟨rs, hrs⟩ : ∃ rs, rs = i.running.map (advanced now o.scheduled) := ⟨_, rfl⟩
  rw [← hrs] at moved housed
  have ran : ∀ r ∈ rs, r.state = .running ∧ spec.serves r := by
    intro r hr
    obtain ⟨s, hs, rfl⟩ := List.mem_map.mp (hrs ▸ hr)
    obtain ⟨state, resident⟩ := k.fitting.runs s hs
    refine ⟨(advanced_state _ _ s).trans state, ?_⟩
    exact InstanceSpec.serves_of_stem (advanced_stem _ _ s) ▸ resident.serves
  have stems : rs.map (·.stem) = i.running.map (·.stem) := by
    rw [hrs, List.map_map]
    exact List.map_congr_left fun r _ => advanced_stem now o.scheduled r
  obtain ⟨s, settled, t⟩ := settle_ok now [] housed ran
  obtain ⟨stats, busy', d, count, done, gains, idle⟩ :=
    complete_settled flight moved settled later
  have fitting : Fitting spec s.running i.queue s.kv := by
    refine { t.housed with runs := fun r hr => ?_ }
    obtain ⟨inside, unfinished⟩ := t.stays r hr
    exact ⟨(ran r inside).1, (ran r inside).2, unfinished⟩
  refine ⟨s.report, _, d, done,
    ⟨k.limits, fitting, fun _ none => (by cases none), fun asleep => ?_⟩,
    ⟨rfl, rfl, _, gains, ?_, fun a ha => ?_⟩, ⟨?_, t.completed, t.handoffs, count, fun none none' => ?_⟩⟩
  · obtain ⟨running, queue⟩ := List.append_eq_nil_iff.mp (idle asleep)
    exact ⟨rfl, running, fun _ => queue⟩
  · rw [awaited_complete busy flight]
    exact List.perm_append_comm
  · cases busy' with
    | true => exact List.mem_singleton.mp ha ▸ decide_eq_true rfl
    | false => cases ha
  · have before : i.requests.map (·.stem) = rs.map (·.stem) ++ i.queue.map (·.stem) := by
      rw [requests, List.map_append, stems]
    rw [before, requests, ← List.append_assoc, List.map_append]
    exact t.stems.append_right _
  · exact potential_of_advanced busy flight nodup advances works
      ((t.still none none').trans hrs) rfl

theorem reprioritize_ok (k : i.Coherent spec) (rule : PriorityRule) (now : Nat) :
    (i.reprioritize rule now).Coherent spec ∧
      (i.reprioritize rule now).requests.map (·.stem) = i.requests.map (·.stem) ∧
      (i.reprioritize rule now).potential = i.potential := by
  obtain ⟨f, hf⟩ : ∃ f : Request → Request,
    f = fun r => { r with priority := rule.score r.view now } := ⟨_, rfl⟩
  have stem : ∀ r, (f r).stem = r.stem := fun r => by rw [hf]; rfl
  have same : ∀ r, (f r).stem = r.stem ∧ (f r).state = r.state ∧ (f r).progress = r.progress :=
    fun r => ⟨stem r, by rw [hf], by rw [hf]⟩
  have ends : ∀ r, (f r).span = r.span := fun r => Request.span_of_stem (stem r)
  have rescored : i.reprioritize rule now =
      { i with queue := i.queue.map f, running := i.running.map f } := by rw [hf]; rfl
  rw [rescored]
  refine ⟨⟨k.limits, { k.fitting.toHoused.map stem same with runs := ?_ }, ?_, ?_⟩, ?_, ?_⟩
  · intro r hr
    obtain ⟨s, hs, rfl⟩ := List.mem_map.mp hr
    obtain ⟨state, resident⟩ := k.fitting.runs s hs
    refine ⟨(same s).2.1.trans state, InstanceSpec.serves_of_stem (stem s) ▸ resident.serves, ?_⟩
    rw [(same s).2.2, ends]
    exact resident.unfinished
  · intro o flight
    obtain ⟨advances, r, rest, split, w, hw, own⟩ := k.flight o flight
    refine ⟨fun w hw => ?_, f r, rest.map f, by rw [split]; rfl, w, hw, ?_⟩
    · obtain ⟨r, hr, own, bounds⟩ := advances w hw
      refine ⟨f r, List.mem_map_of_mem hr, own.trans (Request.id_of_stem (stem r)).symm, ?_⟩
      rw [(same r).2.2, ends]
      exact bounds
    · exact own.trans (Request.id_of_stem (stem r)).symm
  · intro asleep
    obtain ⟨ready, running, queue⟩ := k.idle asleep
    refine ⟨ready, congrArg (List.map f) running, fun counted => congrArg (List.map f) (queue ?_)⟩
    exact fun r hr => (Request.counted_of_stem (stem r)).mp (counted _ (List.mem_map_of_mem hr))
  · simp only [requests, ← List.map_append, List.map_map]
    exact List.map_congr_left fun r _ => stem r
  · have queue : (i.queue.map f).map Request.span =
        i.queue.map Request.span := by
      rw [List.map_map]
      exact List.map_congr_left fun r _ => ends r
    have remaining : ∀ r, (f r).remaining = r.remaining := fun r => by
      rw [Request.remaining, ends, (same r).2.2, Request.remaining]
    simp only [potential, queue]
    cases i.running with
    | nil => rfl
    | cons r rest => simp only [List.map_cons, remaining]

/-- An instance after the end of a step may compute its priorities anew. -/
theorem Ended.rescore {report : StepReport} {j : Instance} {d : EventQueue} {spent : List Action}
    (ended : Ended spec now i report j) (k : j.Coherent spec) (moved : i.Moved q spent j d)
    (rule : PriorityRule) (t : Nat) : (j.reprioritize rule t).Coherent spec ∧
      i.Moved q spent (j.reprioritize rule t) d ∧ Ended spec now i report (j.reprioritize rule t) := by
  obtain ⟨coherent, stems, potential⟩ := reprioritize_ok k rule t
  refine ⟨coherent, ⟨moved.id, moved.role, moved.events⟩, ⟨?_, ended.completed, ended.handoffs,
    ended.count, fun none none' => potential ▸ ended.further none none'⟩⟩
  rw [List.map_append, stems, ← List.map_append]
  exact ended.stems

end Instance
end InferenceSim
