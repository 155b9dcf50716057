import InferenceSim.Proofs.Batch.Continuing

/-! Forming a batch as a whole. It never fails, it loses no request, and whenever there
are requests the first of them computes something, unless the tokens of one of them are too
many to count. -/
namespace InferenceSim
open KvCache

theorem enterBatch_ok {r : Request} (state : r.state = .queued) (m : PrefixMatch) (now : Nat) :
    ∃ s, enterBatch r m now = .ok s ∧ s.stem = r.stem ∧ s.state = .running ∧
      s.progress = r.progress := by
  have legal : r.transition .running = .ok { r with state := .running } :=
    Request.transition_ok (by rw [state]; rfl)
  simp only [enterBatch, legal, bind, Except.bind]
  split <;> exact ⟨_, rfl, rfl, rfl, rfl⟩

namespace Fitting
variable {spec : InstanceSpec} {running rest : List Request} {kv d : KvCache} {head r : Request}

theorem enter (k : Fitting spec running (head :: rest) kv)
    (lends : KvOp.Lends kv head.id head.span d) (stem : r.stem = head.stem)
    (state : r.state = .running) (progress : r.progress = head.progress) :
    Fitting spec (running ++ [r]) rest d where
  sound := lends.sound
  blockSize := lends.blockSize.trans k.blockSize
  total := lends.total.trans k.total
  runs s hs := by
    rcases List.mem_append.mp hs with before | last
    · exact k.runs s before
    · have resident := (k.waits head List.mem_cons_self).2
      rw [List.mem_singleton.mp last]
      refine ⟨state, InstanceSpec.serves_of_stem stem ▸ resident.serves, ?_⟩
      rw [progress, Request.span_of_stem stem]
      exact resident.unfinished
  waits s hs := k.waits s (List.mem_cons_of_mem head hs)
  nodup := by
    have nodup := k.nodup
    rw [List.map_append, List.map_cons] at nodup
    rw [List.append_assoc, List.map_append]
    simp only [List.singleton_append, List.map_cons, Request.id_of_stem stem]
    exact nodup
  held id h own := by
    by_cases same : id = head.id
    · refine ⟨r, List.mem_append_right _ List.mem_cons_self, ?_, ?_⟩
      · rw [same, Request.id_of_stem stem]
      · rw [Request.span_of_stem stem]
        exact lends.own h (same ▸ own)
    · obtain ⟨s, hs, rest⟩ := k.held id h (lends.others id same ▸ own)
      exact ⟨s, List.mem_append_left _ hs, rest⟩

/-- A waiting request holds no blocks. -/
theorem unheld (k : Fitting spec running (head :: rest) kv) : kv.held[head.id]? = none := by
  refine Option.eq_none_iff_forall_ne_some.mpr fun h own => ?_
  obtain ⟨s, hs, same, _⟩ := k.held head.id h own
  have nodup := k.nodup
  rw [List.map_append] at nodup
  exact (List.nodup_append.mp nodup).2.2 s.id (List.mem_map_of_mem hs) head.id
    (List.mem_map_of_mem List.mem_cons_self) same

end Fitting

/-- The queue once requests were taken in, and these. -/
structure AdmittedFrom (spec : InstanceSpec) (running queue : List Request) (a : Admitted) :
    Prop where
  fitting : Fitting spec (running ++ a.entered) a.queue a.kv
  split : ∃ taken, queue = taken ++ a.queue ∧ a.entered.map (·.stem) = taken.map (·.stem)
  advances : Advances a.entered a.scheduled

theorem AdmittedFrom.stop {spec : InstanceSpec} {running queue : List Request} {kv : KvCache}
    (k : Fitting spec running queue kv) :
    AdmittedFrom spec running queue { entered := [], scheduled := [], queue, kv } where
  fitting := by
    rw [List.append_nil]
    exact k
  split := ⟨[], rfl, rfl⟩
  advances := List.forall_mem_nil _

theorem AdmittedFrom.enter {spec : InstanceSpec} {running rest : List Request}
    {head r : Request} {w : ScheduledWork} {a : Admitted} (stem : r.stem = head.stem)
    (own : w.request = r.id) (further : r.progress < w.progressAfter)
    (upto : w.progressAfter ≤ r.span)
    (k : AdmittedFrom spec (running ++ [r]) rest a) :
    AdmittedFrom spec running (head :: rest)
      { a with entered := r :: a.entered, scheduled := w :: a.scheduled } where
  fitting := by
    have fitting := k.fitting
    rw [List.append_assoc] at fitting
    exact fitting
  split := by
    obtain ⟨taken, queue, stems⟩ := k.split
    refine ⟨head :: taken, congrArg (head :: ·) queue, ?_⟩
    rw [List.map_cons, List.map_cons, stem, stems]
  advances := by
    intro v hv
    rcases List.mem_cons.mp hv with rfl | later
    · exact ⟨r, List.mem_cons_self, own, further, upto⟩
    · exact k.advances.mono (fun s hs => List.mem_cons_of_mem r hs) v later

theorem entry_bounds {spec : InstanceSpec} {r : Request} {start budget tokens : Nat}
    (resident : Resident spec r) (left : 0 < budget)
    (start_eq : r.inputTokens ≤ start → start = r.progress)
    (going : (if start < r.inputTokens
      then spec.limits.prefillChunk (r.inputTokens - start) budget else some 1) = some tokens) :
    0 < tokens ∧ start + tokens ≤ r.span := by
  have prompt := r.inputTokens_le_span
  have unfinished := resident.unfinished
  split at going
  · next inPrefill =>
    have bounds := prefillChunk_bounds going (by omega) left
    omega
  · next past =>
    have same := start_eq (Nat.not_lt.mp past)
    obtain rfl := Option.some.inj going
    omega

theorem entry_isSome {spec : InstanceSpec} {r : Request} (resident : Resident spec r)
    (start : Nat) : ∃ tokens, (if start < r.inputTokens
      then spec.limits.prefillChunk (r.inputTokens - start) spec.limits.maxTokens
      else some 1) = some tokens := by
  split
  · refine prefillChunk_isSome fun whole => ?_
    have fits := InstanceSpec.budget_of_serves resident.serves whole
    omega
  · exact ⟨1, rfl⟩

theorem takeQueued_ok {spec : InstanceSpec} (usable : spec.Usable) (now : Nat)
    {running queue : List Request} (count budget : Nat) {kv : KvCache}
    (k : Fitting spec running queue kv) :
    ∃ a, takeQueued spec.limits now queue count budget kv = .ok a ∧
      AdmittedFrom spec running queue a ∧
      (running = [] → count = 0 → budget = spec.limits.maxTokens → queue ≠ [] →
        HeadWorks a.entered a.scheduled ∨ Starves queue a.entered a.scheduled) := by
  induction queue generalizing running count budget kv with
  | nil => exact ⟨_, rfl, .stop k, fun _ _ _ more => absurd rfl more⟩
  | cons head rest ih =>
      obtain ⟨state, resident⟩ := k.waits head List.mem_cons_self
      by_cases room : count < spec.limits.maxRunning ∧ 0 < budget
      · obtain ⟨m, hm⟩ : ∃ m, m = kv.lookup head := ⟨_, rfl⟩
        have looked : kv.lookup? head = .ok m := by
          rw [KvCache.lookup?, if_neg (Nat.ne_of_gt k.sound.positive), hm]
        have cached := lookup_cached kv head
        rw [← hm] at cached
        have atMost := head.inputTokens_le_span
        obtain ⟨start, hstart⟩ : ∃ start, start =
          max head.progress (m.cachedTokens kv.blockSize) := ⟨_, rfl⟩
        have cachedTokens : m.cachedTokens kv.blockSize = m.blocks.length * kv.blockSize := rfl
        cases going : (if start < head.inputTokens
            then spec.limits.prefillChunk (head.inputTokens - start) budget else some 1) with
        | none =>
            refine ⟨_, ?_, .stop k, fun _ _ whole _ => ?_⟩
            · simp only [takeQueued, if_pos room, looked, bind, Except.bind, ← hstart, going]
            · obtain ⟨tokens, goesOn⟩ := entry_isSome resident start
              rw [whole, goesOn] at going
              cases going
        | some tokens =>
            have bounds := entry_bounds resident room.2 (by omega) going
            rcases KvOp.allocate_within (m := m) k.sound
              (hm ▸ KvOp.matchHashes_indexed k.sound.consistent _)
              (show max (start + tokens) start ≤ head.span by omega) (by omega)
              (fun h own => absurd (k.unheld.symm.trans own).symm (Option.some_ne_none h)) with
              ⟨a, d, allocated, lends⟩ | ⟨needed, available, failed, others⟩
            · obtain ⟨r, entered, stem, runs, progress⟩ := enterBatch_ok state m now
              obtain ⟨more, done, admitted, _⟩ :=
                ih (count + 1) (budget - tokens) (k.enter lends stem runs progress)
              obtain ⟨w, hw⟩ : ∃ w : ScheduledWork, w = ⟨head.id, tokens, start + tokens,
                decide (start < head.inputTokens)⟩ := ⟨_, rfl⟩
              have own : w.request = r.id := by rw [hw, Request.id_of_stem stem]
              have upto : w.progressAfter ≤ r.span := by
                rw [Request.span_of_stem stem, hw]
                exact bounds.2
              refine ⟨_, ?_, admitted.enter (w := w) stem own (by simp only [hw]; omega) upto,
                fun _ _ _ _ => .inl ⟨r, _, rfl, w, List.mem_cons_self, own⟩⟩
              simp only [takeQueued, if_pos room, looked, bind, Except.bind, ← hstart, going,
                allocated, entered, done, hw]
              rfl
            -- blocks are short only while some other request runs and holds them, or if the
            -- tokens of this one could not be counted
            · refine ⟨_, ?_, .stop k, fun none _ _ _ =>
                .inr ⟨rfl, rfl, head, List.mem_cons_self, fun counted => ?_⟩⟩
              · simp only [takeQueued, if_pos room, looked, bind, Except.bind, ← hstart, going,
                  failed]
              · obtain ⟨q, _, other⟩ := others (k.span_fits usable resident counted)
                obtain ⟨h, own⟩ := Option.ne_none_iff_exists'.mp other
                obtain ⟨s, hs, _⟩ := k.held q h own
                rw [none] at hs
                cases hs
      · refine ⟨_, by rw [takeQueued, if_neg room], .stop k, fun _ none whole _ => absurd ?_ room⟩
        rw [none, whole]
        exact ⟨usable.maxRunning, usable.maxTokens⟩

/-- A batch, and what is left of the requests it was formed from. -/
structure Formed (spec : InstanceSpec) (s : BatchState) (o : BatchOutcome) (t : BatchState) :
    Prop where
  fitting : Fitting spec t.running t.queue t.kv
  stems : ((t.running ++ t.queue).map (·.stem)).Perm ((s.running ++ s.queue).map (·.stem))
  advances : Advances t.running o.scheduled
  head : s.running ++ s.queue ≠ [] → HeadWorks t.running o.scheduled ∨
    Starves (s.running ++ s.queue) t.running o.scheduled
  first : ∀ r rest, s.running = r :: rest → (∃ rest', t.running = r :: rest') ∨ t.running = []
  calm : s.running = [] → o.preempted = []

theorem HeadWorks.busy {running : List Request} {o : BatchOutcome}
    (h : HeadWorks running o.scheduled) : o.isEmpty = false := by
  obtain ⟨_, _, _, w, hw, _⟩ := h
  rw [BatchOutcome.isEmpty]
  cases scheduled : o.scheduled with
  | nil =>
      rw [scheduled] at hw
      cases hw
  | cons _ _ => rfl

namespace Formed
variable {spec : InstanceSpec} {o : BatchOutcome} {s t : BatchState}

theorem works_of_counted (f : Formed spec s o t) (some : s.running ++ s.queue ≠ [])
    (counted : ∀ r ∈ s.running ++ s.queue, r.Counted) : HeadWorks t.running o.scheduled := by
  refine (f.head some).resolve_right fun starves => ?_
  obtain ⟨r, hr, many⟩ := starves.uncounted
  exact many (counted r hr)

theorem first_of_counted (f : Formed spec s o t) (counted : ∀ r ∈ s.running ++ s.queue, r.Counted)
    {r : Request} {rest : List Request} (first : s.running = r :: rest) :
    ∃ rest', t.running = r :: rest' := by
  obtain ⟨q, others, split, _⟩ := f.works_of_counted (fun none => by
    cases first.symm.trans (List.append_eq_nil_iff.mp none).1) counted
  exact (f.first r rest first).resolve_right fun none => by cases split.symm.trans none

theorem nothing_of_counted (f : Formed spec s o t)
    (idle : o.isEmpty = true) (counted : ∀ r ∈ s.running ++ s.queue, r.Counted) :
    s.running ++ s.queue = [] := by
  by_contra some
  cases (f.works_of_counted some counted).busy.symm.trans idle

theorem running_of_idle (f : Formed spec s o t)
    (idle : o.isEmpty = true) : t.running = [] := by
  by_cases none : s.running ++ s.queue = []
  · have stems := f.stems
    rw [none] at stems
    exact (List.append_eq_nil_iff.mp (List.map_eq_nil_iff.mp stems.eq_nil)).1
  · rcases f.head none with works | starves
    · cases works.busy.symm.trans idle
    · exact starves.running

end Formed

theorem HeadWorks.append {running : List Request} {works : List ScheduledWork}
    (h : HeadWorks running works) (more : List Request) (others : List ScheduledWork) :
    HeadWorks (running ++ more) (works ++ others) := by
  obtain ⟨r, rest, split, w, hw, own⟩ := h
  exact ⟨r, rest ++ more, by rw [split]; rfl, w, List.mem_append_left _ hw, own⟩

theorem Advances.append {running more : List Request} {works others : List ScheduledWork}
    (h : Advances running works) (k : Advances more others) :
    Advances (running ++ more) (works ++ others) := by
  intro w hw
  rcases List.mem_append.mp hw with left | right
  · exact h.mono (fun r hr => List.mem_append_left _ hr) w left
  · exact k.mono (fun r hr => List.mem_append_right _ hr) w right

theorem formBatch_ok {spec : InstanceSpec} (usable : spec.Usable) (rule : SchedulerRule)
    (now : Nat) {s : BatchState} (k : Fitting spec s.running s.queue s.kv) :
    ∃ o t, formBatch spec.limits rule now s = .ok (o, t) ∧ Formed spec s o t := by
  obtain ⟨queue, hqueue⟩ : ∃ queue, queue = rule.sort Request.view s.queue := ⟨_, rfl⟩
  have sorted : queue.Perm s.queue := hqueue ▸ List.mergeSort_perm _ _
  have start : Fitting spec ([] ++ s.running) queue s.kv := k.perm sorted
  obtain ⟨c, done, continued, head⟩ := continueRunning_ok usable s.running.length
    spec.limits.maxTokens (Nat.le_refl _) start
  obtain ⟨gone, todo, waits, ids⟩ := continued.split
  have fitting := continued.fitting
  rw [List.nil_append] at fitting
  have first : ∀ r rest, s.running = r :: rest →
      (∃ rest', c.running = r :: rest') ∨ c.running = [] := by
    intro r rest some
    cases going : c.running with
    | nil => exact .inr rfl
    | cons r' rest' =>
        rw [some, going] at todo
        exact .inl ⟨rest', by rw [(List.cons.inj todo).1]⟩
  have stems : ((c.running ++ c.queue).map (·.stem)).Perm
      ((s.running ++ s.queue).map (·.stem)) := by
    rw [todo, waits, List.append_assoc, List.map_append, List.map_append, List.map_append,
      List.map_append, List.map_map]
    exact ((sorted.map _).append_left _).append_left _
  have idle : s.running = [] → c.preempted = [] := by
    intro none
    have rest := (List.append_eq_nil_iff.mp (none ▸ todo).symm).2
    rw [ids, rest]
    rfl
  by_cases calm : c.preempted.isEmpty
  · have still : s.running = c.running := by
      rw [ids, List.isEmpty_iff, List.map_eq_nil_iff, List.reverse_eq_nil_iff] at calm
      rw [todo, calm, List.append_nil]
    obtain ⟨a, done', admitted, entry⟩ :=
      takeQueued_ok usable now c.running.length c.budget fitting
    obtain ⟨taken, queue', entered⟩ := admitted.split
    refine ⟨⟨c.scheduled ++ a.scheduled, a.entered.map (·.id), []⟩,
      ⟨c.running ++ a.entered, a.queue, a.kv⟩, ?_, admitted.fitting, ?_,
      continued.advances.append admitted.advances, ?_, ?_, fun _ => rfl⟩
    · simp only [formBatch, ← hqueue, done, bind, Except.bind, calm, if_true, done']
      rfl
    · refine .trans (.of_eq ?_) stems
      rw [queue']
      simp only [List.map_append, entered, List.append_assoc]
    · intro some
      by_cases none : s.running = []
      · have fresh : c = ⟨[], [], [], queue, s.kv, spec.limits.maxTokens⟩ := by
          rw [none] at done
          exact (Except.ok.inj done).symm
        have works := entry (by rw [fresh]) (by rw [fresh]; rfl) (by rw [fresh]) (by
          rw [fresh]
          intro empty
          rw [none, List.nil_append] at some
          exact some (List.Perm.eq_nil (empty ▸ sorted.symm)))
        rw [fresh] at works ⊢
        exact works.imp_right fun starves => starves.mono fun r hr =>
          List.mem_append_right _ (sorted.mem_iff.mp hr)
      · refine .inl (((head rfl rfl none).resolve_right fun starves => ?_).append _ _)
        exact none (still.trans starves.running)
    · intro r rest some
      exact .inl ⟨rest ++ a.entered, by rw [← still, some]; rfl⟩
  · have runs : s.running ≠ [] := fun none => calm (by rw [idle none]; rfl)
    refine ⟨⟨c.scheduled, [], c.preempted⟩, ⟨c.running, c.queue, c.kv⟩, ?_, fitting, stems,
      continued.advances, fun _ => ?_, first, idle⟩
    · simp only [formBatch, ← hqueue, done, bind, Except.bind, calm]
      rfl
    · exact (head rfl rfl runs).imp_right fun starves => starves.mono fun r hr =>
        List.mem_append_left _ hr

end InferenceSim
