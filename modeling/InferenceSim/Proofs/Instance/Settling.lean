import InferenceSim.Proofs.Batch.Forming

/-! The end of a step. The work of the batch brings its requests further; then each
running request is done, is handed off or goes on, and none is lost. -/
namespace InferenceSim

def advanceBy (now : Nat) (r : Request) (w : ScheduledWork) : Request :=
  if r.id = w.request then r.advance w.progressAfter now else r

def advanced (now : Nat) (works : List ScheduledWork) (r : Request) : Request :=
  works.foldl (advanceBy now) r

section
variable (now : Nat) (works : List ScheduledWork) (r : Request) (w : ScheduledWork)

@[simp] theorem advanceBy_stem : (advanceBy now r w).stem = r.stem := by
  unfold advanceBy
  split
  · exact r.advance_stem _ _
  · rfl

@[simp] theorem advanceBy_id : (advanceBy now r w).id = r.id :=
  Request.id_of_stem (advanceBy_stem now r w)

theorem advanced_inv : ∃ progress timing emittedTokens,
    advanced now works r = { r with progress, timing, emittedTokens } := by
  unfold advanced
  induction works generalizing r with
  | nil => exact ⟨r.progress, r.timing, r.emittedTokens, rfl⟩
  | cons w rest ih =>
      obtain ⟨progress, timing, emitted, later⟩ := ih (advanceBy now r w)
      refine ⟨progress, timing, emitted, ?_⟩
      rw [List.foldl_cons, later, advanceBy]
      split
      · obtain ⟨_, _, first⟩ := r.advance_inv w.progressAfter now
        rw [first]
      · rfl

@[simp] theorem advanced_stem : (advanced now works r).stem = r.stem := by
  obtain ⟨progress, timing, emitted, same⟩ := advanced_inv now works r
  rw [same]
  rfl

@[simp] theorem advanced_state : (advanced now works r).state = r.state := by
  obtain ⟨progress, timing, emitted, same⟩ := advanced_inv now works r
  rw [same]

end

theorem advanced_none {now : Nat} {works : List ScheduledWork} {r : Request}
    (none : ∀ w ∈ works, w.request ≠ r.id) : advanced now works r = r := by
  induction works with
  | nil => rfl
  | cons w rest ih =>
      have first : advanceBy now r w = r :=
        if_neg fun own => none w List.mem_cons_self own.symm
      rw [advanced, List.foldl_cons, first]
      exact ih fun v hv => none v (List.mem_cons_of_mem w hv)

theorem advanced_work {now : Nat} {works : List ScheduledWork} {r : Request} {w : ScheduledWork}
    (single : (works.map (·.request)).Nodup) (hw : w ∈ works) (own : w.request = r.id) :
    advanced now works r = r.advance w.progressAfter now := by
  induction works with
  | nil => cases hw
  | cons v rest ih =>
      obtain ⟨new, single⟩ := List.nodup_cons.mp single
      rcases List.mem_cons.mp hw with rfl | later
      · have first : advanceBy now r w = r.advance w.progressAfter now := if_pos own.symm
        rw [advanced, List.foldl_cons, first]
        refine advanced_none fun v hv same => new (List.mem_map.mpr ⟨v, hv, ?_⟩)
        exact (same.trans (Request.id_of_stem (r.advance_stem _ _))).trans own.symm
      · have first : advanceBy now r v = r :=
          if_neg fun same => new (List.mem_map.mpr ⟨w, later, own.trans same⟩)
        rw [advanced, List.foldl_cons, first]
        exact ih single later

/-- Work between two bounds keeps the progress between them, and above the lower one if
there is any. -/
theorem advanced_progress (now : Nat) {low high : Nat} {works : List ScheduledWork} {r : Request}
    (within : ∀ w ∈ works, w.request = r.id → low < w.progressAfter ∧ w.progressAfter ≤ high)
    (start : low ≤ r.progress ∧ r.progress ≤ high) :
    low ≤ (advanced now works r).progress ∧ (advanced now works r).progress ≤ high ∧
      ((low < r.progress ∨ ∃ w ∈ works, w.request = r.id) →
        low < (advanced now works r).progress) := by
  induction works generalizing r with
  | nil =>
      refine ⟨start.1, start.2, fun some => ?_⟩
      rcases some with above | ⟨w, inNil, _⟩
      · exact above
      · cases inNil
  | cons w rest ih =>
      have later : ∀ v ∈ rest, v.request = (advanceBy now r w).id →
          low < v.progressAfter ∧ v.progressAfter ≤ high := fun v hv own =>
        within v (List.mem_cons_of_mem w hv) (own.trans (advanceBy_id now r w))
      by_cases own : r.id = w.request
      · have step : (advanceBy now r w).progress = w.progressAfter := by
          rw [advanceBy, if_pos own, Request.advance_progress]
        have bounds := within w List.mem_cons_self own.symm
        have moved := ih later (by rw [step]; exact ⟨Nat.le_of_lt bounds.1, bounds.2⟩)
        exact ⟨moved.1, moved.2.1, fun _ => moved.2.2 (.inl (by rw [step]; exact bounds.1))⟩
      · have step : advanceBy now r w = r := if_neg own
        rw [step] at later
        have moved := ih later start
        rw [advanced, List.foldl_cons, step]
        refine ⟨moved.1, moved.2.1, fun some => moved.2.2 (some.imp_right ?_)⟩
        rintro ⟨v, hv, same⟩
        rcases List.mem_cons.mp hv with rfl | inRest
        · exact absurd same.symm own
        · exact ⟨v, inRest, same⟩

theorem advanceOne_ok (host now : Nat) {w : ScheduledWork} {rs : List Request}
    (nodup : (rs.map (·.id)).Nodup) (known : ∃ r ∈ rs, w.request = r.id) :
    Instance.advanceOne host w now rs = .ok (rs.map fun r => advanceBy now r w) := by
  induction rs with
  | nil =>
      obtain ⟨r, inNil, _⟩ := known
      cases inNil
  | cons r rest ih =>
      obtain ⟨new, nodup⟩ := List.nodup_cons.mp nodup
      by_cases own : r.id = w.request
      · have others : rest.map (fun s => advanceBy now s w) = rest := by
          refine (List.map_congr_left fun s hs => if_neg fun same => ?_).trans (List.map_id rest)
          exact new (List.mem_map.mpr ⟨s, hs, same.trans own.symm⟩)
        rw [Instance.advanceOne, if_pos own, List.map_cons, others, advanceBy, if_pos own]
      · have inRest : ∃ s ∈ rest, w.request = s.id := by
          obtain ⟨s, hs, same⟩ := known
          rcases List.mem_cons.mp hs with rfl | later
          · exact absurd same.symm own
          · exact ⟨s, later, same⟩
        rw [Instance.advanceOne, if_neg own, ih nodup inRest, List.map_cons, advanceBy,
          if_neg own]
        rfl

theorem advanceAll_ok (host now : Nat) {works : List ScheduledWork} {rs : List Request}
    (nodup : (rs.map (·.id)).Nodup) (known : ∀ w ∈ works, ∃ r ∈ rs, w.request = r.id) :
    works.foldlM (fun rs w => Instance.advanceOne host w now rs) rs =
      .ok (rs.map (advanced now works)) := by
  induction works generalizing rs with
  | nil => exact congrArg Except.ok (List.map_id rs).symm
  | cons w rest ih =>
      obtain ⟨rs', moved⟩ : ∃ rs', rs' = rs.map fun r => advanceBy now r w := ⟨_, rfl⟩
      have ids : rs'.map (·.id) = rs.map (·.id) := by
        rw [moved, List.map_map]
        exact List.map_congr_left fun r _ => advanceBy_id now r w
      have known' : ∀ v ∈ rest, ∃ r ∈ rs', v.request = r.id := by
        intro v hv
        obtain ⟨r, hr, same⟩ := known v (List.mem_cons_of_mem w hv)
        refine ⟨advanceBy now r w, moved ▸ List.mem_map_of_mem hr, ?_⟩
        rw [advanceBy_id, same]
      rw [List.foldlM_cons, advanceOne_ok host now nodup (known w List.mem_cons_self), ← moved]
      refine (ih (ids ▸ nodup) known').trans ?_
      rw [moved, List.map_map]
      rfl

def Handoff.source (h : Handoff) : Request := { h.request with decodeTarget := some h.decode }

/-- A request that waits for its KV to reach the instance that decodes. -/
structure HandedOff (spec : InstanceSpec) (r : Request) : Prop where
  resident : Resident spec r
  state : r.state = .queued
  target : r.decodeTarget = none
  prompt : r.inputTokens ≤ r.progress

/-- What became of running requests: each is done, handed off or goes on. -/
structure SettledFrom (spec : InstanceSpec) (now : Nat) (kept todo queue : List Request)
    (s : Instance.Settled) : Prop where
  housed : Housed spec (kept ++ s.running) queue s.kv
  stays : ∀ r ∈ s.running, r ∈ todo ∧ r.progress < r.span
  stems : ((s.report.completed ++ s.report.handoffs.map Handoff.source ++ s.running).map
    (·.stem)).Perm (todo.map (·.stem))
  completed : ∀ r ∈ s.report.completed, r.timing.completionTime = some now
  handoffs : ∀ h ∈ s.report.handoffs, HandedOff spec h.request
  still : s.report.completed = [] → s.report.handoffs = [] → s.running = todo

namespace SettledFrom
variable {spec : InstanceSpec} {now : Nat} {kept rest queue : List Request} {kv : KvCache}
  {r : Request} {s : Instance.Settled}

theorem nil (k : Housed spec (kept ++ []) queue kv) :
    SettledFrom spec now kept [] queue { running := [], report := {}, kv } where
  housed := k
  stays := List.forall_mem_nil _
  stems := .refl _
  completed := List.forall_mem_nil _
  handoffs := List.forall_mem_nil _
  still := fun _ _ => rfl

theorem done {q : Request} (stem : q.stem = r.stem) (time : q.timing.completionTime = some now)
    (t : SettledFrom spec now kept rest queue s) :
    SettledFrom spec now kept (r :: rest) queue
      { s with report := { s.report with completed := q :: s.report.completed } } where
  housed := t.housed
  stays q hq := ⟨List.mem_cons_of_mem r (t.stays q hq).1, (t.stays q hq).2⟩
  stems := by
    rw [List.map_cons, ← stem]
    exact t.stems.cons q.stem
  completed p hp := by
    rcases List.mem_cons.mp hp with rfl | later
    · exact time
    · exact t.completed p later
  handoffs := t.handoffs
  still := fun none => by cases none

theorem leave {h : Handoff} (stem : h.source.stem = r.stem) (off : HandedOff spec h.request)
    (t : SettledFrom spec now kept rest queue s) :
    SettledFrom spec now kept (r :: rest) queue
      { s with report := { s.report with handoffs := h :: s.report.handoffs } } where
  housed := t.housed
  stays q hq := ⟨List.mem_cons_of_mem r (t.stays q hq).1, (t.stays q hq).2⟩
  stems := by
    have joined : ((s.report.completed ++ (h.source :: s.report.handoffs.map Handoff.source) ++
        s.running).map (·.stem)).Perm (r.stem :: rest.map (·.stem)) := by
      rw [← stem, List.append_assoc, List.cons_append]
      refine (List.perm_middle.map _).trans ?_
      rw [← List.append_assoc]
      exact t.stems.cons h.source.stem
    exact joined
  completed := t.completed
  handoffs p hp := by
    rcases List.mem_cons.mp hp with rfl | later
    · exact off
    · exact t.handoffs p later
  still := fun _ none => by cases none

theorem stay (unfinished : r.progress < r.span)
    (t : SettledFrom spec now (kept ++ [r]) rest queue s) :
    SettledFrom spec now kept (r :: rest) queue { s with running := r :: s.running } where
  housed := by
    have housed := t.housed
    rw [List.append_assoc] at housed
    exact housed
  stays q hq := by
    rcases List.mem_cons.mp hq with rfl | later
    · exact ⟨List.mem_cons_self, unfinished⟩
    · exact ⟨List.mem_cons_of_mem r (t.stays q later).1, (t.stays q later).2⟩
  stems := (List.perm_middle.map _).trans (t.stems.cons r.stem)
  completed := t.completed
  handoffs := t.handoffs
  still none none' := congrArg (r :: ·) (t.still none none')

end SettledFrom

theorem settle_ok {spec : InstanceSpec} (now : Nat) (kept : List Request)
    {todo queue : List Request} {kv : KvCache} (k : Housed spec (kept ++ todo) queue kv)
    (ran : ∀ r ∈ todo, r.state = .running ∧ spec.serves r) :
    ∃ s, Instance.settle now todo kv = .ok s ∧ SettledFrom spec now kept todo queue s := by
  -- `kept` has the requests that go on: with `todo` they are all that hold blocks
  induction todo generalizing kept kv with
  | nil => exact ⟨_, rfl, .nil k⟩
  | cons r rest ih =>
      obtain ⟨state, serves⟩ := ran r List.mem_cons_self
      have ran' : ∀ s ∈ rest, s.state = .running ∧ spec.serves s := fun s hs =>
        ran s (List.mem_cons_of_mem r hs)
      obtain ⟨d, released, gone⟩ := KvOp.releasing_ok k.sound r.id
      by_cases done : r.isDone = true
      · have legal : r.transition .completed = .ok { r with state := .completed } :=
          Request.transition_ok (by rw [state]; rfl)
        obtain ⟨s, settled, t⟩ := ih kept (k.dismiss gone) ran'
        obtain ⟨q, hq⟩ : ∃ q : Request, q = { r with
          state := .completed, timing := { r.timing with completionTime := some now } } := ⟨_, rfl⟩
        refine ⟨_, ?_, t.done (q := q) (by rw [hq]; rfl) (by rw [hq])⟩
        simp only [Instance.settle, if_pos done, legal, released, bind, Except.bind, settled, hq]
        rfl
      · have unfinished : r.progress < r.span :=
          Nat.lt_of_lt_of_le (Nat.lt_of_not_le fun reached => done (decide_eq_true reached))
            r.completionProgress_le
        by_cases leaves : r.inPrefill = false ∧ r.decodeTarget.isSome
        · obtain ⟨past, target⟩ := leaves
          obtain ⟨decode, target⟩ := Option.isSome_iff_exists.mp target
          have legal : r.transition .queued = .ok { r with state := .queued } :=
            Request.transition_ok (by rw [state]; rfl)
          obtain ⟨s, settled, t⟩ := ih kept (k.dismiss gone) ran'
          obtain ⟨h, hh⟩ : ∃ h : Handoff, h =
              ⟨{ r with state := .queued, decodeTarget := none }, decode, kv.blocksFor r.progress⟩ :=
            ⟨_, rfl⟩
          refine ⟨_, ?_, t.leave (h := h) ?_ ?_⟩
          · simp only [Instance.settle, if_neg done, past, target, legal, released, bind,
              Except.bind, settled, hh]
            rfl
          · rw [hh]
            simp only [Handoff.source, Request.stem, Request.origin, target]
          · rw [hh]
            exact ⟨⟨serves, unfinished⟩, rfl, rfl, by simpa [Request.inPrefill] using past⟩
        · have kept' : Housed spec ((kept ++ [r]) ++ rest) queue kv := by
            rw [List.append_assoc]
            exact k
          obtain ⟨s, settled, t⟩ := ih (kept ++ [r]) kept' ran'
          refine ⟨_, ?_, t.stay unfinished⟩
          rw [Instance.settle, if_neg done]
          split
          · next past target => exact absurd ⟨past, by rw [target]; rfl⟩ leaves
          · rw [settled]
            rfl

end InferenceSim
