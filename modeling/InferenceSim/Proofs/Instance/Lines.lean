import InferenceSim.Proofs.Batch.Ordering
import InferenceSim.Proofs.Batch.Rounds
import InferenceSim.Proofs.Instance.Turns

/-! First come, first served. The running requests, followed by those that wait, stand in the
order in which they have joined the queue: who is preempted was admitted last and goes back to
the front. So nobody is admitted before those who have joined earlier. -/
namespace InferenceSim

section
variable {limits : BatchLimits} {running budget now : Nat} {queue todo : List Request}
  {kv : KvCache} {a : Admitted} {s t : BatchState} {o : BatchOutcome}

/-- A batch keeps the line. It admits the first ones of the queue or sends others back to its
front. -/
theorem Forms.ids (c : Forms limits .fcfs now s o t) :
    (t.running ++ t.queue).map (·.id) = (s.running ++ s.queue).map (·.id) ∧
      (s.queue.map (·.id) = o.admitted ++ t.queue.map (·.id) ∨
        o.admitted = [] ∧ s.queue.map (·.id) ⊆ t.queue.map (·.id)) := by
  have line := c.line
  rw [SchedulerRule.sort_fcfs] at line
  refine ⟨line, ?_⟩
  cases c with
  | calm continued none entered =>
      have ids := entered.ids
      rw [continued.calm none, SchedulerRule.sort_fcfs] at ids
      exact .inl ids
  | tight continued some =>
      obtain ⟨gone, _, waits, _⟩ := continued.split
      rw [waits, SchedulerRule.sort_fcfs, List.map_append]
      exact .inr ⟨rfl, List.subset_append_right _ _⟩

/-- Who still runs after a step stands as before. -/
theorem Settles.ids {u : Instance.Settled} (c : Settles now todo kv u) :
    (u.running.map (·.id)).Sublist (todo.map (·.id)) := by
  induction c with
  | nil => exact .slnil
  | done reached gone more ih => exact ih.cons _
  | leave unfinished past target gone more ih => exact ih.cons _
  | stay unfinished stays more ih => exact ih.cons_cons _

end

namespace Instance

/-- The requests of an instance: those that run, then those that wait. -/
def line (i : Instance) : List Nat := i.requests.map (·.id)

def waiting (i : Instance) : List Nat := i.queue.map (·.id)

theorem line_eq (i : Instance) : i.line = i.running.map (·.id) ++ i.waiting := List.map_append

/-- An instance that has served in the order of coming: who has joined its queue, in order, and
whom each of its steps has admitted. -/
structure Lined (joined : List Nat) (admissions : List (List Nat)) (i : Instance) : Prop where
  scheduler : i.scheduler = .fcfs
  nodup : joined.Nodup
  order : i.line.Sublist joined
  known : ∀ x ∈ admissions.flatten, x ∈ joined
  served : ∀ x ∈ joined, x ∈ i.waiting ∨ x ∈ admissions.flatten
  fair : joined.Pairwise fun a b =>
    ∀ past, past <+: admissions → b ∈ past.flatten → a ∈ past.flatten

namespace Lined
variable {spec : InstanceSpec} {joined : List Nat} {admissions : List (List Nat)}
  {i j : Instance} {r s : Request} {now : Nat} {q d : EventQueue}

theorem new (id : Nat) (role : Role) : Lined [] [] (.new id role spec .fcfs) where
  scheduler := rfl
  nodup := .nil
  order := .slnil
  known := List.forall_mem_nil _
  served := List.forall_mem_nil _
  fair := .nil

/-- Whatever else changes, the line may only lose requests. -/
theorem narrow (k : Lined joined admissions i) (scheduler : j.scheduler = i.scheduler)
    (order : j.line.Sublist i.line) (waiting : j.waiting = i.waiting) :
    Lined joined admissions j :=
  { k with
    scheduler := scheduler.trans k.scheduler
    order := order.trans k.order
    served := waiting ▸ k.served }

/-- Who joins has everybody else before them. -/
theorem join (k : Lined joined admissions i) (new : r.id ∉ joined)
    (done : i.enqueue r now q = (.ok .queued, j, d)) :
    Lined (joined ++ [r.id]) admissions j := by
  obtain ⟨s, ⟨state, host, rfl⟩, rfl⟩ := queued_inv done
  refine ⟨k.scheduler, ?_, ?_, fun x hx => ?_, fun x hx => ?_, ?_⟩
  · exact List.nodup_append.mpr ⟨k.nodup, List.nodup_singleton _, fun x hx y hy same =>
      new (List.mem_singleton.mp hy ▸ same ▸ hx)⟩
  · have order := k.order
    rw [line_eq] at order ⊢
    rw [waiting, List.map_append, ← List.append_assoc]
    exact order.append_right _
  · exact List.mem_append_left _ (k.known x hx)
  · rw [waiting, List.map_append]
    rcases List.mem_append.mp hx with before | last
    · exact (k.served x before).imp_left (List.mem_append_left _)
    · exact .inl (List.mem_append_right _ last)
  · refine List.pairwise_append.mpr ⟨k.fair, List.pairwise_singleton _ _, fun x _ y hy past le in' => ?_⟩
    obtain ⟨ids, step, inside⟩ := List.mem_flatten.mp in'
    have known := k.known y (List.mem_flatten.mpr ⟨ids, le.subset step, inside⟩)
    exact absurd (List.mem_singleton.mp hy ▸ known) new

/-- A step admits those who have waited longest, if it admits anybody. -/
theorem serve {ids : List Nat} (k : Lined joined admissions i)
    (scheduler : j.scheduler = i.scheduler) (line : j.line = i.line)
    (admits : i.waiting = ids ++ j.waiting ∨ ids = [] ∧ i.waiting ⊆ j.waiting) :
    Lined joined (admissions ++ [ids]) j := by
  have waits : i.waiting.Sublist joined :=
    (line_eq i ▸ List.sublist_append_right _ _ : i.waiting.Sublist i.line).trans k.order
  have split : ∀ x ∈ i.waiting, x ∈ ids ∨ x ∈ j.waiting := by
    rcases admits with front | ⟨_, back⟩
    · rw [front]
      exact fun x hx => List.mem_append.mp hx
    · exact fun x hx => .inr (back hx)
  have whole : (admissions ++ [ids]).flatten = admissions.flatten ++ ids := by simp
  refine ⟨scheduler.trans k.scheduler, k.nodup, line ▸ k.order, fun x hx => ?_, fun x hx => ?_, ?_⟩
  · rcases List.mem_append.mp (whole ▸ hx) with before | now
    · exact k.known x before
    · rcases admits with front | ⟨none, _⟩
      · exact waits.subset (front ▸ List.mem_append_left _ now)
      · rw [none] at now
        cases now
  · rw [whole]
    rcases k.served x hx with still | before
    · exact (split x still).symm.imp_right (List.mem_append_right _)
    · exact .inr (List.mem_append_left _ before)
  · refine List.pairwise_iff_forall_sublist.mpr fun {a b} pair past le inside => ?_
    have fair := List.pairwise_iff_forall_sublist.mp k.fair pair
    rcases List.prefix_concat_iff.mp le with rfl | earlier
    · rw [whole] at inside ⊢
      rcases List.mem_append.mp inside with before | now
      · exact List.mem_append_left _ (fair admissions List.prefix_rfl before)
      · rcases k.served a (pair.subset List.mem_cons_self) with still | before
        · rcases split a still with admitted | stays
          · exact List.mem_append_right _ admitted
          · rcases admits with front | ⟨none, _⟩
            · have swapped : [b, a].Sublist (ids ++ j.waiting) :=
                (List.singleton_sublist.mpr now).append (List.singleton_sublist.mpr stays)
              exact absurd ((front ▸ swapped).trans waits) (not_sublist_swap k.nodup pair)
            · rw [none] at now
              cases now
        · exact List.mem_append_left _ before
    · exact fair past earlier inside

theorem step {latency : LatencyModel} (k : Lined joined admissions i)
    (done : i.step now latency q = .ok (j, d)) :
    ∃ o t, formBatch i.limits i.scheduler now ⟨i.running, i.queue, i.kv.setClock now⟩ =
      .ok (o, t) ∧ Lined joined (admissions ++ [o.admitted]) j := by
  obtain ⟨o, t, formed, stepped⟩ := step_cases done
  have forms := forms_of_ok formed
  rw [k.scheduler] at forms
  obtain ⟨line, admits⟩ := forms.ids
  refine ⟨o, t, formed, ?_⟩
  cases stepped with
  | rest empty ticks rings => exact k.serve rfl line admits
  | begin works ticks joins => exact k.serve rfl line admits

/-- At the end of a step requests only leave. -/
theorem complete {o : BatchOutcome} {report : StepReport} (k : Lined joined admissions i)
    (coherent : i.Coherent spec) (flight : i.inFlight = some o)
    (done : i.complete now q = (.ok report, j, d)) : Lined joined admissions j := by
  obtain ⟨s, stats, busy, settled, _, rfl, _⟩ := complete_cases coherent flight done
  refine k.narrow rfl ?_ rfl
  have stays := (settles_of_ok settled).ids
  have same : (i.running.map (advanced now o.scheduled)).map (·.id) = i.running.map (·.id) := by
    rw [List.map_map]
    refine List.map_congr_left fun r _ => ?_
    exact show (advanced now o.scheduled r).stem.id = r.stem.id by rw [advanced_stem]
  rw [line_eq, line_eq]
  exact (same ▸ stays).append_right _

theorem rescore (k : Lined joined admissions i) (rule : PriorityRule) :
    Lined joined admissions (i.reprioritize rule now) := by
  have same : ∀ rs : List Request,
      (rs.map fun r => { r with priority := rule.score r.view now }).map (·.id) = rs.map (·.id) :=
    fun rs => List.map_map
  have waiting : (i.reprioritize rule now).waiting = i.waiting := same i.queue
  refine k.narrow rfl ?_ waiting
  rw [line_eq, line_eq, waiting]
  exact (congrArg (· ++ i.waiting) (same i.running)) ▸ .refl _

end Lined
end Instance
end InferenceSim
