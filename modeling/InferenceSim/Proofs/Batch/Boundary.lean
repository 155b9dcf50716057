import InferenceSim.Proofs.Batch.Holdings
import InferenceSim.Proofs.Batch.Budget
import InferenceSim.Proofs.Kv.Capacity
import InferenceSim.Proofs.Kv.Contents

/-! A batch as the place in one line. The running requests stand before those that wait, in the
order of the scheduler; forming a batch moves the place where the first ones end, and nothing
else. It never fails, whatever the limits are and whether or not the requests fit. -/
namespace InferenceSim
open KvCache

/-- A batch and a queue before a step: only running requests hold blocks, and what each of them
holds backs what it has computed. -/
structure BatchState.Level (s : BatchState) : Prop where
  nodup : ((s.running ++ s.queue).map (·.id)).Nodup
  waits : ∀ r ∈ s.queue, r.state = .queued
  runs : ∀ r ∈ s.running, r.state = .running
  alone : ∀ id : Nat, s.kv.heldBy id ≠ [] → id ∈ s.running.map (·.id)
  level : ∀ r ∈ s.running, (s.kv.tokens? r.id).getD 0 = r.progress

section
variable {limits : BatchLimits} {rule : SchedulerRule} {budget running now : Nat}
  {todo queue : List Request} {kv : KvCache} {k : Continued} {a : Admitted} {s t : BatchState}
  {o : BatchOutcome}

theorem Continues.computes (c : Continues limits budget todo queue kv k) :
    ∀ w ∈ k.scheduled, 1 ≤ w.newTokens := by
  induction c with
  | idle => exact List.forall_mem_nil _
  | pass left waits more ih => exact ih
  | work left going allocated more ih =>
      exact List.forall_mem_cons.mpr ⟨(continuation_reaches left going).1, ih⟩
  | preempt left going failed split gone more ih => exact ih

theorem Enters.computes (c : Enters limits now queue running budget kv a) :
    ∀ w ∈ a.scheduled, 1 ≤ w.newTokens := by
  induction c with
  | stop => exact List.forall_mem_nil _
  | full failed => exact List.forall_mem_nil _
  | enter room begins going allocated entered more ih =>
      exact List.forall_mem_cons.mpr ⟨(entry_reaches room.2 begins going).1, ih⟩

theorem Enters.length_le (c : Enters limits now queue running budget kv a) :
    running + a.entered.length ≤ max running limits.maxRunning := by
  induction c with
  | stop => exact Nat.le_max_left _ _
  | full failed => exact Nat.le_max_left _ _
  | enter room begins going allocated entered more ih =>
      rw [List.length_cons]
      omega

theorem Enters.works_held (c : Enters limits now queue running budget kv a) (sound : kv.Sound)
    (nodup : (queue.map (·.id)).Nodup) (unheld : ∀ r ∈ queue, kv.tokens? r.id = none) :
    ∀ w ∈ a.scheduled, a.kv.tokens? w.request = some w.progressAfter := by
  obtain ⟨_, provided, _⟩ := c.provides sound nodup unheld
  intro w hw
  obtain ⟨r, hr, own, _⟩ := c.works w hw
  obtain ⟨n, holds, backs⟩ := provided r hr
  rw [own, holds, backs.ahead w hw own]

namespace BatchState.Level

theorem nodup_running (k : s.Level) : (s.running.map (·.id)).Nodup := by
  have nodup := k.nodup
  rw [List.map_append] at nodup
  exact (List.nodup_append.mp nodup).1

theorem nodup_sorted (k : s.Level) (rule : SchedulerRule) :
    ((rule.sort Request.view s.queue).map (·.id)).Nodup := by
  have nodup := k.nodup
  rw [List.map_append] at nodup
  exact ((List.mergeSort_perm _ _).map _).nodup_iff.mpr (List.nodup_append.mp nodup).2.1

theorem apart (k : s.Level) {r q : Request} (hr : r ∈ s.running) (hq : q ∈ s.queue) :
    r.id ≠ q.id := by
  have nodup := k.nodup
  rw [List.map_append] at nodup
  exact (List.nodup_append.mp nodup).2.2 r.id (List.mem_map_of_mem hr) q.id
    (List.mem_map_of_mem hq)

theorem upto (k : s.Level) : ∀ r ∈ s.running, ∀ n, s.kv.tokens? r.id = some n → n ≤ r.progress := by
  intro r hr n held
  have level := k.level r hr
  rw [held] at level
  exact Nat.le_of_eq level

theorem unheld (k : s.Level) (sound : s.kv.Sound) : ∀ q ∈ s.queue, s.kv.tokens? q.id = none := by
  intro q hq
  refine Option.not_isSome_iff_eq_none.mp fun own => ?_
  obtain ⟨r, hr, same⟩ := List.mem_map.mp (k.alone q.id (sound.heldBy_ne_nil.mpr own))
  exact k.apart hr hq same

end BatchState.Level

/-- What is held once a batch was formed: as much as the work in it needs, and nothing for those
who were preempted. -/
theorem Forms.holds (c : Forms limits rule now s o t) (sound : s.kv.Sound) (level : s.Level) :
    (∀ w ∈ o.scheduled, t.kv.tokens? w.request = some w.progressAfter) ∧
      ∀ id ∈ o.preempted, t.kv.tokens? id = none := by
  cases c with
  | tight continued some =>
      have carried := continued.carries sound level.nodup_running level.upto
      exact ⟨carried.works, carried.gone⟩
  | @calm k a continued none entered =>
      have carried := continued.carries sound level.nodup_running level.upto
      rw [continued.calm none] at entered
      have unheld : ∀ q ∈ rule.sort Request.view s.queue, k.kv.tokens? q.id = .none := by
        intro q hq
        rw [carried.spared q.id fun listed => ?_]
        · exact level.unheld sound q (mem_sort.mp hq)
        · obtain ⟨r, hr, same⟩ := List.mem_map.mp listed
          exact level.apart hr (mem_sort.mp hq) same
      have nodup := level.nodup_sorted rule
      refine ⟨fun w hw => ?_, List.forall_mem_nil _⟩
      rcases List.mem_append.mp hw with went | came
      · obtain ⟨_, _, spared⟩ := entered.provides carried.sound nodup unheld
        obtain ⟨r, hr, own, _⟩ := continued.works w went
        rw [spared w.request fun listed => ?_]
        · exact carried.works w went
        · obtain ⟨q, hq, same⟩ := List.mem_map.mp listed
          exact level.apart (continued.running_mem r hr) (mem_sort.mp hq) (own.symm.trans same.symm)
      · exact entered.works_held carried.sound nodup unheld w came

theorem Forms.computes (c : Forms limits rule now s o t) : ∀ w ∈ o.scheduled, 1 ≤ w.newTokens := by
  cases c with
  | tight continued some => exact continued.computes
  | calm continued none entered =>
      exact List.forall_mem_append.mpr ⟨continued.computes, entered.computes⟩

theorem Forms.length_le (c : Forms limits rule now s o t) :
    t.running.length ≤ max s.running.length limits.maxRunning := by
  cases c with
  | @tight k continued some =>
      obtain ⟨gone, split, _⟩ := continued.split
      show k.running.length ≤ _
      rw [split, List.length_append]
      omega
  | calm continued none entered =>
      obtain ⟨gone, split, _⟩ := continued.split
      have room := entered.length_le
      rw [split, List.length_append, List.length_append]
      omega

theorem Forms.admits (c : Forms limits rule now s o t) :
    ∃ stay entered, t.running = stay ++ entered ∧ o.admitted = entered.map (·.id) ∧
      stay <+: s.running ∧ (o.preempted = [] → stay = s.running) ∧
      (o.preempted ≠ [] → entered = []) := by
  cases c with
  | @tight k continued some =>
      obtain ⟨gone, split, _⟩ := continued.split
      exact ⟨k.running, [], (List.append_nil _).symm, rfl, ⟨gone, split.symm⟩,
        fun none => absurd none some, fun _ => rfl⟩
  | @calm k a continued none entered =>
      have stays := continued.stays none
      exact ⟨k.running, a.entered, rfl, rfl, stays ▸ List.prefix_refl _, fun _ => stays,
        fun some => absurd rfl some⟩

/-- Who was preempted waits, from the beginning, and runs no more. -/
theorem Forms.preempts (c : Forms limits rule now s o t) (nodup : (s.running.map (·.id)).Nodup) :
    ∀ id ∈ o.preempted, (∃ r ∈ s.running, r.id = id ∧ preempted r ∈ t.queue) ∧
      id ∉ t.running.map (·.id) := by
  cases c with
  | calm => exact List.forall_mem_nil _
  | tight continued some =>
      obtain ⟨gone, split, waits, ids⟩ := continued.split
      rw [split, List.map_append] at nodup
      intro id hid
      rw [ids] at hid
      obtain ⟨r, hr, rfl⟩ := List.mem_map.mp hid
      have hr := List.mem_reverse.mp hr
      refine ⟨⟨r, ?_, rfl, ?_⟩, fun runs => ?_⟩
      · rw [split]
        exact List.mem_append_right _ hr
      · rw [waits]
        exact List.mem_append_left _ (List.mem_map_of_mem hr)
      · exact (List.nodup_append.mp nodup).2.2 r.id runs r.id (List.mem_map_of_mem hr) rfl

end

end InferenceSim
