import InferenceSim.Proofs.Batch.Fitting

/-! Continuing the running requests. Each round settles the first of those that are left
or preempts the last, so the requests that go on running are the first ones; the very
first one computes something, or no request is left. -/
namespace InferenceSim

theorem prefillChunk_bounds {l : BatchLimits} {remaining budget tokens : Nat}
    (some : l.prefillChunk remaining budget = some tokens) (more : 0 < remaining)
    (left : 0 < budget) : 0 < tokens ∧ tokens ≤ budget ∧ tokens ≤ remaining := by
  unfold BatchLimits.prefillChunk at some
  split at some
  · split at some
    · obtain rfl := Option.some.inj some
      omega
    · cases some
  · obtain rfl := Option.some.inj some
    split <;> omega

theorem prefillChunk_isSome {l : BatchLimits} {remaining budget : Nat}
    (fits : l.chunkedPrefill = false → remaining ≤ budget) :
    ∃ tokens, l.prefillChunk remaining budget = some tokens := by
  unfold BatchLimits.prefillChunk
  split
  · next whole => exact ⟨remaining, if_pos (fits (by simpa using whole))⟩
  · exact ⟨_, rfl⟩

section
variable {spec : InstanceSpec} {r : Request} {budget tokens : Nat}

theorem continuation_bounds (resident : Resident spec r)
    (some : continuation spec.limits r budget = some tokens) (left : 0 < budget) :
    0 < tokens ∧ tokens ≤ budget ∧ r.progress + tokens ≤ r.span := by
  have prompt := r.inputTokens_le_span
  have unfinished := resident.unfinished
  unfold continuation at some
  split at some
  · next inPrefill =>
    rw [Request.inPrefill, decide_eq_true_eq] at inPrefill
    have bounds := prefillChunk_bounds some (by rw [Request.remainingPrefill]; omega) left
    rw [Request.remainingPrefill] at bounds
    omega
  · obtain rfl := Option.some.inj some
    omega

theorem continuation_isSome (resident : Resident spec r) :
    ∃ tokens, continuation spec.limits r spec.limits.maxTokens = some tokens := by
  unfold continuation
  split
  · refine prefillChunk_isSome fun whole => ?_
    have fits := InstanceSpec.budget_of_serves resident.serves whole
    rw [Request.remainingPrefill]
    omega
  · exact ⟨1, rfl⟩

end

/-- Every piece of work brings one of the requests further, and not beyond its end. -/
def Advances (running : List Request) (works : List ScheduledWork) : Prop :=
  ∀ w ∈ works, ∃ r ∈ running, w.request = r.id ∧
    r.progress < w.progressAfter ∧ w.progressAfter ≤ r.span

def HeadWorks (running : List Request) (works : List ScheduledWork) : Prop :=
  ∃ r rest, running = r :: rest ∧ ∃ w ∈ works, w.request = r.id

/-- No request goes on: the blocks that its length asks for were not there. It takes a request
whose tokens 32 bits cannot count. -/
structure Starves (requests running : List Request) (works : List ScheduledWork) : Prop where
  running : running = []
  works : works = []
  uncounted : ∃ r ∈ requests, ¬r.Counted

theorem Starves.mono {some more running : List Request} {works : List ScheduledWork}
    (k : Starves some running works) (sub : ∀ r ∈ some, r ∈ more) : Starves more running works where
  running := k.running
  works := k.works
  uncounted := by
    obtain ⟨r, hr, uncounted⟩ := k.uncounted
    exact ⟨r, sub r hr, uncounted⟩

/-- The running requests once they were continued, and those that were preempted. -/
structure ContinuedFrom (spec : InstanceSpec) (before todo queue : List Request) (k : Continued) :
    Prop where
  fitting : Fitting spec (before ++ k.running) k.queue k.kv
  split : ∃ gone, todo = k.running ++ gone ∧ k.queue = gone.map preempted ++ queue ∧
    k.preempted = gone.reverse.map (·.id)
  advances : Advances k.running k.scheduled

theorem Advances.mono {running more : List Request} {works : List ScheduledWork}
    (h : Advances running works) (sub : ∀ r ∈ running, r ∈ more) : Advances more works := by
  intro w hw
  obtain ⟨r, hr, rest⟩ := h w hw
  exact ⟨r, sub r hr, rest⟩

/-- The work of a request brings it further, and not beyond its end. -/
theorem Advances.within {running : List Request} {works : List ScheduledWork} {r : Request}
    (h : Advances running works) (nodup : (running.map (·.id)).Nodup) (hr : r ∈ running) :
    ∀ w ∈ works, w.request = r.id →
      r.progress < w.progressAfter ∧ w.progressAfter ≤ r.span := by
  intro w hw own
  obtain ⟨s, hs, same, bounds⟩ := h w hw
  rwa [Request.eq_of_id nodup hs hr (same.symm.trans own)] at bounds

namespace ContinuedFrom
variable {spec : InstanceSpec} {before todo rest queue : List Request} {kv : KvCache} {r : Request}
  {c : Continued}

theorem idle (k : Fitting spec (before ++ todo) queue kv) (budget : Nat) :
    ContinuedFrom spec before todo queue
      { running := todo, scheduled := [], preempted := [], queue, kv, budget } where
  fitting := k
  split := ⟨[], (List.append_nil _).symm, rfl, rfl⟩
  advances := List.forall_mem_nil _

theorem pass (k : ContinuedFrom spec (before ++ [r]) rest queue c) :
    ContinuedFrom spec before (r :: rest) queue { c with running := r :: c.running } where
  fitting := by
    have fitting := k.fitting
    rw [List.append_assoc] at fitting
    exact fitting
  split := by
    obtain ⟨gone, todo, waits, ids⟩ := k.split
    exact ⟨gone, congrArg (r :: ·) todo, waits, ids⟩
  advances := k.advances.mono fun s hs => List.mem_cons_of_mem r hs

theorem work {w : ScheduledWork} (own : w.request = r.id)
    (further : r.progress < w.progressAfter) (upto : w.progressAfter ≤ r.span)
    (k : ContinuedFrom spec (before ++ [r]) rest queue c) :
    ContinuedFrom spec before (r :: rest) queue
      { c with running := r :: c.running, scheduled := w :: c.scheduled } where
  fitting := k.pass.fitting
  split := k.pass.split
  advances := by
    intro v hv
    rcases List.mem_cons.mp hv with rfl | later
    · exact ⟨r, List.mem_cons_self, own, further, upto⟩
    · exact k.pass.advances v later

theorem preempt {last : Request}
    (k : ContinuedFrom spec before todo (preempted last :: queue) c) :
    ContinuedFrom spec before (todo ++ [last]) queue
      { c with preempted := last.id :: c.preempted } where
  fitting := k.fitting
  split := by
    obtain ⟨gone, todo, waits, ids⟩ := k.split
    refine ⟨gone ++ [last], ?_, ?_, ?_⟩
    · rw [todo, List.append_assoc]
    · rw [waits, List.map_append, List.append_assoc]
      rfl
    · rw [List.reverse_append, List.map_append, ids]
      rfl
  advances := k.advances

end ContinuedFrom

theorem continueRunning_ok {spec : InstanceSpec} (usable : spec.Usable) (fuel budget : Nat)
    {before todo queue : List Request} {kv : KvCache} (enough : todo.length ≤ fuel)
    (k : Fitting spec (before ++ todo) queue kv) :
    ∃ c, continueRunning spec.limits fuel budget todo queue kv = .ok c ∧
      ContinuedFrom spec before todo queue c ∧
      (before = [] → budget = spec.limits.maxTokens → todo ≠ [] →
        HeadWorks c.running c.scheduled ∨ Starves todo c.running c.scheduled) := by
  -- `before` has the requests that were passed: only where it is empty the head of `todo` is
  -- the head of all, and the batch must give it work
  induction fuel generalizing before todo queue kv budget with
  | zero =>
      have none : todo = [] := List.eq_nil_of_length_eq_zero (Nat.le_zero.mp enough)
      exact ⟨_, rfl, .idle k budget, fun _ _ some => absurd none some⟩
  | succ fuel ih =>
      cases todo with
      | nil => exact ⟨_, rfl, .idle k budget, fun _ _ some => absurd rfl some⟩
      | cons r rest =>
          have shorter : rest.length ≤ fuel := Nat.le_of_succ_le_succ enough
          have passed : Fitting spec ((before ++ [r]) ++ rest) queue kv := by
            rw [List.append_assoc]
            exact k
          have inside : r ∈ before ++ r :: rest :=
            List.mem_append_right _ List.mem_cons_self
          have resident := (k.runs r inside).2
          by_cases spent : budget = 0
          · refine ⟨_, by rw [continueRunning, if_pos spent], .idle k budget, fun _ whole _ => ?_⟩
            exact absurd (whole.symm.trans spent) (Nat.ne_of_gt usable.maxTokens)
          cases going : continuation spec.limits r budget with
          | none =>
              obtain ⟨c, done, continued, _⟩ := ih budget shorter passed
              refine ⟨_, ?_, continued.pass, fun _ whole _ => ?_⟩
              · simp only [continueRunning, spent, if_false, going, done]
                rfl
              · obtain ⟨tokens, goesOn⟩ := continuation_isSome resident
                rw [whole, goesOn] at going
                cases going
          | some tokens =>
              have bounds := continuation_bounds resident going (Nat.pos_of_ne_zero spent)
              rcases k.allocate_running usable inside bounds.2.2 with
                ⟨a, d, allocated, lent⟩ | ⟨needed, available, failed, others⟩
              · have lent' : Fitting spec ((before ++ [r]) ++ rest) queue d := by
                  rw [List.append_assoc]
                  exact lent
                obtain ⟨c, done, continued, _⟩ := ih (budget - tokens) shorter lent'
                refine ⟨_, ?_, continued.work (w := ⟨r.id, tokens, r.progress + tokens, r.inPrefill⟩)
                  rfl (Nat.lt_add_of_pos_right bounds.1) bounds.2.2,
                  fun _ _ _ => .inl ⟨r, c.running, rfl, _, List.mem_cons_self, rfl⟩⟩
                simp only [continueRunning, spent, if_false, going, allocated, done]
                rfl
              · obtain ⟨last, d, ends, split, gone, fitting⟩ :=
                  k.preempt_last (List.cons_ne_nil r rest)
                cases rest with
                | nil =>
                    have left : ContinuedFrom spec before [] (preempted last :: queue) _ :=
                      .idle fitting budget
                    have whole := left.preempt
                    rw [List.nil_append, show [last] = [r] from split.symm] at whole
                    refine ⟨_, ?_, whole, fun first _ _ => .inr ⟨rfl, rfl, r, List.mem_cons_self,
                      fun counted => others counted (by rw [first]; rfl)⟩⟩
                    simp only [continueRunning, spent, if_false, going, failed, ends, gone]
                    rfl
                | cons second rest =>
                    obtain ⟨c, done, continued, head⟩ := ih budget (by
                      rw [List.length_dropLast]
                      exact shorter) fitting
                    have whole := continued.preempt
                    rw [← split] at whole
                    refine ⟨_, ?_, whole, fun first all _ =>
                      (head first all (List.cons_ne_nil r _)).imp_right fun starves =>
                        starves.mono fun _ inside => (List.dropLast_sublist _).subset inside⟩
                    simp only [continueRunning, spent, if_false, going, failed, ends, gone]
                    simp only [List.isEmpty_cons, bind, Except.bind, done]
                    rfl

end InferenceSim
