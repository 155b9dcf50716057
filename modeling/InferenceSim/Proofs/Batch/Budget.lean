import InferenceSim.Instance.Batch
import InferenceSim.Proofs.Results
import InferenceSim.Proofs.Totals

/-! The budget of a step. Every piece of work takes its tokens from what is left of the
budget, so no batch has more tokens than a step may compute. -/
namespace InferenceSim

def tokensOf (works : List ScheduledWork) : Nat := totalOf (works.map (·.newTokens))

@[simp] theorem tokensOf_cons (w : ScheduledWork) (works : List ScheduledWork) :
    tokensOf (w :: works) = w.newTokens + tokensOf works := totalOf_cons _ _

@[simp] theorem tokensOf_append (works others : List ScheduledWork) :
    tokensOf (works ++ others) = tokensOf works + tokensOf others := by
  rw [tokensOf, List.map_append, totalOf_append]
  rfl

/-- The tokens that some work computes of prompts, or of output. -/
def tokensIn (prompt : Bool) (works : List ScheduledWork) : Nat :=
  tokensOf (works.filter (·.isPrefill = prompt))

theorem tokensIn_cons (prompt : Bool) (w : ScheduledWork) (works : List ScheduledWork) :
    tokensIn prompt (w :: works) =
      (if w.isPrefill = prompt then w.newTokens else 0) + tokensIn prompt works := by
  rw [tokensIn, List.filter_cons]
  split
  · next own =>
    rw [tokensOf_cons, if_pos (of_decide_eq_true own)]
    rfl
  · next other =>
    rw [if_neg fun own => other (decide_eq_true own), Nat.zero_add]
    rfl

@[simp] theorem tokensIn_append (prompt : Bool) (works others : List ScheduledWork) :
    tokensIn prompt (works ++ others) = tokensIn prompt works + tokensIn prompt others := by
  rw [tokensIn, List.filter_append, tokensOf_append]
  rfl

namespace StepShape

/-- The tokens of a batch in the phase of prompts, or in that of output. -/
def tokens (s : StepShape) : (prompt : Bool) → Nat
  | true => s.prefillTokens
  | false => s.decodeTokens

/-- The shape of a batch with one more piece of work. -/
def add (s : StepShape) (w : ScheduledWork) : StepShape :=
  if w.isPrefill then
    { s with
      prefillTokens := s.prefillTokens + w.newTokens
      prefillRequests := s.prefillRequests + 1
      maxPrefillChunk := max s.maxPrefillChunk w.newTokens }
  else
    { s with
      decodeTokens := s.decodeTokens + w.newTokens
      decodeRequests := s.decodeRequests + 1 }

theorem tokens_add (s : StepShape) (w : ScheduledWork) (prompt : Bool) :
    (s.add w).tokens prompt =
      s.tokens prompt + if w.isPrefill = prompt then w.newTokens else 0 := by
  unfold add
  cases phase : w.isPrefill <;> cases prompt <;> rfl

theorem tokens_foldl_add (works : List ScheduledWork) (s : StepShape) (prompt : Bool) :
    (works.foldl add s).tokens prompt = s.tokens prompt + tokensIn prompt works := by
  induction works generalizing s with
  | nil => rfl
  | cons w rest ih => rw [List.foldl_cons, ih, tokens_add, tokensIn_cons, Nat.add_assoc]

end StepShape

theorem BatchOutcome.shape_tokens (o : BatchOutcome) (prompt : Bool) :
    o.shape.tokens prompt = tokensIn prompt o.scheduled := by
  have whole : o.shape.tokens prompt = StepShape.tokens {} prompt + tokensIn prompt o.scheduled :=
    StepShape.tokens_foldl_add o.scheduled {} prompt
  rw [whole]
  cases prompt <;> exact Nat.zero_add _

variable {limits : BatchLimits} {budget tokens : Nat}

theorem prefillChunk_le {remaining : Nat}
    (some : limits.prefillChunk remaining budget = some tokens) : tokens ≤ budget := by
  unfold BatchLimits.prefillChunk at some
  split at some
  · split at some
    · obtain rfl := Option.some.inj some
      assumption
    · cases some
  · obtain rfl := Option.some.inj some
    split <;> omega

theorem continuation_le {r : Request} (left : 0 < budget)
    (some : continuation limits r budget = some tokens) : tokens ≤ budget := by
  unfold continuation at some
  split at some
  · exact prefillChunk_le some
  · obtain rfl := Option.some.inj some
    exact left

theorem continueRunning_spends {fuel : Nat} {todo queue : List Request} {kv : KvCache}
    {k : Continued} (done : continueRunning limits fuel budget todo queue kv = .ok k) :
    tokensOf k.scheduled + k.budget = budget := by
  induction fuel generalizing budget todo queue kv k with
  | zero =>
      obtain rfl := Except.ok.inj done
      exact Nat.zero_add budget
  | succ fuel ih =>
      cases todo with
      | nil =>
          obtain rfl := Except.ok.inj done
          exact Nat.zero_add budget
      | cons r rest =>
          rw [continueRunning] at done
          split at done
          · obtain rfl := Except.ok.inj done
            exact Nat.zero_add budget
          next left =>
          split at done
          · obtain ⟨c, others, done⟩ := ok_of_bind done
            obtain rfl := Except.ok.inj done
            have spent := ih others
            exact spent
          next tokens going =>
          split at done
          · obtain ⟨c, others, done⟩ := ok_of_bind done
            obtain rfl := Except.ok.inj done
            have spent := ih others
            have atMost := continuation_le (Nat.pos_of_ne_zero left) going
            rw [tokensOf_cons]
            dsimp only
            omega
          · cases done
          · obtain ⟨⟨waits, left⟩, _, done⟩ := ok_of_bind done
            dsimp only at done
            split at done
            · obtain rfl := Except.ok.inj done
              exact Nat.zero_add budget
            · obtain ⟨c, others, done⟩ := ok_of_bind done
              obtain rfl := Except.ok.inj done
              have spent := ih others
              exact spent

theorem takeQueued_le {now running : Nat} {queue : List Request} {kv : KvCache} {a : Admitted}
    (done : takeQueued limits now queue running budget kv = .ok a) :
    tokensOf a.scheduled ≤ budget := by
  induction queue generalizing budget running kv a with
  | nil =>
      obtain rfl := Except.ok.inj done
      exact Nat.zero_le budget
  | cons head rest ih =>
      rw [takeQueued] at done
      split at done
      · next room =>
        obtain ⟨m, _, done⟩ := ok_of_bind done
        dsimp only at done
        split at done
        · obtain rfl := Except.ok.inj done
          exact Nat.zero_le budget
        next tokens going =>
        have atMost : tokens ≤ budget := by
          split at going
          · exact prefillChunk_le going
          · obtain rfl := Option.some.inj going
            exact room.2
        split at done
        · obtain rfl := Except.ok.inj done
          exact Nat.zero_le budget
        · cases done
        · split at done
          · cases done
          · obtain ⟨more, others, done⟩ := ok_of_bind done
            obtain rfl := Except.ok.inj done
            have spent := ih others
            rw [tokensOf_cons]
            dsimp only
            omega
      · obtain rfl := Except.ok.inj done
        exact Nat.zero_le budget

theorem formBatch_le {rule : SchedulerRule} {now : Nat} {s t : BatchState} {o : BatchOutcome}
    (formed : formBatch limits rule now s = .ok (o, t)) : tokensOf o.scheduled ≤ limits.maxTokens := by
  obtain ⟨c, continued, formed⟩ := ok_of_bind formed
  have spent := continueRunning_spends continued
  split at formed
  · obtain ⟨a, admitted, formed⟩ := ok_of_bind formed
    obtain ⟨rfl, _⟩ := Prod.mk.inj (Except.ok.inj formed)
    have entered := takeQueued_le admitted
    rw [tokensOf_append]
    omega
  · obtain ⟨rfl, _⟩ := Prod.mk.inj (Except.ok.inj formed)
    exact spent ▸ Nat.le_add_right _ _

end InferenceSim
