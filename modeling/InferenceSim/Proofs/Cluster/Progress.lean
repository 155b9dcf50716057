import InferenceSim.Proofs.Batch.Boundary
import InferenceSim.Proofs.Cluster.Laws

/-! Every step makes progress. A batch that preempts everyone else still has room for its oldest
request, so an instance with anything to do never falls asleep and never has to try again: unless
32 bits cannot count the tokens of its requests. -/
namespace InferenceSim

/-- A step that began with the batch `o`. The oldest request of the batch before it, if there
is one, keeps its place and its blocks, and has work. -/
structure Instance.Progresses (i : Instance) (o : BatchOutcome) (j : Instance) : Prop where
  flight : j.inFlight = some o
  tokens : 0 < tokensOf o.scheduled
  oldest : ∀ r rest, i.running = r :: rest → (∃ rest', j.running = r :: rest') ∧
    r.id ∉ o.preempted ∧ ∃ w ∈ o.scheduled, w.request = r.id ∧ 0 < w.newTokens

theorem tokensOf_pos {works : List ScheduledWork} {w : ScheduledWork} (inside : w ∈ works)
    (computes : 0 < w.newTokens) : 0 < tokensOf works :=
  Nat.lt_of_lt_of_le computes (le_totalOf (List.mem_map_of_mem inside))

section
variable {spec : InstanceSpec} {i j : Instance} {now : Nat} {latency : LatencyModel}
  {q d : EventQueue}

theorem Instance.step_progresses (usable : spec.Usable) (k : i.Coherent spec)
    (some : i.running ++ i.queue ≠ []) (counted : ∀ r ∈ i.running ++ i.queue, r.Counted)
    (done : i.step now latency q = .ok (j, d)) : ∃ o, i.Progresses o j := by
  obtain ⟨o, t, formed, stepped⟩ := step_cases done
  obtain ⟨o', t', formed', f⟩ := k.formed usable now
  obtain ⟨rfl, rfl⟩ := Prod.mk.inj (Except.ok.inj (formed.symm.trans formed'))
  have forms := forms_of_ok formed
  obtain ⟨head, others, split, w, hw, own⟩ := f.works_of_counted some counted
  cases stepped with
  | rest empty =>
      exact absurd (f.nothing_of_counted empty counted) some
  | begin works ticks joins =>
      refine ⟨o, rfl, tokensOf_pos hw (forms.computes w hw), ?_⟩
      intro r rest before
      obtain ⟨rest', after⟩ := f.first_of_counted counted before
      obtain ⟨rfl, rfl⟩ := List.cons.inj (split.symm.trans after)
      refine ⟨⟨others, split⟩, ?_, w, hw, own, forms.computes w hw⟩
      intro preempted
      obtain ⟨_, out⟩ := forms.preempts (k.clocked now).nodup_running head.id preempted
      rw [split] at out
      exact out List.mem_cons_self

end

namespace Cluster

/-- The instance whose step the next event is, if it is one. -/
def stepping? (c : Cluster) : Option Nat :=
  match c.events.pop? with
  | some (⟨_, _, .step id⟩, _) => some id
  | _ => none

variable {config : Config} {rs : List Request} {b c d : Cluster} {l : Ledger} {e : Event}
  {id : Nat} {i : Instance}

theorem Ran.stepping (ran : Ran c e b d) (own : c.stepping? = some id) : e.action = .step id := by
  obtain ⟨q, popped, _⟩ := ran.popped
  obtain ⟨time, number, action⟩ := e
  rw [stepping?, popped] at own
  cases action with
  | step host =>
      obtain rfl := Option.some.inj own
      rfl
  | _ => cases own

theorem Coherent.progresses (valid : config.cluster.Valid) (distinct : (rs.map (·.id)).Nodup)
    (k : Coherent config rs [] c l) (g : Logged config rs c l) (counted : ∀ r ∈ rs, r.Counted)
    (own : c.stepping? = some id) (at' : c.instances[id]? = some i)
    (some : i.running ++ i.queue ≠ []) (goes : c.step ≠ none) :
    ∃ d j o, c.step = .some (.ok (), d) ∧ d.instances[id]? = .some j ∧ i.Progresses o j := by
  rcases Cluster.step_ok valid distinct k g with none | ⟨d, l', stepped, k', _⟩
  · exact absurd none goes
  · obtain ⟨e, b, ran⟩ := ran_of_step stepped
    obtain ⟨_, instances, _⟩ := ran.begins k g
    have before : b.instances[id]? = .some i := instances ▸ at'
    obtain ⟨j, after, turn⟩ := ran.effect.turns before
    rw [ran.stepping own] at turn
    refine ⟨d, j, ?_⟩
    cases turn with
    | rest other => exact absurd rfl other
    | step done =>
        obtain ⟨o, progresses⟩ :=
          Instance.step_progresses valid.usable (k.employs id i at').coherent some
            (k.counted_at counted at') done
        exact ⟨o, stepped, after, progresses⟩

/-- However far a run has come, a step that is next for an instance with requests succeeds and
computes at least one token. If there is a batch, its oldest request has work and is not
preempted, so no request behind it can keep it from its end. The tokens of each request are to be
counted in 32 bits. -/
theorem steps_progress (valid : config.validate = .ok ()) (trace : DecisionTrace)
    (fresh : ∀ r ∈ rs, r.Fresh) (distinct : (rs.map (·.id)).Nodup)
    (counted : ∀ r ∈ rs, r.Counted) :
    ∃ c d e, new config trace = .ok c ∧ c.injectAll rs = .ok d ∧ d.start = .ok e ∧
      ∀ limit id i, (e.runEvents limit).2.stepping? = some id →
        (e.runEvents limit).2.instances[id]? = some i → i.running ++ i.queue ≠ [] →
        (e.runEvents limit).2.step ≠ none →
        ∃ g j o, (e.runEvents limit).2.step = some (.ok (), g) ∧ g.instances[id]? = some j ∧
          i.Progresses o j := by
  have promised := promised_of_validate valid
  obtain ⟨c, d, e, made, injected, started, _, coherent, logged⟩ := launch_ok valid trace fresh
  refine ⟨c, d, e, made, injected, started, ?_⟩
  intro limit id i own at' some goes
  obtain ⟨f, l, ran, k, g⟩ := runEvents_ok promised.valid distinct coherent logged limit
  rw [ran] at own at' goes ⊢
  exact k.progresses promised.valid distinct g counted own at' some goes

theorem default_steps_progress : ∃ c d e, new {} .off = .ok c ∧
    c.injectAll [{ id := 6, arrivalTime := 0, inputTokens := 90, outputTokens := 3 },
      { id := 4, arrivalTime := 5, inputTokens := 20, outputTokens := 2 }] = .ok d ∧
    d.start = .ok e ∧
    ∀ limit id i, (e.runEvents limit).2.stepping? = some id →
      (e.runEvents limit).2.instances[id]? = some i → i.running ++ i.queue ≠ [] →
      (e.runEvents limit).2.step ≠ none →
      ∃ g j o, (e.runEvents limit).2.step = some (.ok (), g) ∧ g.instances[id]? = some j ∧
        i.Progresses o j :=
  steps_progress rfl .off
    (List.forall_mem_cons.mpr ⟨rfl, List.forall_mem_singleton.mpr rfl⟩) (by decide) (by decide)

end Cluster
end InferenceSim
