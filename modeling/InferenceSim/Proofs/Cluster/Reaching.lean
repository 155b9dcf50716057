import InferenceSim.Proofs.Cluster.Laws

/-! The states that a cluster can come to, whatever happens to it: requests arrive, runs start, and
events run or fail. What holds of new clusters and is kept by all of these holds of every state. -/
namespace InferenceSim
namespace Cluster

/-- The states of clusters of a configuration, between events, before runs and after them. -/
inductive Reachable (config : Config) : Cluster → Prop
  | new {trace : DecisionTrace} {c : Cluster} (made : new config trace = .ok c) :
      Reachable config c
  | log {c : Cluster} (k : Reachable config c) : Reachable config c.withEventLog
  | inject {c d : Cluster} {r : Request} (k : Reachable config c) (done : c.inject r = .ok d) :
      Reachable config d
  | start {c d : Cluster} (k : Reachable config c) (done : c.start = .ok d) : Reachable config d
  | step {c d : Cluster} {out : Except Fault Unit} (k : Reachable config c)
      (stepped : c.step = some (out, d)) : Reachable config d
  | note {c : Cluster} (k : Reachable config c) (s : RunSummary) :
      Reachable config (c.recordAnomalies s)

theorem runEvents_always (holds : Cluster → Prop)
    (keeps : ∀ {c d : Cluster} {out : Except Fault Unit}, c.step = some (out, d) → holds c → holds d)
    {c : Cluster} (start : holds c) (limit : Nat) : holds (c.runEvents limit).2 := by
  induction limit generalizing c with
  | zero => exact start
  | succ limit ih =>
      rw [runEvents]
      cases stepped : c.step with
      | none => exact start
      | some next =>
          obtain ⟨out, d⟩ := next
          cases out with
          | error f => exact keeps stepped start
          | ok => exact ih (keeps stepped start)

namespace Reachable
variable {config : Config} {c d : Cluster} {rs : List Request}

/-- Only a valid configuration makes a cluster. -/
theorem promised (k : Reachable config c) : Promised config := by
  induction k with
  | new made =>
      obtain ⟨⟨⟩, valid, _⟩ := ok_of_bind made
      exact promised_of_validate valid
  | log _ ih | inject _ _ ih | start _ _ ih | step _ _ ih | note _ _ ih => exact ih

theorem injectAll (k : Reachable config c) (done : c.injectAll rs = .ok d) :
    Reachable config d := by
  induction rs generalizing c with
  | nil =>
      obtain rfl := Except.ok.inj done
      exact k
  | cons r rest ih =>
      obtain ⟨b, first, done⟩ := ok_of_bind done
      exact ih (k.inject first) done

theorem runEvents (k : Reachable config c) (limit : Nat) :
    Reachable config (c.runEvents limit).2 :=
  runEvents_always (Reachable config) (fun stepped k => k.step stepped) k limit

theorem run (k : Reachable config c) : Reachable config c.run.2 := by
  unfold Cluster.run
  cases started : c.start with
  | error f => exact k
  | ok d =>
      have ran := (k.start started).runEvents eventLimit
      obtain ⟨out, e, done⟩ : ∃ out e, d.runEvents eventLimit = (out, e) := ⟨_, _, rfl⟩
      rw [done] at ran
      simp only [done]
      cases out with
      | error f => exact ran
      | ok => exact ran.note _

theorem runWith (k : Reachable config c) (rs : List Request) :
    Reachable config (c.runWith rs).2 := by
  unfold Cluster.runWith
  cases injected : c.injectAll rs with
  | error f => exact k
  | ok d => exact (k.injectAll injected).run

end Reachable
end Cluster
end InferenceSim
