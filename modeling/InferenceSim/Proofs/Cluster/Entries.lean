import InferenceSim.Proofs.Cluster.Stories

/-! The log of a run. Every event that runs adds its entry, and the entries are in order of time,
since nothing is scheduled for a time that has passed. -/
namespace InferenceSim
namespace Cluster

def entries (c : Cluster) : List LoggedEvent := (c.eventLog.getD #[]).toList

/-- What runs is logged, and has been logged in order of time. -/
structure Recalls (c : Cluster) : Prop where
  logging : c.eventLog.isSome
  sorted : c.entries.Pairwise fun a b => a.time ≤ b.time
  past : ∀ x ∈ c.entries, x.time ≤ c.now

variable {config : Config} {rs : List Request} {b c d launched : Cluster} {l : Ledger} {e : Event}

/-- An event adds its entry to the log, and moves the clock to its time. -/
theorem Ran.adds (k : Coherent config rs [] c l) (g : Logged config rs c l) (ran : Ran c e b d)
    (logging : c.eventLog.isSome) :
    d.eventLog.isSome ∧ d.entries = c.entries ++ [.ofEvent e] ∧ c.now ≤ e.time ∧
      d.now = e.time := by
  obtain ⟨_, _, now, later, _⟩ := ran.begins k g
  obtain ⟨q, _, begun⟩ := ran.popped
  obtain ⟨_, _, _, leaves⟩ := ran.does
  obtain ⟨log, same⟩ := Option.isSome_iff_exists.mp logging
  have added : d.eventLog = some (log.push (.ofEvent e)) := by
    rw [leaves.eventLog, begin_inv begun]
    exact congrArg (Option.map _) same
  refine ⟨by rw [added]; rfl, ?_, later, ?_⟩
  · rw [entries, added, entries, same]
    exact Array.toList_push
  · exact (congrArg Clock.now leaves.clock).trans now

theorem eventLog_of_launch {trace : DecisionTrace} (made : new config trace = .ok c)
    (injected : c.withEventLog.injectAll rs = .ok d) (started : d.start = .ok launched) :
    launched.eventLog = some #[] := by
  obtain ⟨_, _, rfl⟩ := new_inv made
  obtain ⟨_, _, rfl⟩ := injectAll_inv injected
  obtain ⟨_, rfl⟩ := start_inv started
  rfl

namespace Recalls

theorem ran (k : Coherent config rs [] c l) (g : Logged config rs c l) (ran : Ran c e b d)
    (before : Recalls c) : Recalls d := by
  obtain ⟨logging, added, later, now⟩ := ran.adds k g before.logging
  refine ⟨logging, ?_, ?_⟩
  · rw [added]
    refine List.pairwise_append.mpr ⟨before.sorted, List.pairwise_singleton _ _, fun x hx y hy => ?_⟩
    rw [List.mem_singleton.mp hy]
    exact Nat.le_trans (before.past x hx) later
  · rw [added, now]
    refine fun x hx => ?_
    rcases List.mem_append.mp hx with old | new
    · exact Nat.le_trans (before.past x old) later
    · exact Nat.le_of_eq (congrArg LoggedEvent.time (List.mem_singleton.mp new))

theorem run (valid : config.cluster.Valid) (distinct : (rs.map (·.id)).Nodup)
    (k : Coherent config rs [] c l) (g : Logged config rs c l) (before : Recalls c) (limit : Nat) :
    Recalls (c.runEvents limit).2 :=
  run_keeps (fun _ c => Recalls c) valid distinct
    (fun k g ran _ before => before.ran k g ran) k g [] before limit

theorem of_launch {trace : DecisionTrace} (made : new config trace = .ok c)
    (injected : c.withEventLog.injectAll rs = .ok d) (started : d.start = .ok launched) :
    Recalls launched := by
  have empty := eventLog_of_launch made injected started
  refine ⟨by rw [empty]; rfl, ?_, ?_⟩
  all_goals rw [entries, empty]
  · exact .nil
  · exact List.forall_mem_nil _

end Recalls

theorem recordAnomalies_eventLog (c : Cluster) (s : RunSummary) :
    (c.recordAnomalies s).eventLog = c.eventLog := by
  obtain ⟨notes, same, _⟩ := recordAnomalies_inv c s
  rw [same]

theorem logged_launch_ok (valid : config.validate = .ok ()) (trace : DecisionTrace)
    (fresh : ∀ r ∈ rs, r.Fresh) :
    ∃ c d e, new config trace = .ok c ∧ c.withEventLog.injectAll rs = .ok d ∧ d.start = .ok e ∧
      Coherent config rs [] e {} ∧ Logged config rs e {} ∧ Recalls e := by
  obtain ⟨c, made, empty⟩ := new_ok valid trace
  obtain ⟨d, injected, loaded⟩ := injectAll_ok empty.withEventLog fresh
  obtain ⟨e, started, coherent, logged⟩ := start_ok loaded
  exact ⟨c, d, e, made, injected, started, coherent, logged, .of_launch made injected started⟩

theorem logged_run_ok (valid : config.cluster.Valid) (distinct : (rs.map (·.id)).Nodup)
    (started : d.start = .ok launched) (k : Coherent config rs [] launched l)
    (g : Logged config rs launched l) (recalls : Recalls launched) :
    ∃ s f, d.run = (.ok s, f) ∧ f.eventLog.isSome ∧
      f.entries = (launched.runEvents eventLimit).2.entries := by
  obtain ⟨f, _, ran, _, _⟩ := runEvents_ok valid distinct k g eventLimit
  have logging := (recalls.run valid distinct k g eventLimit).logging
  rw [ran] at logging
  refine ⟨f.summary, f.recordAnomalies f.summary, ?_, ?_, ?_⟩
  · rw [Cluster.run, started]
    dsimp only
    rw [ran]
  · rwa [recordAnomalies_eventLog]
  · rw [ran, entries, recordAnomalies_eventLog, entries]

end Cluster
end InferenceSim
