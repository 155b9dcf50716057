import InferenceSim.Proofs.Batch.Shares
import InferenceSim.Proofs.Instance.Charging

/-! What an instance has computed, and for whom. An instance counts the tokens of a batch when its
step begins and the requests are brought further at its end, so its requests are taken as the batch
in flight will leave them. The tokens beyond their shares are those for requests that have left. -/
namespace InferenceSim

namespace Request
variable {blockSize : Nat} {prompt : Bool} {r s : Request} {now : Nat}

theorem Untouched.poised (k : r.Untouched) : r.Poised := .ahead k.start (k.free .hits)

theorem Poised.rescored (k : r.Poised) (priority : Priority) : Poised { r with priority } := by
  cases k with
  | ahead start hits => exact .ahead start hits
  | past computed => exact .past computed

theorem Poised.joined (k : r.Poised) (joined : r.Joined now s) : s.Poised := by
  obtain ⟨state, host, rfl⟩ := joined.same
  cases k with
  | ahead start hits => exact .ahead start hits
  | past computed => exact .past computed

/-- A request has no share as long as it has not run. -/
theorem Untouched.share (k : r.Untouched) : r.share blockSize prompt = 0 := by
  have hits : r.cacheHitBlocks = 0 := k.free .hits
  cases prompt <;> simp [Request.share, k.start, hits]

end Request

namespace Instance

/-- The requests of an instance as the batch in flight will leave them. -/
def ahead (i : Instance) : List Request := i.running.map (advanced 0 i.works) ++ i.queue

/-- The tokens that an instance has computed beyond the shares of its requests. -/
def surplus (blockSize : Nat) (prompt : Bool) (i : Instance) : Int :=
  i.stats.tokens prompt - sharesOf blockSize prompt i.ahead

variable {spec : InstanceSpec} {i j : Instance} {r s : Request} {now blockSize : Nat} {prompt : Bool}
  {q d : EventQueue}

theorem ahead_of_ready (ready : i.inFlight = none) : i.ahead = i.requests := by
  rw [ahead, works_of_ready ready, map_advanced_none (List.forall_mem_nil _), requests]

theorem surplus_new (id : Nat) (role : Role) (rule : SchedulerRule) :
    (Instance.new id role spec rule).surplus blockSize prompt = 0 := by
  cases prompt <;> rfl

theorem surplus_reprioritize (rule : PriorityRule) :
    (i.reprioritize rule now).surplus blockSize prompt = i.surplus blockSize prompt := by
  have runs : sharesOf blockSize prompt ((i.reprioritize rule now).running.map (advanced 0 i.works)) =
      sharesOf blockSize prompt (i.running.map (advanced 0 i.works)) := by
    rw [reprioritize, List.map_map]
    exact sharesOf_map fun r _ => share_advanced rfl rfl rfl rfl
  have waits : sharesOf blockSize prompt (i.reprioritize rule now).queue =
      sharesOf blockSize prompt i.queue := by
    rw [reprioritize, ← List.map_id i.queue, List.map_map]
    exact sharesOf_map fun r _ => Request.share_congr rfl rfl rfl
  have works : (i.reprioritize rule now).works = i.works := rfl
  rw [surplus, surplus, ahead, ahead, sharesOf_append, sharesOf_append, works, runs, waits]
  rfl

theorem surplus_rejected {reason : Unfit}
    (done : i.enqueue r now q = (.ok (.rejected s reason), j, d)) :
    j.surplus blockSize prompt = i.surplus blockSize prompt := by
  obtain ⟨_, rfl⟩ := rejected_inv done
  cases prompt <;> rfl

theorem surplus_queued (done : i.enqueue r now q = (.ok .queued, j, d)) :
    j.surplus blockSize prompt = i.surplus blockSize prompt - r.share blockSize prompt := by
  obtain ⟨s, ⟨state, host, same⟩, rfl⟩ := queued_inv done
  have share : s.share blockSize prompt = r.share blockSize prompt := by
    rw [same]
    exact Request.share_congr rfl rfl rfl
  have more : ahead { i with queue := i.queue ++ [s], busy := true } = i.ahead ++ [s] :=
    (List.append_assoc _ _ _).symm
  rw [surplus, surplus, more, sharesOf_append, sharesOf_cons, sharesOf_nil, share]
  dsimp only
  omega

theorem preemptions_le_step {latency : LatencyModel} (done : i.step now latency q = .ok (j, d)) :
    i.stats.preemptions ≤ j.stats.preemptions := by
  obtain ⟨o, t, _, stepped⟩ := step_cases done
  exact stepped.preempts ▸ Nat.le_add_right _ _

theorem calm_step {latency : LatencyModel} (usable : spec.Usable) (coherent : i.Coherent spec)
    (alone : i.requests.length ≤ 1) (counted : ∀ r ∈ i.requests, r.Counted)
    (done : i.step now latency q = .ok (j, d)) : j.stats.preemptions = i.stats.preemptions := by
  obtain ⟨o, t, formed, stepped⟩ := step_cases done
  obtain ⟨o', t', formed', f⟩ := coherent.formed usable now
  obtain ⟨rfl, rfl⟩ := Prod.mk.inj (Except.ok.inj (formed.symm.trans formed'))
  have goes := fun r rest first => @f.first_of_counted _ _ _ _ counted r rest first
  rw [stepped.preempts, (forms_of_ok formed).calm_of_alone goes alone]
  rfl

/-- Whoever waits for an instance that has preempted nobody is poised. -/
def Poising (i : Instance) : Prop := i.stats.preemptions = 0 → ∀ r ∈ i.queue, r.Poised

namespace Poising

theorem new (id : Nat) (role : Role) (rule : SchedulerRule) :
    (Instance.new id role spec rule).Poising := fun _ => List.forall_mem_nil _

theorem rescore (k : i.Poising) (rule : PriorityRule) : (i.reprioritize rule now).Poising :=
  fun calm => List.forall_mem_map.mpr fun r hr => (k calm r hr).rescored _

theorem enqueue {out : Enqueued} (k : i.Poising) (poised : r.Poised)
    (done : i.enqueue r now q = (.ok out, j, d)) : j.Poising := by
  rcases enqueue_cases done with rfl | ⟨s, joined, rfl⟩
  · exact k
  · intro calm
    refine List.forall_mem_append.mpr ⟨k calm, ?_⟩
    exact List.forall_mem_singleton.mpr (poised.joined joined)

theorem step {latency : LatencyModel} (k : i.Poising) (done : i.step now latency q = .ok (j, d)) :
    j.Poising := by
  intro calm
  have before : i.stats.preemptions = 0 := Nat.le_zero.mp (calm ▸ preemptions_le_step done)
  obtain ⟨o, t, formed, stepped⟩ := step_cases done
  have none : o.preempted = [] := by
    refine List.length_eq_zero_iff.mp ?_
    have counted := stepped.preempts.symm.trans calm
    omega
  have waits : ∀ r ∈ t.queue, r.Poised :=
    fun r hr => k before r ((forms_of_ok formed).queue_of_calm none r hr)
  cases stepped <;> exact waits

theorem complete {o : BatchOutcome} {report : StepReport} (k : i.Poising)
    (coherent : i.Coherent spec) (flight : i.inFlight = some o)
    (done : i.complete now q = (.ok report, j, d)) : j.Poising := by
  obtain ⟨_, _, _, _, same⟩ := complete_stats done
  have kept : j.stats.preemptions = i.stats.preemptions := by rw [same]
  obtain ⟨_, _, _, _, _, rfl, _⟩ := complete_cases coherent flight done
  exact fun calm => k (kept ▸ calm)

end Poising

theorem surplus_step {latency : LatencyModel} (coherent : i.Coherent spec)
    (ready : i.inFlight = none) (poising : i.Poising)
    (small : ∀ r ∈ i.queue, r.inputTokens < 4294967296)
    (done : i.step now latency q = .ok (j, d)) (calm : j.stats.preemptions = 0) :
    j.surplus spec.blockSize prompt = i.surplus spec.blockSize prompt := by
  obtain ⟨o, t, formed, stepped⟩ := step_cases done
  have none : o.preempted = [] := by
    refine List.length_eq_zero_iff.mp ?_
    have counted := stepped.preempts.symm.trans calm
    omega
  have poised := poising (Nat.le_zero.mp (calm ▸ preemptions_le_step done))
  have prompts : ∀ r ∈ i.queue, 0 < r.inputTokens := fun r hr =>
    InstanceSpec.prompt_of_serves (coherent.fitting.waits r hr).2.serves
  have shares := (forms_of_ok formed).shares none coherent.fitting.nodup poised prompts small prompt
  have same : (i.kv.setClock now).blockSize = spec.blockSize := coherent.fitting.blockSize
  rw [same] at shares
  rw [surplus, surplus, ahead_of_ready ready, requests]
  cases stepped with
  | @rest stats busy _ empty ticks rings tokens =>
      have idle : o.scheduled = [] := List.isEmpty_iff.mp empty
      have still := ahead_of_ready
        (i := { i with running := t.running, queue := t.queue, kv := t.kv, stats, busy }) ready
      rw [idle, map_advanced_none (List.forall_mem_nil _)] at shares
      rw [still, requests, shares, tokens]
      exact congrArg _ (Int.add_zero _)
  | @begin stats _ _ works ticks joins tokens =>
      have flight : ahead { i with
          running := t.running, queue := t.queue, kv := t.kv.takePendingLatency.2, stats
          stepStarted := now, inFlight := some o } =
            t.running.map (advanced 0 o.scheduled) ++ t.queue := rfl
      rw [flight, shares, tokens, o.shape_tokens]
      push_cast
      omega

theorem surplus_complete {o : BatchOutcome} {report : StepReport} (coherent : i.Coherent spec)
    (flight : i.inFlight = some o) (done : i.complete now q = (.ok report, j, d)) :
    j.surplus blockSize prompt = i.surplus blockSize prompt +
      (sharesOf blockSize prompt report.completed +
        sharesOf blockSize prompt (report.handoffs.map (·.request))) := by
  have kept : sharesOf blockSize prompt
      (report.completed ++ report.handoffs.map (·.request) ++ j.requests) =
        sharesOf blockSize prompt (i.running.map (advanced now o.scheduled) ++ i.queue) :=
    (complete_perm coherent flight done (fun _ => Request.share_congr rfl rfl rfl)
      (fun _ => Request.share_congr rfl rfl rfl)).sum_eq
  have timeless : sharesOf blockSize prompt (i.running.map (advanced now o.scheduled)) =
      sharesOf blockSize prompt (i.running.map (advanced 0 o.scheduled)) :=
    sharesOf_map fun _ _ => share_advanced rfl rfl rfl rfl
  have ready : j.inFlight = none := by
    obtain ⟨_, _, _, _, _, rfl, _⟩ := complete_cases coherent flight done
    rfl
  have tokens : j.stats.tokens prompt = i.stats.tokens prompt := by
    obtain ⟨_, _, _, _, same⟩ := complete_stats done
    rw [same]
    cases prompt <;> rfl
  simp only [sharesOf_append] at kept
  rw [surplus, surplus, ahead_of_ready ready, ahead, works_of_flight flight, sharesOf_append, tokens]
  omega

theorem completed_inv {o : BatchOutcome} {report : StepReport} (coherent : i.Coherent spec)
    (flight : i.inFlight = some o) (done : i.complete now q = (.ok report, j, d)) :
    ∀ r ∈ report.completed, r.completionProgress ≤ r.progress ∧ r.progress ≤ r.span ∧
      r.timing.completionTime = some now := by
  obtain ⟨s, _, _, settled, rfl, _⟩ := complete_cases coherent flight done
  intro r hr
  obtain ⟨p, inside, reached, rfl⟩ := (settles_of_ok settled).fates.completed r hr
  obtain ⟨p, hp, rfl⟩ := List.mem_map.mp inside
  have unfinished := (coherent.fitting.runs p hp).2.unfinished
  have moved := advanced_progress now
    ((coherent.flight o flight).1.within coherent.fitting.nodup_running hp)
    ⟨Nat.le_refl _, Nat.le_of_lt unfinished⟩
  have ends := Request.span_of_stem (advanced_stem now o.scheduled p)
  exact ⟨of_decide_eq_true reached, ends.symm ▸ moved.2.1, rfl⟩

end Instance
end InferenceSim
