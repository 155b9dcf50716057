import InferenceSim.Proofs.Batch.Holdings
import InferenceSim.Proofs.Cluster.Accounting
import InferenceSim.Proofs.Cluster.Laws
import InferenceSim.Proofs.Instance.Turns
import InferenceSim.Proofs.Kv.Contents

/-! Blocks follow the batch. An instance lends blocks to its running requests alone, as many as
their progress and their work in flight need; and no reload is left that no step has paid for. -/
namespace InferenceSim

namespace Instance

/-- The requests in the batch hold blocks and no others, and all reloads are paid for. -/
structure Owned (i : Instance) : Prop where
  holders : ∀ id, i.kv.heldBy id ≠ [] ↔ id ∈ i.running.map (·.id)
  tokens : Provided i.works i.running i.kv
  paid : i.kv.takePendingLatency.1 = 0

/-- The end of the next step is as late as the reloads for its batch make it. -/
def Charges (i : Instance) : Prop :=
  ∀ (now : Nat) (latency : LatencyModel) (q d : EventQueue) (j : Instance) (o : BatchOutcome),
    i.inFlight = none → i.step now latency q = .ok (j, d) → j.inFlight = some o →
    ∃ t n, formBatch i.limits i.scheduler now ⟨i.running, i.queue, i.kv.setClock now⟩ =
        .ok (o, t) ∧
      q.Joins [⟨now + (latency.stepTime o.shape + t.kv.takePendingLatency.1 +
        (latency.schedulingOverhead * o.admitted.length +
          latency.preemptionOverhead * o.preempted.length)), n, .stepComplete i.id⟩] d

theorem charges (i : Instance) : i.Charges := by
  intro now latency q d j o ready done flight
  obtain ⟨o', t, formed, stepped⟩ := step_cases done
  cases stepped with
  | rest empty ticks rings => cases ready.symm.trans flight
  | begin works ticks joins =>
      obtain rfl := Option.some.inj flight
      exact ⟨t, _, formed, joins⟩

end Instance

theorem pending_of_tier {c d : KvCache} (same : d.tier = c.tier) :
    d.takePendingLatency.1 = c.takePendingLatency.1 := by
  simp only [KvCache.takePendingLatency, same]
  split <;> rfl

theorem paid_takePendingLatency (c : KvCache) : c.takePendingLatency.2.takePendingLatency.1 = 0 := by
  cases tier : c.tier <;> simp [KvCache.takePendingLatency, HostTier.takePendingLatency, tier]

namespace Instance

/-- What an instance lends is what its batch in flight asks for. -/
structure Lends (i : Instance) : Prop where
  provided : Provided i.works i.running i.kv
  single : (i.works.map (·.request)).Nodup
  paid : i.kv.takePendingLatency.1 = 0

variable {i j : Instance} {spec : InstanceSpec} {now : Nat} {q d : EventQueue}

theorem Lends.enqueue {r : Request} {out : Enqueued} (holds : i.Lends)
    (done : i.enqueue r now q = (.ok out, j, d)) : j.Lends := by
  rcases enqueue_cases done with rfl | ⟨s, _, rfl⟩ <;>
    exact ⟨holds.provided, holds.single, holds.paid⟩

/-- A step lends what its batch needs, and its end pays for the reloads. -/
theorem Lends.step {latency : LatencyModel} (holds : i.Lends) (usable : spec.Usable)
    (k : i.Coherent spec) (ready : i.inFlight = none) (done : i.step now latency q = .ok (j, d)) :
    j.Lends := by
  have idle := works_of_ready ready
  have level := provided_idle.mp (idle ▸ holds.provided)
  have fitting := k.clocked now
  obtain ⟨o, t, formed, stepped⟩ := step_cases done
  obtain ⟨o', t', formed', f⟩ := k.formed usable now
  obtain ⟨rfl, rfl⟩ := Prod.mk.inj (Except.ok.inj (formed.symm.trans formed'))
  have forms := forms_of_ok formed
  have provided := forms.provides fitting.sound fitting.nodup level fitting.unheld_queue
  cases stepped with
  | rest empty ticks rings =>
      have same : t.kv.tier = i.kv.tier :=
        forms.tier_of_idle fitting.sound (List.isEmpty_iff.mp empty)
      refine ⟨?_, holds.single, (pending_of_tier same).trans holds.paid⟩
      show Provided i.works t.running t.kv
      rw [idle, ← List.isEmpty_iff.mp empty]
      exact provided
  | begin works ticks joins =>
      have kept := provided.congr (f := fun r => r) (KvCache.takePendingLatency_same t.kv).1
        (fun _ => rfl) fun _ => rfl
      rw [List.map_id'] at kept
      exact ⟨kept, forms.works_sublist.nodup f.fitting.nodup_running,
        paid_takePendingLatency t.kv⟩

/-- When a step ends, what it needed has become progress, and requests that leave the batch
have given their blocks back. -/
theorem Lends.complete {o : BatchOutcome} {report : StepReport} (holds : i.Lends)
    (k : i.Coherent spec) (flight : i.inFlight = some o)
    (done : i.complete now q = (.ok report, j, d)) : j.Lends := by
  obtain ⟨s, stats, busy, settled, _, rfl, _⟩ := complete_cases k flight done
  have works := works_of_flight flight
  have provided := works ▸ holds.provided
  have single := works ▸ holds.single
  have ids : (i.running.map (advanced now o.scheduled)).map (·.id) = i.running.map (·.id) := by
    rw [List.map_map]
    exact List.map_congr_left fun r _ => Request.id_of_stem (advanced_stem now o.scheduled r)
  have level : ∀ r ∈ i.running.map (advanced now o.scheduled),
      i.kv.tokens? r.id = some r.progress := by
    intro s hs
    obtain ⟨r, hr, rfl⟩ := List.mem_map.mp hs
    obtain ⟨n, own, backs⟩ := provided r hr
    rw [Request.id_of_stem (advanced_stem now o.scheduled r), backs.advanced_progress single now]
    exact own
  obtain ⟨stays, tier, _⟩ := (settles_of_ok settled).provides k.fitting.sound
    (ids ▸ k.fitting.nodup_running) level
  exact ⟨provided_idle.mpr fun r hr => (stays r hr).2, List.nodup_nil,
    (pending_of_tier tier).trans holds.paid⟩

theorem Lends.rescore (holds : i.Lends) (rule : PriorityRule) : (i.reprioritize rule now).Lends :=
  ⟨holds.provided.congr rfl (fun _ => rfl) fun _ => rfl, holds.single, holds.paid⟩

end Instance

namespace Cluster

/-- Running requests hold what is to be backed of them, and all reloads are paid for. -/
def backing : Law where
  server _ i := i.Lends
  arrived _ _ := True
  handed _ _ := True
  completed _ := True

theorem backing_kept {spec : InstanceSpec} (usable : spec.Usable) : backing.Kept spec where
  new id role rule := by
    refine ⟨List.forall_mem_nil _, List.nodup_nil, ?_⟩
    rw [Instance.new_kv]
    cases spec.tier <;> rfl
  fresh _ _ := trivial
  wait _ holds := holds
  travel _ _ := trivial
  transfer _ _ := trivial
  route _ _ _ := trivial
  enqueue _ holds _ done := holds.enqueue done
  step coherent holds ready done := holds.step usable coherent ready done
  complete coherent holds flight done :=
    ⟨holds.complete coherent flight done, fun _ _ => trivial, fun _ _ => trivial⟩
  rescore rule holds := holds.rescore rule

def elsewhere (c : Cluster) (refused : List Nat) : List Nat :=
  c.travelling.map (·.id) ++ c.waiting.map (·.id) ++ c.finished ++ refused

/-- Blocks are held for the requests in the batches, and for no others. -/
structure Lent (ids : List Nat) (c : Cluster) : Prop where
  owned : ∀ i ∈ c.instances, i.Owned
  charged : ∀ i ∈ c.instances, i.Charges
  others : ∃ refused : List Nat, refused.length = c.log.rejected ∧
    (c.running.map (·.id) ++ c.elsewhere refused).Perm ids ∧
    ∀ i ∈ c.instances, ∀ id ∈ c.elsewhere refused, i.kv.heldBy id = []

variable {config : Config} {rs : List Request} {c : Cluster} {l : Ledger}

theorem Coherent.lent (k : Coherent config rs [] c l) (g : Logged config rs c l)
    (law : backing.Holds c) (distinct : (rs.map (·.id)).Nodup) : Lent (rs.map (·.id)) c where
  owned i hi := by
    obtain ⟨id, at'⟩ := List.getElem?_of_mem hi
    obtain ⟨provided, _, paid⟩ := law.servers i hi
    have fitting := (k.employs _ i at').coherent.fitting
    refine ⟨fun id => ⟨fitting.holder, fun listed => ?_⟩, provided, paid⟩
    obtain ⟨r, hr, rfl⟩ := List.mem_map.mp listed
    obtain ⟨n, own, _⟩ := provided r hr
    exact fitting.sound.heldBy_ne_nil.mpr (by rw [own]; rfl)
  charged i _ := i.charges
  others := by
    obtain ⟨refused, count, places⟩ := (k.accounted g).places
    have split : (c.running.map (·.id) ++ c.elsewhere refused).Perm (rs.map (·.id)) := by
      refine .trans ?_ places
      simp only [elsewhere, List.append_assoc]
      refine .trans ?_ (.append_left _ (List.perm_append_comm_assoc _ _ _))
      exact List.perm_append_comm_assoc _ _ _
    refine ⟨refused, count, split, fun i hi id away => ?_⟩
    obtain ⟨host, at'⟩ := List.getElem?_of_mem hi
    refine Classical.byContradiction fun own => ?_
    have runs : id ∈ c.running.map (·.id) := by
      obtain ⟨r, hr, same⟩ := List.mem_map.mp ((k.employs host i at').coherent.fitting.holder own)
      exact List.mem_map.mpr ⟨r, List.mem_flatMap.mpr ⟨i, hi, hr⟩, same⟩
    exact (List.nodup_append.mp (split.nodup_iff.mpr distinct)).2.2 id runs id away rfl

/-- However far a run has come, the requests in the batch of an instance hold blocks there,
each for the tokens that its work or its progress asks for; no other request holds any, and no
reload is unpaid. -/
theorem blocks_follow_batches (valid : config.validate = .ok ()) (trace : DecisionTrace)
    (fresh : ∀ r ∈ rs, r.Fresh) (distinct : (rs.map (·.id)).Nodup) :
    ∃ c d e, new config trace = .ok c ∧ c.injectAll rs = .ok d ∧ d.start = .ok e ∧
      ∀ limit, Lent (rs.map (·.id)) (e.runEvents limit).2 := by
  have promised := promised_of_validate valid
  obtain ⟨c, d, e, made, injected, started, coherent, logged, _, holds⟩ :=
    valid_run_keeps (backing_kept promised.valid.usable) valid trace fresh distinct
  refine ⟨c, d, e, made, injected, started, fun limit => ?_⟩
  obtain ⟨f, l, ran, k, g⟩ := runEvents_ok promised.valid distinct coherent logged limit
  have law := (holds limit).1
  rw [ran] at law ⊢
  exact k.lent g law distinct

theorem default_blocks_follow_batches : ∃ c d e, new {} .off = .ok c ∧
    c.injectAll [{ id := 2, arrivalTime := 1, inputTokens := 40, outputTokens := 3 },
      { id := 6, arrivalTime := 1, inputTokens := 0, outputTokens := 2 }] = .ok d ∧
    d.start = .ok e ∧ ∀ limit, Lent [2, 6] (e.runEvents limit).2 :=
  blocks_follow_batches rfl .off
    (List.forall_mem_cons.mpr ⟨rfl, List.forall_mem_singleton.mpr rfl⟩) (by decide)

end Cluster
end InferenceSim
