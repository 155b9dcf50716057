import InferenceSim.Proofs.Batch.Holdings
import InferenceSim.Proofs.Kv.Reloads
import InferenceSim.Proofs.Totals

/-! Look-ups of prompts, and where they are counted. A cache counts the look-up of a first
allocation and a request that of its entry into a batch, so whoever enters with its prompt ahead
is counted alike by both, but for the laps that the 32 bits of the request lose. -/
namespace InferenceSim
open KvCache

/-- What look-ups of prompts are counted by: the blocks that were there, or those that were not. -/
inductive Lookup where
  | hits
  | misses

namespace PrefixMatch

def counts (m : PrefixMatch) : Lookup → Nat
  | .hits => m.size
  | .misses => m.promptBlocks - m.size

end PrefixMatch

namespace KvCache

def counts (c : KvCache) : Lookup → Nat
  | .hits => c.hitBlocks
  | .misses => c.missBlocks

variable {c d : KvCache}

theorem Uncounted.counts (k : Uncounted c d) (x : Lookup) : d.counts x = c.counts x := by
  cases x with
  | hits => exact k.hits
  | misses => exact k.misses

theorem lookup_promptBlocks (c : KvCache) (r : Request) :
    (c.lookup r).promptBlocks = r.inputTokens / c.blockSize := by
  rw [lookup, promptBlockHashes]
  exact length_blockHashes ..

theorem lookup_size_le (c : KvCache) (r : Request) : (c.lookup r).size ≤ (c.lookup r).promptBlocks := by
  rw [PrefixMatch.size, lookup]
  refine Nat.le_trans (length_matchHashes c _) ?_
  rw [List.length_take]
  exact Nat.min_le_right _ _

end KvCache

namespace Request

/-- What a request was charged for the look-ups of its prompt. -/
def counts (r : Request) : Lookup → Nat
  | .hits => r.cacheHitBlocks
  | .misses => r.cacheMissBlocks

@[simp] theorem counts_preempted (r : Request) (x : Lookup) : (preempted r).counts x = r.counts x := by
  cases x <;> rfl

end Request

namespace KvOp
variable {c d : KvCache} {request : Request} {m : PrefixMatch} {start stop : Nat} {a : Allocation}
  {p : AllocationPlan}

theorem carryOut_counted (first : ((c.held[request.id]?).getD {}).blocks.isEmpty = true)
    (fits : m.size ≤ m.promptBlocks) (done : carryOut request m p c = .ok a d) (x : Lookup) :
    d.counts x = c.counts x + m.counts x := by
  simp only [carryOut, get_bind, set_bind, when_bind] at done
  obtain ⟨_, c₁, done₁, done⟩ := bind_inv done
  obtain ⟨⟨ids, evicted⟩, c₂, done₂, done⟩ := bind_inv done
  obtain ⟨_, c₃, done₃, done⟩ := bind_inv done
  obtain ⟨h, c₄, done₄, done⟩ := bind_inv done
  obtain ⟨⟨h', evicted'⟩, c₅, done₅, done⟩ := bind_inv done
  obtain ⟨_, c₆, done₆, done⟩ := bind_inv done
  rw [modify_bind] at done
  obtain ⟨_, c₇, done₇, done⟩ := bind_inv done
  obtain rfl := check_inv done₇
  cases done
  have before : Uncounted { c with held := c.held.erase request.id } c₅ :=
    Trans.trans ((acquireMatched_uncounted _).of_ok done₁)
      (Trans.trans ((placeMatched_uncounted _).of_ok done₂)
        (Trans.trans ((Leaves.when _ (onTier_uncounted _)).of_ok done₃)
          (Trans.trans ((topUp_uncounted _ _ _ _).of_ok done₄)
            ((extend_uncounted _ _ _ _).of_ok done₅))))
  have same : c₅.counts x = c.counts x := by
    rw [before.counts x]
    cases x <;> rfl
  rw [first, Bool.true_and] at done₆
  rw [← same]
  split at done₆
  · cases done₆
    cases x <;> rfl
  · next none =>
    rw [decide_eq_true_eq] at none
    cases done₆
    have nothing : m.counts x = 0 := by
      cases x
      · show m.size = 0
        omega
      · show m.promptBlocks - m.size = 0
        omega
    rw [nothing]
    cases x <;> rfl

theorem allocate_counted (unheld : c.tokens? request.id = none) (more : 0 < stop)
    (fits : m.size ≤ m.promptBlocks) (done : allocate request start stop m c = .ok a d)
    (x : Lookup) : d.counts x = c.counts x + m.counts x := by
  have none : c.held[request.id]? = none := Option.map_eq_none_iff.mp unheld
  have first : ((c.held[request.id]?).getD {}).blocks.isEmpty = true := by
    rw [none]
    rfl
  simp only [allocate, get_bind] at done
  split at done
  · next idle =>
    obtain ⟨level, empty⟩ := idle
    have base : (c.plan request.id start stop m).base =
        (c.plan request.id start stop m).attach.length * c.blockSize := if_pos first
    rw [plan_goal, base, List.isEmpty_iff.mp empty, List.length_nil, Nat.zero_mul] at level
    omega
  · split at done
    · cases done
    · split at done
      · cases done
      · exact carryOut_counted first fits done x

end KvOp

section
variable {limits : BatchLimits} {rule : SchedulerRule} {budget running now : Nat}
  {todo queue : List Request} {kv d : KvCache} {k : Continued} {a : Admitted} {s t : BatchState}
  {o : BatchOutcome} {r : Request}

theorem uncounted_of_releasing {id : Nat} (gone : kv.releasing id = .ok d) : Uncounted kv d := by
  unfold releasing at gone
  split at gone
  · next done =>
    obtain rfl := Except.ok.inj gone
    exact (KvOp.release_uncounted id).of_ok done
  · next failed =>
    obtain rfl := Except.ok.inj gone
    exact (KvOp.release_uncounted id).of_error failed
  · cases gone

/-- Running requests go on without a look-up. -/
theorem Continues.uncounted (c : Continues limits budget todo queue kv k) : Uncounted kv k.kv := by
  induction c with
  | idle => exact Std.Refl.refl _
  | pass left waits more ih => exact ih
  | work left going allocated more ih =>
      exact Trans.trans ((KvOp.allocate_uncounted _ _ _).of_ok allocated) ih
  | preempt left going failed split gone more ih =>
      exact Trans.trans ((KvOp.allocate_uncounted _ _ _).of_error failed)
        (Trans.trans (uncounted_of_releasing gone) ih)

theorem Continues.counts (c : Continues limits budget todo queue kv k) (x : Lookup) :
    totalOf ((k.running ++ k.queue).map (·.counts x)) =
      totalOf ((todo ++ queue).map (·.counts x)) := by
  obtain ⟨gone, rest, waits, _⟩ := c.split
  have same : (gone.map preempted).map (·.counts x) = gone.map (·.counts x) := by
    rw [List.map_map]
    exact List.map_congr_left fun r _ => r.counts_preempted x
  rw [rest, waits, List.map_append, List.map_append, List.map_append, List.map_append, same,
    List.append_assoc]

/-- The end of a step looks nothing up. -/
theorem Settles.uncounted {u : Instance.Settled} (c : Settles now todo kv u) : Uncounted kv u.kv := by
  induction c with
  | nil => exact Std.Refl.refl _
  | done reached gone more ih => exact Trans.trans (uncounted_of_releasing gone) ih
  | leave unfinished past target gone more ih => exact Trans.trans (uncounted_of_releasing gone) ih
  | stay unfinished stays more ih => exact ih

/-- A request that has entered a batch, with what was found of its prompt. -/
structure Request.Entered (q r : Request) (blockSize now : Nat) (m : PrefixMatch) : Prop where
  whole : m.promptBlocks = q.inputTokens / blockSize
  fits : m.size ≤ m.promptBlocks
  enters : enterBatch q m now = .ok r

theorem Request.counts_entered {q : Request} {m : PrefixMatch} (enters : enterBatch q m now = .ok r)
    (x : Lookup) :
    r.counts x = if q.inPrefill then wrap (q.counts x + m.counts x) else q.counts x := by
  rw [enterBatch_eq enters]
  cases x <;> rfl

/-- Whoever enters a batch has had its prompt looked up. -/
theorem Enters.looks (c : Enters limits now queue running budget kv a) :
    ∀ r ∈ a.entered, ∃ q ∈ queue, ∃ m, q.Entered r kv.blockSize now m := by
  induction c with
  | stop => exact List.forall_mem_nil _
  | full failed => exact List.forall_mem_nil _
  | @enter head r rest _ _ start tokens kv d _ k room begins going allocated entered more ih =>
      refine List.forall_mem_cons.mpr ⟨⟨head, List.mem_cons_self, kv.lookup head,
        kv.lookup_promptBlocks head, kv.lookup_size_le head, entered⟩, fun s hs => ?_⟩
      obtain ⟨q, hq, m, looked⟩ := ih s hs
      rw [((KvOp.allocate_fixed _ _ _ _).of_ok allocated).blockSize] at looked
      exact ⟨q, List.mem_cons_of_mem _ hq, m, looked⟩

/-- Requests that enter with their prompts ahead are charged what the cache counts. -/
theorem Enters.counts (c : Enters limits now queue running budget kv a) (sound : kv.Sound)
    (nodup : (queue.map (·.id)).Nodup) (unheld : ∀ r ∈ queue, kv.tokens? r.id = none)
    (ahead : ∀ r ∈ queue, r.inPrefill = true) (x : Lookup) :
    Lapped (a.kv.counts x + totalOf (queue.map (·.counts x)))
      (kv.counts x + totalOf ((a.entered ++ a.queue).map (·.counts x))) := by
  induction c with
  | stop => exact .refl _
  | @full head _ _ _ _ _ _ _ kv _ failed =>
      obtain rfl := KvOp.allocate_exhausted sound
        (KvOp.matchHashes_indexed sound.consistent _) failed
      exact .refl _
  | @enter head r rest _ _ start tokens kv d _ k room begins going allocated entered more ih =>
      obtain ⟨new, nodup⟩ := List.nodup_cons.mp nodup
      have own := unheld head List.mem_cons_self
      have some : 0 < start + tokens := Nat.add_pos_right _ (entry_reaches room.2 begins going).1
      have cached : (kv.lookup head).blocks.length * kv.blockSize ≤ start :=
        begins ▸ Nat.le_max_right _ _
      obtain ⟨sound', _, alone⟩ := KvOp.allocate_backs sound
        (KvOp.matchHashes_indexed sound.consistent _) (Nat.le_add_right _ _) some
        (fun n held => by cases own.symm.trans held)
        (fun _ => Nat.le_trans cached (Nat.le_add_right _ _)) allocated
      obtain ⟨laps, rest⟩ := ih sound' nodup (alone.levels new unheld)
        fun s hs => ahead s (List.mem_cons_of_mem _ hs)
      have counted := KvOp.allocate_counted own some (kv.lookup_size_le head) allocated x
      have charged := Request.counts_entered entered x
      rw [if_pos (ahead head List.mem_cons_self)] at charged
      obtain ⟨lost, kept⟩ := Lapped.wrap (head.counts x + (kv.lookup head).counts x)
      refine ⟨laps + lost, ?_⟩
      simp only [List.cons_append, List.map_cons, totalOf_cons]
      omega

theorem Forms.looks (c : Forms limits rule now s o t) : ∀ r ∈ t.running,
    r ∈ s.running ∨ ∃ q ∈ s.queue, ∃ m, q.Entered r s.kv.blockSize now m := by
  intro r hr
  cases c with
  | tight continued some => exact .inl (continued.running_mem r hr)
  | calm continued none entered =>
      rcases List.mem_append.mp hr with before | new
      · exact .inl (continued.running_mem r before)
      · obtain ⟨q, hq, m, looked⟩ := entered.looks r new
        rw [continued.calm none] at hq
        rw [continued.uncounted.blockSize] at looked
        exact .inr ⟨q, mem_sort.mp hq, m, looked⟩

/-- If all prompts in the queue are ahead, a batch raises the counts of the cache by what it charges
to its requests, but for laps of theirs. -/
theorem Forms.counts (c : Forms limits rule now s o t) (sound : s.kv.Sound)
    (nodup : ((s.running ++ s.queue).map (·.id)).Nodup)
    (level : ∀ r ∈ s.running, s.kv.tokens? r.id = some r.progress)
    (unheld : ∀ r ∈ s.queue, s.kv.tokens? r.id = none)
    (ahead : ∀ r ∈ s.queue, r.inPrefill = true) (x : Lookup) :
    Lapped (t.kv.counts x + totalOf ((s.running ++ s.queue).map (·.counts x)))
      (s.kv.counts x + totalOf ((t.running ++ t.queue).map (·.counts x))) := by
  have sorted : (rule.sort Request.view s.queue).Perm s.queue := List.mergeSort_perm _ _
  have total : totalOf ((s.running ++ rule.sort Request.view s.queue).map (·.counts x)) =
      totalOf ((s.running ++ s.queue).map (·.counts x)) :=
    totalOf_perm ((sorted.append_left _).map _)
  cases c with
  | tight continued some =>
      rw [continued.uncounted.counts x, continued.counts x, total]
      exact .refl _
  | @calm k a continued none entered =>
      have unheld' := continued.unheld sound nodup level unheld
      have went := continued.counts x
      rw [List.map_append] at nodup
      obtain ⟨first, last, _⟩ := List.nodup_append.mp nodup
      rw [continued.calm none] at entered went
      obtain ⟨laps, came⟩ := entered.counts (continued.provides sound first level).1
        ((sorted.map _).nodup_iff.mpr last) (fun r hr => unheld' r (mem_sort.mp hr))
        (fun r hr => ahead r (mem_sort.mp hr)) x
      rw [continued.uncounted.counts x] at came
      refine ⟨laps, ?_⟩
      simp only [List.map_append, totalOf_append, List.append_assoc] at total went came ⊢
      omega

end
end InferenceSim
