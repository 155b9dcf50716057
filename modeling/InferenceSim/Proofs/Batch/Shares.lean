import InferenceSim.Proofs.Batch.Budget
import InferenceSim.Proofs.Batch.Lookups
import Mathlib.Algebra.BigOperators.Group.List.Basic
import Mathlib.Algebra.Ring.Int.Defs

/-! The shares of requests in what is computed. By its progress a request has a share in the
tokens of each phase, less what was found of its prompt in a cache. The shares of the requests
grow in each batch by the tokens of its work, unless a request is preempted. -/
namespace InferenceSim

namespace Request

/-- The tokens of a request that were computed, of its prompt or of its output. -/
def share (blockSize : Nat) (r : Request) : (prompt : Bool) → Int
  | true => (min r.progress r.inputTokens : Nat) - (blockSize * r.cacheHitBlocks : Nat)
  | false => (r.progress - r.inputTokens : Nat)

/-- A request that waits with its whole prompt ahead and found nothing of it yet, or with all of it
computed. -/
inductive Poised (r : Request) : Prop
  | ahead (start : r.progress = 0) (hits : r.cacheHitBlocks = 0)
  | past (computed : r.inputTokens ≤ r.progress)

end Request

def sharesOf (blockSize : Nat) (prompt : Bool) (rs : List Request) : Int :=
  (rs.map (·.share blockSize prompt)).sum

section
variable {blockSize : Nat} {prompt : Bool} {rs ss : List Request} {r s : Request}
  {works others : List ScheduledWork} {w : ScheduledWork} {now time : Nat}

@[simp] theorem sharesOf_nil : sharesOf blockSize prompt [] = 0 := rfl

@[simp] theorem sharesOf_cons (r : Request) (rs : List Request) :
    sharesOf blockSize prompt (r :: rs) = r.share blockSize prompt + sharesOf blockSize prompt rs := by
  rw [sharesOf, List.map_cons, List.sum_cons]
  rfl

@[simp] theorem sharesOf_append (rs ss : List Request) : sharesOf blockSize prompt (rs ++ ss) =
    sharesOf blockSize prompt rs + sharesOf blockSize prompt ss := by
  rw [sharesOf, List.map_append, List.sum_append]
  rfl

theorem sharesOf_perm (same : rs.Perm ss) :
    sharesOf blockSize prompt rs = sharesOf blockSize prompt ss := (same.map _).sum_eq

theorem sharesOf_zero (none : ∀ r ∈ rs, r.share blockSize prompt = 0) :
    sharesOf blockSize prompt rs = 0 := List.sum_eq_zero (List.forall_mem_map.mpr none)

theorem sharesOf_map {f g : Request → Request}
    (same : ∀ r ∈ rs, (f r).share blockSize prompt = (g r).share blockSize prompt) :
    sharesOf blockSize prompt (rs.map f) = sharesOf blockSize prompt (rs.map g) := by
  rw [sharesOf, sharesOf, List.map_map, List.map_map]
  exact congrArg List.sum (List.map_congr_left same)

theorem Request.share_congr (tokens : s.inputTokens = r.inputTokens)
    (progress : s.progress = r.progress) (hits : s.cacheHitBlocks = r.cacheHitBlocks) :
    s.share blockSize prompt = r.share blockSize prompt := by
  cases prompt <;> simp only [share, tokens, progress, hits]

theorem advanced_progress_eq (id : s.id = r.id) (progress : s.progress = r.progress) :
    (advanced now works s).progress = (advanced time works r).progress := by
  induction works generalizing r s with
  | nil => exact progress
  | cons w rest ih =>
      refine ih (by rw [advanceBy_id, advanceBy_id, id]) ?_
      rw [advanceBy, advanceBy, id]
      split
      · rw [Request.advance_progress, Request.advance_progress]
      · exact progress

theorem share_advanced (id : s.id = r.id) (tokens : s.inputTokens = r.inputTokens)
    (progress : s.progress = r.progress) (hits : s.cacheHitBlocks = r.cacheHitBlocks) :
    (advanced now works s).share blockSize prompt =
      (advanced time works r).share blockSize prompt := by
  refine Request.share_congr ?_ (advanced_progress_eq id progress) ?_
  · rw [Request.inputTokens_of_stem (advanced_stem now works s), tokens,
      Request.inputTokens_of_stem (advanced_stem time works r)]
  · obtain ⟨_, _, _, same⟩ := advanced_inv now works s
    obtain ⟨_, _, _, same'⟩ := advanced_inv time works r
    rw [same, same']
    exact hits

theorem map_advanced_cons (own : w.request = r.id) (none : ∀ v ∈ works, v.request ≠ r.id)
    (apart : r.id ∉ rs.map (·.id)) : (r :: rs).map (advanced now (w :: works)) =
      r.advance w.progressAfter now :: rs.map (advanced now works) := by
  have first : advanced now (w :: works) r = r.advance w.progressAfter now := by
    rw [advanced, List.foldl_cons, advanceBy, if_pos own.symm]
    refine advanced_none fun v hv same => none v hv ?_
    rwa [Request.id_of_stem (r.advance_stem _ _)] at same
  rw [List.map_cons, first]
  refine congrArg _ (List.map_congr_left fun s hs => ?_)
  rw [advanced, List.foldl_cons, advanceBy,
    if_neg fun same => apart (List.mem_map.mpr ⟨s, hs, same.trans own⟩)]
  rfl

theorem map_advanced_none (none : ∀ w ∈ works, ∀ r ∈ rs, w.request ≠ r.id) :
    rs.map (advanced now works) = rs := by
  refine (List.map_congr_left fun r hr => advanced_none fun w hw => none w hw r hr).trans ?_
  exact List.map_id rs

theorem map_advanced_left (none : ∀ w ∈ others, ∀ r ∈ rs, w.request ≠ r.id) :
    rs.map (advanced now (works ++ others)) = rs.map (advanced now works) := by
  refine List.map_congr_left fun r hr => ?_
  rw [advanced, List.foldl_append]
  refine advanced_none fun w hw same => none w hw r hr ?_
  rwa [← advanced, Request.id_of_stem (advanced_stem now works r)] at same

theorem map_advanced_right (none : ∀ w ∈ works, ∀ r ∈ rs, w.request ≠ r.id) :
    rs.map (advanced now (works ++ others)) = rs.map (advanced now others) := by
  refine List.map_congr_left fun r hr => ?_
  rw [advanced, List.foldl_append]
  show advanced now others (advanced now works r) = _
  rw [advanced_none fun w hw => none w hw r hr]

end

section
variable {limits : BatchLimits} {budget tokens start now time blockSize : Nat} {r s : Request}
  {kv : KvCache}

theorem share_continued (left : 0 < budget) (going : continuation limits r budget = some tokens)
    (time : Nat) (prompt : Bool) :
    (r.advance (r.progress + tokens) time).share blockSize prompt =
      r.share blockSize prompt + (if r.inPrefill = prompt then tokens else 0 : Nat) := by
  obtain ⟨_, _, same⟩ := r.advance_inv (r.progress + tokens) time
  rw [same]
  unfold continuation at going
  split at going
  · next ahead =>
    have ahead' := of_decide_eq_true ahead
    have bounds := prefillChunk_bounds going (by rw [Request.remainingPrefill]; omega) left
    rw [Request.remainingPrefill] at bounds
    rw [ahead]
    cases prompt <;> simp [Request.share] <;> omega
  · next past =>
    have past := Bool.eq_false_iff.mpr past
    have past' := of_decide_eq_false past
    obtain rfl := Option.some.inj going
    rw [past]
    cases prompt <;> simp [Request.share] <;> omega

theorem share_entered (left : 0 < budget) (poised : r.Poised) (prompt' : 0 < r.inputTokens)
    (small : r.inputTokens < 4294967296)
    (begins : start = max r.progress ((kv.lookup r).cachedTokens kv.blockSize))
    (going : entryTokens limits r start budget = some tokens)
    (entered : enterBatch r (kv.lookup r) now = .ok s) (time : Nat) (prompt : Bool) :
    (s.advance (start + tokens) time).share kv.blockSize prompt = r.share kv.blockSize prompt +
      (if decide (start < r.inputTokens) = prompt then tokens else 0 : Nat) := by
  have cached : (kv.lookup r).cachedTokens kv.blockSize ≤ r.inputTokens - 1 := lookup_cached kv r
  have found : (kv.lookup r).cachedTokens kv.blockSize = kv.blockSize * (kv.lookup r).size :=
    Nat.mul_comm _ _
  obtain ⟨_, _, further⟩ := s.advance_inv (start + tokens) time
  have same := enterBatch_eq entered
  rw [further, same]
  unfold entryTokens at going
  rcases poised with ⟨none, hits⟩ | past
  · have ahead : r.inPrefill = true := decide_eq_true (none ▸ prompt')
    have inside : start < r.inputTokens := by omega
    have counted : wrap (kv.lookup r).size = (kv.lookup r).size := by
      have size := kv.lookup_size_le r
      rw [kv.lookup_promptBlocks] at size
      exact wrap_of_lt (Nat.lt_of_le_of_lt (Nat.le_trans size (Nat.div_le_self _ _)) small)
    rw [if_pos inside] at going
    have bounds := prefillChunk_bounds going (by omega) left
    rw [decide_eq_true inside]
    cases prompt <;> simp [Request.share, ahead, none, hits, counted] <;> omega
  · have ahead : r.inPrefill = false := decide_eq_false (Nat.not_lt.mpr past)
    have outside : ¬start < r.inputTokens := by omega
    rw [if_neg outside] at going
    obtain rfl := Option.some.inj going
    rw [decide_eq_false outside]
    cases prompt <;> simp [Request.share, ahead] <;> omega

end

section
variable {limits : BatchLimits} {rule : SchedulerRule} {budget running now : Nat} {prompt : Bool}
  {todo queue : List Request} {kv : KvCache} {k : Continued} {a : Admitted} {s t : BatchState}
  {o : BatchOutcome}

/-- Running requests are brought further by the tokens of their work. -/
theorem Continues.shares (c : Continues limits budget todo queue kv k) (calm : k.preempted = [])
    (nodup : (todo.map (·.id)).Nodup) (blockSize : Nat) (prompt : Bool) :
    sharesOf blockSize prompt (k.running.map (advanced 0 k.scheduled)) =
      sharesOf blockSize prompt todo + tokensIn prompt k.scheduled := by
  induction c with
  | @idle _ todo _ _ settled =>
      rw [show todo.map (advanced 0 []) = todo from map_advanced_none (List.forall_mem_nil _)]
      exact (Int.add_zero _).symm
  | @pass _ r _ _ _ k left waits more ih =>
      obtain ⟨new, nodup⟩ := List.nodup_cons.mp nodup
      have apart : r.id ∉ k.running.map (·.id) :=
        fun listed => new (List.map_subset _ more.running_mem listed)
      rw [List.map_cons, sharesOf_cons, sharesOf_cons, advanced_none (more.works.none apart),
        ih calm nodup, Int.add_assoc]
  | @work _ tokens r _ _ _ _ _ k left going allocated more ih =>
      obtain ⟨new, nodup⟩ := List.nodup_cons.mp nodup
      have apart : r.id ∉ k.running.map (·.id) :=
        fun listed => new (List.map_subset _ more.running_mem listed)
      rw [map_advanced_cons rfl (more.works.none apart) apart, sharesOf_cons, sharesOf_cons,
        tokensIn_cons, share_continued left going, ih calm nodup]
      push_cast
      omega
  | preempt => cases calm

/-- Requests that enter are brought further by the tokens of their work. -/
theorem Enters.shares (c : Enters limits now queue running budget kv a)
    (nodup : (queue.map (·.id)).Nodup) (poised : ∀ r ∈ queue, r.Poised)
    (some : ∀ r ∈ queue, 0 < r.inputTokens) (small : ∀ r ∈ queue, r.inputTokens < 4294967296)
    (prompt : Bool) :
    sharesOf kv.blockSize prompt (a.entered.map (advanced 0 a.scheduled) ++ a.queue) =
      sharesOf kv.blockSize prompt queue + tokensIn prompt a.scheduled := by
  induction c with
  | stop => exact (Int.add_zero _).symm
  | full failed => exact (Int.add_zero _).symm
  | @enter head r rest _ _ start tokens kv d _ k room begins going allocated entered more ih =>
      obtain ⟨new, nodup⟩ := List.nodup_cons.mp nodup
      have same : d.blockSize = kv.blockSize :=
        ((KvOp.allocate_fixed _ _ _ _).of_ok allocated).blockSize
      have own : r.id = head.id := by rw [enterBatch_eq entered]
      have apart : r.id ∉ k.entered.map (·.id) := by
        rw [own]
        exact fun listed => new (more.entered_ids listed)
      have others := ih nodup (fun s hs => poised s (List.mem_cons_of_mem head hs))
        (fun s hs => some s (List.mem_cons_of_mem head hs))
        fun s hs => small s (List.mem_cons_of_mem head hs)
      rw [sharesOf_append, same] at others
      rw [map_advanced_cons own.symm (more.works.none apart) apart, sharesOf_append, sharesOf_cons,
        sharesOf_cons, tokensIn_cons,
        share_entered room.2 (poised head List.mem_cons_self) (some head List.mem_cons_self)
          (small head List.mem_cons_self) begins going entered]
      push_cast
      omega

/-- Without a preemption, requests are brought further by the tokens of a batch. -/
theorem Forms.shares (c : Forms limits rule now s o t) (calm : o.preempted = [])
    (nodup : ((s.running ++ s.queue).map (·.id)).Nodup) (poised : ∀ r ∈ s.queue, r.Poised)
    (prompts : ∀ r ∈ s.queue, 0 < r.inputTokens) (small : ∀ r ∈ s.queue, r.inputTokens < 4294967296)
    (prompt : Bool) :
    sharesOf s.kv.blockSize prompt (t.running.map (advanced 0 o.scheduled) ++ t.queue) =
      sharesOf s.kv.blockSize prompt (s.running ++ s.queue) + tokensIn prompt o.scheduled := by
  rw [List.map_append] at nodup
  obtain ⟨first, last, apart⟩ := List.nodup_append.mp nodup
  have sorted : (rule.sort Request.view s.queue).Perm s.queue := List.mergeSort_perm _ _
  cases c with
  | tight continued some => exact absurd calm some
  | @calm k a continued none entered =>
      have went := continued.shares none first s.kv.blockSize prompt
      rw [continued.calm none] at entered
      have came := entered.shares ((sorted.map _).nodup_iff.mpr last)
        (fun r hr => poised r (mem_sort.mp hr)) (fun r hr => prompts r (mem_sort.mp hr))
        (fun r hr => small r (mem_sort.mp hr)) prompt
      have apart' : ∀ r ∈ k.running, r.id ∉ a.entered.map (·.id) := by
        intro r hr listed
        have waits := (sorted.map _).subset (entered.entered_ids listed)
        exact apart r.id (List.mem_map_of_mem (continued.running_mem r hr)) r.id waits rfl
      have before : k.running.map (advanced 0 (k.scheduled ++ a.scheduled)) =
          k.running.map (advanced 0 k.scheduled) :=
        map_advanced_left fun w hw r hr => entered.works.none (apart' r hr) w hw
      have after : a.entered.map (advanced 0 (k.scheduled ++ a.scheduled)) =
          a.entered.map (advanced 0 a.scheduled) := by
        refine map_advanced_right fun w hw r hr => continued.works.none (fun listed => ?_) w hw
        obtain ⟨q, hq, same⟩ := List.mem_map.mp listed
        exact apart' q hq (same ▸ List.mem_map_of_mem hr)
      rw [continued.uncounted.blockSize, sharesOf_append, sharesOf_perm sorted] at came
      rw [List.map_append, before, after, sharesOf_append, sharesOf_append, sharesOf_append,
        tokensIn_append]
      push_cast
      omega

end
end InferenceSim
