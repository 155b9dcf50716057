import InferenceSim.Proofs.Batch.Rounds
import InferenceSim.Proofs.Instance.Coherence
import InferenceSim.Proofs.Kv.Chunks
import Mathlib.Data.List.TakeDrop

/-! A request that has an instance for itself. Batch after batch brings it further until it is
done or the cache has too few blocks for it. It is done exactly if the cache has room for the
progress that it is done at. An instance asks for more when the request arrives: for room for
the last token of its output too, whose KV is never computed. -/
namespace InferenceSim
open KvCache

namespace KvCache

/-- What is not free is held by one request, and backs some tokens of it. -/
structure HeldAlone (c : KvCache) (r tokens : Nat) : Prop where
  sound : c.Sound
  whole : c.free + (c.heldBy r).length = c.total
  backed : ((c.held[r]?).getD {}).tokens = tokens

theorem start_heldAlone (host total : Nat) {blockSize : Nat} (positive : 0 < blockSize)
    (tier : Option HostTierConfig) (r : Nat) :
    (start host total blockSize tier).HeldAlone r 0 := by
  have none := start_unheld host total blockSize tier r
  refine ⟨start_sound host total positive tier, ?_, ?_⟩
  · have unused : (start host total blockSize tier).used = 0 := by cases tier <;> rfl
    have all := (start_sound host total positive tier).consistent.conserved
    rw [heldBy, none]
    show _ + 0 = _
    omega
  · rw [none]
    rfl

theorem lookup_start (host total blockSize : Nat) (tier : Option HostTierConfig) (r : Request) :
    ((start host total blockSize tier).lookup r).blocks = [] := by
  have index : ∀ x, (start host total blockSize tier).index[x]? = none := fun x => by
    cases tier <;> exact Std.ExtTreeMap.getElem?_empty
  have offloaded : ∀ x, (start host total blockSize tier).isOffloaded x = false := fun x => by
    cases tier with
    | none => rfl
    | some config =>
        show (∅ : Std.ExtTreeMap BlockHash OffloadedBlock).contains x = false
        exact Std.ExtTreeMap.contains_empty
  have nothing : ∀ xs, (start host total blockSize tier).matchHashes xs = [] := fun xs => by
    cases xs with
    | nil => rfl
    | cons x rest => simp only [matchHashes, index, offloaded, Bool.false_eq_true, if_false]
  exact nothing _

end KvCache

namespace KvOp
variable {c : KvCache} {request : Request} {m : PrefixMatch} {n stop : Nat}

theorem allocate_alone (k : c.HeldAlone request.id n) (bare : m.blocks = []) (more : n < stop) :
    (stop ≤ c.total * c.blockSize ∧ ∃ a d, allocate request n stop m c = .ok a d ∧
      d.HeldAlone request.id stop ∧ d.total = c.total ∧ d.blockSize = c.blockSize) ∨
    (c.total * c.blockSize < stop ∧ ∃ needed available,
      allocate request n stop m c = .error (.exhausted needed available) c) := by
  obtain ⟨p, hp⟩ : ∃ p, p = c.plan request.id n stop m := ⟨_, rfl⟩
  have matched : ∀ id ∈ deviceIds m.blocks, (c.hashAt id).isSome := by
    rw [bare]
    exact List.forall_mem_nil _
  obtain ⟨attach, base⟩ : p.attach = [] ∧ p.base = n := by
    rcases k.sound.plan_cases (r := request.id) n stop m with
      ⟨own, attach, base, _⟩ | ⟨h, own, attach, base, _⟩
    · have none := k.backed
      rw [own] at none
      rw [bare, List.length_nil, Nat.zero_mul] at base
      exact hp ▸ ⟨attach.trans bare, base.trans none⟩
    · have some := k.backed
      rw [own] at some
      exact hp ▸ ⟨attach, base.trans some⟩
  have goal : p.goal = stop := by
    rw [hp, plan_goal, ← hp, base]
    omega
  have room := plan_blocks_room k.sound hp
  rw [attach, List.length_nil, Nat.add_zero] at room
  have whole := k.whole
  rcases allocate_cases k.sound hp matched with ⟨still, _⟩ | ⟨few, failed⟩ |
    ⟨enough, a, d, done, allocated⟩
  · omega
  · refine .inr ⟨Nat.not_le.mp fun fits => ?_, _, _, failed⟩
    have blocks := plan_blocks k.sound hp (goal ▸ fits)
    rw [attach] at few blocks
    have few : c.free - 0 < p.fresh + 0 := few
    have blocks : (c.heldBy request.id).length + 0 + p.fresh ≤ c.total := blocks
    omega
  · rw [attach] at enough
    have enough : p.fresh + 0 ≤ c.free - 0 := enough
    have carried : carryOut request m p c = .ok a d := by
      rcases allocate_inv k.sound hp done with ⟨still, _⟩ | ⟨_, carried⟩
      · omega
      · exact carried
    obtain ⟨free, h, own, length⟩ := carryOut_amounts k.sound
      (attach ▸ List.forall_mem_nil _) (attach ▸ List.nodup_nil) carried
    obtain ⟨blocks, _, own', _⟩ := allocated.own
    refine .inl ⟨?_, a, d, done, ⟨allocated.sound, ?_, ?_⟩, allocated.total, allocated.blockSize⟩
    · have fresh : p.fresh = c.blocksFor (p.goal - p.base - p.room) := by rw [hp]; rfl
      have upto := (blocksFor_bounds k.sound.positive (p.goal - p.base - p.room)).1
      rw [← fresh] at upto
      have product : ((c.heldBy request.id).length + p.fresh) * c.blockSize ≤
          c.total * c.blockSize := Nat.mul_le_mul_right _ (by omega)
      rw [Nat.add_mul] at product
      omega
    · rw [attach] at free length
      have free : d.free + p.fresh + 0 + 0 = c.free := free
      have length : h.blocks.length = (c.heldBy request.id).length + 0 + p.fresh := length
      rw [heldBy, own, allocated.total]
      show d.free + h.blocks.length = _
      omega
    · rw [own']
      exact goal

end KvOp

/-- How the batches end of a request that has an instance for itself. -/
inductive Ending where
  | completed
  /-- A batch is empty: the cache has too few blocks for the next tokens. -/
  | starved
  deriving DecidableEq, Repr

namespace BatchState

/-- Forms and carries out one batch after another, at the given times, until a request is done or
a batch is empty. -/
def rounds (limits : BatchLimits) (rule : SchedulerRule) :
    (times : List Nat) → BatchState → Except Fault (Option Ending)
  | [], _ => .ok none
  | now :: times, s => do
    let (o, s) ← formBatch limits rule now s
    if o.isEmpty then return some .starved
    else
      let (done, s) ← s.apply o now
      if done.isEmpty then rounds limits rule times s else return some .completed

/-- A running request with the cache of an instance for itself, in which `n` of its tokens are
backed. -/
structure Occupies (spec : InstanceSpec) (r : Request) (n : Nat) (q : Request) (kv : KvCache) :
    Prop where
  stem : q.stem = r.stem
  state : q.state = .running
  held : kv.HeldAlone q.id n
  total : kv.total = spec.kvBlocks
  blockSize : kv.blockSize = spec.blockSize

/-- A request has an instance for itself, with `n` tokens computed: it waits at the empty cache,
or it runs. -/
inductive Lone (spec : InstanceSpec) (r : Request) : Nat → BatchState → Prop
  | waits {q : Request} (host : Nat) (stem : q.stem = r.stem) (state : q.state = .queued)
      (start : q.progress = 0) :
      Lone spec r 0 ⟨[], [q], .start host spec.kvBlocks spec.blockSize spec.tier⟩
  | runs {q : Request} {kv : KvCache} (k : Occupies spec r q.progress q kv) :
      Lone spec r q.progress ⟨[q], [], kv⟩

section
variable {limits : BatchLimits} {rule : SchedulerRule} {now tokens : Nat} {q : Request}
  {kv : KvCache}

theorem form_running (budget : 0 < limits.maxTokens)
    (going : continuation limits q limits.maxTokens = some tokens) {a : Allocation} {d : KvCache}
    (done : KvOp.allocate q q.progress (q.progress + tokens) {} kv = .ok a d) :
    formBatch limits rule now ⟨[q], [], kv⟩ =
      .ok (⟨[⟨q.id, tokens, q.progress + tokens, q.inPrefill⟩], [], []⟩, ⟨[q], [], d⟩) := by
  simp [formBatch, SchedulerRule.sort, continueRunning, Nat.ne_of_gt budget, going, done,
    takeQueued, bind, Except.bind, pure, Except.pure]

theorem form_running_starved (budget : 0 < limits.maxTokens)
    (going : continuation limits q limits.maxTokens = some tokens) {needed available : Nat}
    (failed : KvOp.allocate q q.progress (q.progress + tokens) {} kv =
      .error (.exhausted needed available) kv) (sound : kv.Sound) (state : q.state = .running) :
    ∃ t, formBatch limits rule now ⟨[q], [], kv⟩ = .ok (⟨[], [], [q.id]⟩, t) := by
  obtain ⟨d, gone, _⟩ := preempt_running sound state []
  refine ⟨⟨[], [preempted q], d⟩, ?_⟩
  simp [formBatch, SchedulerRule.sort, continueRunning, Nat.ne_of_gt budget, going, failed, gone,
    bind, Except.bind, pure, Except.pure]

theorem form_waiting (room : 0 < limits.maxRunning ∧ 0 < limits.maxTokens)
    (positive : 0 < kv.blockSize) (start : q.progress = 0) (bare : (kv.lookup q).blocks = [])
    (prompt : 0 < q.inputTokens)
    (going : limits.prefillChunk q.inputTokens limits.maxTokens = some tokens) {a : Allocation}
    {d : KvCache} (done : KvOp.allocate q 0 tokens (kv.lookup q) kv = .ok a d) {r : Request}
    (entered : enterBatch q (kv.lookup q) now = .ok r) :
    formBatch limits rule now ⟨[], [q], kv⟩ =
      .ok (⟨[⟨q.id, tokens, tokens, true⟩], [r.id], []⟩, ⟨[r], [], d⟩) := by
  have looked : kv.lookup? q = .ok (kv.lookup q) := if_neg (Nat.ne_of_gt positive)
  simp [formBatch, SchedulerRule.sort, continueRunning, takeQueued, room.1, room.2, looked, start,
    PrefixMatch.cachedTokens, PrefixMatch.size, bare, prompt, going, done, entered, bind,
    Except.bind, pure, Except.pure]

theorem form_waiting_starved (room : 0 < limits.maxRunning ∧ 0 < limits.maxTokens)
    (positive : 0 < kv.blockSize) (start : q.progress = 0) (bare : (kv.lookup q).blocks = [])
    (prompt : 0 < q.inputTokens)
    (going : limits.prefillChunk q.inputTokens limits.maxTokens = some tokens)
    {needed available : Nat} (failed : KvOp.allocate q 0 tokens (kv.lookup q) kv =
      .error (.exhausted needed available) kv) :
    formBatch limits rule now ⟨[], [q], kv⟩ = .ok ({}, ⟨[], [q], kv⟩) := by
  have looked : kv.lookup? q = .ok (kv.lookup q) := if_neg (Nat.ne_of_gt positive)
  simp [formBatch, SchedulerRule.sort, continueRunning, takeQueued, room.1, room.2, looked, start,
    PrefixMatch.cachedTokens, PrefixMatch.size, bare, prompt, going, failed, bind, Except.bind,
    pure, Except.pure]

end

section
variable {spec : InstanceSpec} {rule : SchedulerRule} {now n : Nat} {r q : Request} {kv : KvCache}
  {s : BatchState}

/-- What a batch has decided about a request that is alone. Its next tokens are scheduled, and
backed, if the cache has room for them; else the batch is empty. -/
inductive LoneBatch (spec : InstanceSpec) (r : Request) (next : Nat) :
    BatchOutcome → BatchState → Prop
  | work {q : Request} {kv : KvCache} {w : ScheduledWork} {admitted : List Nat}
      (fits : next ≤ spec.kvBlocks * spec.blockSize) (k : Occupies spec r next q kv)
      (own : w.request = q.id) (reaches : w.progressAfter = next) :
      LoneBatch spec r next ⟨[w], admitted, []⟩ ⟨[q], [], kv⟩
  | starved {preempted : List Nat} {t : BatchState} (few : spec.kvBlocks * spec.blockSize < next) :
      LoneBatch spec r next ⟨[], [], preempted⟩ t

theorem form_lone_waiting (usable : spec.Usable) (chunked : spec.limits.chunkedPrefill = true)
    (prompt : 0 < r.inputTokens) (host : Nat) (stem : q.stem = r.stem) (state : q.state = .queued)
    (start : q.progress = 0) : ∃ next o t, 0 < next ∧ next ≤ r.span ∧
      formBatch spec.limits rule now
        ⟨[], [q], .start host spec.kvBlocks spec.blockSize spec.tier⟩ = .ok (o, t) ∧
      LoneBatch spec r next o t := by
  obtain ⟨c, hc⟩ : ∃ c, c = KvCache.start host spec.kvBlocks spec.blockSize spec.tier := ⟨_, rfl⟩
  have held : c.HeldAlone q.id 0 := hc ▸ start_heldAlone host _ usable.blockSize _ q.id
  have bare : (c.lookup q).blocks = [] := hc ▸ lookup_start host _ _ _ q
  obtain ⟨total, size⟩ : c.total = spec.kvBlocks ∧ c.blockSize = spec.blockSize := by
    rw [hc]
    cases spec.tier <;> exact ⟨rfl, rfl⟩
  have asked : 0 < q.inputTokens := Request.inputTokens_of_stem stem ▸ prompt
  obtain ⟨tokens, going⟩ : ∃ tokens,
      spec.limits.prefillChunk q.inputTokens spec.limits.maxTokens = some tokens :=
    prefillChunk_isSome fun whole => by cases whole.symm.trans chunked
  obtain ⟨some, _, within⟩ := prefillChunk_bounds going asked usable.maxTokens
  have upto := r.inputTokens_le_span
  rw [← Request.inputTokens_of_stem stem] at upto
  rw [← hc]
  rcases KvOp.allocate_alone held bare some with
    ⟨fits, a, d, done, held', total', size'⟩ | ⟨few, needed, available, failed⟩
  · obtain ⟨s, entered, same, runs, _⟩ := enterBatch_ok state (c.lookup q) now
    have id : s.id = q.id := Request.id_of_stem same
    refine ⟨tokens, _, _, some, Nat.le_trans within upto, form_waiting
      ⟨usable.maxRunning, usable.maxTokens⟩ held.sound.positive start bare asked going done entered,
      .work (total ▸ size ▸ fits) ⟨same.trans stem, runs, id ▸ held', total'.trans total,
        size'.trans size⟩ id.symm rfl⟩
  · exact ⟨tokens, _, _, some, Nat.le_trans within upto, form_waiting_starved
      ⟨usable.maxRunning, usable.maxTokens⟩ held.sound.positive start bare asked going failed,
      .starved (total ▸ size ▸ few)⟩

theorem form_lone_running (usable : spec.Usable) (chunked : spec.limits.chunkedPrefill = true)
    (k : Occupies spec r q.progress q kv)
    (unfinished : q.progress < r.span) :
    ∃ next o t, q.progress < next ∧ next ≤ r.span ∧
      formBatch spec.limits rule now ⟨[q], [], kv⟩ = .ok (o, t) ∧ LoneBatch spec r next o t := by
  obtain ⟨tokens, going⟩ : ∃ tokens,
      continuation spec.limits q spec.limits.maxTokens = some tokens := by
    unfold continuation
    split
    · exact prefillChunk_isSome fun whole => by cases whole.symm.trans chunked
    · exact ⟨1, rfl⟩
  obtain ⟨some, reaches⟩ := continuation_reaches usable.maxTokens going
  have upto : q.progress + tokens ≤ r.span := by
    rcases reaches with inPrompt | next
    · rw [Request.inputTokens_of_stem k.stem] at inPrompt
      exact Nat.le_trans inPrompt r.inputTokens_le_span
    · omega
  have further : q.progress < q.progress + tokens := by omega
  rcases KvOp.allocate_alone (m := {}) k.held rfl further with
    ⟨fits, a, d, done, held, total, size⟩ | ⟨few, needed, available, failed⟩
  · exact ⟨_, _, _, further, upto, form_running usable.maxTokens going done,
      .work (k.total ▸ k.blockSize ▸ fits) ⟨k.stem, k.state, held, total.trans k.total,
        size.trans k.blockSize⟩ rfl rfl⟩
  · obtain ⟨t, formed⟩ := form_running_starved usable.maxTokens going failed k.held.sound k.state
    exact ⟨_, _, t, further, upto, formed, .starved (k.total ▸ k.blockSize ▸ few)⟩

/-- A batch brings a lone request further, or is empty for lack of blocks. -/
theorem Lone.form (k : Lone spec r n s) (usable : spec.Usable)
    (chunked : spec.limits.chunkedPrefill = true) (prompt : 0 < r.inputTokens)
    (unfinished : n < r.span) (rule : SchedulerRule) (now : Nat) :
    ∃ next o t, n < next ∧ next ≤ r.span ∧
      formBatch spec.limits rule now s = .ok (o, t) ∧ LoneBatch spec r next o t := by
  cases k with
  | waits host stem state start =>
      exact form_lone_waiting usable chunked prompt host stem state start
  | runs k => exact form_lone_running usable chunked k unfinished

theorem apply_lone {w : ScheduledWork} (ends : r.completionProgress = r.span)
    (k : Occupies spec r n q kv) (own : w.request = q.id)
    (reaches : w.progressAfter = n) (admitted : List Nat) (now : Nat) :
    (r.span ≤ n ∧
      ∃ t, apply ⟨[q], [], kv⟩ ⟨[w], admitted, []⟩ now = .ok ([q.id], t)) ∨
    (n < r.span ∧ ∃ t, apply ⟨[q], [], kv⟩ ⟨[w], admitted, []⟩ now = .ok ([], t) ∧
      Lone spec r n t) := by
  obtain ⟨p, hp⟩ : ∃ p, p = q.advance n now := ⟨_, rfl⟩
  have stem : p.stem = q.stem := hp ▸ q.advance_stem n now
  have progress : p.progress = n := hp ▸ q.advance_progress n now
  have id : p.id = q.id := Request.id_of_stem stem
  have reached : p.isDone = decide (r.span ≤ n) := by
    rw [Request.isDone, progress, Request.completionProgress_of_stem (stem.trans k.stem), ends]
  have front : [q].span (fun s => s.id ≠ w.request) = ([], [q]) := by
    rw [List.span_eq_takeWhile_dropWhile]
    simp [own]
  by_cases done : r.span ≤ n
  · obtain ⟨d, gone, _⟩ := KvOp.releasing_ok k.held.sound q.id
    refine .inl ⟨done, ⟨[], [], d⟩, ?_⟩
    simp only [apply, List.foldlM_cons, List.foldlM_nil, applyOne, front, reaches, ← hp, reached,
      done, gone, id, decide_true, if_true, bind, Except.bind, pure, Except.pure, List.nil_append]
  · refine .inr ⟨Nat.not_le.mp done, ⟨[p], [], kv⟩, ?_, ?_⟩
    · simp only [apply, List.foldlM_cons, List.foldlM_nil, applyOne, front, reaches, ← hp, reached,
        done, decide_false, if_false, bind, Except.bind, pure, Except.pure, List.nil_append,
        Bool.false_eq_true]
    · have runs : Occupies spec r p.progress p kv :=
        ⟨stem.trans k.stem, (hp ▸ q.advance_state n now).trans k.state, id ▸ progress ▸ k.held,
          k.total, k.blockSize⟩
      exact progress ▸ .runs runs

theorem Lone.rounds_end {times : List Nat} (k : Lone spec r n s) (usable : spec.Usable)
    (chunked : spec.limits.chunkedPrefill = true) (prompt : 0 < r.inputTokens)
    (ends : r.completionProgress = r.span) (unfinished : n < r.span) (rule : SchedulerRule)
    (enough : r.span ≤ n + times.length) :
    rounds spec.limits rule times s = .ok (some (if
      r.span ≤ spec.kvBlocks * spec.blockSize then .completed else .starved)) := by
  -- every batch computes a token at least, so the times that are left last for the tokens left
  induction times generalizing n s with
  | nil => exact absurd unfinished (Nat.not_lt.mpr enough)
  | cons now times ih =>
      obtain ⟨next, o, t, further, upto, formed, batch⟩ :=
        k.form usable chunked prompt unfinished rule now
      rw [List.length_cons] at enough
      simp only [rounds, formed, bind, Except.bind]
      cases batch with
      | starved few =>
          have short : ¬r.span ≤ spec.kvBlocks * spec.blockSize := by omega
          simp only [short, if_false]
          rfl
      | @work q kv w admitted fits k own reaches =>
          rcases apply_lone ends k own reaches admitted now with
            ⟨done, t, applied⟩ | ⟨left, t, applied, k⟩
          · have room : r.span ≤ spec.kvBlocks * spec.blockSize := by omega
            simp only [room, if_true, applied]
            rfl
          · simp only [applied]
            exact ih k left (by omega)

end

end BatchState

theorem InstanceSpec.unserved_iff {spec : InstanceSpec} {r : Request}
    (positive : 0 < spec.blockSize) (chunked : spec.limits.chunkedPrefill = true)
    (prompt : 0 < r.inputTokens) :
    spec.serves r = false ↔ spec.kvBlocks * spec.blockSize < r.totalTokens := by
  have fits : spec.serves r = true ↔ r.totalTokens ≤ spec.kvBlocks * spec.blockSize := by
    simp only [serves, prompt, chunked, decide_true, Bool.true_or, Bool.true_and, decide_eq_true_eq]
    rw [Nat.div_le_iff_le_mul_add_pred positive, Nat.mul_comm]
    omega
  rw [← Nat.not_le, ← fits, Bool.not_eq_true]

namespace Instance
variable {spec : InstanceSpec} {i : Instance} {r : Request}

theorem refuses_iff (k : i.Coherent spec) (state : r.state = .arrived) (start : r.progress = 0)
    (now : Nat) (q : EventQueue) :
    (∃ s reason, (i.enqueue r now q).1 = .ok (.rejected s reason)) ↔ spec.serves r = false := by
  constructor
  · rintro ⟨s, reason, refused⟩
    refine Bool.eq_false_iff.mpr fun serves => ?_
    obtain ⟨w, received, stem, _, progress⟩ := i.receive_ok (.inl state)
    obtain ⟨unfit, judged, fits⟩ := unfit_eq k (.inl (progress.trans start))
    rw [InstanceSpec.serves_of_stem stem, serves] at fits
    obtain rfl := Option.isNone_iff_eq_none.mp fits
    simp only [enqueue, received, judged] at refused
    split at refused
    · cases refused
    · obtain ⟨_, _, other⟩ := ok_of_map refused
      cases other
  · intro unserved
    obtain ⟨s, reason, refused, _⟩ := enqueue_refused k state start unserved now q
    exact ⟨s, reason, by rw [refused]⟩

/-- What a fresh request needs, and what an instance asks for it. Alone with an empty cache of
that size, the request runs out of blocks exactly if they have no room for all that it computes.
The instance turns it away if they have no room for its prompt and output. So it turns away all that
would run out of blocks, and else only those with output that would just fill them, for the KV of
the last token is never computed. -/
theorem refusal_exceeds_need (usable : spec.Usable) (chunked : spec.limits.chunkedPrefill = true)
    (k : i.Coherent spec) (fresh : r.Fresh) (prompt : 0 < r.inputTokens) (counted : r.Counted)
    (now : Nat) (q : EventQueue) (host : Nat) (rule : SchedulerRule) (times : List Nat)
    (enough : r.completionProgress ≤ times.length) :
    ∃ ending, BatchState.rounds spec.limits rule times ⟨[], [{ r with state := .queued }],
        .start host spec.kvBlocks spec.blockSize spec.tier⟩ = .ok (some ending) ∧
      (ending = .starved ↔ spec.kvBlocks * spec.blockSize < r.completionProgress) ∧
      ((∃ s reason, (i.enqueue r now q).1 = .ok (.rejected s reason)) ↔
        spec.kvBlocks * spec.blockSize < r.inputTokens + r.outputTokens) ∧
      ((∃ s reason, (i.enqueue r now q).1 = .ok (.rejected s reason)) ↔
        ending = .starved ∨
          0 < r.outputTokens ∧ r.completionProgress = spec.kvBlocks * spec.blockSize) := by
  have start : r.progress = 0 := congrArg Request.progress fresh
  have state : r.state = .arrived := congrArg Request.state fresh
  have waits : BatchState.Lone spec r 0 ⟨[], [{ r with state := .queued }],
      .start host spec.kvBlocks spec.blockSize spec.tier⟩ := .waits host rfl rfl start
  have ends := Request.completionProgress_eq counted.span_lt
  have some := Nat.lt_of_lt_of_le prompt r.inputTokens_le_span
  have enough : r.span ≤ 0 + times.length := (Nat.zero_add _).symm ▸ ends ▸ enough
  have ran := waits.rounds_end usable chunked prompt ends some rule enough
  have asked : r.totalTokens = r.inputTokens + r.outputTokens := wrap_of_lt counted
  have refused := (refuses_iff k state start now q).trans
    (InstanceSpec.unserved_iff usable.blockSize chunked prompt)
  rw [asked] at refused
  have need : r.span = r.inputTokens + max r.outputTokens 1 - 1 := rfl
  refine ⟨_, ran, ?_, refused, refused.trans ?_⟩
  · rw [ends]
    split
    · next fits => exact iff_of_false (by decide) (Nat.not_lt.mpr fits)
    · next short => exact iff_of_true rfl (Nat.not_le.mp short)
  · rw [ends]
    split
    · next fits =>
      simp only [reduceCtorEq, false_or]
      omega
    · next short =>
      refine iff_of_true ?_ (.inl rfl)
      omega

/-- An instance of one block, and no host tier. -/
def singleBlock : InstanceSpec where
  kvBlocks := 1
  blockSize := 16
  limits := { maxRunning := 256, maxTokens := 2048, longPrefill := 0, chunkedPrefill := true }
  tier := none

def blockfulPrompt (outputTokens : Nat) : Request :=
  { id := 1, arrivalTime := 0, inputTokens := 16, outputTokens }

theorem blockful_accepted : singleBlock.Usable ∧ singleBlock.limits.chunkedPrefill = true ∧
    (Instance.new 0 .unified singleBlock .fcfs).Coherent singleBlock ∧ (blockfulPrompt 0).Fresh ∧
    0 < (blockfulPrompt 0).inputTokens ∧ (blockfulPrompt 0).Counted ∧
    (blockfulPrompt 0).completionProgress ≤ (List.replicate 16 0).length ∧
    BatchState.rounds singleBlock.limits .fcfs (List.replicate 16 0)
      ⟨[], [{ blockfulPrompt 0 with state := .queued }], .start 0 1 16 none⟩ =
        .ok (some .completed) ∧
    ¬∃ s reason, ((Instance.new 0 .unified singleBlock .fcfs).enqueue (blockfulPrompt 0) 0 {}).1 =
      .ok (.rejected s reason) := by
  have usable : singleBlock.Usable := ⟨by decide, by decide, by decide⟩
  have coherent := new_coherent usable 0 .unified .fcfs
  obtain ⟨ending, ran, starved, refused, _⟩ := refusal_exceeds_need usable rfl coherent
    (r := blockfulPrompt 0) rfl (by decide) (by decide) 0 {} 0 .fcfs (List.replicate 16 0) (by decide)
  have room : ending ≠ .starved := fun short => absurd (starved.mp short) (by decide)
  obtain rfl : ending = .completed := by
    cases ending with
    | completed => rfl
    | starved => exact absurd rfl room
  exact ⟨usable, rfl, coherent, rfl, by decide, by decide, by decide, ran,
    fun away => absurd (refused.mp away) (by decide)⟩

/-- Of a request that is done within the blocks of an instance, the last token of its output is one
too many. -/
theorem blockful_turned_away : singleBlock.Usable ∧ singleBlock.limits.chunkedPrefill = true ∧
    (blockfulPrompt 1).Fresh ∧ 0 < (blockfulPrompt 1).inputTokens ∧
    BatchState.rounds singleBlock.limits .fcfs (List.replicate 16 0)
      ⟨[], [{ blockfulPrompt 1 with state := .queued }], .start 0 1 16 none⟩ =
        .ok (some .completed) ∧
    ∃ s reason, ((Instance.new 0 .unified singleBlock .fcfs).enqueue (blockfulPrompt 1) 0 {}).1 =
      .ok (.rejected s reason) := by
  have usable : singleBlock.Usable := ⟨by decide, by decide, by decide⟩
  have waits : BatchState.Lone singleBlock (blockfulPrompt 1) 0
      ⟨[], [{ blockfulPrompt 1 with state := .queued }], .start 0 1 16 none⟩ :=
    .waits 0 rfl rfl rfl
  exact ⟨usable, rfl, rfl, by decide,
    waits.rounds_end usable rfl (by decide) rfl (by decide) .fcfs (by decide), _, _, rfl⟩

end Instance
end InferenceSim
