import InferenceSim.Proofs.Instance.Settling
import InferenceSim.Proofs.Results

/-! The rounds of forming a batch and of settling one. Each is a relation with a rule for every
thing that may become of the next request, and what was computed was built by these rules. -/
namespace InferenceSim

/-- How the running requests are continued. -/
inductive Continues (limits : BatchLimits) :
    Nat → List Request → List Request → KvCache → Continued → Prop
  | idle {budget : Nat} {todo queue : List Request} {kv : KvCache}
      (settled : todo = [] ∨ budget = 0) :
      Continues limits budget todo queue kv ⟨todo, [], [], queue, kv, budget⟩
  | pass {budget : Nat} {r : Request} {rest queue : List Request} {kv : KvCache} {k : Continued}
      (left : 0 < budget) (waits : continuation limits r budget = none)
      (more : Continues limits budget rest queue kv k) :
      Continues limits budget (r :: rest) queue kv { k with running := r :: k.running }
  | work {budget tokens : Nat} {r : Request} {rest queue : List Request} {kv d : KvCache}
      {a : Allocation} {k : Continued}
      (left : 0 < budget) (going : continuation limits r budget = some tokens)
      (allocated : KvOp.allocate r r.progress (r.progress + tokens) {} kv = .ok a d)
      (more : Continues limits (budget - tokens) rest queue d k) :
      Continues limits budget (r :: rest) queue kv { k with
        running := r :: k.running
        scheduled := ⟨r.id, tokens, r.progress + tokens, r.inPrefill⟩ :: k.scheduled }
  | preempt {budget tokens needed available : Nat} {r last : Request}
      {rest first queue : List Request} {kv d e : KvCache} {k : Continued}
      (left : 0 < budget) (going : continuation limits r budget = some tokens)
      (failed : KvOp.allocate r r.progress (r.progress + tokens) {} kv =
        .error (.exhausted needed available) d)
      (split : r :: rest = first ++ [last]) (gone : d.releasing last.id = .ok e)
      (more : Continues limits budget first (preempted last :: queue) e k) :
      Continues limits budget (r :: rest) queue kv { k with
        preempted := last.id :: k.preempted }

/-- The tokens that a request from the queue computes at first. -/
def entryTokens (limits : BatchLimits) (r : Request) (start budget : Nat) : Option Nat :=
  if start < r.inputTokens then limits.prefillChunk (r.inputTokens - start) budget else some 1

/-- How requests are taken in from the queue. -/
inductive Enters (limits : BatchLimits) (now : Nat) :
    List Request → Nat → Nat → KvCache → Admitted → Prop
  | stop {queue : List Request} {running budget : Nat} {kv : KvCache} :
      Enters limits now queue running budget kv ⟨[], [], queue, kv⟩
  | full {head : Request} {rest : List Request} {running budget start tokens needed available : Nat}
      {kv d : KvCache}
      (failed : KvOp.allocate head start (start + tokens) (kv.lookup head) kv =
        .error (.exhausted needed available) d) :
      Enters limits now (head :: rest) running budget kv ⟨[], [], head :: rest, d⟩
  | enter {head r : Request} {rest : List Request} {running budget start tokens : Nat}
      {kv d : KvCache} {a : Allocation} {k : Admitted}
      (room : running < limits.maxRunning ∧ 0 < budget)
      (begins : start = max head.progress ((kv.lookup head).cachedTokens kv.blockSize))
      (going : entryTokens limits head start budget = some tokens)
      (allocated : KvOp.allocate head start (start + tokens) (kv.lookup head) kv = .ok a d)
      (entered : enterBatch head (kv.lookup head) now = .ok r)
      (more : Enters limits now rest (running + 1) (budget - tokens) d k) :
      Enters limits now (head :: rest) running budget kv { k with
        entered := r :: k.entered
        scheduled := ⟨head.id, tokens, start + tokens, start < head.inputTokens⟩ :: k.scheduled }

def Request.completedAt (r : Request) (now : Nat) : Request :=
  { r with state := .completed, timing := { r.timing with completionTime := some now } }

/-- A request whose KV is sent to the instance that decodes it. -/
def Request.handed (r : Request) : Request := { r with state := .queued, decodeTarget := none }

/-- How running requests find their end, their next instance or their place in the batch. -/
inductive Settles (now : Nat) : List Request → KvCache → Instance.Settled → Prop
  | nil {kv : KvCache} : Settles now [] kv ⟨[], {}, kv⟩
  | done {r : Request} {rest : List Request} {kv d : KvCache} {s : Instance.Settled}
      (reached : r.isDone = true) (gone : kv.releasing r.id = .ok d)
      (more : Settles now rest d s) :
      Settles now (r :: rest) kv { s with report := { s.report with
        completed := r.completedAt now :: s.report.completed } }
  | leave {r : Request} {rest : List Request} {kv d : KvCache} {s : Instance.Settled}
      {decode : Nat} (unfinished : r.isDone = false) (past : r.inPrefill = false)
      (target : r.decodeTarget = some decode) (gone : kv.releasing r.id = .ok d)
      (more : Settles now rest d s) :
      Settles now (r :: rest) kv { s with report := { s.report with
        handoffs := ⟨r.handed, decode, kv.blocksFor r.progress⟩ :: s.report.handoffs } }
  | stay {r : Request} {rest : List Request} {kv : KvCache} {s : Instance.Settled}
      (unfinished : r.isDone = false) (stays : r.inPrefill = true ∨ r.decodeTarget = none)
      (more : Settles now rest kv s) :
      Settles now (r :: rest) kv { s with running := r :: s.running }

/-- How a batch is formed. Only a step that preempts no request takes in others. -/
inductive Forms (limits : BatchLimits) (rule : SchedulerRule) (now : Nat) (s : BatchState) :
    BatchOutcome → BatchState → Prop
  | calm {k : Continued} {a : Admitted}
      (continued : Continues limits limits.maxTokens s.running (rule.sort Request.view s.queue)
        s.kv k)
      (none : k.preempted = [])
      (entered : Enters limits now k.queue k.running.length k.budget k.kv a) :
      Forms limits rule now s ⟨k.scheduled ++ a.scheduled, a.entered.map (·.id), []⟩
        ⟨k.running ++ a.entered, a.queue, a.kv⟩
  | tight {k : Continued}
      (continued : Continues limits limits.maxTokens s.running (rule.sort Request.view s.queue)
        s.kv k)
      (some : k.preempted ≠ []) :
      Forms limits rule now s ⟨k.scheduled, [], k.preempted⟩ ⟨k.running, k.queue, k.kv⟩

section
variable {limits : BatchLimits} {r s : Request} {queue : List Request} {kv d : KvCache} {now : Nat}

theorem preempt_inv {waits : List Request} (done : preempt r queue kv = .ok (waits, d)) :
    kv.releasing r.id = .ok d ∧ waits = preempted r :: queue := by
  obtain ⟨e, gone, done⟩ := ok_of_bind done
  split at done
  · cases done
  · next s moved =>
    obtain rfl := Request.transition_inv moved
    obtain ⟨rfl, rfl⟩ := Prod.mk.inj (Except.ok.inj done)
    exact ⟨gone, rfl⟩

theorem continues_of_ok {fuel budget : Nat} {todo : List Request} {k : Continued}
    (enough : todo.length ≤ fuel)
    (done : continueRunning limits fuel budget todo queue kv = .ok k) :
    Continues limits budget todo queue kv k := by
  induction fuel generalizing budget todo queue kv k with
  | zero =>
      rw [← Except.ok.inj done]
      exact .idle (.inl (List.eq_nil_of_length_eq_zero (Nat.le_zero.mp enough)))
  | succ fuel ih =>
      cases todo with
      | nil =>
          rw [← Except.ok.inj done]
          exact .idle (.inl rfl)
      | cons r rest =>
          have shorter : rest.length ≤ fuel := Nat.le_of_succ_le_succ enough
          rw [continueRunning] at done
          split at done
          · next spent =>
            rw [← Except.ok.inj done]
            exact .idle (.inr spent)
          next some =>
          have left := Nat.pos_of_ne_zero some
          split at done
          · next waits =>
            obtain ⟨c, others, done⟩ := ok_of_bind done
            rw [← Except.ok.inj done]
            exact .pass left waits (ih shorter others)
          next tokens going =>
          split at done
          · next a d allocated =>
            obtain ⟨c, others, done⟩ := ok_of_bind done
            rw [← Except.ok.inj done]
            exact .work left going allocated (ih shorter others)
          · cases done
          · next needed available d failed =>
            obtain ⟨⟨waits, e⟩, preempts, done⟩ := ok_of_bind done
            obtain ⟨gone, rfl⟩ := preempt_inv preempts
            have split : r :: rest = (r :: rest).dropLast ++ [_] :=
              (List.dropLast_concat_getLast (List.cons_ne_nil r rest)).symm
            dsimp only at done
            split at done
            · next alone =>
              rw [← Except.ok.inj done]
              refine .preempt (k := ⟨[], [], [], _, e, budget⟩) left going failed split gone ?_
              rw [List.isEmpty_iff.mp alone]
              exact .idle (.inl rfl)
            · obtain ⟨c, others, done⟩ := ok_of_bind done
              rw [← Except.ok.inj done]
              refine .preempt left going failed split gone (ih ?_ others)
              rw [List.length_dropLast]
              exact shorter

theorem lookup_eq {m : PrefixMatch} (done : kv.lookup? r = .ok m) : m = kv.lookup r := by
  unfold KvCache.lookup? at done
  split at done
  · cases done
  · exact (Except.ok.inj done).symm

theorem enters_of_ok {running budget : Nat} {a : Admitted}
    (done : takeQueued limits now queue running budget kv = .ok a) :
    Enters limits now queue running budget kv a := by
  induction queue generalizing running budget kv a with
  | nil =>
      rw [← Except.ok.inj done]
      exact .stop
  | cons head rest ih =>
      rw [takeQueued] at done
      split at done
      · next room =>
        obtain ⟨m, looked, done⟩ := ok_of_bind done
        obtain rfl := lookup_eq looked
        dsimp only at done
        split at done
        · rw [← Except.ok.inj done]
          exact .stop
        next tokens going =>
        split at done
        · next needed available d failed =>
          rw [← Except.ok.inj done]
          exact .full failed
        · cases done
        · next b d allocated =>
          split at done
          · cases done
          · next r entered =>
            obtain ⟨k, others, done⟩ := ok_of_bind done
            rw [← Except.ok.inj done]
            refine .enter room rfl ?_ allocated entered (ih others)
            rw [entryTokens, ← going]
      · rw [← Except.ok.inj done]
        exact .stop

theorem settles_of_ok {todo : List Request} {t : Instance.Settled}
    (done : Instance.settle now todo kv = .ok t) : Settles now todo kv t := by
  induction todo generalizing kv t with
  | nil =>
      rw [← Except.ok.inj done]
      exact .nil
  | cons r rest ih =>
      rw [Instance.settle] at done
      split at done
      · next reached =>
        split at done
        · cases done
        · next s moved =>
          obtain rfl := Request.transition_inv moved
          obtain ⟨d, gone, done⟩ := ok_of_bind done
          obtain ⟨t', others, done⟩ := ok_of_bind done
          rw [← Except.ok.inj done]
          exact .done reached gone (ih others)
      · next unfinished =>
        have unfinished := Bool.eq_false_iff.mpr unfinished
        split at done
        · next decode past target =>
          obtain ⟨d, gone, done⟩ := ok_of_bind done
          dsimp only at done
          split at done
          · cases done
          · next s moved =>
            obtain rfl := Request.transition_inv moved
            obtain ⟨t', others, done⟩ := ok_of_bind done
            rw [← Except.ok.inj done]
            exact .leave unfinished past target gone (ih others)
        · next stays =>
          obtain ⟨t', others, done⟩ := ok_of_bind done
          rw [← Except.ok.inj done]
          refine .stay unfinished ?_ (ih others)
          cases inPrefill : r.inPrefill with
          | true => exact .inl rfl
          | false =>
              refine .inr (Option.eq_none_iff_forall_ne_some.mpr fun decode target => ?_)
              exact stays decode inPrefill target

theorem forms_of_ok {rule : SchedulerRule} {s t : BatchState} {o : BatchOutcome}
    (done : formBatch limits rule now s = .ok (o, t)) : Forms limits rule now s o t := by
  obtain ⟨k, continued, done⟩ := ok_of_bind done
  have continued := continues_of_ok (Nat.le_refl _) continued
  split at done
  · next none =>
    obtain ⟨a, entered, done⟩ := ok_of_bind done
    obtain ⟨rfl, rfl⟩ := Prod.mk.inj (Except.ok.inj done)
    exact .calm continued (List.isEmpty_iff.mp none) (enters_of_ok entered)
  · next some =>
    obtain ⟨rfl, rfl⟩ := Prod.mk.inj (Except.ok.inj done)
    exact .tight continued fun none => some (List.isEmpty_iff.mpr none)

theorem enterBatch_eq {m : PrefixMatch} (done : enterBatch r m now = .ok s) : s = { r with
    state := .running
    timing := { r.timing with firstScheduled := some (r.timing.firstScheduled.getD now) }
    cacheHitBlocks := if r.inPrefill then wrap (r.cacheHitBlocks + m.size) else r.cacheHitBlocks
    cacheMissBlocks := if r.inPrefill then wrap (r.cacheMissBlocks + (m.promptBlocks - m.size))
      else r.cacheMissBlocks } := by
  obtain ⟨q, moved, done⟩ := ok_of_bind done
  obtain rfl := Request.transition_inv moved
  dsimp only at done
  split at done
  · next ahead =>
    have ahead : r.inPrefill = true := ahead
    rw [if_pos ahead, if_pos ahead]
    exact (Except.ok.inj done).symm
  · next past =>
    have past : ¬r.inPrefill = true := past
    rw [if_neg past, if_neg past]
    exact (Except.ok.inj done).symm

theorem enterBatch_inv {m : PrefixMatch} (done : enterBatch r m now = .ok s) :
    ∃ hits misses, s = { r with
      state := .running
      timing := { r.timing with firstScheduled := some (r.timing.firstScheduled.getD now) }
      cacheHitBlocks := hits
      cacheMissBlocks := misses } := ⟨_, _, enterBatch_eq done⟩

end

/-- What a piece of work may bring a request to: to a place in its prompt, or one token on. -/
def Reaches (r : Request) (progress : Nat) : Prop :=
  progress ≤ r.inputTokens ∨ progress = r.progress + 1

theorem continuation_reaches {limits : BatchLimits} {r : Request} {budget tokens : Nat}
    (left : 0 < budget) (going : continuation limits r budget = some tokens) :
    0 < tokens ∧ Reaches r (r.progress + tokens) := by
  unfold continuation at going
  split at going
  · next inPrefill =>
    rw [Request.inPrefill, decide_eq_true_eq] at inPrefill
    have bounds := prefillChunk_bounds going (by rw [Request.remainingPrefill]; omega) left
    rw [Request.remainingPrefill] at bounds
    exact ⟨bounds.1, .inl (by omega)⟩
  · obtain rfl := Option.some.inj going
    exact ⟨Nat.one_pos, .inr rfl⟩

theorem entry_reaches {limits : BatchLimits} {r : Request} {kv : KvCache}
    {start budget tokens : Nat} (left : 0 < budget)
    (begins : start = max r.progress ((kv.lookup r).cachedTokens kv.blockSize))
    (going : entryTokens limits r start budget = some tokens) :
    0 < tokens ∧ Reaches r (start + tokens) := by
  unfold entryTokens at going
  split at going
  · have bounds := prefillChunk_bounds going (by omega) left
    exact ⟨bounds.1, .inl (by omega)⟩
  · obtain rfl := Option.some.inj going
    have cached : (kv.lookup r).cachedTokens kv.blockSize ≤ r.inputTokens - 1 :=
      lookup_cached kv r
    exact ⟨Nat.one_pos, .inr (by omega)⟩

section
variable {limits : BatchLimits} {rule : SchedulerRule} {budget running now : Nat}
  {todo queue : List Request} {kv : KvCache} {k : Continued} {a : Admitted} {s t : BatchState}
  {o : BatchOutcome}

/-- The requests that go on are the first ones, and the others wait at the front. -/
theorem Continues.split (c : Continues limits budget todo queue kv k) :
    ∃ gone, todo = k.running ++ gone ∧ k.queue = gone.map preempted ++ queue ∧
      k.preempted = gone.reverse.map (·.id) := by
  induction c with
  | idle => exact ⟨[], (List.append_nil _).symm, rfl, rfl⟩
  | pass left waits more ih =>
      obtain ⟨gone, rest, waits, ids⟩ := ih
      exact ⟨gone, by rw [rest]; rfl, waits, ids⟩
  | work left going allocated more ih =>
      obtain ⟨gone, rest, waits, ids⟩ := ih
      exact ⟨gone, by rw [rest]; rfl, waits, ids⟩
  | @preempt _ _ _ _ _ last _ _ _ _ _ _ _ left going failed split released more ih =>
      obtain ⟨gone, first, waits, ids⟩ := ih
      refine ⟨gone ++ [last], ?_, ?_, ?_⟩
      · rw [split, first, List.append_assoc]
      · rw [waits, List.map_append, List.append_assoc]
        rfl
      · rw [List.reverse_append, List.map_append, ids]
        rfl

theorem Continues.running_mem (c : Continues limits budget todo queue kv k) :
    ∀ r ∈ k.running, r ∈ todo := by
  obtain ⟨gone, split, _⟩ := c.split
  intro r hr
  rw [split]
  exact List.mem_append_left gone hr

theorem Continues.calm (c : Continues limits budget todo queue kv k) (none : k.preempted = []) :
    k.queue = queue := by
  obtain ⟨gone, _, waits, ids⟩ := c.split
  have empty : gone = [] := by
    rw [none] at ids
    exact List.reverse_eq_nil_iff.mp (List.map_eq_nil_iff.mp ids.symm)
  rw [waits, empty]
  rfl

theorem Continues.stays (c : Continues limits budget todo queue kv k) (none : k.preempted = []) :
    k.running = todo := by
  obtain ⟨gone, split, _, ids⟩ := c.split
  rw [none] at ids
  have empty : gone = [] := List.reverse_eq_nil_iff.mp (List.map_eq_nil_iff.mp ids.symm)
  rw [split, empty, List.append_nil]

/-- Every piece of work is for one of some requests, and within its reach. -/
def WorksFor (rs : List Request) (works : List ScheduledWork) : Prop :=
  ∀ w ∈ works, ∃ r ∈ rs, w.request = r.id ∧ Reaches r w.progressAfter

theorem WorksFor.mono {rs ss : List Request} {works : List ScheduledWork} (k : WorksFor rs works)
    (sub : ∀ r ∈ rs, r ∈ ss) : WorksFor ss works := by
  intro w hw
  obtain ⟨r, hr, rest⟩ := k w hw
  exact ⟨r, sub r hr, rest⟩

theorem WorksFor.cons {r : Request} {rs : List Request} {w : ScheduledWork}
    {works : List ScheduledWork} (k : WorksFor rs works) (own : w.request = r.id)
    (reaches : Reaches r w.progressAfter) : WorksFor (r :: rs) (w :: works) := by
  intro v hv
  rcases List.mem_cons.mp hv with rfl | later
  · exact ⟨r, List.mem_cons_self, own, reaches⟩
  · exact k.mono (fun s hs => List.mem_cons_of_mem r hs) v later

theorem WorksFor.append {rs ss : List Request} {works more : List ScheduledWork}
    (k : WorksFor rs works) (l : WorksFor ss more) : WorksFor (rs ++ ss) (works ++ more) := by
  intro w hw
  rcases List.mem_append.mp hw with first | last
  · exact k.mono (fun r hr => List.mem_append_left ss hr) w first
  · exact l.mono (fun r hr => List.mem_append_right rs hr) w last

theorem WorksFor.map {rs : List Request} {works : List ScheduledWork} {f : Request → Request}
    (k : WorksFor rs works) (same : ∀ r, (f r).id = r.id ∧ (f r).inputTokens = r.inputTokens ∧
      (f r).progress = r.progress) : WorksFor (rs.map f) works := by
  intro w hw
  obtain ⟨r, hr, own, reaches⟩ := k w hw
  obtain ⟨id, prompt, progress⟩ := same r
  refine ⟨f r, List.mem_map_of_mem hr, own.trans id.symm, ?_⟩
  rw [Reaches, prompt, progress]
  exact reaches

theorem Continues.works (c : Continues limits budget todo queue kv k) :
    WorksFor k.running k.scheduled := by
  induction c with
  | idle => exact List.forall_mem_nil _
  | pass left waits more ih => exact ih.mono fun s hs => List.mem_cons_of_mem _ hs
  | work left going allocated more ih => exact ih.cons rfl (continuation_reaches left going).2
  | preempt left going failed split gone more ih => exact ih

theorem Enters.works (c : Enters limits now queue running budget kv a) :
    WorksFor a.entered a.scheduled := by
  induction c with
  | stop => exact List.forall_mem_nil _
  | full failed => exact List.forall_mem_nil _
  | enter room begins going allocated entered more ih =>
      obtain ⟨_, _, rfl⟩ := enterBatch_inv entered
      exact ih.cons rfl (entry_reaches room.2 begins going).2

theorem Continues.works_sublist (c : Continues limits budget todo queue kv k) :
    (k.scheduled.map (·.request)).Sublist (k.running.map (·.id)) := by
  induction c with
  | idle => exact List.nil_sublist _
  | pass left waits more ih => exact ih.cons _
  | work left going allocated more ih => exact ih.cons_cons _
  | preempt left going failed split gone more ih => exact ih

theorem Enters.works_eq (c : Enters limits now queue running budget kv a) :
    a.scheduled.map (·.request) = a.entered.map (·.id) := by
  induction c with
  | stop => rfl
  | full failed => rfl
  | enter room begins going allocated entered more ih =>
      obtain ⟨_, _, rfl⟩ := enterBatch_inv entered
      rw [List.map_cons, ih, List.map_cons]

/-- The requests of the queue enter from its front, and the others stay. -/
theorem Enters.split (c : Enters limits now queue running budget kv a) :
    (∀ r ∈ a.entered, ∃ q ∈ queue, ∃ m, enterBatch q m now = .ok r) ∧
      ∀ r ∈ a.queue, r ∈ queue := by
  induction c with
  | stop => exact ⟨List.forall_mem_nil _, fun r hr => hr⟩
  | full failed => exact ⟨List.forall_mem_nil _, fun r hr => hr⟩
  | enter room begins going allocated entered more ih =>
      refine ⟨fun s hs => ?_, fun s hs => List.mem_cons_of_mem _ (ih.2 s hs)⟩
      rcases List.mem_cons.mp hs with rfl | later
      · exact ⟨_, List.mem_cons_self, _, entered⟩
      · obtain ⟨q, hq, rest⟩ := ih.1 s later
        exact ⟨q, List.mem_cons_of_mem _ hq, rest⟩

theorem Enters.entered_ids (c : Enters limits now queue running budget kv a) :
    a.entered.map (·.id) ⊆ queue.map (·.id) := by
  refine List.forall_mem_map.mpr fun r hr => ?_
  obtain ⟨q, hq, _, entered⟩ := c.split.1 r hr
  obtain ⟨_, _, rfl⟩ := enterBatch_inv entered
  exact List.mem_map.mpr ⟨q, hq, rfl⟩

/-- The requests that enter are the first ones of the queue. -/
theorem Enters.ids (c : Enters limits now queue running budget kv a) :
    queue.map (·.id) = a.entered.map (·.id) ++ a.queue.map (·.id) := by
  induction c with
  | stop => rfl
  | full failed => rfl
  | enter room begins going allocated entered more ih =>
      obtain ⟨_, _, rfl⟩ := enterBatch_inv entered
      exact congrArg (_ :: ·) ih

theorem mem_sort {r : Request} : r ∈ rule.sort Request.view queue ↔ r ∈ queue :=
  (List.mergeSort_perm _ _).mem_iff

/-- A batch moves the place where the running requests end and the others begin. -/
theorem Forms.line (c : Forms limits rule now s o t) : (t.running ++ t.queue).map (·.id) =
    (s.running ++ rule.sort Request.view s.queue).map (·.id) := by
  cases c with
  | @calm k a continued none entered =>
      have moved := entered.ids
      rw [continued.calm none] at moved
      simp only [continued.stays none, List.map_append, moved, List.append_assoc]
  | @tight k continued some =>
      obtain ⟨gone, split, waits, _⟩ := continued.split
      have back : (gone.map preempted).map (·.id) = gone.map (·.id) := List.map_map
      rw [split, waits]
      simp only [List.map_append, back, List.append_assoc]

theorem Forms.works (c : Forms limits rule now s o t) : WorksFor t.running o.scheduled := by
  cases c with
  | calm continued none entered => exact continued.works.append entered.works
  | tight continued some => exact continued.works

theorem Forms.works_sublist (c : Forms limits rule now s o t) :
    (o.scheduled.map (·.request)).Sublist (t.running.map (·.id)) := by
  cases c with
  | tight continued some => exact continued.works_sublist
  | calm continued none entered =>
      rw [List.map_append, List.map_append, entered.works_eq]
      exact continued.works_sublist.append_right _

theorem Forms.running_cases (c : Forms limits rule now s o t) : ∀ r ∈ t.running,
    r ∈ s.running ∨ ∃ q ∈ s.queue, ∃ m, enterBatch q m now = .ok r := by
  intro r hr
  cases c with
  | calm continued none entered =>
      rcases List.mem_append.mp hr with before | new
      · exact .inl (continued.running_mem r before)
      · obtain ⟨q, hq, rest⟩ := entered.split.1 r new
        rw [continued.calm none] at hq
        exact .inr ⟨q, mem_sort.mp hq, rest⟩
  | tight continued some => exact .inl (continued.running_mem r hr)

theorem Forms.queue_cases (c : Forms limits rule now s o t) : ∀ r ∈ t.queue,
    r ∈ s.queue ∨ ∃ q ∈ s.running, r = preempted q := by
  intro r hr
  cases c with
  | calm continued none entered =>
      have hr := entered.split.2 r hr
      rw [continued.calm none] at hr
      exact .inl (mem_sort.mp hr)
  | tight continued some =>
      obtain ⟨gone, split, waits, _⟩ := continued.split
      rw [waits] at hr
      rcases List.mem_append.mp hr with new | before
      · obtain ⟨q, hq, rfl⟩ := List.mem_map.mp new
        rw [split]
        exact .inr ⟨q, List.mem_append_right _ hq, rfl⟩
      · exact .inl (mem_sort.mp before)

theorem Forms.queue_of_calm (c : Forms limits rule now s o t) (calm : o.preempted = []) :
    ∀ r ∈ t.queue, r ∈ s.queue := by
  intro r hr
  cases c with
  | calm continued none entered =>
      have hr := entered.split.2 r hr
      rw [continued.calm none] at hr
      exact mem_sort.mp hr
  | tight continued some => exact absurd calm some

theorem Forms.calm_of_alone (c : Forms limits rule now s o t)
    (first : ∀ r rest, s.running = r :: rest → ∃ rest', t.running = r :: rest')
    (alone : (s.running ++ s.queue).length ≤ 1) : o.preempted = [] := by
  cases c with
  | calm => rfl
  | @tight k continued some =>
      obtain ⟨gone, split, _, ids⟩ := continued.split
      cases gone with
      | nil => exact ids
      | cons r rest =>
          rw [split, List.length_append, List.length_append, List.length_cons] at alone
          have empty : k.running = [] := List.length_eq_zero_iff.mp (by omega)
          rw [empty] at split
          obtain ⟨_, goes⟩ := first r rest split
          cases empty.symm.trans goes

end

/-- What became of some requests at the end of a step. -/
structure Fates (now : Nat) (todo : List Request) (s : Instance.Settled) : Prop where
  completed : ∀ q ∈ s.report.completed, ∃ r ∈ todo, r.isDone = true ∧ q = r.completedAt now
  handoffs : ∀ h ∈ s.report.handoffs, ∃ r ∈ todo, r.isDone = false ∧ h.request = r.handed
  stays : ∀ r ∈ s.running, r ∈ todo ∧ r.isDone = false

theorem Fates.more {now : Nat} {rest : List Request} {s : Instance.Settled} (r : Request)
    (k : Fates now rest s) : Fates now (r :: rest) s where
  completed q hq := by
    obtain ⟨s, hs, fate⟩ := k.completed q hq
    exact ⟨s, List.mem_cons_of_mem r hs, fate⟩
  handoffs h hh := by
    obtain ⟨s, hs, fate⟩ := k.handoffs h hh
    exact ⟨s, List.mem_cons_of_mem r hs, fate⟩
  stays s hs := ⟨List.mem_cons_of_mem r (k.stays s hs).1, (k.stays s hs).2⟩

theorem Settles.fates {now : Nat} {todo : List Request} {kv : KvCache} {s : Instance.Settled}
    (c : Settles now todo kv s) : Fates now todo s := by
  induction c with
  | nil => exact ⟨List.forall_mem_nil _, List.forall_mem_nil _, List.forall_mem_nil _⟩
  | done reached gone more ih =>
      refine { ih.more _ with completed := List.forall_mem_cons.mpr ⟨?_, (ih.more _).completed⟩ }
      exact ⟨_, List.mem_cons_self, reached, rfl⟩
  | leave unfinished past target gone more ih =>
      refine { ih.more _ with handoffs := List.forall_mem_cons.mpr ⟨?_, (ih.more _).handoffs⟩ }
      exact ⟨_, List.mem_cons_self, unfinished, rfl⟩
  | stay unfinished _ more ih =>
      refine { ih.more _ with stays := List.forall_mem_cons.mpr ⟨?_, (ih.more _).stays⟩ }
      exact ⟨List.mem_cons_self, unfinished⟩

/-- Every request is done, handed off or goes on, and keeps what no end of a step changes. -/
theorem Settles.perm {β : Type} {f : Request → β} {now : Nat} {todo : List Request} {kv : KvCache}
    {s : Instance.Settled} (c : Settles now todo kv s) (completed : ∀ r, f (r.completedAt now) = f r)
    (handed : ∀ r : Request, f r.handed = f r) :
    ((s.report.completed ++ s.report.handoffs.map (·.request) ++ s.running).map f).Perm
      (todo.map f) := by
  induction c with
  | nil => exact .refl _
  | @done r _ _ _ _ reached gone more ih =>
      rw [List.map_cons, ← completed r]
      exact ih.cons _
  | @leave r rest _ _ s _ unfinished past target gone more ih =>
      have joined : ((s.report.completed ++ (r.handed :: s.report.handoffs.map (·.request)) ++
          s.running).map f).Perm (f r :: rest.map f) := by
        rw [← handed r, List.append_assoc, List.cons_append]
        refine (List.perm_middle.map f).trans ?_
        rw [← List.append_assoc]
        exact ih.cons _
      exact joined
  | stay unfinished stays more ih => exact (List.perm_middle.map f).trans (ih.cons _)

end InferenceSim
