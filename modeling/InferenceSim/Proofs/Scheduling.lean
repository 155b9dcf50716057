import InferenceSim.Proofs.Events
import Mathlib.Data.List.Nodup

/-! The queue of events as a scheduler. Whatever events are scheduled and popped in between, every
pop gives the event that runs first of those that are pending, and none is lost or comes twice. -/
namespace InferenceSim

/-- A call on a queue of events. -/
inductive QueueCall where
  | schedule (time : Nat) (action : Action)
  | pop

namespace QueueCall

/-- The queue after a call. If the call is refused or finds nothing, the queue is as it was. -/
def run (q : EventQueue) : QueueCall → EventQueue
  | .schedule time action =>
    match q.schedule time action with
    | .ok (_, d) => d
    | .error _ => q
  | .pop =>
    match q.pop? with
    | some (_, d) => d
    | none => q

/-- The event that a call schedules, if it does. -/
def scheduled (q : EventQueue) : QueueCall → List Event
  | .schedule time action =>
    match q.schedule time action with
    | .ok (seq, _) => [{ time, seq, action }]
    | .error _ => []
  | .pop => []

/-- The event that a call pops, if it does. -/
def popped (q : EventQueue) : QueueCall → List Event
  | .schedule _ _ => []
  | .pop =>
    match q.pop? with
    | some (e, _) => [e]
    | none => []

end QueueCall

namespace EventQueue

def after : EventQueue → List QueueCall → EventQueue
  | q, [] => q
  | q, call :: rest => (call.run q).after rest

def scheduled : EventQueue → List QueueCall → List Event
  | _, [] => []
  | q, call :: rest => call.scheduled q ++ (call.run q).scheduled rest

def popped : EventQueue → List QueueCall → List Event
  | _, [] => []
  | q, call :: rest => call.popped q ++ (call.run q).popped rest

end EventQueue

/-- Two events of one time and kind, in the order in which they were scheduled. -/
def Event.InTurn (a b : Event) : Prop :=
  a.time = b.time → a.action.label = b.action.label → a.seq < b.seq

theorem Event.inTurn_of_key_lt {a b : Event} (h : a.key < b.key) : a.InTurn b := by
  intro time label
  have priority : a.action.priority = b.action.priority := congrArg EventLabel.priority label
  rw [key_lt_iff] at h
  omega

namespace EventQueue

/-- How a queue goes on that has been called: which events were scheduled and popped, and what
the next call finds. -/
structure Serves (q : EventQueue) (scheduled popped : List Event) : Prop where
  numbers : scheduled.map (·.seq) = List.range q.nextSeq
  accounted : (popped ++ q.pending).Perm scheduled
  once : popped.Nodup
  times : popped.Pairwise fun a b => a.time ≤ b.time
  ties : popped.Pairwise Event.InTurn
  least : ∀ e, (∃ d, q.pop? = some (e, d)) ↔
    e ∈ q.pending ∧ ∀ x ∈ q.pending, x ≠ e → e.key < x.key
  takes : ∀ e d, q.pop? = some (e, d) →
    q.pending.Perm (e :: d.pending) ∧ d.now = e.time ∧ d.nextSeq = q.nextSeq
  drains : q.popped (.replicate q.pending.length .pop) = q.pending ∧
    (q.after (.replicate q.pending.length .pop)).pending = []
  refused : ∀ time action, (∃ v, q.schedule time action = .error v) ↔ time < q.now
  unchanged : ∀ time action, time < q.now → (QueueCall.schedule time action).run q = q
  taken : ∀ time action, q.now ≤ time → ∃ d, q.schedule time action = .ok (q.nextSeq, d) ∧
    d.pending.Perm ({ time, seq := q.nextSeq, action } :: q.pending) ∧ d.now = q.now ∧
    d.nextSeq = q.nextSeq + 1

/-- What every call keeps, where some events were scheduled and some of them popped. -/
structure Served (q : EventQueue) (scheduled popped : List Event) : Prop where
  ranked : q.Ranked
  numbers : scheduled.map (·.seq) = List.range q.nextSeq
  accounted : (popped ++ q.pending).Perm scheduled
  past : ∀ x ∈ popped, x.time ≤ q.now
  times : popped.Pairwise fun a b => a.time ≤ b.time
  ties : popped.Pairwise Event.InTurn
  ahead : ∀ x ∈ popped, ∀ y ∈ q.pending, x.InTurn y

variable {q d : EventQueue} {time n : Nat} {action : Action} {e : Event}
  {scheduled popped : List Event}

theorem schedule_cases (q : EventQueue) (time : Nat) (action : Action) :
    (time < q.now ∧ q.schedule time action = .error (.eventInPast action.label time q.now)) ∨
      q.now ≤ time ∧ ∃ d, q.schedule time action = .ok (q.nextSeq, d) ∧
        d.pending.Perm ({ time, seq := q.nextSeq, action } :: q.pending) ∧ d.now = q.now ∧
        d.nextSeq = q.nextSeq + 1 := by
  rcases Nat.lt_or_ge time q.now with late | later
  · exact .inl ⟨late, if_pos late⟩
  · exact .inr ⟨later, _, if_neg (Nat.not_lt.mpr later), insert_perm _ _, rfl, rfl⟩

theorem pop?_inv (popped : q.pop? = some (e, d)) :
    q.pending = e :: d.pending ∧ d.now = e.time ∧ d.nextSeq = q.nextSeq := by
  unfold pop? at popped
  split at popped
  · cases popped
  · next head rest pending =>
    obtain ⟨rfl, rfl⟩ := Prod.mk.inj (Option.some.inj popped)
    exact ⟨pending, rfl, rfl⟩

theorem pop?_of_cons {rest : List Event} (pending : q.pending = e :: rest) :
    q.pop? = some (e, { q with pending := rest, now := e.time }) := by
  rw [pop?, pending]

theorem Ranked.pop (k : q.Ranked) (popped : q.pop? = some (e, d)) : d.Ranked := by
  obtain ⟨pending, now, nextSeq⟩ := pop?_inv popped
  have sorted := k.sorted
  rw [pending, List.pairwise_cons] at sorted
  refine ⟨fun x hx => ?_, fun x hx => ?_, sorted.2⟩
  · rw [now]
    exact Event.time_le_of_key_lt (sorted.1 x hx)
  · rw [nextSeq]
    exact k.numbered x (pending ▸ List.mem_cons_of_mem e hx)

theorem Ranked.pop?_iff (k : q.Ranked) : (∃ d, q.pop? = some (e, d)) ↔
    e ∈ q.pending ∧ ∀ x ∈ q.pending, x ≠ e → e.key < x.key := by
  have sorted := k.sorted
  constructor
  · rintro ⟨d, popped⟩
    obtain ⟨pending, _, _⟩ := pop?_inv popped
    rw [pending] at sorted ⊢
    refine ⟨List.mem_cons_self, fun x hx other => ?_⟩
    exact (List.pairwise_cons.mp sorted).1 x ((List.mem_cons.mp hx).resolve_left other)
  · rintro ⟨inside, first⟩
    obtain ⟨head, rest, pending⟩ := List.exists_cons_of_ne_nil (List.ne_nil_of_mem inside)
    rw [pending] at sorted inside first
    rcases List.mem_cons.mp inside with rfl | behind
    · exact ⟨_, pop?_of_cons pending⟩
    · have before := (List.pairwise_cons.mp sorted).1 e behind
      have distinct : head ≠ e := fun same => lt_irrefl _ (same ▸ before)
      exact absurd before (lt_asymm (first head List.mem_cons_self distinct))

theorem popped_all (q : EventQueue) : q.popped (.replicate q.pending.length .pop) = q.pending ∧
    (q.after (.replicate q.pending.length .pop)).pending = [] := by
  generalize pending : q.pending = es
  induction es generalizing q with
  | nil => exact ⟨rfl, pending⟩
  | cons e rest ih =>
      have first := pop?_of_cons pending
      obtain ⟨others, none⟩ := ih { q with pending := rest, now := e.time } rfl
      rw [List.length_cons, List.replicate_succ, EventQueue.popped, after, QueueCall.popped,
        QueueCall.run, first]
      exact ⟨congrArg (e :: ·) others, none⟩

namespace Served

/-- One call keeps what was scheduled and popped in order. -/
theorem run (k : q.Served scheduled popped) (call : QueueCall) :
    (call.run q).Served (scheduled ++ call.scheduled q) (popped ++ call.popped q) := by
  have older : ∀ x ∈ popped, x.seq < q.nextSeq := fun x hx => by
    have inside := List.mem_map_of_mem (f := Event.seq)
      (k.accounted.mem_iff.mp (List.mem_append_left _ hx))
    rw [k.numbers] at inside
    exact List.mem_range.mp inside
  cases call with
  | schedule time action =>
      rcases q.schedule_cases time action with ⟨_, refused⟩ | ⟨_, d, done, pending, now, nextSeq⟩
      · simp only [QueueCall.run, QueueCall.scheduled, QueueCall.popped, refused, List.append_nil]
        exact k
      · simp only [QueueCall.run, QueueCall.scheduled, QueueCall.popped, done, List.append_nil]
        refine ⟨k.ranked.schedule done, ?_, ?_, now ▸ k.past, k.times, k.ties, ?_⟩
        · rw [List.map_append, k.numbers, nextSeq, List.range_succ, List.map_singleton]
        · refine ((pending.append_left popped).trans ?_).trans (k.accounted.append_right _)
          exact List.perm_middle.trans (List.perm_append_singleton _ _).symm
        · intro x hx y hy
          rcases List.mem_cons.mp (pending.mem_iff.mp hy) with rfl | old
          · exact fun _ _ => older x hx
          · exact k.ahead x hx y old
  | pop =>
      cases found : q.pop? with
      | none =>
          simp only [QueueCall.run, QueueCall.scheduled, QueueCall.popped, found, List.append_nil]
          exact k
      | some next =>
          obtain ⟨e, d⟩ := next
          obtain ⟨pending, now, nextSeq⟩ := pop?_inv found
          have here : e ∈ q.pending := pending ▸ List.mem_cons_self
          have due := k.ranked.ahead e here
          have first := (List.pairwise_cons.mp (pending ▸ k.ranked.sorted)).1
          have accounted := k.accounted
          rw [pending] at accounted
          simp only [QueueCall.run, QueueCall.scheduled, QueueCall.popped, found, List.append_nil]
          refine ⟨k.ranked.pop found, nextSeq ▸ k.numbers, ?_, ?_, ?_, ?_, ?_⟩
          · rwa [List.append_assoc, List.singleton_append]
          · refine List.forall_mem_append.mpr ⟨fun x hx => ?_, ?_⟩
            · exact now ▸ Nat.le_trans (k.past x hx) due
            · exact List.forall_mem_singleton.mpr (Nat.le_of_eq now.symm)
          · refine List.pairwise_append.mpr ⟨k.times, List.pairwise_singleton _ _, fun x hx => ?_⟩
            exact List.forall_mem_singleton.mpr (Nat.le_trans (k.past x hx) due)
          · refine List.pairwise_append.mpr ⟨k.ties, List.pairwise_singleton _ _, fun x hx => ?_⟩
            exact List.forall_mem_singleton.mpr (k.ahead x hx e here)
          · refine List.forall_mem_append.mpr ⟨fun x hx y hy => ?_, ?_⟩
            · exact k.ahead x hx y (pending ▸ List.mem_cons_of_mem e hy)
            · exact List.forall_mem_singleton.mpr fun y hy => Event.inTurn_of_key_lt (first y hy)

theorem after (k : q.Served scheduled popped) (calls : List QueueCall) :
    (q.after calls).Served (scheduled ++ q.scheduled calls) (popped ++ q.popped calls) := by
  induction calls generalizing q scheduled popped with
  | nil =>
      rw [EventQueue.after, EventQueue.scheduled, EventQueue.popped, List.append_nil,
        List.append_nil]
      exact k
  | cons call rest ih =>
      rw [EventQueue.after, EventQueue.scheduled, EventQueue.popped, ← List.append_assoc,
        ← List.append_assoc]
      exact ih (k.run call)

theorem serves (k : q.Served scheduled popped) : q.Serves scheduled popped where
  numbers := k.numbers
  accounted := k.accounted
  once := by
    have distinct := List.Nodup.of_map Event.seq (k.numbers ▸ List.nodup_range)
    exact (List.nodup_append.mp (k.accounted.nodup_iff.mpr distinct)).1
  times := k.times
  ties := k.ties
  least _ := k.ranked.pop?_iff
  takes e d found := by
    obtain ⟨pending, now, nextSeq⟩ := pop?_inv found
    exact ⟨.of_eq pending, now, nextSeq⟩
  drains := q.popped_all
  refused time action := by
    rcases q.schedule_cases time action with ⟨late, refused⟩ | ⟨later, d, done, _⟩
    · exact ⟨fun _ => late, fun _ => ⟨_, refused⟩⟩
    · refine ⟨fun ⟨_, refused⟩ => ?_, fun late => absurd late (Nat.not_lt.mpr later)⟩
      cases refused.symm.trans done
  unchanged time action late := by
    rcases q.schedule_cases time action with ⟨_, refused⟩ | ⟨later, _⟩
    · rw [QueueCall.run, refused]
    · exact absurd late (Nat.not_lt.mpr later)
  taken time action later := by
    rcases q.schedule_cases time action with ⟨late, _⟩ | ⟨_, done⟩
    · exact absurd late (Nat.not_lt.mpr later)
    · exact done

end Served

/-- After any calls on a new queue, each event that was scheduled has been popped once or is
pending. A pop gives the pending event that has the least time, priority and number; popped events
are in order of time, and those of one time and kind in order of number. A queue is emptied by as
many pops as it has events, and takes a new one unless its time has passed. -/
theorem calls_serve_in_order (calls : List QueueCall) :
    (({} : EventQueue).after calls).Serves (({} : EventQueue).scheduled calls)
      (({} : EventQueue).popped calls) := by
  have new : ({} : EventQueue).Served [] [] :=
    ⟨⟨List.forall_mem_nil _, List.forall_mem_nil _, .nil⟩, rfl, .nil, List.forall_mem_nil _, .nil,
      .nil, List.forall_mem_nil _⟩
  exact (new.after calls).serves

end EventQueue
end InferenceSim
