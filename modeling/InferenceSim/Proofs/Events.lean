import InferenceSim.Event.Queue
import Mathlib.Data.Prod.Lex

/-! The queue of events. Its events stay in order of time, those of one time in order of their
kinds and numbers, and what is scheduled for now or later is always taken. -/
namespace InferenceSim

namespace Event
variable {a b : Event}

/-- What decides which of two events runs first: the time, then the priority of its kind, then
its number. -/
def key (e : Event) : Nat ×ₗ Nat ×ₗ Nat := toLex (e.time, toLex (e.action.priority, e.seq))

theorem key_lt_iff : a.key < b.key ↔ a.time < b.time ∨ a.time = b.time ∧
    (a.action.priority < b.action.priority ∨
      a.action.priority = b.action.priority ∧ a.seq < b.seq) := by
  simp only [key, Prod.Lex.toLex_lt_toLex]

theorem before_iff : a.before b ↔ a.key < b.key := by
  simp only [key_lt_iff, before, Bool.or_eq_true, Bool.and_eq_true, decide_eq_true_eq]

theorem time_le_of_key_lt (h : a.key < b.key) : a.time ≤ b.time := by
  rw [key_lt_iff] at h
  omega

theorem seq_eq_of_key (same : a.key = b.key) : a.seq = b.seq :=
  congrArg (fun k => (ofLex (ofLex k).2).2) same

theorem key_lt_of_not_before (apart : a.seq ≠ b.seq) (h : ¬a.before b) : b.key < a.key :=
  lt_of_le_of_ne (not_lt.mp (mt before_iff.mpr h)) fun same => apart (seq_eq_of_key same).symm

theorem time_le_of_before (h : a.before b) : a.time ≤ b.time := time_le_of_key_lt (before_iff.mp h)

theorem time_le_of_not_before (h : ¬ a.before b) : b.time ≤ a.time := by
  rw [before_iff, key_lt_iff] at h
  omega

end Event

namespace EventQueue

def actions (q : EventQueue) : List Action := q.pending.map (·.action)

/-- The pending events are in order of time, and none of them is late. -/
structure Ordered (q : EventQueue) : Prop where
  ahead : ∀ e ∈ q.pending, q.now ≤ e.time
  sorted : q.pending.Pairwise fun a b => a.time ≤ b.time

/-- A queue to which some actions were added. -/
structure Gains (q : EventQueue) (added : List Action) (d : EventQueue) : Prop where
  now : d.now = q.now
  ordered : q.Ordered → d.Ordered
  actions : d.actions.Perm (added ++ q.actions)

variable {q d : EventQueue} {time : Nat}

theorem Gains.refl : q.Gains [] q := ⟨rfl, id, .refl _⟩

theorem insert_perm (e : Event) (es : List Event) : (insert e es).Perm (e :: es) := by
  induction es with
  | nil => exact .refl _
  | cons head rest ih =>
      unfold insert
      split
      · exact .refl _
      · exact (ih.cons head).trans (.swap e head rest)

theorem insert_pairwise {r : Event → Event → Prop} (trans : ∀ {a b c}, r a b → r b c → r a c)
    {e : Event} {es : List Event} (sorted : es.Pairwise r) (earlier : ∀ b ∈ es, e.before b → r e b)
    (later : ∀ b ∈ es, ¬e.before b → r b e) : (insert e es).Pairwise r := by
  induction es with
  | nil => exact List.pairwise_singleton _ _
  | cons head rest ih =>
      obtain ⟨first, sorted⟩ := List.pairwise_cons.mp sorted
      unfold insert
      split
      · next before =>
        have least := earlier head List.mem_cons_self before
        refine List.pairwise_cons.mpr ⟨fun b hb => ?_, List.pairwise_cons.mpr ⟨first, sorted⟩⟩
        rcases List.mem_cons.mp hb with rfl | behind
        · exact least
        · exact trans least (first b behind)
      · next after =>
        refine List.pairwise_cons.mpr ⟨fun b hb => ?_, ih sorted
          (fun b hb => earlier b (List.mem_cons_of_mem _ hb))
          fun b hb => later b (List.mem_cons_of_mem _ hb)⟩
        rcases List.mem_cons.mp ((insert_perm e rest).mem_iff.mp hb) with rfl | inRest
        · exact later head List.mem_cons_self after
        · exact first b inRest

theorem insert_sorted (e : Event) {es : List Event}
    (sorted : es.Pairwise fun a b => a.time ≤ b.time) :
    (insert e es).Pairwise fun a b => a.time ≤ b.time :=
  insert_pairwise (r := fun a b => a.time ≤ b.time) Nat.le_trans sorted
    (fun _ _ => Event.time_le_of_before) fun _ _ => Event.time_le_of_not_before

theorem schedule_ok (later : q.now ≤ time) (a : Action) :
    ∃ n d, q.schedule time a = .ok (n, d) ∧ q.Gains [a] d ∧
      d.pending.Perm (⟨time, n, a⟩ :: q.pending) := by
  have joined := insert_perm ⟨time, q.nextSeq, a⟩ q.pending
  refine ⟨q.nextSeq, _, if_neg (Nat.not_lt.mpr later), ⟨rfl, fun k => ⟨?_, ?_⟩, ?_⟩, joined⟩
  · intro e he
    rcases List.mem_cons.mp (joined.mem_iff.mp he) with rfl | old
    · exact later
    · exact k.ahead e old
  · exact insert_sorted _ k.sorted
  · exact joined.map _

/-- The pending events are in the order in which they run. None of them is late, and all got
their numbers before the next one to be given. -/
structure Ranked (q : EventQueue) : Prop where
  ahead : ∀ e ∈ q.pending, q.now ≤ e.time
  numbered : ∀ e ∈ q.pending, e.seq < q.nextSeq
  sorted : q.pending.Pairwise fun a b => a.key < b.key

theorem Ranked.schedule {a : Action} {n : Nat} (k : q.Ranked)
    (done : q.schedule time a = .ok (n, d)) : d.Ranked := by
  unfold EventQueue.schedule at done
  split at done
  · cases done
  · next late =>
    obtain ⟨rfl, rfl⟩ := Prod.mk.inj (Except.ok.inj done)
    have joined := insert_perm ⟨time, q.nextSeq, a⟩ q.pending
    have apart : ∀ x ∈ q.pending, x.seq ≠ q.nextSeq := fun x hx => Nat.ne_of_lt (k.numbered x hx)
    refine ⟨fun e he => ?_, fun e he => ?_, ?_⟩
    · rcases List.mem_cons.mp (joined.mem_iff.mp he) with rfl | old
      · exact Nat.le_of_not_lt late
      · exact k.ahead e old
    · rcases List.mem_cons.mp (joined.mem_iff.mp he) with rfl | old
      · exact Nat.lt_succ_self _
      · exact Nat.lt_succ_of_lt (k.numbered e old)
    · exact insert_pairwise (r := fun a b => a.key < b.key) lt_trans k.sorted
        (fun _ _ => Event.before_iff.mp)
        fun x hx => Event.key_lt_of_not_before (apart x hx).symm

/-- A queue that some events have joined, none of them late, with the numbers that came next. -/
structure Joins (q : EventQueue) (added : List Event) (d : EventQueue) : Prop where
  now : d.now = q.now
  pending : d.pending.Perm (added ++ q.pending)
  later : ∀ e ∈ added, q.now ≤ e.time
  nextSeq : q.nextSeq ≤ d.nextSeq
  newer : ∀ e ∈ added, q.nextSeq ≤ e.seq
  ranked : q.Ranked → d.Ranked

namespace Joins
variable {b : EventQueue} {added more : List Event}

theorem refl : q.Joins [] q :=
  ⟨rfl, .refl _, List.forall_mem_nil _, Nat.le_refl _, List.forall_mem_nil _, id⟩

theorem trans (j : q.Joins added d) (k : d.Joins more b) : q.Joins (more ++ added) b where
  now := k.now.trans j.now
  pending := by
    rw [List.append_assoc]
    exact k.pending.trans (j.pending.append_left more)
  later e he := by
    rcases List.mem_append.mp he with new | old
    · exact j.now ▸ k.later e new
    · exact j.later e old
  nextSeq := Nat.le_trans j.nextSeq k.nextSeq
  newer e he := by
    rcases List.mem_append.mp he with new | old
    · exact Nat.le_trans j.nextSeq (k.newer e new)
    · exact j.newer e old
  ranked := k.ranked ∘ j.ranked

theorem mem_iff {e : Event} (j : q.Joins added d) :
    e ∈ d.pending ↔ e ∈ added ∨ e ∈ q.pending := by
  rw [j.pending.mem_iff, List.mem_append]

end Joins

theorem joins_of_schedule {a : Action} {n : Nat} (done : q.schedule time a = .ok (n, d)) :
    q.Joins [⟨time, n, a⟩] d := by
  have ranked : q.Ranked → d.Ranked := fun k => k.schedule done
  unfold schedule at done
  split at done
  · cases done
  · next late =>
    obtain ⟨rfl, rfl⟩ := Prod.mk.inj (Except.ok.inj done)
    exact ⟨rfl, insert_perm _ _, List.forall_mem_singleton.mpr (Nat.le_of_not_lt late),
      Nat.le_succ _, List.forall_mem_singleton.mpr (Nat.le_refl _), ranked⟩

def Rings (q d : EventQueue) : Prop :=
  ∃ added, q.Joins added d ∧ ∀ e ∈ added, e.action.request? = none

theorem Rings.of_eq (same : q = d) : q.Rings d := ⟨[], same ▸ .refl, List.forall_mem_nil _⟩

theorem Joins.rings {a : Action} {n : Nat} (k : q.Joins [⟨time, n, a⟩] d)
    (bare : a.request? = none) : q.Rings d :=
  ⟨_, k, List.forall_mem_singleton.mpr bare⟩

theorem pop_ok {e : Event} (k : q.Ordered) (popped : q.pop? = some (e, d)) :
    q.now ≤ e.time ∧ d.now = e.time ∧ q.pending = e :: d.pending ∧ d.Ordered := by
  unfold pop? at popped
  split at popped
  · cases popped
  · next head rest pending =>
    obtain ⟨rfl, rfl⟩ := Prod.mk.inj (Option.some.inj popped)
    have sorted := k.sorted
    rw [pending] at sorted
    obtain ⟨first, sorted⟩ := List.pairwise_cons.mp sorted
    exact ⟨k.ahead head (pending ▸ List.mem_cons_self), rfl, pending, first, sorted⟩

end EventQueue
end InferenceSim
