import InferenceSim.Proofs.Cluster.Laws
import InferenceSim.Proofs.Instance.Turns

/-! Wake-ups and steps. A busy instance has one event of its own ahead of it and an idle one
has nothing to do, unless 32 bits cannot count the tokens of what waits for it. So its steps follow
one another and the clock is ahead of their total. -/
namespace InferenceSim

def Instance.settledUntil (now : Nat) (i : Instance) : Nat :=
  if i.inFlight.isSome then i.stepStarted else now

def lengthOf (span : Nat × Nat) : Nat := span.2 - span.1

/-- Steps between two times that follow one another. -/
structure InTurn (low high : Nat) (spans : List (Nat × Nat)) : Prop where
  low_le : low ≤ high
  within : ∀ s ∈ spans, low ≤ s.1 ∧ s.1 ≤ s.2 ∧ s.2 ≤ high
  ordered : spans.Pairwise fun s t => s.2 ≤ t.1

namespace InTurn
variable {low mid high : Nat} {spans : List (Nat × Nat)}

theorem nil (le : low ≤ high) : InTurn low high [] := ⟨le, List.forall_mem_nil _, .nil⟩

theorem widen (k : InTurn mid high spans) (le : low ≤ mid) : InTurn low high spans where
  low_le := Nat.le_trans le k.low_le
  within s hs := ⟨Nat.le_trans le (k.within s hs).1, (k.within s hs).2⟩
  ordered := k.ordered

theorem cons {s : Nat × Nat} (k : InTurn s.2 high spans) (starts : low ≤ s.1)
    (ends : s.1 ≤ s.2) : InTurn low high (s :: spans) where
  low_le := Nat.le_trans (Nat.le_trans starts ends) k.low_le
  within t ht := by
    rcases List.mem_cons.mp ht with rfl | later
    · exact ⟨starts, ends, k.low_le⟩
    · obtain ⟨after, rest⟩ := k.within t later
      exact ⟨Nat.le_trans (Nat.le_trans starts ends) after, rest⟩
  ordered := List.pairwise_cons.mpr ⟨fun t ht => (k.within t ht).1, k.ordered⟩

end InTurn

namespace Cluster

/-- The step of an instance that the next event ends, if it ends one. -/
def ending? (host : Nat) (c : Cluster) : Option (Nat × Nat) :=
  match c.events.pop? with
  | some (e, _) =>
    match e.action with
    | .stepComplete id =>
      if id = host then c.instances[host]?.map fun i => (i.stepStarted, e.time) else none
    | _ => none
  | none => none

def spans (host limit : Nat) (c : Cluster) : List (Nat × Nat) :=
  (c.path limit).filterMap (ending? host)

variable {config : Config} {rs : List Request} {b c d : Cluster} {l : Ledger} {e : Event}
  {host id : Nat} {i j : Instance}

/-- A step in flight has begun. -/
def begun : Law where
  server now i := i.inFlight.isSome → i.stepStarted ≤ now
  arrived _ _ := True
  handed _ _ := True
  completed _ := True

/-- What one event adds to the steps of an instance. -/
structure Paced (now later : Nat) (i j : Instance) (span : Option (Nat × Nat)) : Prop where
  goes : span = none → i.settledUntil now ≤ j.settledUntil later ∧
    j.stats.busyTicks = i.stats.busyTicks
  ends : ∀ s, span = some s → i.settledUntil now ≤ s.1 ∧ s.1 ≤ s.2 ∧ s.2 = j.settledUntil later ∧
    j.stats.busyTicks = i.stats.busyTicks + lengthOf s

theorem Paced.go {now later : Nat} {span : Option (Nat × Nat)} (none : span = none)
    (further : i.settledUntil now ≤ j.settledUntil later)
    (ticks : j.stats.busyTicks = i.stats.busyTicks) : Paced now later i j span where
  goes _ := ⟨further, ticks⟩
  ends _ some := by cases none.symm.trans some

/-- As long as the same step is in flight, or none, only time goes on. -/
theorem Paced.still {now later : Nat} {span : Option (Nat × Nat)} (none : span = none)
    (le : now ≤ later) (flight : j.inFlight = i.inFlight) (start : j.stepStarted = i.stepStarted)
    (ticks : j.stats.busyTicks = i.stats.busyTicks) : Paced now later i j span := by
  refine .go none ?_ ticks
  rw [Instance.settledUntil, Instance.settledUntil, flight, start]
  split
  · exact Nat.le_refl _
  · exact le

end Cluster
end InferenceSim
