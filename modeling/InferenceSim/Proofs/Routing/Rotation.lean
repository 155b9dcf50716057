import Mathlib.Algebra.Order.BigOperators.Group.Finset
import InferenceSim.Proofs.Routing.Affinity

/-! Routing in turn. The rotation knows the id that it chose last and no position, yet it is even
from whatever id it goes on: between two choices of an instance it passes each of the others once.
So the rounds it has begun and the ids it is past tell how often it chose an instance. -/
namespace InferenceSim

theorem eq_one_of_sum {α : Type} {s : Finset α} {f : α → Nat}
    (even : ∀ a ∈ s, ∀ b ∈ s, f a ≤ f b + 1) (sum : ∑ a ∈ s, f a = s.card) :
    ∀ a ∈ s, f a = 1 := by
  intro a ha
  rw [Finset.card_eq_sum_ones] at sum
  rcases Nat.lt_trichotomy (f a) 1 with less | same | more
  · have below : ∑ b ∈ s, f b < ∑ _b ∈ s, 1 := by
      apply Finset.sum_lt_sum
      · intro b hb
        have le := even b hb a ha
        omega
      · exact ⟨a, ha, less⟩
    exact absurd sum (Nat.ne_of_lt below)
  · exact same
  · have above : ∑ _b ∈ s, 1 < ∑ b ∈ s, f b := by
      apply Finset.sum_lt_sum
      · intro b hb
        have le := even a ha b hb
        omega
      · exact ⟨a, ha, more⟩
    exact absurd sum (Nat.ne_of_gt above)

/-- One if a rotation with the last choice `last` is past an id, and zero otherwise. -/
def passed (last : Option Nat) (id : Nat) : Nat := if ∃ i ∈ last, id ≤ i then 1 else 0

@[simp] theorem passed_none (id : Nat) : passed none id = 0 := by
  simp [passed]

@[simp] theorem passed_some (last id : Nat) :
    passed (some last) id = if id ≤ last then 1 else 0 := by
  simp [passed]

theorem passed_le_one (last : Option Nat) (id : Nat) : passed last id ≤ 1 := by
  unfold passed
  split <;> omega

theorem passed_anti (last : Option Nat) {a b : Nat} (le : a ≤ b) :
    passed last b ≤ passed last a := by
  cases last with
  | none => simp
  | some last =>
      simp only [passed_some]
      split <;> split <;> omega

section
variable {last : Option Nat} {l : List Snapshot} {s : Snapshot}

theorem head_least (ascending : l.Pairwise fun s t => s.id ≤ t.id) (first : l.head? = some s) :
    ∀ t ∈ l, s.id ≤ t.id := by
  obtain ⟨rest, rfl⟩ := List.head?_eq_some_iff.mp first
  intro t ht
  rcases List.mem_cons.mp ht with rfl | later
  · exact Nat.le_refl t.id
  · exact (List.pairwise_cons.mp ascending).1 t later

theorem nextInTurn_cases (ascending : l.Pairwise fun s t => s.id ≤ t.id)
    (next : nextInTurn last l = some s) :
    (passed last s.id = 0 ∧ ∀ t ∈ l, t.id < s.id → passed last t.id = 1) ∨
      ∀ t ∈ l, s.id ≤ t.id ∧ passed last t.id = 1 := by
  cases last with
  | none =>
      refine .inl ⟨passed_none s.id, ?_⟩
      intro t ht before
      exact absurd (head_least ascending next t ht) (Nat.not_le_of_lt before)
  | some last =>
      cases found : l.find? fun s => decide (last < s.id) with
      | some s' =>
          simp only [nextInTurn, found, Option.some_or, Option.some.injEq] at next
          subst next
          obtain ⟨beyond, front, back, rfl, below⟩ := List.find?_eq_some_iff_append.mp found
          simp only [decide_eq_true_eq] at beyond
          refine .inl ⟨by simp [beyond], ?_⟩
          intro t ht before
          rcases List.mem_append.mp ht with earlier | later
          · have within := below t earlier
            simpa using within
          · have least := head_least (List.pairwise_append.mp ascending).2.1 rfl t later
            exact absurd least (Nat.not_le_of_lt before)
      | none =>
          simp only [nextInTurn, found, Option.none_or] at next
          have all := List.find?_eq_none.mp found
          refine .inr ?_
          intro t ht
          have past := all t ht
          exact ⟨head_least ascending next t ht, by simpa using past⟩

theorem turn_balance (ascending : l.Pairwise fun s t => s.id ≤ t.id)
    (next : nextInTurn last l = some s) :
    ∃ begun, ∀ t ∈ l, (if s.id = t.id then 1 else 0) + passed last t.id =
      begun + passed (some s.id) t.id := by
  rcases nextInTurn_cases ascending next with ⟨here, before⟩ | around
  · refine ⟨0, ?_⟩
    intro t ht
    have earlier := before t ht
    rcases Nat.lt_trichotomy t.id s.id with less | same | more
    · simp [earlier less, Nat.ne_of_gt less, Nat.le_of_lt less]
    · simp [same, here]
    · have later := passed_anti last (Nat.le_of_lt more)
      simp [Nat.ne_of_lt more, Nat.not_le_of_lt more]
      omega
  · refine ⟨1, ?_⟩
    intro t ht
    obtain ⟨le, past⟩ := around t ht
    rw [past, passed_some]
    split <;> split <;> omega

end

namespace RoutingPolicy

/-- The targets of requests that come one after the other. -/
def answers (p : RoutingPolicy) : List (RequestView × ClusterView) → List Target
  | [] => []
  | (request, view) :: rest =>
    (p.route request view).1.target :: (p.route request view).2.answers rest

theorem length_answers (p : RoutingPolicy) (visits : List (RequestView × ClusterView)) :
    (p.answers visits).length = visits.length := by
  induction visits generalizing p with
  | nil => rfl
  | cons v rest ih => exact congrArg (· + 1) (ih _)

theorem take_answers (p : RoutingPolicy) (visits : List (RequestView × ClusterView)) (n : Nat) :
    (p.answers visits).take n = p.answers (visits.take n) := by
  induction visits generalizing p n with
  | nil => simp [answers]
  | cons v rest ih =>
      cases n with
      | zero => rfl
      | succ n => exact congrArg (_ :: ·) (ih _ n)

section
variable {hosts : Finset Nat} {visits : List (RequestView × ClusterView)}

theorem drop_answers (last : Option Nat) (visits : List (RequestView × ClusterView)) (n : Nat) :
    ∃ last', ((roundRobin last).answers visits).drop n =
      (roundRobin last').answers (visits.drop n) := by
  induction visits generalizing last n with
  | nil => exact ⟨last, by simp [answers]⟩
  | cons v rest ih =>
      cases n with
      | zero => exact ⟨last, rfl⟩
      | succ n =>
          obtain ⟨last', same⟩ : ∃ last', ((roundRobin last).route v.1 v.2).2 =
              .roundRobin last' := by
            simp only [route]
            split
            · exact ⟨_, rfl⟩
            · exact ⟨last, rfl⟩
          obtain ⟨last'', later⟩ := ih last' n
          refine ⟨last'', ?_⟩
          rw [answers, same]
          exact later

theorem route_turn (last : Option Nat) (request : RequestView) {view : ClusterView}
    (ascending : view.snapshots.Pairwise fun s t => s.id ≤ t.id)
    (some' : view.candidates.Nonempty) :
    ∃ host ∈ view.candidates, ((roundRobin last).route request view).1.target = .single host ∧
      ((roundRobin last).route request view).2 = .roundRobin (some host) ∧
      ∃ begun, ∀ a ∈ view.candidates,
        (if host = a then 1 else 0) + passed last a = begun + passed (some host) a := by
  obtain ⟨s, hs, next⟩ := nextInTurn_mem last (PrefixAffinity.candidates_ne_nil some')
  obtain ⟨begun, balance⟩ := turn_balance (ascending.filter _) next
  refine ⟨s.id, ?_, by simp only [route, next], by simp only [route, next], begun, ?_⟩
  · exact List.mem_toFinset.mpr (List.mem_map_of_mem hs)
  · intro a ha
    obtain ⟨t, ht, rfl⟩ := List.mem_map.mp (List.mem_toFinset.mp ha)
    exact balance t ht

theorem answers_balance (last : Option Nat) (some' : hosts.Nonempty)
    (ascending : ∀ v ∈ visits, v.2.snapshots.Pairwise fun s t => s.id ≤ t.id)
    (fixed : ∀ v ∈ visits, v.2.candidates = hosts) :
    (∀ t ∈ (roundRobin last).answers visits, ∃ host ∈ hosts, t = .single host) ∧
    ∃ rounds last', ∀ a ∈ hosts,
      ((roundRobin last).answers visits).count (.single a) + passed last a =
        rounds + passed last' a := by
  induction visits generalizing last with
  | nil => exact ⟨List.forall_mem_nil _, 0, last, fun a _ => rfl⟩
  | cons v rest ih =>
      obtain ⟨ordered, ascending⟩ := List.forall_mem_cons.mp ascending
      obtain ⟨here, fixed⟩ := List.forall_mem_cons.mp fixed
      obtain ⟨host, inside, target, moved, begun, balance⟩ :=
        route_turn last v.1 ordered (here.symm ▸ some')
      obtain ⟨among, rounds, last', later⟩ := ih (some host) ascending fixed
      rw [here] at inside balance
      rw [answers, target, moved]
      refine ⟨List.forall_mem_cons.mpr ⟨⟨host, inside, rfl⟩, among⟩, begun + rounds, last', ?_⟩
      intro a ha
      have turn := balance a ha
      have rest' := later a ha
      rw [List.count_cons]
      simp only [beq_iff_eq, Target.single.injEq]
      omega

theorem answers_even (last : Option Nat) (some' : hosts.Nonempty)
    (ascending : ∀ v ∈ visits, v.2.snapshots.Pairwise fun s t => s.id ≤ t.id)
    (fixed : ∀ v ∈ visits, v.2.candidates = hosts) :
    ∀ a ∈ hosts, ∀ b ∈ hosts, ((roundRobin last).answers visits).count (.single a) ≤
      ((roundRobin last).answers visits).count (.single b) + 1 := by
  intro a ha b hb
  obtain ⟨_, rounds, last', balance⟩ := answers_balance last some' ascending fixed
  have first := balance a ha
  have second := balance b hb
  rcases Nat.le_total a b with le | le
  · have before := passed_anti last le
    have after := passed_anti last' le
    have most := passed_le_one last' a
    omega
  · have before := passed_anti last le
    have after := passed_anti last' le
    have most := passed_le_one last b
    omega

theorem sum_answers (last : Option Nat) (some' : hosts.Nonempty)
    (ascending : ∀ v ∈ visits, v.2.snapshots.Pairwise fun s t => s.id ≤ t.id)
    (fixed : ∀ v ∈ visits, v.2.candidates = hosts) :
    ∑ a ∈ hosts, ((roundRobin last).answers visits).count (.single a) = visits.length := by
  obtain ⟨among, -⟩ := answers_balance last some' ascending fixed
  have all : ∀ t ∈ ((roundRobin last).answers visits : Multiset Target),
      t ∈ hosts.map ⟨Target.single, fun _ _ => Target.single.inj⟩ := by
    intro t ht
    obtain ⟨host, inside, rfl⟩ := among t ht
    exact Finset.mem_map_of_mem _ inside
  have total := Multiset.sum_count_eq_card all
  rw [Finset.sum_map, Multiset.coe_card, length_answers] at total
  refine (Finset.sum_congr rfl ?_).trans total
  intro a ha
  rw [Multiset.coe_count]
  rfl

end

/-- Routing in turn is even from any id on, whether it is still among the candidates or not. -/
theorem turns_even (last : Option Nat) {hosts : Finset Nat} (some' : hosts.Nonempty)
    {visits : List (RequestView × ClusterView)}
    (ascending : ∀ v ∈ visits, v.2.snapshots.Pairwise fun s t => s.id ≤ t.id)
    (fixed : ∀ v ∈ visits, v.2.candidates = hosts) :
    ((roundRobin last).answers visits).length = visits.length ∧
    (∀ t ∈ (roundRobin last).answers visits, ∃ host ∈ hosts, t = .single host) ∧
    (∀ a ∈ hosts, ∀ b ∈ hosts, ((roundRobin last).answers visits).count (.single a) ≤
      ((roundRobin last).answers visits).count (.single b) + 1) ∧
    ∀ before, before + hosts.card ≤ visits.length → ∀ a ∈ hosts,
      ((((roundRobin last).answers visits).drop before).take hosts.card).count (.single a) = 1 := by
  refine ⟨length_answers _ visits, (answers_balance last some' ascending fixed).1,
    answers_even last some' ascending fixed, ?_⟩
  intro before within
  obtain ⟨last', later⟩ := drop_answers last visits before
  have part : ∀ v ∈ (visits.drop before).take hosts.card, v ∈ visits := fun v hv =>
    List.mem_of_mem_drop (List.mem_of_mem_take hv)
  have ascending' := fun v hv => ascending v (part v hv)
  have fixed' := fun v hv => fixed v (part v hv)
  have sum := sum_answers last' some' ascending' fixed'
  rw [List.length_take, List.length_drop] at sum
  rw [later, take_answers]
  exact eq_one_of_sum (answers_even last' some' ascending' fixed') (by omega)

/-- Six visits that find instances 0, 2 and 5 for prompts, and instance 1 for decoding alone. -/
def rotationVisits : List (RequestView × ClusterView) := (List.range 6).map fun id =>
  ({ id, arrivalTime := 0, inputTokens := 32, outputTokens := 1, progress := 0, priority := .ofFloat 0.0
     tenant := 0, sloClass := .standard, shared := none },
    { clock := id, snapshots := [{ id := 0, role := .unified, queueDepth := id },
      { id := 1, role := .decode }, { id := 2, role := .prefill }, { id := 5, role := .unified }] })

/-- Six turns after a choice of instance 1, which takes no prompts any more, are two rounds. -/
theorem two_rounds_even :
    (∀ a ∈ ({0, 2, 5} : Finset Nat), ∀ b ∈ ({0, 2, 5} : Finset Nat),
      ((roundRobin (some 1)).answers rotationVisits).count (.single a) ≤
        ((roundRobin (some 1)).answers rotationVisits).count (.single b) + 1) ∧
    ∀ a ∈ ({0, 2, 5} : Finset Nat),
      ((((roundRobin (some 1)).answers rotationVisits).drop 2).take 3).count (.single a) = 1 := by
  have ascending : ∀ v ∈ rotationVisits, v.2.snapshots.Pairwise fun s t => s.id ≤ t.id := by decide
  have fixed : ∀ v ∈ rotationVisits, v.2.candidates = {0, 2, 5} := by decide
  have some' : ({0, 2, 5} : Finset Nat).Nonempty := ⟨0, by decide⟩
  obtain ⟨_, _, even, windows⟩ := turns_even (some 1) some' ascending fixed
  exact ⟨even, windows 2 (by decide)⟩

end RoutingPolicy
end InferenceSim
