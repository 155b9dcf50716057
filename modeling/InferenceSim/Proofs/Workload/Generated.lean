import InferenceSim.Proofs.Draws
import InferenceSim.Workload.Generator
import Mathlib.Tactic.SplitIfs

/-! Generated workloads. Parameters that are accepted give as many requests as they ask for, each
of them within their bounds, from every state of the generator. Two kinds of parameters are
accepted and still give none: more requests than memory can hold, and no tokens at most, since
every prompt has at least one. -/
namespace InferenceSim

namespace Drawn
variable {α β : Type} {p : α → Prop} {q : β → Prop} {d : Drawn α} {f : α → Drawn β}
  {e : GeneratorFault} {range : Nat}

/-- From every state of the stream there comes a value, and it has some property. -/
def Yields (d : Drawn α) (p : α → Prop) : Prop := ∀ g, ∃ a g', d g = .ok (a, g') ∧ p a

def Fails (d : Drawn α) (e : GeneratorFault) : Prop := ∀ g, d g = .error e

theorem Yields.pure {a : α} (holds : p a) : (Pure.pure a : Drawn α).Yields p :=
  fun g => ⟨a, g, rfl, holds⟩

theorem bind_run (d : Drawn α) (f : α → Drawn β) (g : Random.Generator) :
    (d >>= f) g = d g >>= fun s => f s.1 s.2 := rfl

theorem Yields.bind (first : d.Yields p) (next : ∀ a, p a → (f a).Yields q) :
    (d >>= f).Yields q := by
  intro g
  obtain ⟨a, g', drawn, holds⟩ := first g
  obtain ⟨b, g'', drawn', holds'⟩ := next a holds g'
  refine ⟨b, g'', ?_, holds'⟩
  rw [bind_run, drawn]
  exact drawn'

theorem Fails.bind (fails : d.Fails e) : (d >>= f).Fails e := by
  intro g
  rw [bind_run, fails g]
  rfl

theorem Yields.bind_fails (first : d.Yields p) (fails : ∀ a, p a → (f a).Fails e) :
    (d >>= f).Fails e := by
  intro g
  obtain ⟨a, g', drawn, holds⟩ := first g
  rw [bind_run, drawn]
  exact fails a holds g'

theorem unit_yields : unit.Yields fun _ => True :=
  fun g => ⟨g.unit.1, g.unit.2, rfl, trivial⟩

theorem bounded_yields {draw : Random.Generator → Except Random.DrawError Nat × Random.Generator}
    (ok : ∀ g, ∃ n g', draw g = (.ok n, g') ∧ n < range) : (bounded draw).Yields (· < range) := by
  intro g
  obtain ⟨n, g', drawn, lt⟩ := ok g
  exact ⟨n, g', by rw [bounded, drawn], lt⟩

end Drawn

section
variable {least most : Nat}

theorem drawLength_yields (mean spread : Float) (le : least ≤ most) :
    (drawLength mean spread least most).Yields fun n => least ≤ n ∧ n ≤ most := by
  refine Drawn.unit_yields.bind fun u _ => ?_
  rw [if_neg (Nat.not_lt.mpr le)]
  exact .pure ⟨Nat.le_min.mpr ⟨Nat.le_max_right .., le⟩, Nat.min_le_right ..⟩

theorem drawLength_fails (mean spread : Float) (none : most < least) :
    (drawLength mean spread least most).Fails (.noLength least most) := by
  refine Drawn.unit_yields.bind_fails fun u _ g => ?_
  rw [if_pos none]
  rfl

end

namespace WorkloadConfig
variable {w : WorkloadConfig} {r : Request}

/-- A request within the bounds of its workload. -/
structure Shapes (w : WorkloadConfig) (r : Request) : Prop where
  input : max w.minTokens 1 ≤ r.inputTokens ∧ r.inputTokens ≤ w.maxTokens
  output : w.minTokens ≤ r.outputTokens ∧ r.outputTokens ≤ w.maxTokens
  shared : if w.prefixGroups = 0 then r.shared = none
    else ∃ group < w.prefixGroups,
      r.shared = some { group, tokens := min w.prefixTokens r.inputTokens }
  tenant : r.tenant < w.tenants
  sloClass : r.sloClass ∈ w.sloClasses

/-- What the generator relies on of parameters that are accepted. -/
structure Accepted (w : WorkloadConfig) : Prop where
  lengths : w.minTokens ≤ w.maxTokens
  tenants : 0 < w.tenants
  sloClasses : w.sloClasses ≠ []

theorem accepted_of_problem? (synthetic : w.trace = none) (accepted : w.problem? = none) :
    w.Accepted := by
  simp only [problem?, synthetic, Option.isSome_none, Bool.false_eq_true, if_false] at accepted
  split_ifs at accepted with rate lengths spread tenants classes
  exact ⟨Nat.not_lt.mp lengths, Nat.pos_of_ne_zero tenants, fun none => classes (by rw [none]; rfl)⟩

theorem drawPrefix_yields (w : WorkloadConfig) (r : Request) :
    (w.drawPrefix r).Yields fun s => ∃ shared, s = { r with shared } ∧
      if w.prefixGroups = 0 then shared = r.shared
      else ∃ group < w.prefixGroups,
        shared = some { group, tokens := min w.prefixTokens r.inputTokens } := by
  unfold drawPrefix
  split
  · exact .pure ⟨r.shared, rfl, rfl⟩
  · next some =>
      have drawn := Drawn.bounded_yields (Random.Generator.below32_ok (Nat.pos_of_ne_zero some))
      exact drawn.bind fun group lt => .pure ⟨_, rfl, group, lt, rfl⟩

theorem drawTenant_yields (here : r.tenant < w.tenants) :
    (w.drawTenant r).Yields fun s => ∃ tenant < w.tenants, s = { r with tenant } := by
  unfold drawTenant
  split
  · exact .pure ⟨r.tenant, here, rfl⟩
  · have drawn := Drawn.bounded_yields (Random.Generator.below32_ok (Nat.zero_lt_of_lt here))
    exact drawn.bind fun tenant lt => .pure ⟨tenant, lt, rfl⟩

theorem drawClass_yields (r : Request) (some : w.sloClasses ≠ []) :
    (w.drawClass r).Yields fun s => ∃ c ∈ w.sloClasses, s = { r with sloClass := c } := by
  unfold drawClass
  split
  · next none => exact absurd none some
  · next c only => exact .pure ⟨c, by rw [only]; exact List.mem_singleton_self c, rfl⟩
  · next first rest _ listed =>
      have drawn := Drawn.bounded_yields
        (Random.Generator.below64_ok (List.length_pos_iff.mpr (List.cons_ne_nil first rest)))
      refine drawn.bind fun i lt => .pure ⟨(first :: rest).getD i first, ?_, rfl⟩
      rw [listed, List.getD_eq_getElem?_getD, List.getElem?_eq_getElem lt]
      exact List.getElem_mem lt

theorem drawRequest_yields (accepted : w.Accepted) (some : 0 < w.maxTokens) (id : Nat)
    (clock : Float) : (w.drawRequest id clock).Yields fun s => s.1.id = id ∧ w.Shapes s.1 := by
  refine Drawn.unit_yields.bind fun u _ => ?_
  refine (drawLength_yields w.inputMean w.inputSpread
    (Nat.max_le.mpr ⟨accepted.lengths, some⟩)).bind fun inputTokens input => ?_
  refine (drawLength_yields w.outputMean w.outputSpread accepted.lengths).bind
    fun outputTokens output => ?_
  refine (drawPrefix_yields w _).bind fun _ ⟨shared, same, within⟩ => ?_
  refine (drawTenant_yields (by rw [same]; exact accepted.tenants)).bind
    fun _ ⟨tenant, here, same'⟩ => ?_
  refine (drawClass_yields _ accepted.sloClasses).bind fun _ ⟨c, listed, same''⟩ => .pure ?_
  subst same same' same''
  exact ⟨rfl, input, output, within, here, listed⟩

theorem drawRequest_fails (accepted : w.Accepted) (none : w.maxTokens = 0) (id : Nat)
    (clock : Float) : (w.drawRequest id clock).Fails (.noLength 1 0) := by
  -- The least length of a prompt is raised to one, but the most is not.
  have least : max w.minTokens 1 = 1 := by
    have zero : w.minTokens = 0 := Nat.le_zero.mp (none ▸ accepted.lengths)
    rw [zero]
    rfl
  have fails : (drawLength w.inputMean w.inputSpread 1 0).Fails (.noLength 1 0) :=
    drawLength_fails w.inputMean w.inputSpread Nat.one_pos
  refine Drawn.unit_yields.bind_fails fun u _ => ?_
  dsimp only
  rw [least, none]
  exact fails.bind

theorem drawRequests_yields (accepted : w.Accepted) (some : 0 < w.maxTokens) (count id : Nat)
    (clock : Float) : (w.drawRequests count id clock).Yields fun rs =>
      rs.map (·.id) = List.range' id count ∧ ∀ r ∈ rs, w.Shapes r := by
  induction count generalizing id clock with
  | zero => exact .pure ⟨rfl, List.forall_mem_nil _⟩
  | succ count ih =>
      refine (drawRequest_yields accepted some id clock).bind fun s ⟨own, shapes⟩ => ?_
      refine (ih (id + 1) s.2).bind fun rs ⟨ids, all⟩ => .pure ⟨?_, ?_⟩
      · rw [List.map_cons, own, ids, List.range'_succ]
      · exact List.forall_mem_cons.mpr ⟨shapes, all⟩

/-- Accepted parameters give the requests that they ask for, each within their bounds, unless
these are too many or may have no tokens. -/
theorem generate_shapes (synthetic : w.trace = none) (accepted : w.problem? = none)
    (g : Random.Generator) :
    (w.count ≤ maxRequests → w.count = 0 ∨ 0 < w.maxTokens →
      ∃ rs g', w.generate g = .ok (rs, g') ∧ rs.map (·.id) = List.range w.count ∧
        ∀ r ∈ rs, w.Shapes r) ∧
    (maxRequests < w.count → w.generate g = .error (.tooMany w.count)) ∧
    (w.count ≤ maxRequests → 0 < w.count → w.maxTokens = 0 →
      w.generate g = .error (.noLength 1 0)) := by
  have relied := accepted_of_problem? synthetic accepted
  refine ⟨fun fits some => ?_, fun beyond => if_pos beyond, fun fits more none => ?_⟩
  · rw [generate, if_neg (Nat.not_lt.mpr fits), List.range_eq_range']
    rcases some with zero | some
    · rw [zero]
      exact ⟨[], g, rfl, rfl, List.forall_mem_nil _⟩
    · exact drawRequests_yields relied some w.count 0 0.0 g
  · rw [generate, if_neg (Nat.not_lt.mpr fits)]
    obtain ⟨count, more⟩ := Nat.exists_eq_succ_of_ne_zero (Nat.ne_of_gt more)
    rw [more]
    exact (drawRequest_fails relied none 0 0.0).bind g

/-- Two requests that share prefixes, of two tenants and two classes. -/
def sharingPair : WorkloadConfig where
  count := 2
  minTokens := 0
  prefixGroups := 3
  prefixTokens := 64
  tenants := 2
  sloClasses := [.critical, .batch]

/-- The pair is generated. With no tokens at most it is accepted all the same and gives nothing,
as does a number of requests that is beyond any memory. -/
theorem sharing_pair_generated :
    (∃ rs g, sharingPair.generate (.ofSeed 42) = .ok (rs, g) ∧ rs.map (·.id) = [0, 1] ∧
      ∀ r ∈ rs, sharingPair.Shapes r) ∧
    { sharingPair with maxTokens := 0 }.generate (.ofSeed 42) = .error (.noLength 1 0) ∧
    { sharingPair with count := Nat.pow 2 63 }.generate (.ofSeed 42) =
      .error (.tooMany (Nat.pow 2 63)) := by
  obtain ⟨ok, -, -⟩ := generate_shapes (w := sharingPair) rfl
    (Option.isNone_iff_eq_none.mp (by decide +kernel)) (.ofSeed 42)
  obtain ⟨-, -, noTokens⟩ := generate_shapes (w := { sharingPair with maxTokens := 0 }) rfl
    (Option.isNone_iff_eq_none.mp (by decide +kernel)) (.ofSeed 42)
  obtain ⟨-, tooMany, -⟩ := generate_shapes (w := { sharingPair with count := Nat.pow 2 63 }) rfl
    (Option.isNone_iff_eq_none.mp (by decide +kernel)) (.ofSeed 42)
  exact ⟨ok (by decide) (.inr (by decide)), noTokens (by decide) (by decide) rfl,
    tooMany (by decide)⟩

end WorkloadConfig
end InferenceSim
