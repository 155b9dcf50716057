import InferenceSim.Random.Generator

/-! Bounded draws. A range that is not empty always gives a value, and the value lies in it,
however many words of the stream were refused before. -/
namespace InferenceSim.Random

theorem drawBelow_lt {width range : Nat} {draw : Generator → Nat × Generator}
    (bounded : ∀ g, (draw g).1 < Nat.pow 2 width) (positive : 0 < range) (tries : Nat)
    (g : Generator) : (drawBelow width draw range tries g).1 < range := by
  have high : ∀ g, (draw g).1 * range / Nat.pow 2 width < range := fun g =>
    Nat.div_lt_of_lt_mul (Nat.mul_lt_mul_of_pos_right (bounded g) positive)
  induction tries generalizing g with
  | zero => exact high g
  | succ tries ih =>
      unfold drawBelow
      dsimp only
      split
      · exact high g
      · exact ih _

namespace Generator
variable {range : Nat}

theorem below_ok {width : Nat} {draw : Generator → Nat × Generator}
    (bounded : ∀ g, (draw g).1 < Nat.pow 2 width) (positive : 0 < range) (g : Generator) :
    ∃ n g', below width draw range g = (.ok n, g') ∧ n < range := by
  refine ⟨(drawBelow width draw range maxRefusals g).1, (drawBelow width draw range maxRefusals g).2,
    ?_, drawBelow_lt bounded positive maxRefusals g⟩
  rw [below, if_neg (Nat.ne_of_gt positive)]

theorem below32_ok (positive : 0 < range) (g : Generator) :
    ∃ n g', g.below32 range = (.ok n, g') ∧ n < range :=
  below_ok (fun g => g.word.1.toNat_lt) positive g

theorem below64_ok (positive : 0 < range) (g : Generator) :
    ∃ n g', g.below64 range = (.ok n, g') ∧ n < range :=
  below_ok (fun g => g.doubleWord.1.toNat_lt) positive g

end Generator
end InferenceSim.Random
