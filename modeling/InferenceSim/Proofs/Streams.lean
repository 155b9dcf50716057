import InferenceSim.Random.Streams

/-! Named streams do not disturb one another. However draws from several streams are mixed, each
stream gives what a generator of its own seed gives to the draws under its name alone. -/
namespace InferenceSim.Random

/-- What may be drawn: a word, a double word, a value of the unit interval, or a value of a
half-open range, from words of either width. -/
inductive Draw where
  | word
  | doubleWord
  | unit
  | within32 (least bound : Nat)
  | within64 (least bound : Nat)
  deriving DecidableEq, Repr

inductive Outcome where
  | word (w : UInt32)
  | doubleWord (w : UInt64)
  | unit (x : Float)
  | within (n : Except DrawError Nat)

def Draw.run (g : Generator) : Draw → Outcome × Generator
  | word => g.word.map .word id
  | doubleWord => g.doubleWord.map .doubleWord id
  | unit => g.unit.map .unit id
  | within32 least bound =>
    (g.below32 (bound - least)).map (fun n => .within (n.map (least + ·))) id
  | within64 least bound =>
    (g.below64 (bound - least)).map (fun n => .within (n.map (least + ·))) id

/-- Draws from one generator, one after the other. -/
def Generator.draws (g : Generator) : List Draw → List Outcome × Generator
  | [] => ([], g)
  | d :: rest =>
    let (a, g) := d.run g
    let (as, g) := g.draws rest
    (a :: as, g)

theorem Generator.draws_cons (g : Generator) (d : Draw) (rest : List Draw) :
    g.draws (d :: rest) =
      ((d.run g).1 :: ((d.run g).2.draws rest).1, ((d.run g).2.draws rest).2) := rfl

def under {α : Type} (name : String) (l : List (String × α)) : List α :=
  (l.filter (·.1 = name)).map (·.2)

theorem under_cons {α : Type} (name other : String) (a : α) (l : List (String × α)) :
    under name ((other, a) :: l) = if other = name then a :: under name l else under name l := by
  by_cases same : other = name
  · simp [under, same]
  · simp [under, same]

namespace Streams

def touch (s : Streams) (name : String) : Streams := s.put name (s.generator name)

/-- Uses of streams, one after the other, each with a draw or without. What is drawn stands under
the name of its stream. -/
def uses (s : Streams) : List (String × Option Draw) → List (String × Outcome) × Streams
  | [] => ([], s)
  | (name, none) :: rest => (s.touch name).uses rest
  | (name, some d) :: rest =>
    let (a, s) := s.draw name fun g => d.run g
    let (as, s) := s.uses rest
    ((name, a) :: as, s)

def drawsOf (name : String) (us : List (String × Option Draw)) : List Draw :=
  (under name us).filterMap id

theorem drawsOf_touch (name other : String) (us : List (String × Option Draw)) :
    drawsOf name ((other, none) :: us) = drawsOf name us := by
  rw [drawsOf, under_cons]
  split
  · rfl
  · rfl

theorem drawsOf_draw (name other : String) (d : Draw) (us : List (String × Option Draw)) :
    drawsOf name ((other, some d) :: us) =
      if other = name then d :: drawsOf name us else drawsOf name us := by
  rw [drawsOf, under_cons]
  split
  · rfl
  · rfl

theorem generator_put (s : Streams) (name other : String) (g : Generator) :
    (s.put other g).generator name = if other = name then g else s.generator name := by
  simp only [generator, put, Std.ExtTreeMap.getElem?_insert, Std.LawfulEqOrd.compare_eq_iff_eq]
  split
  · rfl
  · rfl

theorem generator_touch (s : Streams) (name other : String) :
    (s.touch other).generator name = s.generator name := by
  rw [touch, generator_put]
  split
  · next same => rw [same]
  · rfl

theorem names_uses (s : Streams) (us : List (String × Option Draw)) :
    (s.uses us).1.map (·.1) = (us.filter (·.2.isSome)).map (·.1) := by
  induction us generalizing s with
  | nil => rfl
  | cons u rest ih =>
      obtain ⟨other, _ | d⟩ := u
      · exact ih (s.touch other)
      · exact congrArg (other :: ·) (ih _)

theorem uses_under (s : Streams) (us : List (String × Option Draw)) (name : String) :
    (under name (s.uses us).1, (s.uses us).2.generator name) =
      (s.generator name).draws (drawsOf name us) := by
  induction us generalizing s with
  | nil => rfl
  | cons u rest ih =>
      obtain ⟨other, _ | d⟩ := u
      · have later := ih (s.touch other)
        rw [generator_touch] at later
        rw [drawsOf_touch]
        exact later
      · have later := ih (s.put other (d.run (s.generator other)).2)
        rw [generator_put] at later
        rw [drawsOf_draw]
        simp only [uses, draw, under_cons]
        by_cases same : other = name
        · subst same
          rw [if_pos rfl] at later
          rw [if_pos rfl, if_pos rfl, Generator.draws_cons, ← later]
        · rw [if_neg same] at later
          rw [if_neg same, if_neg same]
          exact later

/-- What is drawn from a stream is drawn from a fresh generator of its seed by the same draws, so
it does not depend on what is drawn from others, or when. -/
theorem streams_isolated (seed : UInt64) (us : List (String × Option Draw)) (name : String) :
    ((ofSeed seed).uses us).1.map (·.1) = (us.filter (·.2.isSome)).map (·.1) ∧
    (under name ((ofSeed seed).uses us).1, ((ofSeed seed).uses us).2.generator name) =
      (Generator.ofSeed (deriveSeed seed name)).draws (drawsOf name us) ∧
    ∀ us', drawsOf name us' = drawsOf name us →
      under name ((ofSeed seed).uses us').1 = under name ((ofSeed seed).uses us).1 := by
  have fresh : (ofSeed seed).generator name = .ofSeed (deriveSeed seed name) := by
    rw [generator, ofSeed, Std.ExtTreeMap.getElem?_empty]
    rfl
  refine ⟨names_uses _ us, fresh ▸ uses_under _ us name, ?_⟩
  intro us' same
  have outcomes := uses_under (ofSeed seed) us' name
  rw [same, ← uses_under (ofSeed seed) us name] at outcomes
  exact congrArg Prod.fst outcomes

/-- Draws of the workload among others, and the same ones by themselves. -/
theorem workload_isolated :
    under workloadStream ((ofSeed 42).uses [(routerStream, some .doubleWord),
        (workloadStream, some .unit), (routerStream, some (.within64 0 3)), ("other", none),
        (workloadStream, some (.within32 1 9))]).1 =
      ((Generator.ofSeed 42).draws [.unit, .within32 1 9]).1 ∧
    under workloadStream ((ofSeed 42).uses [(workloadStream, some .unit),
        (workloadStream, some (.within32 1 9)), (routerStream, some .word)]).1 =
      under workloadStream ((ofSeed 42).uses [(routerStream, some .doubleWord),
        (workloadStream, some .unit), (routerStream, some (.within64 0 3)), ("other", none),
        (workloadStream, some (.within32 1 9))]).1 := by
  obtain ⟨-, alone, others⟩ := streams_isolated 42 [(routerStream, some .doubleWord),
    (workloadStream, some .unit), (routerStream, some (.within64 0 3)), ("other", none),
    (workloadStream, some (.within32 1 9))] workloadStream
  exact ⟨congrArg Prod.fst alone, others _ (by decide)⟩

end Streams
end InferenceSim.Random
