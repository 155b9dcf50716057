/-! Totals of counts, and counts that are kept in 32 bits. -/
namespace InferenceSim

/-- What 32 bits keep of a count. -/
def wrap (n : Nat) : Nat := n % 4294967296

theorem wrap_le (n : Nat) : wrap n ≤ n := Nat.mod_le n 4294967296

theorem wrap_of_lt {n : Nat} (fits : n < 4294967296) : wrap n = n := Nat.mod_eq_of_lt fits

def totalOf (counts : List Nat) : Nat := counts.foldr (· + ·) 0

@[simp] theorem totalOf_nil : totalOf [] = 0 := rfl

@[simp] theorem totalOf_cons (n : Nat) (counts : List Nat) :
    totalOf (n :: counts) = n + totalOf counts := rfl

@[simp] theorem totalOf_append (a b : List Nat) : totalOf (a ++ b) = totalOf a + totalOf b := by
  induction a with
  | nil => simp
  | cons n a ih => simp [ih, Nat.add_assoc]

end InferenceSim
