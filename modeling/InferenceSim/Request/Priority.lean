import InferenceSim.Decimal.Binary64

/-! The priority of a request: a double by its bits, which tell NaNs apart as `Float` does not. -/
namespace InferenceSim

/-- The 64 bits of a double. -/
structure Priority where
  bits : UInt64
  deriving DecidableEq, Repr, Inhabited

namespace Priority

/-- The bits of a number. NaN is the positive one. -/
def ofFloat (x : Float) : Priority := ⟨x.toBits⟩

instance : Coe Float Priority := ⟨ofFloat⟩

def toFloat (p : Priority) : Float := .ofBits p.bits

/-- The sum of a priority and a number. A NaN passes through, but is quiet from then on, and a sum
that is no number, as that of two opposite infinities, has the sign bit set. -/
def plus (p : Priority) (x : Float) : Priority :=
  let sum := p.toFloat + x
  if p.toFloat.isNaN then ⟨p.bits ||| 0x0008000000000000⟩
  else if sum.isNaN then ⟨0xFFF8000000000000⟩
  else ofFloat sum

/-- Comparison in the total order of doubles, in which NaNs have their places too. -/
def compare (p q : Priority) : Ordering := Binary64.totalOrder p.bits q.bits

end Priority

end InferenceSim
