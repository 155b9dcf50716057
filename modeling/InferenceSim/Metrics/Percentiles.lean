import InferenceSim.Clock
import InferenceSim.Counting

/-! Percentiles of a list of figures, and how evenly work was spread. -/
namespace InferenceSim

/-- A distribution by its percentiles, extremes and mean. -/
structure Percentiles where
  p50 : Float := 0.0
  p75 : Float := 0.0
  p90 : Float := 0.0
  p95 : Float := 0.0
  p99 : Float := 0.0
  least : Float := 0.0
  most : Float := 0.0
  mean : Float := 0.0
  deriving Inhabited

namespace Percentiles

/-- The value at the place nearest to `p` percent of the way through a sorted list. -/
def atPercent (sorted : List Float) (p : Float) : Float :=
  let last := sorted.length - 1
  let place := Binary64.toCount (p / 100.0 * Binary64.ofCount last).round
  sorted.getD (min place last) 0.0

/-- The percentiles of some values, all zero if there are none. -/
def ofValues (values : List Float) : Percentiles :=
  if values.isEmpty then {}
  else
    let sorted := values.mergeSort fun a b => (Binary64.totalOrder a.toBits b.toBits).isLE
    { p50 := atPercent sorted 50.0
      p75 := atPercent sorted 75.0
      p90 := atPercent sorted 90.0
      p95 := atPercent sorted 95.0
      p99 := atPercent sorted 99.0
      least := sorted.headD 0.0
      most := sorted.getLastD 0.0
      mean := Binary64.sum sorted / Binary64.ofCount sorted.length }

def ofTicks (ticks : List Nat) : Percentiles := ofValues (ticks.map ticksToMs)

def toDocument (p : Percentiles) : Document :=
  .table [("p50", .real p.p50), ("p75", .real p.p75), ("p90", .real p.p90),
    ("p95", .real p.p95), ("p99", .real p.p99), ("min", .real p.least), ("max", .real p.most),
    ("mean", .real p.mean)]

def ofDocument? (d : Document) : Option Percentiles := do
  let f ← d.fields? ["p50", "p75", "p90", "p95", "p99", "min", "max", "mean"]
  return {
    p50 := ← f.real "p50"
    p75 := ← f.real "p75"
    p90 := ← f.real "p90"
    p95 := ← f.real "p95"
    p99 := ← f.real "p99"
    least := ← f.real "min"
    most := ← f.real "max"
    mean := ← f.real "mean" }

end Percentiles

/-- The standard deviation over the mean; zero if the mean is. -/
def variation (values : List Nat) : Float :=
  if values.isEmpty then 0.0
  else
    let n := Binary64.ofCount values.length
    let mean := Binary64.ofCount (totalOf values) / n
    if mean == 0.0 then 0.0
    else
      let squares := values.map fun v =>
        let d := Binary64.ofCount v - mean
        d * d
      (Binary64.sum squares / n).sqrt / mean

/-- The square of the sum over the count times the sum of squares: one when all
values are equal, and less the further they are apart. -/
def jainIndex (values : List Nat) : Float :=
  if values.isEmpty then 1.0
  else
    let reals := values.map Binary64.ofCount
    let sum := Binary64.sum reals
    let squares := Binary64.sum (reals.map fun v => v * v)
    if squares == 0.0 then 1.0
    else sum * sum / (Binary64.ofCount values.length * squares)

end InferenceSim
