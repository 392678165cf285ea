import ConvTiling.Accelerator
import ConvTiling.Schedule.Traffic

/-!
# The score of a tiling

Tilings are compared by a proxy of the product of energy and delay: the
bytes that are moved off the chip, which is where the energy goes, over the
rate at which the array can work. The rate is the smaller of two bounds – what
the processing elements can compute, and what the memory can feed them.

The score is a binary floating-point number, and rounding makes it depend on
the order of the operations, which is therefore fixed: each expression below
is evaluated as it is bracketed. The integers that enter it are exact until
they are converted.
-/

namespace ConvTiling

/-- The smaller of two numbers. One that is not a number gives way to the
other, and of two equal ones it is the second, which shows only in the sign
of a zero. -/
def lesser (x y : Float) : Float :=
  if x < y || y.isNaN then x else y

/-- **How much of its processing elements an extent keeps busy**: the tile
over the next multiple of the unrolling. If the unrolling does not divide the
tile, the last pass leaves some of them idle. -/
def Tiling.busyShare (t : Tiling) (d : Dim) : Checked Float := do
  let tile := t.tile.get d
  let unroll := t.unroll.get d
  let passes ← Signed.ceilDiv tile unroll
  let covered ← Signed.mul passes unroll
  return Float.ofInt tile / Float.ofInt covered

/-- **The share of the processing elements that does useful work**: the
product over the mapped extents, the rows first. -/
def Tiling.utilization (t : Tiling) (a : Accelerator) : Checked Float :=
  a.mappedDims.foldlM (fun share d => do
    let busy ← t.busyShare d
    return share * busy) 1.0

/-- **The score of a tiling under a dataflow.** Lower is better. -/
def Tiling.score (t : Tiling) (a : Accelerator) (stationary : Operand) :
    Checked Float := do
  let moved := Float.ofInt (← t.traffic stationary)
  let work := Float.ofInt (← t.full.multiplications)
  let elements := Float.ofInt (← a.elements)
  let utilization ← t.utilization a
  let compute := a.frequency * elements * utilization
  let memory := work * a.bandwidth / moved
  return moved / lesser compute memory / 1000.0

end ConvTiling
