import ConvTiling.Accelerator
import ConvTiling.Arith.Division
import ConvTiling.Arith.Primes
import ConvTiling.Nest.Layer

/-!
# Unrolling a tile over the array

In one cycle the array computes a part of the tile: along each side, the
extents mapped onto that side share its processing elements. They are handed
out in two rounds, in the order of the mapping. First each extent takes the
greatest share that divides both its tile and what is left of the side. Then
what is still left is spent prime by prime, on the first extent whose tile is
long enough for the larger unrolling.

Extents that are not mapped are unrolled once. The unrolled input is at
least the unrolled kernel, and an output left unrolled once is what the
unrolled input gives – with the unrolled kernel, not that of the tile.
-/

namespace ConvTiling

/-- **A side while it is handed out**: the unrolling so far, and how many
processing elements of the side are left. -/
structure Handout where
  unroll : Extents
  left : Int
  deriving DecidableEq, Repr

namespace Handout

/-- **The first round**, for one extent: it takes the greatest common divisor
of its tile and what is left. -/
def takeShare (tile : Extents) (h : Handout) (d : Dim) : Checked Handout := do
  let share ← Signed.gcd (tile.get d) h.left
  let left ← Signed.div h.left share
  return ⟨h.unroll.set d share, left⟩

/-- A prime is spent on an extent if the tile still holds that many
unrolled steps. -/
def takePrime (tile : Extents) (d : Dim) (h : Handout) (p : Nat) :
    Checked Handout := do
  let unroll := h.unroll.get d
  let steps ← Signed.div (tile.get d) unroll
  if (p : Int) ≤ steps then
    let unroll ← Signed.mul unroll p
    let left ← Signed.div h.left p
    return ⟨h.unroll.set d unroll, left⟩
  else
    return h

/-- **The second round**, for one extent: the primes of what is left are
tried one after the other, smallest first. -/
def takePrimes (tile : Extents) (h : Handout) (d : Dim) : Checked Handout := do
  let primes ← primeFactors h.left
  primes.foldlM (takePrime tile d) h

end Handout

/-- **Hands out one side of the array**: every extent takes its share, then
every extent takes its primes. -/
def handOutSide (tile : Extents) (a : Accelerator) (unroll : Extents) (s : Side) :
    Checked Extents := do
  let h ← (a.mapped s).foldlM (Handout.takeShare tile) ⟨unroll, a.length s⟩
  let h ← (a.mapped s).foldlM (Handout.takePrimes tile) h
  return h.unroll

/-- Widens an unrolled input to the unrolled kernel, within the tile. -/
def coverKernel (tile unroll : Extents) : Extents :=
  { unroll with
    inputWidth := min (max unroll.inputWidth unroll.kernelWidth) tile.inputWidth
    inputHeight := min (max unroll.inputHeight unroll.kernelHeight) tile.inputHeight }

/-- The output unrolled along one direction: as it is, unless it is unrolled
once, when it follows from the input, within the tile. -/
def followInput (output input kernel stride bound : Int) : Checked Int :=
  if output = 1 then do
    let n ← tileOutputLength input kernel stride
    return min n bound
  else .ok output

/-- **The part of a tile that the array computes in one cycle.** -/
def unrollTile (tile : Extents) (a : Accelerator) : Checked Extents := do
  let start := Extents.unit tile.stride tile.paddingWidth tile.paddingHeight
  let unroll ← Side.all.foldlM (handOutSide tile a) start
  let unroll := coverKernel tile unroll
  let outputWidth ← followInput unroll.outputWidth unroll.inputWidth
    unroll.kernelWidth tile.stride tile.outputWidth
  let outputHeight ← followInput unroll.outputHeight unroll.inputHeight
    unroll.kernelHeight tile.stride tile.outputHeight
  return { unroll with outputWidth, outputHeight }

end ConvTiling
