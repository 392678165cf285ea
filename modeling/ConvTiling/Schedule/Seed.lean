import ConvTiling.Nest.Basic
import ConvTiling.Schedule.Handout

/-!
# Seeding the tile

The search starts from a tile that gives every processing element something
to do. It is a stripe of the layer: the whole kernel, one channel of input
and of output, and one row of output over its full width, with the rows of
input which that needs. Each side of the array then hands its length to the
extents mapped onto it, in the order of the mapping: an extent takes what is
left of the side, or the whole layer if that is less, and leaves the quotient
to the next. The kernel takes no part in this, being whole already.

An extent of a map that is set this way brings the other map along: a tile of
output takes the input it needs, and a tile of input gives the output it can.
-/

namespace ConvTiling

/-- The stripe that seeding starts from. -/
def stripe (full : Extents) : Checked Extents := do
  let rows ← tileInputLength 1 full.kernelHeight full.stride
  return { full with
    inputChannel := 1
    outputChannel := 1
    outputHeight := 1
    inputHeight := min rows full.inputHeight }

/-- **What an extent brings along** when it is set to `n`: the other map in
the same direction. -/
def bringAlong (full tile : Extents) (d : Dim) (n : Int) : Checked Extents :=
  match d with
  | .outputWidth => do
    let m ← tileInputLength n tile.kernelWidth full.stride
    return { tile with inputWidth := min m full.inputWidth }
  | .outputHeight => do
    let m ← tileInputLength n tile.kernelHeight full.stride
    return { tile with inputHeight := min m full.inputHeight }
  | .inputWidth => do
    let m ← tileOutputLength n tile.kernelWidth full.stride
    return { tile with outputWidth := min m full.outputWidth }
  | .inputHeight => do
    let m ← tileOutputLength n tile.kernelHeight full.stride
    return { tile with outputHeight := min m full.outputHeight }
  | _ => .ok tile

/-- A side of the array while its length is handed to the extents mapped onto
it. -/
structure Seeding where
  tile : Extents
  left : Int
  deriving DecidableEq, Repr

/-- **Serves one extent**: it takes what is left of the side, at most the
whole layer, and leaves the quotient. -/
def Seeding.serve (full : Extents) (s : Seeding) (d : Dim) : Checked Seeding :=
  match d with
  | .kernelWidth | .kernelHeight => .ok s
  | d => do
    let n := min s.left (full.get d)
    let tile ← bringAlong full s.tile d n
    let left ← Signed.div s.left n
    return ⟨tile.set d n, left⟩

/-- Hands the length of one side to the extents mapped onto it. -/
def seedSide (full : Extents) (a : Accelerator) (tile : Extents) (s : Side) :
    Checked Extents := do
  let served ← (a.mapped s).foldlM (Seeding.serve full) ⟨tile, a.length s⟩
  return served.tile

/-- Widens the input of a tile to its kernel, within the layer. -/
def reachKernel (full tile : Extents) : Extents :=
  { tile with
    inputWidth := min (max tile.inputWidth tile.kernelWidth) full.inputWidth
    inputHeight := min (max tile.inputHeight tile.kernelHeight) full.inputHeight }

/-- **The tile that the search starts from.** -/
def seedTile (full : Extents) (a : Accelerator) : Checked Extents := do
  let start ← stripe full
  let tile ← Side.all.foldlM (seedSide full a) start
  return reachKernel full tile

/-- **The tiling that the search starts from.** Only the whole layer is taken
from the tiling given. -/
def Tiling.seed (t : Tiling) (a : Accelerator) : Checked Tiling := do
  let tile ← seedTile t.full a
  let unroll ← unrollTile tile a
  return { full := t.full, tile, unroll }

/-- The nest that the search starts from, its loop orders kept. -/
def LoopNest.seed (n : LoopNest) (a : Accelerator) : Checked LoopNest := do
  let tiling ← n.tiling.seed a
  return { n with tiling }

end ConvTiling
