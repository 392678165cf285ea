import ConvTiling.Nest.Layer
import ConvTiling.Nest.Tiling

/-!
# The space of tiles

From the tile it is left with when loops are removed the search can enlarge six
extents, each up to that of the layer: those of the kernel, of the output map
and of the channels. The tiles it can reach are the points of a box, and they
are numbered from `1` in mixed radix, the kernel width being the fastest
digit and the output channel the slowest. A digit is how much its extent is
enlarged. So a stretch of numbers is a share of the work that needs nothing
but its two ends.

The input of a tile is not free. It follows from the output and the kernel
of the tile and is at most that of the layer.
-/

namespace ConvTiling

/-- **The extents that the search can enlarge**, the fastest digit first. -/
def freeDims : List Dim :=
  [.kernelWidth, .kernelHeight, .outputWidth, .outputHeight, .inputChannel,
    .outputChannel]

/-- **The tiles that can be reached from a tiling.** -/
structure TileSpace where
  /-- The tiling that the tiles are enlarged from. -/
  seed : Tiling
  /-- How many values each free extent can take, in the order of
  `freeDims`. -/
  radices : List Nat
  deriving DecidableEq, Repr

namespace TileSpace

/-- How many values an extent can take: those from the tile to the layer. An
extent that is beyond the layer already keeps its value. -/
def radix (t : Tiling) (d : Dim) : Checked Nat := do
  let room ← Signed.sub (t.full.get d) (t.tile.get d)
  let values ← Signed.add room 1
  return (max values 1).toNat

/-- **The space of a tiling.** -/
def of (t : Tiling) : Checked TileSpace := do
  let radices ← freeDims.mapM (radix t)
  return ⟨t, radices⟩

/-- **How many tiles the space has**: the product of the radices, from `1`
and from left to right. -/
def total (s : TileSpace) : Checked Nat :=
  s.radices.foldlM Count.mul 1

/-- **Enlarges extents by the digits of a number**, the fastest first. -/
def enlarge : List (Dim × Nat) → Nat → Extents → Checked Extents
  | [], _, e => .ok e
  | (d, radix) :: rest, digits, e => do
    let n ← Signed.add (e.get d) (digits % radix : Nat)
    enlarge rest (digits / radix) (e.set d n)

/-- The input that a tile needs, within the layer. -/
def withInput (full tile : Extents) : Checked Extents := do
  let width ← tileInputLength tile.outputWidth tile.kernelWidth full.stride
  let tile := { tile with inputWidth := min width full.inputWidth }
  let height ← tileInputLength tile.outputHeight tile.kernelHeight full.stride
  return { tile with inputHeight := min height full.inputHeight }

/-- **The tiling of a number.** The whole layer and the unrolling are those
of the seed. -/
def tilingAt (s : TileSpace) (number : Nat) : Checked Tiling := do
  let digits ← Count.sub number 1
  let tile ← enlarge (freeDims.zip s.radices) digits s.seed.tile
  let tile ← withInput s.seed.full tile
  return { s.seed with tile }

end TileSpace

end ConvTiling
