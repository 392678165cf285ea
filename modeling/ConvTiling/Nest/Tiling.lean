import ConvTiling.Arith.Division
import ConvTiling.Nest.Level

/-!
# Tilings

A tiling is a stack of three levels: the whole layer as it lies off the chip,
the tile of it that is on the chip at one time, and the part of that tile
that the processing array computes in one cycle. It is **valid** when each
level is, the three share one stride, and each level contains the next
(`Tiling.Valid`).

An axis is **fully tiled** when the tile has the whole layer along it, so
that no loop off the chip runs over it (`Tiling.IsFullyTiled`). Making the
output map fully tiled brings the whole input map along, since that is what a
whole output map is computed from.
-/

namespace ConvTiling

/-- The extents that a tile takes over from the layer when an axis is fully
tiled: those of the axis, and for the output map those of the input map as
well. -/
def Axis.carried : Axis → List Dim
  | .outputMap => Axis.outputMap.dims ++ [.inputWidth, .inputHeight]
  | a => a.dims

/-- **The three levels of a loop nest.** -/
structure Tiling where
  /-- The whole layer, off the chip. -/
  full : Extents := {}
  /-- The tile on the chip. -/
  tile : Extents := {}
  /-- The part of the tile computed in one cycle. -/
  unroll : Extents := {}
  deriving DecidableEq, Repr

namespace Tiling

/-- The tiling whose three levels are all the whole layer. -/
def untiled (full : Extents) : Tiling := ⟨full, full, full⟩

/-- Sets the stride of every level. -/
def setStride (t : Tiling) (stride : Int) : Tiling where
  full := { t.full with stride }
  tile := { t.tile with stride }
  unroll := { t.unroll with stride }

/-- Sets the padding of every level. -/
def setPadding (t : Tiling) (paddingWidth paddingHeight : Int) : Tiling where
  full := { t.full with paddingWidth, paddingHeight }
  tile := { t.tile with paddingWidth, paddingHeight }
  unroll := { t.unroll with paddingWidth, paddingHeight }

/-- The common stride of the three levels. -/
def stride (t : Tiling) : Except NestError Int :=
  if t.full.stride = t.tile.stride ∧ t.tile.stride = t.unroll.stride then
    .ok t.full.stride
  else
    .error (.strideMismatch t.full.stride t.tile.stride t.unroll.stride)

/-- The levels have a common stride exactly when neighbouring ones do. -/
theorem stride_eq_ok_iff {t : Tiling} {s : Int} :
    t.stride = .ok s ↔
      t.full.stride = t.tile.stride ∧ t.tile.stride = t.unroll.stride
        ∧ s = t.full.stride := by
  unfold stride
  split <;> simp_all [eq_comm]

/-! ## Validity -/

/-- **A tiling one can schedule.** -/
def Valid (t : Tiling) : Prop :=
  t.full.Valid ∧ t.tile.Valid ∧ t.unroll.Valid
    ∧ (t.full.stride = t.tile.stride ∧ t.tile.stride = t.unroll.stride)
    ∧ t.full.Contains t.tile ∧ t.tile.Contains t.unroll

instance (t : Tiling) : Decidable t.Valid :=
  inferInstanceAs (Decidable (_ ∧ _ ∧ _ ∧ (_ ∧ _) ∧ _ ∧ _))

/-- Accepts a valid tiling, and reports the first broken rule of another
one: the levels from the whole layer down, then the strides, then containment
from the whole layer down. -/
def checkValid (t : Tiling) : Except NestError Unit := do
  t.full.checkValid
  t.tile.checkValid
  t.unroll.checkValid
  let _ ← t.stride
  t.full.checkContains t.tile
  t.tile.checkContains t.unroll

/-- **The check accepts exactly the valid tilings.** -/
theorem checkValid_eq_ok_iff {t : Tiling} {u : Unit} :
    t.checkValid = .ok u ↔ t.Valid := by
  simp only [checkValid, Checked.bind_eq_ok_iff, Extents.checkValid_eq_ok_iff,
    Extents.checkContains_eq_ok_iff, stride_eq_ok_iff, Valid]
  constructor
  · rintro ⟨-, hf, -, ht, -, hu, -, ⟨h1, h2, -⟩, -, h3, h4⟩
    exact ⟨hf, ht, hu, ⟨h1, h2⟩, h3, h4⟩
  · rintro ⟨hf, ht, hu, ⟨h1, h2⟩, h3, h4⟩
    exact ⟨(), hf, (), ht, (), hu, _, ⟨h1, h2, rfl⟩, (), h3, h4⟩

/-! ## Axes that the tile has whole -/

/-- **The tile has the whole layer along an axis.** -/
def IsFullyTiled (t : Tiling) (a : Axis) : Prop :=
  ∀ d ∈ a.dims, t.full.get d = t.tile.get d

instance (t : Tiling) (a : Axis) : Decidable (t.IsFullyTiled a) :=
  inferInstanceAs (Decidable (∀ d ∈ a.dims, t.full.get d = t.tile.get d))

/-- **Makes an axis fully tiled.** The tile takes over the extents of the
axis from the layer, and with the output map those of the input map. -/
def tileFully (t : Tiling) (a : Axis) : Tiling :=
  { t with tile := a.carried.foldl (fun e d => e.set d (t.full.get d)) t.tile }

@[simp] theorem full_tileFully (t : Tiling) (a : Axis) :
    (t.tileFully a).full = t.full := rfl

@[simp] theorem unroll_tileFully (t : Tiling) (a : Axis) :
    (t.tileFully a).unroll = t.unroll := rfl

/-- **A tile that takes over an axis** has the extents carried by it from
the layer, and keeps its others. -/
@[simp] theorem get_tile_tileFully (t : Tiling) (a : Axis) (d : Dim) :
    (t.tileFully a).tile.get d
      = if d ∈ a.carried then t.full.get d else t.tile.get d := by
  cases a <;> cases d <;> rfl

/-- An axis made fully tiled is. -/
theorem isFullyTiled_tileFully (t : Tiling) (a : Axis) :
    (t.tileFully a).IsFullyTiled a := by
  intro d hd
  have : d ∈ a.carried := by cases a <;> simp_all [Axis.carried]
  simp [this]

/-- **How many tiles cover the layer** along some extents: the product of
the rounded-up quotients, from left to right as listed. -/
def tileCount (t : Tiling) (dims : List Dim) : Checked Int :=
  Signed.productBy (fun d => Signed.ceilDiv (t.full.get d) (t.tile.get d)) dims

/-- How many iterations the loop off the chip over an axis has. -/
def iterations (t : Tiling) (a : Axis) : Checked Int := t.tileCount a.dims

/-! ## Turning a tile by a quarter -/

/-- Whether the tile still lies in the layer when its width and height are
exchanged. -/
def FitsTurned (t : Tiling) : Prop :=
  t.tile.outputHeight ≤ t.full.outputWidth ∧ t.tile.outputWidth ≤ t.full.outputHeight
    ∧ t.tile.inputHeight ≤ t.full.inputWidth ∧ t.tile.inputWidth ≤ t.full.inputHeight

instance (t : Tiling) : Decidable t.FitsTurned :=
  inferInstanceAs (Decidable (_ ∧ _ ∧ _ ∧ _))

/-- **Exchanges width and height** of the tile and of the unrolling, unless
the tile would no longer lie in the layer. The kernel keeps its width and
height, so that of a kernel which is not square the turned input tile is not
the one that the turned output tile needs. -/
def turn? (t : Tiling) : Option Tiling :=
  if t.FitsTurned then
    some { t with
      tile := t.tile.turned
      unroll := t.unroll.turned }
  else none

end Tiling

end ConvTiling
