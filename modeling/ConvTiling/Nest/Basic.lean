import ConvTiling.Nest.Layer
import ConvTiling.Nest.Order

/-!
# Loop nests

A loop nest is a tiling with two loop orders: that of the loops off the
chip, which fetch one tile after another, and that of the loops on the chip,
which run over one tile. The scheduler takes nests and gives nests; it
searches for the order off the chip and fixes the one on it.
-/

namespace ConvTiling

/-- **A complete loop nest.** -/
structure LoopNest where
  /-- The extents of the three levels. -/
  tiling : Tiling := {}
  /-- The order of the loops that fetch tiles. -/
  offChip : LoopOrder := {}
  /-- The order of the loops over one tile. -/
  onChip : LoopOrder := {}
  deriving DecidableEq, Repr

namespace LoopNest

/-- **The untiled nest of a layer**: every level is the whole layer. -/
def ofLayer (l : Layer) : Attempt NestError LoopNest := do
  let full ← l.extents
  return { tiling := .untiled full }

/-- **A nest one can schedule.** -/
def Valid (n : LoopNest) : Prop :=
  n.tiling.Valid ∧ n.offChip.Bijective ∧ n.onChip.Bijective

instance (n : LoopNest) : Decidable n.Valid :=
  inferInstanceAs (Decidable (_ ∧ _ ∧ _))

/-- Accepts a valid nest, and reports the first broken rule of another one:
those of the tiling, then those of the order off the chip, then those of the
order on it. -/
def checkValid (n : LoopNest) : Except NestError Unit := do
  n.tiling.checkValid
  n.offChip.checkValid
  n.onChip.checkValid

/-- **The check accepts exactly the valid nests.** -/
theorem checkValid_eq_ok_iff {n : LoopNest} {u : Unit} :
    n.checkValid = .ok u ↔ n.Valid := by
  simp [checkValid, Checked.bind_eq_ok_iff, Tiling.checkValid_eq_ok_iff,
    LoopOrder.checkValid_eq_ok_iff, Valid]

/-- The nest of a layer has the three levels of that layer, and the orders a
nest starts with. -/
theorem ofLayer_eq_ok_iff {l : Layer} {n : LoopNest} :
    ofLayer l = .ok n ↔ ∃ e, l.extents = .ok e ∧ n = { tiling := .untiled e } := by
  simp only [ofLayer, Checked.bind_eq_ok_iff, Checked.pure_eq_ok_iff]

/-- **Moves every fully tiled axis innermost** in the order off the chip,
and flags it there. An edit that fails keeps what it has moved so far. -/
def gatherFullyTiled : EStateM NestError LoopNest Unit := fun n =>
  match LoopOrder.gatherFullyTiled n.tiling n.offChip with
  | .ok _ o => .ok () { n with offChip := o }
  | .error e o => .error e { n with offChip := o }

end LoopNest

end ConvTiling
