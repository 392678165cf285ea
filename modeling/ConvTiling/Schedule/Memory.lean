import ConvTiling.Accelerator
import ConvTiling.Nest.Tiling

/-!
# Fitting the buffers

Each operand has a buffer, and a tiling fits an accelerator when the tile of
each operand fits the buffer of that operand. A tile that is the whole
operand is fetched once and may fill its buffer. A smaller tile is replaced
by the next one while it is still in use, so both must be in the buffer
together, and the tile may fill only half of it.

So fitting is not monotone in the tile: a tile that is the whole operand can
fit where a smaller one does not.
-/

namespace ConvTiling

/-- **What a buffer is asked to hold** of one operand, in bytes. -/
structure Load where
  /-- The tile on the chip. -/
  tile : Int
  /-- The whole operand. -/
  full : Int
  deriving DecidableEq, Repr

namespace Load

/-- **The part of a buffer that a tile may fill**: half of it, rounded
toward zero, unless the tile is the whole operand. -/
def capacity (l : Load) (buffer : Int) : Int :=
  if l.tile < l.full then buffer.tdiv 2 else buffer

/-- A tile fits a buffer. -/
def Fits (l : Load) (buffer : Int) : Prop := l.tile ≤ l.capacity buffer

instance (l : Load) (buffer : Int) : Decidable (l.Fits buffer) :=
  inferInstanceAs (Decidable (_ ≤ _))

end Load

namespace Tiling

/-- What the buffer of an operand is asked to hold. -/
def load (t : Tiling) (o : Operand) : Checked Load := do
  let tile ← t.tile.bytes o
  let full ← t.full.bytes o
  return ⟨tile, full⟩

/-- What the three buffers are asked to hold. -/
def loads (t : Tiling) : Checked (PerOperand Load) := do
  let input ← t.load .input
  let weight ← t.load .weight
  let output ← t.load .output
  return ⟨input, weight, output⟩

/-- **Whether the tile of every operand fits its buffer.** All the sizes are
computed before any is compared. -/
def fits (t : Tiling) (a : Accelerator) : Checked Bool := do
  let loads ← t.loads
  return Operand.all.all fun o => (loads.get o).Fits (a.buffers.get o)

/-- A load is the bytes of the tile and those of the layer. -/
theorem load_eq_ok_iff {t : Tiling} {o : Operand} {l : Load} :
    t.load o = .ok l ↔ t.tile.bytes o = .ok l.tile ∧ t.full.bytes o = .ok l.full := by
  simp only [load, Checked.bind_eq_ok_iff, Checked.pure_eq_ok_iff]
  constructor
  · rintro ⟨x, hx, y, hy, rfl⟩
    exact ⟨hx, hy⟩
  · rintro ⟨hx, hy⟩
    exact ⟨_, hx, _, hy, rfl⟩

/-- The loads are those of each operand. -/
theorem loads_eq_ok_iff {t : Tiling} {r : PerOperand Load} :
    t.loads = .ok r ↔ ∀ o, t.load o = .ok (r.get o) := by
  simp only [loads, Checked.bind_eq_ok_iff, Checked.pure_eq_ok_iff]
  constructor
  · rintro ⟨i, hi, w, hw, o, ho, rfl⟩ q
    cases q <;> assumption
  · intro h
    exact ⟨_, h .input, _, h .weight, _, h .output, rfl⟩

/-- **A tiling fits exactly when the load of every operand fits its
buffer.** -/
theorem fits_eq_ok_true_iff {t : Tiling} {a : Accelerator} :
    t.fits a = .ok true ↔
      ∃ r, t.loads = .ok r ∧ ∀ o, (r.get o).Fits (a.buffers.get o) := by
  simp only [fits, Checked.bind_eq_ok_iff, Checked.pure_eq_ok_iff]
  constructor
  · rintro ⟨r, hr, h⟩
    refine ⟨r, hr, fun o => ?_⟩
    have := List.all_eq_true.1 h.symm o o.mem_all
    simpa using this
  · rintro ⟨r, hr, h⟩
    exact ⟨r, hr, (List.all_eq_true.2 fun o _ => by simpa using h o).symm⟩

end Tiling

end ConvTiling
