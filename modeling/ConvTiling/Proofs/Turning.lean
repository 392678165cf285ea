import Mathlib.Tactic.Ring
import ConvTiling.Proofs.Residency

/-!
# Turning a tile by a quarter

Exchanging width and height reads each extent of a map where the other one was
(`Extents.get_turned`), so what holds of two levels in every extent holds of
the two turned (`Extents.LiesIn.turned`). The tile is turned in a layer that is
not, and that is the one containment which has to be checked: the check asks of
the four extents that change whether they still lie in the layer, and the
others lie in it as before (`Tiling.Nested.turn`). Nothing else can be wrong with
a turned tiling, so a valid one is turned exactly if it is valid turned.

An operand has the same bytes turned as not, so a turned tile fits the buffers
exactly if the tile did (`Tiling.fits_of_turn`). And a turned tiling can be turned
back: what was the width fitted the width of the layer before
(`Tiling.turn_exact`).
-/

namespace ConvTiling

/-- The extent that a quarter turn reads where this one was. -/
def Dim.turned : Dim → Dim
  | .inputWidth => .inputHeight
  | .inputHeight => .inputWidth
  | .outputWidth => .outputHeight
  | .outputHeight => .outputWidth
  | d => d

namespace Extents

variable {e lower upper : Extents}

/-- **Turning a level** exchanges its widths and heights. -/
@[simp] theorem get_turned (e : Extents) (d : Dim) : e.turned.get d = e.get d.turned := by
  cases d <;> rfl

/-- A level lies in another one turned if it does unturned. -/
theorem LiesIn.turned (h : lower.LiesIn upper) : lower.turned.LiesIn upper.turned where
  stride := h.stride
  paddingWidth := h.paddingWidth
  paddingHeight := h.paddingHeight
  one_le d := by
    rw [get_turned]
    exact h.one_le d.turned
  le d := by
    rw [get_turned, get_turned]
    exact h.le d.turned

/-- A valid level is valid turned. -/
theorem Valid.turned (h : e.Valid) : e.turned.Valid := by
  obtain ⟨hfields, hone⟩ := valid_iff_one_le_get.1 h
  refine valid_iff_one_le_get.2 ⟨hfields, fun d => ?_⟩
  rw [get_turned]
  exact hone d.turned

/-- A level contains another one turned if it does unturned. -/
theorem Contains.turned (h : upper.Contains lower) : upper.turned.Contains lower.turned := by
  refine contains_iff.2 fun d => ?_
  rw [get_turned, get_turned]
  exact contains_iff.1 h d.turned

/-- **An operand has as many elements turned as not.** -/
theorem volume_turned (e : Extents) (o : Operand) :
    e.turned.volume o.dims = e.volume o.dims := by
  cases o <;> simp only [Operand.dims, volume_cons, volume_nil, get_turned, Dim.turned]
    <;> ring

/-- **An operand has the same bytes turned as not**, or too many both ways. -/
theorem bytes_turned (h : ∀ d, 1 ≤ e.get d) (o : Operand) : e.turned.bytes o = e.bytes o := by
  have hturned : ∀ d, 1 ≤ e.turned.get d := fun d => by
    rw [get_turned]
    exact h d.turned
  rw [bytes_eq_within hturned, bytes_eq_within h, volume_turned]

end Extents

namespace Tiling

variable {t t' : Tiling} {a : Accelerator}

/-- A tile is turned where it still lies in the layer then. -/
theorem turn?_eq_some_iff :
    t.turn? = some t' ↔
      t.FitsTurned ∧ t' = { t with tile := t.tile.turned, unroll := t.unroll.turned } := by
  unfold turn?
  split <;> simp [*, eq_comm]

/-- A tile that is higher than it is wide is another one turned. -/
theorem ne_of_turn (hhigh : t.tile.outputWidth < t.tile.outputHeight)
    (run : t.turn? = some t') : t' ≠ t := by
  rintro rfl
  obtain ⟨-, hsame⟩ := turn?_eq_some_iff.1 run
  have hwidth := congrArg (fun t => t.tile.outputWidth) hsame
  exact absurd hwidth (Int.ne_of_lt hhigh)

/-- **A layer contains a turned tile** exactly if it contains those extents of it that
change, which are the ones that are checked. -/
theorem contains_turned_iff (h : t.full.Contains t.tile) :
    t.full.Contains t.tile.turned ↔ t.FitsTurned := by
  have h := Extents.contains_iff.1 h
  rw [Extents.contains_iff]
  constructor
  · intro hturned
    exact ⟨hturned .outputWidth, hturned .outputHeight, hturned .inputWidth,
      hturned .inputHeight⟩
  · rintro ⟨hw, hh, hiw, hih⟩ d
    rw [Extents.get_turned]
    cases d with
    | outputWidth => exact hw
    | outputHeight => exact hh
    | inputWidth => exact hiw
    | inputHeight => exact hih
    | kernelWidth => exact h .kernelWidth
    | kernelHeight => exact h .kernelHeight
    | inputChannel => exact h .inputChannel
    | outputChannel => exact h .outputChannel

/-- **A turned tile lies in the layer**: the extents that change were
checked. -/
theorem FitsTurned.liesIn (h : t.FitsTurned) (ht : t.tile.LiesIn t.full) :
    t.tile.turned.LiesIn t.full where
  stride := ht.stride
  paddingWidth := ht.paddingWidth
  paddingHeight := ht.paddingHeight
  one_le d := by
    rw [Extents.get_turned]
    exact ht.one_le d.turned
  le := Extents.contains_iff.1 ((contains_turned_iff (Extents.contains_iff.2 ht.le)).2 h)

/-- **Turning keeps a tiling nested**, and its layer. -/
theorem Nested.turn (h : t.Nested) (run : t.turn? = some t') :
    t'.Nested ∧ t'.full = t.full := by
  obtain ⟨hfits, rfl⟩ := turn?_eq_some_iff.1 run
  exact ⟨⟨h.full, hfits.liesIn h.tile, h.unroll.turned⟩, rfl⟩

/-! ## Turning a valid tiling -/

/-- **The tiling turned**: the width and height of its tile and of its unrolling are
exchanged, whether or not they lie in the layer then. -/
def turned (t : Tiling) : Tiling :=
  { t with
    tile := t.tile.turned
    unroll := t.unroll.turned }

/-- A tiling turned twice is the same. -/
@[simp] theorem turned_turned (t : Tiling) : t.turned.turned = t := rfl

/-- **The turned tiling** is what turning gives where there is an answer. -/
theorem turn?_eq_some_turned_iff : t.turn? = some t.turned ↔ t.FitsTurned := by
  rw [turn?_eq_some_iff]
  exact and_iff_left rfl

/-- Nothing is turned that would not lie in the layer. -/
theorem turn?_eq_none_iff : t.turn? = none ↔ ¬ t.FitsTurned := by
  unfold turn?
  split <;> simp [*]

/-- **The buffers are asked for the same turned as not.** -/
theorem fits_turned (h : ∀ d, 1 ≤ t.tile.get d) (a : Accelerator) :
    t.turned.fits a = t.fits a := by
  refine fits_congr_load fun o => ?_
  have hbytes : t.turned.tile.bytes o = t.tile.bytes o := Extents.bytes_turned h o
  unfold load
  rw [hbytes]
  rfl

/-- **A turned tile fits the buffers** if it did before. -/
theorem fits_of_turn (h : t.Nested) (run : t.turn? = some t') {b : Bool}
    (hb : t.fits a = .ok b) : t'.fits a = .ok b := by
  obtain ⟨-, rfl⟩ := turn?_eq_some_iff.1 run
  exact (fits_turned h.tile.one_le a).trans hb

/-- **A valid tiling is valid turned** exactly if its turned tile passes the check. -/
theorem valid_turned_iff (h : t.Valid) : t.turned.Valid ↔ t.FitsTurned := by
  obtain ⟨hfull, htile, hunroll, hstride, hcontains, hinner⟩ := h
  rw [← contains_turned_iff hcontains]
  exact ⟨fun hturned => hturned.2.2.2.2.1,
    fun hturned => ⟨hfull, htile.turned, hunroll.turned, hstride, hturned, hinner.turned⟩⟩

/-- **What was turned fits turned back**: its width and height are those of a tile
that lay in the layer. -/
theorem fitsTurned_turned (h : t.full.Contains t.tile) : t.turned.FitsTurned := by
  have hle := Extents.contains_iff.1 h
  exact ⟨hle .outputWidth, hle .outputHeight, hle .inputWidth, hle .inputHeight⟩

/-- **A valid tiling is turned exactly if it is valid turned.** Then the bytes of every
operand stay, so that every accelerator has room for the turned tile if it had for the
other one, and turning once more gives the tiling back. A tiling that would not be valid
turned is not turned. -/
theorem turn_exact (h : t.checkValid = .ok ()) :
    (t.turned.checkValid = .ok () →
      t.turn? = some t.turned ∧ t.turned.turn? = some t
        ∧ (∀ o, t.turned.tile.bytes o = t.tile.bytes o)
        ∧ ∀ a, t.turned.fits a = t.fits a)
      ∧ (t.turned.checkValid ≠ .ok () → t.turn? = none) := by
  have hvalid := checkValid_eq_ok_iff.1 h
  have hone : ∀ d, 1 ≤ t.tile.get d := hvalid.2.1.one_le_get
  rw [ne_eq, checkValid_eq_ok_iff, valid_turned_iff hvalid]
  refine ⟨fun hfits => ⟨?_, ?_, ?_, ?_⟩, turn?_eq_none_iff.2⟩
  · exact turn?_eq_some_turned_iff.2 hfits
  · have hback := turn?_eq_some_turned_iff.2 (fitsTurned_turned hvalid.2.2.2.2.1)
    rwa [turned_turned] at hback
  · exact fun o => Extents.bytes_turned hone o
  · exact fits_turned hone

/-- In a layer that is wider than high, a tile of two by six fits as six by two, under a
kernel of three by one. The strip of the whole width cannot be stood up: the output map
would have room for it, but the input map is too low. -/
theorem turn_exact_twoBySix :
    let full : Extents := ⟨1, 0, 0, 8, 6, 2, 3, 1, 6, 6, 4⟩
    let narrow : Tiling :=
      ⟨full, ⟨1, 0, 0, 4, 6, 1, 3, 1, 2, 6, 4⟩, ⟨1, 0, 0, 1, 2, 1, 1, 1, 1, 2, 1⟩⟩
    let strip : Tiling := ⟨full, ⟨1, 0, 0, 8, 2, 1, 3, 1, 6, 2, 4⟩, .unit 1 0 0⟩
    narrow.checkValid = .ok () ∧ narrow.turned.checkValid = .ok ()
      ∧ narrow.turn? = some narrow.turned ∧ narrow.turned.turn? = some narrow
      ∧ (∀ o, narrow.turned.tile.bytes o = narrow.tile.bytes o)
      ∧ (∀ a, narrow.turned.fits a = narrow.fits a)
      ∧ strip.checkValid = .ok () ∧ strip.turned.checkValid ≠ .ok () ∧ strip.turn? = none := by
  intro full narrow strip
  have hnarrow : narrow.checkValid = .ok () := checkValid_eq_ok_iff.2 (by decide)
  have hturned : narrow.turned.checkValid = .ok () := checkValid_eq_ok_iff.2 (by decide)
  have hstrip : strip.checkValid = .ok () := checkValid_eq_ok_iff.2 (by decide)
  have hlow : strip.turned.checkValid ≠ .ok () := mt checkValid_eq_ok_iff.1 (by decide)
  obtain ⟨hturn, hback, hbytes, hfits⟩ := (turn_exact hnarrow).1 hturned
  exact ⟨hnarrow, hturned, hturn, hback, hbytes, hfits, hstrip, hlow,
    (turn_exact hstrip).2 hlow⟩

end Tiling

end ConvTiling
