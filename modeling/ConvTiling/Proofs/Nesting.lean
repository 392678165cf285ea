import ConvTiling.Nest.Basic

/-!
# Levels that lie in one another

The steps of a search write the tile and the unrolling over and over, and each
of them writes a level that **lies in** the one above it: the same stride and
padding, and extents from `1` to those above (`Extents.LiesIn`). That is more
than the check of a tiling asks, which compares neither the paddings nor an
extent with `1` and with the level above at once, and it is what every step can
be shown to keep by looking at the one extent it writes
(`Extents.LiesIn.set`).

A tiling of which each level lies in the one above is **nested**
(`Tiling.Nested`), and so valid as soon as its layer is.
-/

namespace ConvTiling

namespace Extents

/-! ## Updates of an extent -/

@[simp] theorem stride_set (e : Extents) (d : Dim) (n : Int) :
    (e.set d n).stride = e.stride := by
  cases d <;> rfl

@[simp] theorem paddingWidth_set (e : Extents) (d : Dim) (n : Int) :
    (e.set d n).paddingWidth = e.paddingWidth := by
  cases d <;> rfl

@[simp] theorem paddingHeight_set (e : Extents) (d : Dim) (n : Int) :
    (e.set d n).paddingHeight = e.paddingHeight := by
  cases d <;> rfl

/-- Setting an extent to what it is changes nothing. -/
@[simp] theorem set_get (e : Extents) (d : Dim) : e.set d (e.get d) = e := by
  cases d <;> rfl

/-- Validity, read at the extents and the three other numbers. -/
theorem valid_iff_one_le_get {e : Extents} :
    e.Valid ↔ (0 ≤ e.stride ∧ 0 ≤ e.paddingWidth ∧ 0 ≤ e.paddingHeight)
      ∧ ∀ d, 1 ≤ e.get d := by
  rw [valid_iff]
  constructor
  · intro h
    refine ⟨⟨h .stride, h .paddingWidth, h .paddingHeight⟩, fun d => ?_⟩
    have := h d.field
    cases d <;> exact this
  · rintro ⟨⟨hs, hpw, hph⟩, h⟩ f
    cases f
    case stride => exact hs
    case paddingWidth => exact hpw
    case paddingHeight => exact hph
    case inputWidth => exact h .inputWidth
    case inputHeight => exact h .inputHeight
    case inputChannel => exact h .inputChannel
    case kernelWidth => exact h .kernelWidth
    case kernelHeight => exact h .kernelHeight
    case outputWidth => exact h .outputWidth
    case outputHeight => exact h .outputHeight
    case outputChannel => exact h .outputChannel

/-! ## One level in another -/

/-- **A level lies in another one**: it has the stride and the padding of the
upper one, and extents from `1` to those of the upper one. -/
structure LiesIn (lower upper : Extents) : Prop where
  stride : lower.stride = upper.stride
  paddingWidth : lower.paddingWidth = upper.paddingWidth
  paddingHeight : lower.paddingHeight = upper.paddingHeight
  one_le : ∀ d, 1 ≤ lower.get d
  le : ∀ d, lower.get d ≤ upper.get d

variable {e lower upper : Extents}

theorem Valid.stride_nonneg (h : e.Valid) : 0 ≤ e.stride :=
  (valid_iff_one_le_get.1 h).1.1

/-- A valid level lies in itself. -/
theorem Valid.liesIn_self (h : e.Valid) : e.LiesIn e :=
  ⟨rfl, rfl, rfl, h.one_le_get, fun _ => Int.le_refl _⟩

/-- A level that lies in a valid one is valid. -/
theorem LiesIn.valid (h : lower.LiesIn upper) (hupper : upper.Valid) : lower.Valid := by
  obtain ⟨hs, -⟩ := valid_iff_one_le_get.1 hupper
  refine valid_iff_one_le_get.2 ⟨?_, h.one_le⟩
  rwa [h.stride, h.paddingWidth, h.paddingHeight]

/-- **Setting an extent** within the upper level keeps a level in it. -/
theorem LiesIn.set (h : lower.LiesIn upper) {d : Dim} {n : Int} (hn : 1 ≤ n)
    (hle : n ≤ upper.get d) : (lower.set d n).LiesIn upper where
  stride := by rw [stride_set, h.stride]
  paddingWidth := by rw [paddingWidth_set, h.paddingWidth]
  paddingHeight := by rw [paddingHeight_set, h.paddingHeight]
  one_le c := by
    rw [get_set]
    split
    · exact hn
    · exact h.one_le c
  le c := by
    rw [get_set]
    split
    · next hc => exact hc ▸ hle
    · exact h.le c

/-- **Setting an extent to a smaller number** and at least `1`. A length that
is computed and then cut to the upper level is set this way. -/
theorem LiesIn.set_min (h : lower.LiesIn upper) {d : Dim} {n : Int} (hn : 1 ≤ n) :
    (lower.set d (min n (upper.get d))).LiesIn upper := by
  have hone := Int.le_trans (h.one_le d) (h.le d)
  exact h.set (by omega) (by omega)

/-- **Setting the input** to lengths that are computed and then cut to the upper
level. -/
theorem LiesIn.set_input (h : lower.LiesIn upper) {width height : Int} (hw : 1 ≤ width)
    (hh : 1 ≤ height) :
    LiesIn { lower with
      inputWidth := min width upper.inputWidth
      inputHeight := min height upper.inputHeight } upper :=
  (h.set_min (d := .inputWidth) hw).set_min (d := .inputHeight) hh

/-- A larger upper level contains what the smaller one does. -/
theorem LiesIn.mono {upper' : Extents} (h : lower.LiesIn upper)
    (hstride : upper.stride = upper'.stride)
    (hwidth : upper.paddingWidth = upper'.paddingWidth)
    (hheight : upper.paddingHeight = upper'.paddingHeight)
    (hle : ∀ d, upper.get d ≤ upper'.get d) : lower.LiesIn upper' where
  stride := h.stride.trans hstride
  paddingWidth := h.paddingWidth.trans hwidth
  paddingHeight := h.paddingHeight.trans hheight
  one_le := h.one_le
  le d := Int.le_trans (h.le d) (hle d)

end Extents

namespace Tiling

/-- **A tiling of which each level lies in the one above**, in a valid
layer. -/
structure Nested (t : Tiling) : Prop where
  full : t.full.Valid
  tile : t.tile.LiesIn t.full
  unroll : t.unroll.LiesIn t.tile

variable {t : Tiling}

/-- **A nested tiling is valid.** -/
theorem Nested.valid (h : t.Nested) : t.Valid := by
  have htile := h.tile.valid h.full
  refine ⟨h.full, htile, h.unroll.valid htile, ⟨?_, ?_⟩, ?_, ?_⟩
  · exact h.tile.stride.symm
  · exact h.unroll.stride.symm
  · exact Extents.contains_iff.2 h.tile.le
  · exact Extents.contains_iff.2 h.unroll.le

/-- The untiled nest of a valid layer is nested. -/
theorem nested_untiled {full : Extents} (h : full.Valid) : (untiled full).Nested :=
  ⟨h, h.liesIn_self, h.liesIn_self⟩

end Tiling

end ConvTiling
