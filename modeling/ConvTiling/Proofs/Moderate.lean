import ConvTiling.Proofs.Covering
import ConvTiling.Proofs.Lengths
import ConvTiling.Proofs.Nesting

/-!
# Layers of moderate size

The largest numbers that a search computes are the bytes moved off the chip,
and the largest of those is one operand passing as often as there are places
along the others: a product over the kernel, both channels and one of the two
maps. A layer is **moderate** when sixteen times that product is a word, for
either map, and when the windows of its whole output are words
(`Extents.Moderate`). The sixteen are the four bytes of an element, and four
for a sum of three operands of which one may pass twice.

Of a moderate layer every product over a list of its extents that names none
twice, and mixes the two maps nowhere, is a word with room to spare
(`Extents.Moderate.volume_le`). The same goes for every level that lies in it.

Stride and padding are not bounded. They enter a search through the windows
alone, and the windows of a layer are words because its output has a length
(`Layer.moderate_of_extents`).
-/

namespace ConvTiling

/-- The extents whose product bounds what is moved of the input. -/
def inputSide : List Dim :=
  [.kernelWidth, .kernelHeight, .inputChannel, .outputChannel, .inputWidth, .inputHeight]

/-- The extents whose product bounds what is moved of the weights and of the
output. -/
def outputSide : List Dim :=
  [.kernelWidth, .kernelHeight, .inputChannel, .outputChannel, .outputWidth,
    .outputHeight]

namespace Extents

/-- **A layer of moderate size.** -/
structure Moderate (e : Extents) : Prop where
  valid : e.Valid
  inputSide : 16 * e.volume inputSide ≤ 9223372036854775807
  outputSide : 16 * e.volume outputSide ≤ 9223372036854775807
  width : Signed.Fits (window e.outputWidth e.kernelWidth e.stride)
  height : Signed.Fits (window e.outputHeight e.kernelHeight e.stride)

namespace Moderate

variable {e t : Extents}

/-- **Products over extents of one side are words**, sixteen times over. -/
theorem volume_le (h : e.Moderate) (ds : List Dim) (hds : ds.Nodup)
    (hside : ds ⊆ ConvTiling.inputSide ∨ ds ⊆ ConvTiling.outputSide) :
    16 * e.volume ds ≤ 9223372036854775807 := by
  have hone := h.valid.one_le_get
  obtain hsub | hsub := hside
  · have := volume_le_of_subset hone hds hsub
    have := h.inputSide
    omega
  · have := volume_le_of_subset hone hds hsub
    have := h.outputSide
    omega

/-- Products over extents of one side of a level in the layer are words,
sixteen times over. -/
theorem volume_le_of_liesIn (h : e.Moderate) (ht : t.LiesIn e) (ds : List Dim)
    (hds : ds.Nodup) (hside : ds ⊆ ConvTiling.inputSide ∨ ds ⊆ ConvTiling.outputSide) :
    16 * t.volume ds ≤ 9223372036854775807 := by
  have := h.volume_le ds hds hside
  have := volume_le_volume ht.one_le ht.le ds
  omega

/-- A product over extents of one side of a level in the layer is a word. -/
theorem fits_volume (h : e.Moderate) (ht : t.LiesIn e) {ds : List Dim} (hds : ds.Nodup)
    (hside : ds ⊆ ConvTiling.inputSide ∨ ds ⊆ ConvTiling.outputSide) :
    Signed.Fits (t.volume ds) := by
  have hone := one_le_volume ht.one_le ds
  have hle := h.volume_le_of_liesIn ht ds hds hside
  constructor <;> omega

/-- Every extent of a level in the layer is a word, sixteen times over. -/
theorem get_le (h : e.Moderate) (ht : t.LiesIn e) (d : Dim) :
    16 * t.get d ≤ 9223372036854775807 := by
  have hside : [d] ⊆ ConvTiling.inputSide ∨ [d] ⊆ ConvTiling.outputSide := by
    cases d <;> decide
  have := h.volume_le_of_liesIn ht [d] (by simp) hside
  rwa [volume_cons, volume_nil, Int.mul_one] at this

theorem fits_get (h : e.Moderate) (ht : t.LiesIn e) (d : Dim) :
    Signed.Fits (t.get d) := by
  have hone := ht.one_le d
  have hle := h.get_le ht d
  constructor <;> omega

/-- The sum of two extents of levels in the layer is a word. -/
theorem fits_add (h : e.Moderate) {t' : Extents} (ht : t.LiesIn e) (ht' : t'.LiesIn e)
    (d : Dim) : Signed.Fits (t.get d + t'.get d) := by
  have hone := ht.one_le d
  have hle := h.get_le ht d
  have hone' := ht'.one_le d
  have hle' := h.get_le ht' d
  constructor <;> omega

/-- **The bytes of an operand** of a level in the layer are a word. -/
theorem bytes_eq_ok (h : e.Moderate) (ht : t.LiesIn e) (o : Operand) :
    t.bytes o = .ok (t.volume o.dims * 4) := by
  have hside : o.dims ⊆ ConvTiling.inputSide ∨ o.dims ⊆ ConvTiling.outputSide := by
    cases o <;> decide
  have hle := h.volume_le_of_liesIn ht o.dims (by cases o <;> decide) hside
  have hone := one_le_volume ht.one_le o.dims
  exact Extents.bytes_eq_ok ht.one_le ⟨by omega, by omega⟩

/-- **The input under a width of output** of the layer is a word. -/
theorem tileInputLength_width (h : e.Moderate) {output kernel : Int} (ho : 1 ≤ output)
    (hole : output ≤ e.outputWidth) (hk : 1 ≤ kernel) (hkle : kernel ≤ e.kernelWidth) :
    tileInputLength output kernel e.stride = .ok (window output kernel e.stride) :=
  tileInputLength_eq_ok_of_le h.valid.stride_nonneg ho hole hk hkle
    (h.fits_get h.valid.liesIn_self .outputWidth) h.width

/-- The input under a height of output of the layer is a word. -/
theorem tileInputLength_height (h : e.Moderate) {output kernel : Int} (ho : 1 ≤ output)
    (hole : output ≤ e.outputHeight) (hk : 1 ≤ kernel) (hkle : kernel ≤ e.kernelHeight) :
    tileInputLength output kernel e.stride = .ok (window output kernel e.stride) :=
  tileInputLength_eq_ok_of_le h.valid.stride_nonneg ho hole hk hkle
    (h.fits_get h.valid.liesIn_self .outputHeight) h.height

end Moderate

end Extents

open Extents

/-- **A layer whose largest product is a word is moderate**, whatever its
stride and padding: its output was computed from the padded input. -/
theorem Layer.moderate_of_extents {l : Layer} {e : Extents} (run : l.extents = .ok e)
    (hsize : 16 * e.kernelWidth * e.kernelHeight * e.inputChannel * e.outputChannel
      * max (e.inputWidth * e.inputHeight) (e.outputWidth * e.outputHeight)
        ≤ 9223372036854775807) : e.Moderate := by
  obtain ⟨hstride, w, h, hw, hh, rfl, hvalid⟩ := Layer.extents_eq_ok_iff.1 run
  generalize hlevel : l.level w h = e at *
  have hone := hvalid.one_le_get
  -- either side is the kernel and the channels times one of the maps, and the
  -- larger map bounds both
  have hbase := one_le_volume hone
    [.kernelWidth, .kernelHeight, .inputChannel, .outputChannel]
  have hin := Int.mul_le_mul_of_nonneg_left
    (Int.le_max_left (e.inputWidth * e.inputHeight) (e.outputWidth * e.outputHeight))
    (Int.le_of_lt hbase)
  have hout := Int.mul_le_mul_of_nonneg_left
    (Int.le_max_right (e.inputWidth * e.inputHeight) (e.outputWidth * e.outputHeight))
    (Int.le_of_lt hbase)
  simp only [volume_cons, volume_nil, Extents.get, field, Dim.field] at hbase hin hout
  have hinput : 16 * e.volume inputSide ≤ 9223372036854775807 := by
    simp only [inputSide, volume_cons, volume_nil, Extents.get, field, Dim.field]
    linarith
  have houtput : 16 * e.volume outputSide ≤ 9223372036854775807 := by
    simp only [outputSide, volume_cons, volume_nil, Extents.get, field, Dim.field]
    linarith
  have hkernel : ∀ d, [d] ⊆ inputSide → Signed.Fits (e.get d) := by
    intro d hd
    have := volume_le_of_subset hone (by simp) hd
    rw [volume_cons, volume_nil, Int.mul_one] at this
    have := hone d
    constructor <;> omega
  obtain ⟨⟨-, hpw, hph⟩, -⟩ := valid_iff_one_le_get.1 hvalid
  subst hlevel
  refine ⟨hvalid, hinput, houtput, ?_, ?_⟩
  · exact fits_window_of_outputLength (hone .kernelWidth) (hkernel .kernelWidth (by decide))
      hstride hpw hw
  · exact fits_window_of_outputLength (hone .kernelHeight)
      (hkernel .kernelHeight (by decide)) hstride hph hh

end ConvTiling
