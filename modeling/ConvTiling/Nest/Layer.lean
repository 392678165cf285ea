import ConvTiling.Attempt
import ConvTiling.Nest.Level

/-!
# Convolution layers

A kernel of length `k` slides over an input of length `n` in steps of the
stride, and the number of places it can take is the length of the output.
Each of the four conversions below goes one way of that, for a whole layer,
whose input is padded on both sides, or for a tile, which is cut out of the
padded input and so knows no padding.

They are total on the numbers: an input shorter than the kernel still gives
one output, an empty output still takes one kernel of input, and a stride
below `1` counts as `1` where it divides. So a layer is judged only once it
is converted: `Layer.extents` refuses a stride of `0` first of all, then
computes the lengths of the output, and judges the level it gets as any
other.
-/

namespace ConvTiling

/-- The length of the output of a layer. -/
def outputLength (input kernel stride padding : Int) : Checked Int :=
  if input < kernel then .ok 1
  else do
    let margin ← Signed.mul 2 padding
    let padded ← Signed.add input margin
    let slack ← Signed.sub padded kernel
    let steps ← Signed.div slack (max stride 1)
    Signed.add steps 1

/-- The length of the input of a layer that gives an output. -/
def inputLength (output kernel stride padding : Int) : Checked Int :=
  if output < 1 then .ok kernel
  else do
    let steps ← Signed.sub output 1
    let slack ← Signed.mul steps stride
    let padded ← Signed.add slack kernel
    let margin ← Signed.mul 2 padding
    Signed.sub padded margin

/-- **The length of the input that a tile of output needs.** -/
def tileInputLength (output kernel stride : Int) : Checked Int :=
  if output < 1 then .ok kernel
  else do
    let steps ← Signed.sub output 1
    let slack ← Signed.mul steps stride
    Signed.add slack kernel

/-- **The length of the output that a tile of input gives.** -/
def tileOutputLength (input kernel stride : Int) : Checked Int :=
  if input < kernel then .ok 1
  else do
    let slack ← Signed.sub input kernel
    let steps ← Signed.div slack (max stride 1)
    Signed.add steps 1

/-- **One convolution layer.** -/
structure Layer where
  inputWidth : Int
  inputHeight : Int
  inputChannel : Int
  kernelWidth : Int
  kernelHeight : Int
  outputChannel : Int
  stride : Int := 1
  paddingWidth : Int := 0
  paddingHeight : Int := 0
  deriving DecidableEq, Repr

namespace Layer

/-- The width of the output map. -/
def outputWidth (l : Layer) : Checked Int :=
  outputLength l.inputWidth l.kernelWidth l.stride l.paddingWidth

/-- The height of the output map. -/
def outputHeight (l : Layer) : Checked Int :=
  outputLength l.inputHeight l.kernelHeight l.stride l.paddingHeight

/-- The level that a layer is, with an output map of a given size. -/
def level (l : Layer) (outputWidth outputHeight : Int) : Extents where
  stride := l.stride
  paddingWidth := l.paddingWidth
  paddingHeight := l.paddingHeight
  inputWidth := l.inputWidth
  inputHeight := l.inputHeight
  inputChannel := l.inputChannel
  kernelWidth := l.kernelWidth
  kernelHeight := l.kernelHeight
  outputWidth := outputWidth
  outputHeight := outputHeight
  outputChannel := l.outputChannel

/-- **The whole layer as a level.** It is refused for a stride below `1`,
before anything is computed, and for a number below its least value. -/
def extents (l : Layer) : Attempt NestError Extents := do
  if l.stride ≤ 0 then Attempt.refuse (.belowLeast .stride l.stride)
  else
    let width ← Attempt.compute l.outputWidth
    let height ← Attempt.compute l.outputHeight
    let e := l.level width height
    Attempt.accept id e.checkValid
    return e

/-- A layer has a level exactly when its stride is positive, its output has
a size, and the level is valid. -/
theorem extents_eq_ok_iff {l : Layer} {e : Extents} :
    l.extents = .ok e ↔
      0 < l.stride ∧ ∃ w h, l.outputWidth = .ok w ∧ l.outputHeight = .ok h
        ∧ e = l.level w h ∧ e.Valid := by
  unfold extents
  split
  · next hs => simp [Int.not_lt.2 hs]
  · next hs =>
    simp only [Checked.bind_eq_ok_iff, Attempt.compute_eq_ok_iff,
      Attempt.accept_eq_ok_iff, Extents.checkValid_eq_ok_iff, Checked.pure_eq_ok_iff,
      Int.not_le.1 hs, true_and]
    constructor
    · rintro ⟨w, hw, h, hh, -, hv, rfl⟩
      exact ⟨w, h, hw, hh, rfl, hv⟩
    · rintro ⟨w, h, hw, hh, rfl, hv⟩
      exact ⟨w, hw, h, hh, (), hv, rfl⟩

end Layer

end ConvTiling
