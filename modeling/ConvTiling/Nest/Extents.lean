import ConvTiling.Arith.Checked
import ConvTiling.Nest.Axis

/-!
# One level of a loop nest

The same eleven numbers describe the whole layer, the tile of it that is on
the chip at one time, and the part of that tile that is computed in one
cycle: the eight extents, the stride of the kernel and the padding of the
input map. `Extents` is that record.

A number that was never given is `-1`, which is no extent. So a level can be
written down before it is complete, and what makes it a level one can compute
with is a condition on it (`ConvTiling.Nest.Level`), not part of its type.

The numbers are reached by name in two ways. A `Field` is any of the eleven,
in the order of the persisted form; a `Dim` is one of the eight extents, and
its value is that of its field. What an update does is said once, for fields
(`Extents.field_setField`), and follows for dims (`Extents.get_set`).
-/

namespace ConvTiling

/-- **The name of a number of a level.** -/
inductive Field where
  | stride
  | inputWidth
  | inputHeight
  | inputChannel
  | paddingWidth
  | paddingHeight
  | kernelWidth
  | kernelHeight
  | outputWidth
  | outputHeight
  | outputChannel
  deriving DecidableEq, Repr

namespace Field

/-- Every field, in the order of the persisted form. -/
def all : List Field :=
  [stride, inputWidth, inputHeight, inputChannel, paddingWidth, paddingHeight,
    kernelWidth, kernelHeight, outputWidth, outputHeight, outputChannel]

theorem mem_all (f : Field) : f ∈ all := by cases f <;> simp [all]

/-- The name of a field, without a colon. -/
def name : Field → String
  | stride => "Stride"
  | inputWidth => "Input_width"
  | inputHeight => "Input_height"
  | inputChannel => "Input_channel"
  | paddingWidth => "Padding_width"
  | paddingHeight => "Padding_height"
  | kernelWidth => "Kernel_width"
  | kernelHeight => "Kernel_height"
  | outputWidth => "Output_width"
  | outputHeight => "Output_height"
  | outputChannel => "Output_channel"

/-- The label of a field in the persisted form. -/
def label (f : Field) : String := f.name ++ ":"

/-- **The least value of a field.** A map may go unpadded, and a stride of
`0` can be written down, but an extent is at least `1`. -/
def least : Field → Int
  | stride | paddingWidth | paddingHeight => 0
  | _ => 1

end Field

/-- The field that holds an extent. -/
def Dim.field : Dim → Field
  | .kernelWidth => .kernelWidth
  | .kernelHeight => .kernelHeight
  | .inputChannel => .inputChannel
  | .outputWidth => .outputWidth
  | .outputHeight => .outputHeight
  | .outputChannel => .outputChannel
  | .inputWidth => .inputWidth
  | .inputHeight => .inputHeight

theorem Dim.field_inj {d e : Dim} : d.field = e.field ↔ d = e := by
  cases d <;> cases e <;> simp [Dim.field]

/-- The extents whose product is the number of elements of an operand. -/
def Operand.dims : Operand → List Dim
  | .input => [.inputWidth, .inputHeight, .inputChannel]
  | .weight => [.kernelWidth, .kernelHeight, .inputChannel, .outputChannel]
  | .output => [.outputWidth, .outputHeight, .outputChannel]

/-- **One level of a loop nest.** A number that was not given is `-1`. -/
structure Extents where
  stride : Int := -1
  paddingWidth : Int := -1
  paddingHeight : Int := -1
  inputWidth : Int := -1
  inputHeight : Int := -1
  inputChannel : Int := -1
  kernelWidth : Int := -1
  kernelHeight : Int := -1
  outputWidth : Int := -1
  outputHeight : Int := -1
  outputChannel : Int := -1
  deriving DecidableEq, Repr

namespace Extents

/-! ## Reading and updating -/

/-- The number of a given name. -/
def field (e : Extents) : Field → Int
  | .stride => e.stride
  | .inputWidth => e.inputWidth
  | .inputHeight => e.inputHeight
  | .inputChannel => e.inputChannel
  | .paddingWidth => e.paddingWidth
  | .paddingHeight => e.paddingHeight
  | .kernelWidth => e.kernelWidth
  | .kernelHeight => e.kernelHeight
  | .outputWidth => e.outputWidth
  | .outputHeight => e.outputHeight
  | .outputChannel => e.outputChannel

/-- Gives the number of a given name a new value. -/
def setField (e : Extents) : Field → Int → Extents
  | .stride, n => { e with stride := n }
  | .inputWidth, n => { e with inputWidth := n }
  | .inputHeight, n => { e with inputHeight := n }
  | .inputChannel, n => { e with inputChannel := n }
  | .paddingWidth, n => { e with paddingWidth := n }
  | .paddingHeight, n => { e with paddingHeight := n }
  | .kernelWidth, n => { e with kernelWidth := n }
  | .kernelHeight, n => { e with kernelHeight := n }
  | .outputWidth, n => { e with outputWidth := n }
  | .outputHeight, n => { e with outputHeight := n }
  | .outputChannel, n => { e with outputChannel := n }

/-- The value of an extent. -/
def get (e : Extents) (d : Dim) : Int := e.field d.field

/-- Gives an extent a new value. -/
def set (e : Extents) (d : Dim) (n : Int) : Extents := e.setField d.field n

/-- **An update changes the field it names** and no other. -/
@[simp] theorem field_setField (e : Extents) (f g : Field) (n : Int) :
    (e.setField f n).field g = if f = g then n else e.field g := by
  cases f <;> cases g <;> rfl

/-- An update changes the extent it names and no other. -/
@[simp] theorem get_set (e : Extents) (d c : Dim) (n : Int) :
    (e.set d n).get c = if d = c then n else e.get c := by
  simp [get, set, Dim.field_inj]

/-- A level is determined by its fields. -/
theorem ext_field {e e' : Extents} (h : ∀ f, e.field f = e'.field f) :
    e = e' := by
  have h0 := h .stride
  have h1 := h .inputWidth
  have h2 := h .inputHeight
  have h3 := h .inputChannel
  have h4 := h .paddingWidth
  have h5 := h .paddingHeight
  have h6 := h .kernelWidth
  have h7 := h .kernelHeight
  have h8 := h .outputWidth
  have h9 := h .outputHeight
  have h10 := h .outputChannel
  cases e
  cases e'
  simp_all [field]

/-- **The level of a single multiplication**: every extent is `1`, and the
stride and padding are those given. It is where an unrolling starts from. -/
def unit (stride paddingWidth paddingHeight : Int) : Extents where
  stride := stride
  paddingWidth := paddingWidth
  paddingHeight := paddingHeight
  inputWidth := 1
  inputHeight := 1
  inputChannel := 1
  kernelWidth := 1
  kernelHeight := 1
  outputWidth := 1
  outputHeight := 1
  outputChannel := 1

@[simp] theorem get_unit (s pw ph : Int) (d : Dim) : (unit s pw ph).get d = 1 := by
  cases d <;> rfl

/-- **Exchanges width and height** of the input map and of the output map.
The kernel and the padding keep theirs. -/
def turned (e : Extents) : Extents :=
  { e with
    inputWidth := e.inputHeight
    inputHeight := e.inputWidth
    outputWidth := e.outputHeight
    outputHeight := e.outputWidth }

/-! ## Sizes

A size is a product of extents, from left to right as listed. -/

/-- The product of the extents along an axis. -/
def extent (e : Extents) (a : Axis) : Checked Int :=
  Signed.productBy (fun d => .ok (e.get d)) a.dims

/-- How many elements of an operand a level holds. -/
def size (e : Extents) (o : Operand) : Checked Int :=
  Signed.productBy (fun d => .ok (e.get d)) o.dims

/-- The bytes of one element: a number of single precision. -/
def elementBytes : Int := 4

/-- How many bytes of an operand a level holds. -/
def bytes (e : Extents) (o : Operand) : Checked Int := do
  let n ← e.size o
  Signed.mul n elementBytes

/-- **The multiplications of a level**: the product over the six extents
that loops run over. -/
def multiplications (e : Extents) : Checked Int :=
  Signed.productBy (fun d => .ok (e.get d))
    [.kernelWidth, .kernelHeight, .inputChannel, .outputWidth, .outputHeight,
      .outputChannel]

end Extents

end ConvTiling
