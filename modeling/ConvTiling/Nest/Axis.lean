/-!
# The vocabulary of a loop nest

A convolution is computed by a nest of loops over six extents: the width and
height of the kernel, the width and height of the output map, the input
channels and the output channels. The two kernel extents are tiled and
ordered together, and so are the two output extents, so the nest has four
**axes** (`Axis`), and the axes take four **positions** (`Position`) from the
innermost loop to the outermost one. The concrete extents are the **dims**
(`Dim`); they include the width and height of the input map, which no loop
runs over but which a tile needs memory for.

Three **operands** stream through the nest (`Operand`): the input map, the
weights and the output map. Each has a buffer of its own on the chip, and a
dataflow is named for the operand that stays in its buffer while the others
stream past it.

Axes, positions and operands index small records – what each axis is bound
to, what each buffer holds – so each comes with the record type over it
(`PerAxis`, `PerPosition`, `PerOperand`), read by `get` and updated by `set`.
A record rather than a function, so that two of them can be compared.

The labels are those of the persisted text form.
-/

namespace ConvTiling

/-! ## Dims -/

/-- **A concrete extent of a convolution.** -/
inductive Dim where
  | kernelWidth
  | kernelHeight
  | inputChannel
  | outputWidth
  | outputHeight
  | outputChannel
  | inputWidth
  | inputHeight
  deriving DecidableEq, Repr

namespace Dim

/-- Every dim, in the order in which two levels of a nest are compared. -/
def all : List Dim :=
  [kernelWidth, kernelHeight, inputChannel, outputWidth, outputHeight,
    outputChannel, inputWidth, inputHeight]

theorem mem_all (d : Dim) : d ∈ all := by cases d <;> simp [all]

/-- The two-letter label of a dim. -/
def label : Dim → String
  | kernelWidth => "KW"
  | kernelHeight => "KH"
  | inputChannel => "IC"
  | outputWidth => "OW"
  | outputHeight => "OH"
  | outputChannel => "OC"
  | inputWidth => "IW"
  | inputHeight => "IH"

/-- The dim with a given label, in exactly that case. -/
def ofLabel? (text : String) : Option Dim :=
  all.find? fun d => d.label = text

@[simp] theorem ofLabel?_label (d : Dim) : ofLabel? d.label = some d := by
  cases d <;> decide

end Dim

/-! ## Axes -/

/-- **A loop of the nest.** -/
inductive Axis where
  /-- The width and the height of the kernel. -/
  | kernelMap
  | inputChannel
  /-- The width and the height of the output map. -/
  | outputMap
  | outputChannel
  deriving DecidableEq, Repr

namespace Axis

/-- Every axis, in declaration order. -/
def all : List Axis := [kernelMap, inputChannel, outputMap, outputChannel]

theorem mem_all (a : Axis) : a ∈ all := by cases a <;> simp [all]

/-- The place of an axis in `Axis.all`. -/
def ordinal : Axis → Nat
  | kernelMap => 0
  | inputChannel => 1
  | outputMap => 2
  | outputChannel => 3

/-- The axis at a place, if there is one. -/
def ofOrdinal? (n : Nat) : Option Axis := all[n]?

@[simp] theorem ofOrdinal?_ordinal (a : Axis) : ofOrdinal? a.ordinal = some a := by
  cases a <;> rfl

/-- The label of an axis. -/
def label : Axis → String
  | kernelMap => "Kernel_Map"
  | inputChannel => "Input_Channel"
  | outputMap => "Output_Map"
  | outputChannel => "Output_Channel"

/-- The name by which an axis is reported in a conflict. -/
def name : Axis → String
  | kernelMap => "KernelMap"
  | inputChannel => "InputChannel"
  | outputMap => "OutputMap"
  | outputChannel => "OutputChannel"

/-- **The extents that make up an axis**: two for the maps, one for the
channels. -/
def dims : Axis → List Dim
  | kernelMap => [.kernelWidth, .kernelHeight]
  | inputChannel => [.inputChannel]
  | outputMap => [.outputWidth, .outputHeight]
  | outputChannel => [.outputChannel]

end Axis

/-- A value for each axis. -/
structure PerAxis (α : Type) where
  kernelMap : α
  inputChannel : α
  outputMap : α
  outputChannel : α
  deriving DecidableEq, Repr

namespace PerAxis

variable {α : Type}

/-- The same value for every axis. -/
def uniform (x : α) : PerAxis α := ⟨x, x, x, x⟩

/-- The value of an axis. -/
def get (r : PerAxis α) : Axis → α
  | .kernelMap => r.kernelMap
  | .inputChannel => r.inputChannel
  | .outputMap => r.outputMap
  | .outputChannel => r.outputChannel

/-- Gives an axis a new value. -/
def set (r : PerAxis α) : Axis → α → PerAxis α
  | .kernelMap, x => { r with kernelMap := x }
  | .inputChannel, x => { r with inputChannel := x }
  | .outputMap, x => { r with outputMap := x }
  | .outputChannel, x => { r with outputChannel := x }

@[simp] theorem get_uniform (x : α) (a : Axis) : (uniform x).get a = x := by
  cases a <;> rfl

@[simp] theorem get_set (r : PerAxis α) (a b : Axis) (x : α) :
    (r.set a x).get b = if a = b then x else r.get b := by
  cases a <;> cases b <;> rfl

/-- A record is determined by its values. -/
theorem ext_get {r s : PerAxis α} (h : ∀ a, r.get a = s.get a) : r = s := by
  cases r; cases s
  have h0 := h .kernelMap
  have h1 := h .inputChannel
  have h2 := h .outputMap
  have h3 := h .outputChannel
  simp_all [get]

end PerAxis

/-! ## Positions -/

/-- **A place in the nest**, from the innermost loop outward. -/
inductive Position where
  | innermost
  | secondInnermost
  | thirdInnermost
  | outermost
  deriving DecidableEq, Repr

namespace Position

/-- Every position, from the innermost outward. -/
def all : List Position :=
  [innermost, secondInnermost, thirdInnermost, outermost]

theorem mem_all (p : Position) : p ∈ all := by cases p <;> simp [all]

/-- How many positions lie further inward. -/
def ordinal : Position → Nat
  | innermost => 0
  | secondInnermost => 1
  | thirdInnermost => 2
  | outermost => 3

/-- The position with a given number of positions further inward, if there
is one. -/
def ofOrdinal? (n : Nat) : Option Position := all[n]?

@[simp] theorem ofOrdinal?_ordinal (p : Position) :
    ofOrdinal? p.ordinal = some p := by
  cases p <;> rfl

/-- The next position inward. The innermost one has none. -/
def inward? : Position → Option Position
  | innermost => none
  | secondInnermost => some innermost
  | thirdInnermost => some secondInnermost
  | outermost => some thirdInnermost

/-- **The way inward**: the pairs of neighbouring positions that lead from
here to the innermost position, each pair with its outer one first. -/
def wayInward : Position → List (Position × Position)
  | innermost => []
  | secondInnermost => [(secondInnermost, innermost)]
  | thirdInnermost =>
    [(thirdInnermost, secondInnermost), (secondInnermost, innermost)]
  | outermost =>
    [(outermost, thirdInnermost), (thirdInnermost, secondInnermost),
      (secondInnermost, innermost)]

/-- The way inward goes on from the next position, where there is one. -/
theorem wayInward_eq_cons {p q : Position} (h : p.inward? = some q) :
    p.wayInward = (p, q) :: q.wayInward := by
  cases p <;> cases h <;> rfl

/-- The label of a position, without a colon. -/
def label : Position → String
  | innermost => "Inner_Most"
  | secondInnermost => "Second_Inner_Most"
  | thirdInnermost => "Third_Inner_Most"
  | outermost => "Outer_Most"

/-- The name by which a position is reported in a conflict. -/
def name : Position → String
  | innermost => "InnerMost"
  | secondInnermost => "SecondInnerMost"
  | thirdInnermost => "ThirdInnerMost"
  | outermost => "OuterMost"

end Position

/-- A value for each position. -/
structure PerPosition (α : Type) where
  innermost : α
  secondInnermost : α
  thirdInnermost : α
  outermost : α
  deriving DecidableEq, Repr

namespace PerPosition

variable {α : Type}

/-- The value at a position. -/
def get (r : PerPosition α) : Position → α
  | .innermost => r.innermost
  | .secondInnermost => r.secondInnermost
  | .thirdInnermost => r.thirdInnermost
  | .outermost => r.outermost

/-- Gives a position a new value. -/
def set (r : PerPosition α) : Position → α → PerPosition α
  | .innermost, x => { r with innermost := x }
  | .secondInnermost, x => { r with secondInnermost := x }
  | .thirdInnermost, x => { r with thirdInnermost := x }
  | .outermost, x => { r with outermost := x }

/-- The values from the innermost position outward. -/
def toList (r : PerPosition α) : List α :=
  [r.innermost, r.secondInnermost, r.thirdInnermost, r.outermost]

@[simp] theorem get_set (r : PerPosition α) (p q : Position) (x : α) :
    (r.set p x).get q = if p = q then x else r.get q := by
  cases p <;> cases q <;> rfl

/-- The list holds the value of each position, in order. -/
theorem toList_eq_map_get (r : PerPosition α) :
    r.toList = Position.all.map r.get := rfl

/-- A record is determined by its values. -/
theorem ext_get {r s : PerPosition α} (h : ∀ p, r.get p = s.get p) : r = s := by
  cases r; cases s
  have h0 := h .innermost
  have h1 := h .secondInnermost
  have h2 := h .thirdInnermost
  have h3 := h .outermost
  simp_all [get]

end PerPosition

/-! ## Operands -/

/-- **What streams through the nest.** As a dataflow, an operand is the one
that stays in its buffer. -/
inductive Operand where
  | input
  | weight
  | output
  deriving DecidableEq, Repr

namespace Operand

/-- Every operand, in the order in which their buffers are listed. -/
def all : List Operand := [input, weight, output]

theorem mem_all (o : Operand) : o ∈ all := by cases o <;> simp [all]

/-- The name of an operand. -/
def name : Operand → String
  | input => "input"
  | weight => "weight"
  | output => "output"

/-- The name of the dataflow that keeps an operand in its buffer. -/
def dataflowName (o : Operand) : String := o.name ++ " stationary"

end Operand

/-- A value for each operand. -/
structure PerOperand (α : Type) where
  input : α
  weight : α
  output : α
  deriving DecidableEq, Repr

namespace PerOperand

variable {α : Type}

/-- The same value for every operand. -/
def uniform (x : α) : PerOperand α := ⟨x, x, x⟩

/-- The value of an operand. -/
def get (r : PerOperand α) : Operand → α
  | .input => r.input
  | .weight => r.weight
  | .output => r.output

/-- Gives an operand a new value. -/
def set (r : PerOperand α) : Operand → α → PerOperand α
  | .input, x => { r with input := x }
  | .weight, x => { r with weight := x }
  | .output, x => { r with output := x }

@[simp] theorem get_uniform (x : α) (o : Operand) : (uniform x).get o = x := by
  cases o <;> rfl

@[simp] theorem get_set (r : PerOperand α) (o q : Operand) (x : α) :
    (r.set o x).get q = if o = q then x else r.get q := by
  cases o <;> cases q <;> rfl

/-- A record is determined by its values. -/
theorem ext_get {r s : PerOperand α} (h : ∀ o, r.get o = s.get o) : r = s := by
  cases r; cases s
  have h0 := h .input
  have h1 := h .weight
  have h2 := h .output
  simp_all [get]

end PerOperand

end ConvTiling
