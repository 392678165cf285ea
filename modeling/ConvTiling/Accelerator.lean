import ConvTiling.Attempt
import ConvTiling.Nest.Axis
import ConvTiling.Text.Decimal

/-!
# Accelerators

An accelerator is an array of processing elements, with rows and columns; a
buffer on the chip for each operand; and two figures of speed. Some extents
of a layer are mapped onto the rows and some onto the columns, and those are
the extents that are computed in parallel. The order in which extents are
mapped onto one side is the order in which they are served.

No extent may be mapped twice, since then two parts of the array would do the
same work. That and the positivity of every number is what makes an
accelerator valid (`Accelerator.Valid`). A figure of speed that is not a
number is not positive.
-/

namespace ConvTiling

/-- A side of the array of processing elements. -/
inductive Side where
  | row
  | column
  deriving DecidableEq, Repr

namespace Side

/-- Both sides, the rows first. -/
def all : List Side := [row, column]

/-- The name of a side. -/
def name : Side → String
  | row => "Row"
  | column => "Column"

end Side

/-- **The machine a layer is scheduled for.** -/
structure Accelerator where
  /-- The cycles of one multiplication. -/
  macCycles : Int := 1
  /-- The clock, in gigahertz. -/
  frequency : Float
  /-- What passes between the chip and the memory off it, in gigabytes a
  second. -/
  bandwidth : Float
  /-- The bytes of the buffer of each operand. -/
  buffers : PerOperand Int
  /-- How many rows of processing elements there are. -/
  rows : Int
  /-- How many columns of processing elements there are. -/
  columns : Int
  /-- The extents that are mapped onto the rows, in order. -/
  rowDims : List Dim := []
  /-- The extents that are mapped onto the columns, in order. -/
  columnDims : List Dim := []

/-- **What is wrong with an accelerator.** -/
inductive AcceleratorFault where
  /-- A side of the array has no elements. -/
  | side (side : Side) (length : Int)
  /-- A buffer holds nothing. -/
  | buffer (operand : Operand) (bytes : Int)
  /-- A multiplication takes no time. -/
  | macCycles
  /-- The clock stands still. -/
  | frequency
  /-- Nothing passes to or from the memory off the chip. -/
  | bandwidth
  /-- An extent is mapped onto the array more than once. -/
  | mappedTwice (dim : Dim)
  deriving DecidableEq, Repr

/-- The report of a fault of an accelerator. -/
def AcceleratorFault.message : AcceleratorFault → String
  | side s n => s!"{s.name} length must be positive, got {Decimal.write n}"
  | buffer o n => s!"{o.name} memory must be positive, got {Decimal.write n}"
  | macCycles => "mac cycles must be positive"
  | frequency => "frequency must be positive"
  | bandwidth => "bandwidth must be positive"
  | mappedTwice d => s!"{d.label} is mapped onto the PE array more than once"

/-- The first entry of a list that occurs again further on. -/
def firstRepeated? {α : Type} [DecidableEq α] : List α → Option α
  | [] => none
  | x :: xs => if x ∈ xs then some x else firstRepeated? xs

/-- A list without a repeated entry is one whose entries differ. -/
theorem firstRepeated?_eq_none_iff {α : Type} [DecidableEq α] {xs : List α} :
    firstRepeated? xs = none ↔ xs.Nodup := by
  induction xs with
  | nil => simp [firstRepeated?]
  | cons x xs ih =>
    rw [firstRepeated?, List.nodup_cons, ← ih]
    split <;> simp_all

namespace Accelerator

/-- An array of eight rows and eight columns, the output channels on the
rows and the input channels on the columns, with buffers of 64 KiB. -/
def simd8x8 : Accelerator where
  frequency := 0.2
  bandwidth := 0.8
  buffers := .uniform 65536
  rows := 8
  columns := 8
  rowDims := [.outputChannel]
  columnDims := [.inputChannel]

/-- How many processing elements a side has. -/
def length (a : Accelerator) : Side → Int
  | .row => a.rows
  | .column => a.columns

/-- The extents that are mapped onto a side, in order. -/
def mapped (a : Accelerator) : Side → List Dim
  | .row => a.rowDims
  | .column => a.columnDims

/-- Every mapped extent, the rows first. -/
def mappedDims (a : Accelerator) : List Dim := a.rowDims ++ a.columnDims

/-- How many processing elements the array has. -/
def elements (a : Accelerator) : Checked Int :=
  Signed.productBy (fun s => .ok (a.length s)) Side.all

/-- **An accelerator one can schedule for.** -/
def Valid (a : Accelerator) : Prop :=
  (0 < a.rows ∧ 0 < a.columns)
    ∧ (0 < a.buffers.input ∧ 0 < a.buffers.weight ∧ 0 < a.buffers.output)
    ∧ 0 < a.macCycles ∧ 0.0 < a.frequency ∧ 0.0 < a.bandwidth
    ∧ a.mappedDims.Nodup

instance (a : Accelerator) : Decidable a.Valid :=
  inferInstanceAs (Decidable ((_ ∧ _) ∧ (_ ∧ _ ∧ _) ∧ _ ∧ _ ∧ _ ∧ _))

/-- Accepts extents of which none is mapped twice. -/
def checkMapping (a : Accelerator) : Except AcceleratorFault Unit :=
  match firstRepeated? a.mappedDims with
  | some d => .error (.mappedTwice d)
  | none => .ok ()

/-- Accepts a valid accelerator, and reports the first fault of another
one. -/
def checkValid (a : Accelerator) : Except AcceleratorFault Unit := do
  require (0 < a.rows) (.side .row a.rows)
  require (0 < a.columns) (.side .column a.columns)
  require (0 < a.buffers.input) (.buffer .input a.buffers.input)
  require (0 < a.buffers.weight) (.buffer .weight a.buffers.weight)
  require (0 < a.buffers.output) (.buffer .output a.buffers.output)
  require (0 < a.macCycles) .macCycles
  require (0.0 < a.frequency) .frequency
  require (0.0 < a.bandwidth) .bandwidth
  a.checkMapping

theorem checkMapping_eq_ok_iff {a : Accelerator} {u : Unit} :
    a.checkMapping = .ok u ↔ a.mappedDims.Nodup := by
  rw [← firstRepeated?_eq_none_iff, checkMapping]
  split <;> simp_all

/-- **The check accepts exactly the valid accelerators.** -/
theorem checkValid_eq_ok_iff {a : Accelerator} {u : Unit} :
    a.checkValid = .ok u ↔ a.Valid := by
  simp only [checkValid, Checked.bind_eq_ok_iff, require_eq_ok_iff,
    checkMapping_eq_ok_iff, exists_const, Valid, and_assoc]

end Accelerator

end ConvTiling
