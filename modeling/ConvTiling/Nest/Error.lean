import ConvTiling.Nest.Extents
import ConvTiling.Text.Decimal
import ConvTiling.Text.Quoted

/-!
# What can be wrong with a loop nest

A nest is rejected for a broken rule of its own – a number that was never
given, a tile larger than its layer, an order in which two loops take one
place – or because a text does not describe one. Every such reason is a
constructor of `NestError`, carrying what the report names, and the wording
is in `NestError.message` alone.
-/

namespace ConvTiling

/-- What a text is read as. -/
inductive Document where
  /-- One level of a nest. -/
  | level
  /-- The tile and the unrolling of a nest, one after the other. -/
  | tiling
  /-- One loop order. -/
  | order
  /-- The two loop orders of a nest, one after the other. -/
  | orders
  deriving DecidableEq, Repr

/-- The name of a document. -/
def Document.name : Document → String
  | level => "variables"
  | tiling => "tiling dump"
  | order => "structure"
  | orders => "structure dump"

/-- **Why a text describes no nest.** -/
inductive TextFault where
  /-- The text ends before the label of a field. -/
  | missingLabel (field : Field)
  /-- The text ends between the label of a field and its value. -/
  | missingValue (field : Field)
  /-- The word in the place of a value is not a signed word in decimal. -/
  | notAnInteger (field : Field) (word : String)
  /-- The text ends before the label of a position. -/
  | missingPosition (expected : Position)
  /-- The positions do not come from the innermost outward. -/
  | unexpectedPosition (expected found : Position)
  /-- The text ends between the label of a position and its axis. -/
  | missingAxis (position : Position)
  /-- The text goes on after the document. -/
  | trailing (document : Document)
  deriving DecidableEq, Repr

/-- The report of a fault in a text. -/
def TextFault.message : TextFault → String
  | missingLabel f => s!"missing label {f.label}"
  | missingValue f => s!"missing value for {f.label}"
  | notAnInteger f word => s!"{f.label} {Text.quoted word} is not an integer"
  | missingPosition p => s!"missing {p.label} label"
  | unexpectedPosition p q => s!"expected {p.label}, found {q.label}"
  | missingAxis p => s!"missing axis for {p.label}"
  | trailing d => s!"trailing tokens after {d.name}"

/-- **Why a loop nest is rejected.** -/
inductive NestError where
  /-- A number is below the least value of its field, most often because it
  was never given. -/
  | belowLeast (field : Field) (value : Int)
  /-- An extent of a level is larger than that of the level above it. -/
  | notContained (dim : Dim) (upper lower : Int)
  /-- The three levels do not have one stride. -/
  | strideMismatch (full tile unroll : Int)
  /-- A position holds an axis that is bound to another position. -/
  | positionConflict (position : Position) (axis : Axis) (back : Position)
  /-- An axis is bound to a position that holds another axis. -/
  | axisConflict (axis : Axis) (position : Position) (back : Axis)
  /-- There is no axis with this ordinal. -/
  | noAxis (ordinal : Nat)
  /-- There is no position with this ordinal. -/
  | noPosition (ordinal : Nat)
  /-- A word is not the label it should be. -/
  | unknownLabel (label : String)
  /-- A text does not describe a nest. -/
  | malformed (fault : TextFault)
  deriving DecidableEq, Repr

/-- The report of a rejected nest. -/
def NestError.message : NestError → String
  | belowLeast f n => s!"{f.name} is not valid: {Decimal.write n}"
  | notContained d upper lower =>
    s!"containment violated on {d.label}: upper {Decimal.write upper} < lower {Decimal.write lower}"
  | strideMismatch full tile unroll =>
    s!"stride mismatch across levels: off {Decimal.write full}, on {Decimal.write tile}, parallel {Decimal.write unroll}"
  | positionConflict p a back =>
    s!"position {p.name} is bound to {a.name} but {a.name} is bound to {back.name}"
  | axisConflict a p back =>
    s!"axis {a.name} is bound to {p.name} but {p.name} holds {back.name}"
  | noAxis n => s!"axis ordinal {Decimal.write n} is out of range"
  | noPosition n => s!"position ordinal {Decimal.write n} is out of range"
  | unknownLabel label => s!"unknown label {Text.quoted label}"
  | malformed fault => s!"malformed dump: {fault.message}"

/-- The axis with a given ordinal. -/
def Axis.ofOrdinal (n : Nat) : Except NestError Axis :=
  match ofOrdinal? n with
  | some a => .ok a
  | none => .error (.noAxis n)

/-- The position with a given ordinal. -/
def Position.ofOrdinal (n : Nat) : Except NestError Position :=
  match ofOrdinal? n with
  | some p => .ok p
  | none => .error (.noPosition n)

end ConvTiling
