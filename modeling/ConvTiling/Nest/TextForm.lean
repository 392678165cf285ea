import ConvTiling.Nest.Basic
import ConvTiling.Text.Words

/-!
# The persisted form of a loop nest

A scheduled nest is kept as two texts, so that it can be used again without
being searched for. One holds the tile and the unrolling, a line for each
field; the other holds the two loop orders, a line for each position. The
whole layer is not kept: whoever loads a nest knows the layer it is for.

The texts are read word by word. In the first one every other word is a
value, and the words before the values are not looked at, only counted; each
value must be a signed word in decimal, and at least `0`. In the second one
the labels count: the positions must come from the innermost outward, in any
case and with a colon or without one, each followed by the label of an axis
in any case, and the order must bind every axis once.

Whatever reads a part of a text gives back the words after it, so that two
parts are read one after the other, and a document is a text of which nothing
is left.
-/

namespace ConvTiling

/-! ## Labels -/

/-- The letters of a label, without regard to ASCII case. -/
def caseless (label : List Char) : List Char := label.map Char.toLower

/-- A label without the colon at its end, if there is one. Only one colon is
taken off. -/
def withoutColon (label : List Char) : List Char :=
  if label.getLast? = some ':' then label.dropLast else label

/-- **Reads the label of an axis**, in any case. -/
def Axis.read (word : String) : Except NestError Axis :=
  match all.find? fun a => caseless a.label.toList = caseless word.toList with
  | some a => .ok a
  | none => .error (.unknownLabel word)

/-- **Reads the label of a position**, in any case and with or without a
colon. -/
def Position.read (word : String) : Except NestError Position :=
  match all.find? fun p =>
      caseless p.label.toList = caseless (withoutColon word.toList) with
  | some p => .ok p
  | none => .error (.unknownLabel word)

@[simp] theorem Axis.read_label (a : Axis) : Axis.read a.label = .ok a := by
  cases a <;> rfl

@[simp] theorem Position.read_label (p : Position) :
    Position.read p.label = .ok p := by
  cases p <;> rfl

/-! ## Reading -/

/-- Reads a value for each of some fields into a level. -/
def readFields : List Field → Extents → List String →
    Except NestError (Extents × List String)
  | [], e, words => .ok (e, words)
  | f :: _, _, [] => .error (.malformed (.missingLabel f))
  | f :: _, _, [_] => .error (.malformed (.missingValue f))
  | f :: fs, e, _ :: word :: words =>
    match Decimal.readWord? word with
    | none => .error (.malformed (.notAnInteger f word))
    | some n =>
      if n < 0 then .error (.belowLeast f n)
      else readFields fs (e.setField f n) words

/-- **Reads one level** and gives back the words after it. -/
def readLevel (words : List String) : Except NestError (Extents × List String) :=
  readFields Field.all {} words

/-- Reads the axis of each of some positions into an order. -/
def readPositions : List Position → LoopOrder → List String →
    Except NestError (LoopOrder × List String)
  | [], o, words => .ok (o, words)
  | p :: _, _, [] => .error (.malformed (.missingPosition p))
  | p :: ps, o, label :: words => do
    let found ← Position.read label
    if found ≠ p then .error (.malformed (.unexpectedPosition p found))
    else match words with
      | [] => .error (.malformed (.missingAxis p))
      | word :: words => do
        let a ← Axis.read word
        readPositions ps (o.bind a p) words

/-- **Reads one loop order**, which must bind every axis once, and gives back
the words after it. -/
def readOrder (words : List String) : Except NestError (LoopOrder × List String) := do
  let (o, words) ← readPositions Position.all {} words
  o.checkValid
  return (o, words)

/-- Accepts the end of a document. -/
def readEnd (document : Document) : List String → Except NestError Unit
  | [] => .ok ()
  | _ :: _ => .error (.malformed (.trailing document))

/-- The end of a document is accepted where no words are left. -/
theorem readEnd_eq_ok_iff {document : Document} {words : List String} {u : Unit} :
    readEnd document words = .ok u ↔ words = [] := by
  cases words <;> simp [readEnd]

/-- **Reads a text as one level.** -/
def Extents.ofText (text : String) : Except NestError Extents := do
  let (e, words) ← readLevel (Text.tokens text)
  readEnd .level words
  return e

/-- **Reads a text as one loop order.** -/
def LoopOrder.ofText (text : String) : Except NestError LoopOrder := do
  let (o, words) ← readOrder (Text.tokens text)
  readEnd .order words
  return o

/-! ## Writing -/

/-- **Writes a level**, a line for each field. -/
def Extents.write (e : Extents) : String :=
  String.ofList <| Field.all.flatMap fun f =>
    f.label.toList ++ ' ' :: Decimal.digits (e.field f) ++ ['\n']

/-- **Writes a loop order**, a line for each position. -/
def LoopOrder.write (o : LoopOrder) : String :=
  String.ofList <| Position.all.flatMap fun p =>
    p.label.toList ++ ':' :: ' ' :: (o.axisAt.get p).label.toList ++ ['\n']

/-! ## The two documents of a nest -/

/-- **The levels that are kept of a tiling**: all but the whole layer. -/
structure TileLevels where
  tile : Extents
  unroll : Extents
  deriving DecidableEq, Repr

namespace TileLevels

/-- The levels that are kept of a nest. -/
def ofNest (n : LoopNest) : TileLevels := ⟨n.tiling.tile, n.tiling.unroll⟩

/-- Reads a text as the tile and the unrolling. -/
def ofText (text : String) : Except NestError TileLevels := do
  let (tile, words) ← readLevel (Text.tokens text)
  let (unroll, words) ← readLevel words
  readEnd .tiling words
  return ⟨tile, unroll⟩

/-- Writes the tile, then the unrolling. -/
def write (t : TileLevels) : String := t.tile.write ++ t.unroll.write

end TileLevels

/-- **The two loop orders of a nest.** -/
structure LoopOrders where
  offChip : LoopOrder
  onChip : LoopOrder
  deriving DecidableEq, Repr

namespace LoopOrders

/-- The loop orders of a nest. -/
def ofNest (n : LoopNest) : LoopOrders := ⟨n.offChip, n.onChip⟩

/-- Reads a text as the order off the chip and the order on it. -/
def ofText (text : String) : Except NestError LoopOrders := do
  let (offChip, words) ← readOrder (Text.tokens text)
  let (onChip, words) ← readOrder words
  readEnd .orders words
  return ⟨offChip, onChip⟩

/-- Writes the order off the chip, then the order on it. -/
def write (o : LoopOrders) : String := o.offChip.write ++ o.onChip.write

end LoopOrders

end ConvTiling
