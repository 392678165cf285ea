import ConvTiling.Nest.TextForm
import ConvTiling.Schedule.LayerSchedule

/-!
# Keeping schedules

A schedule is kept in two files: one holds the tile and the unrolling, the
other the loop orders. Loading it takes the layer that it is for, which gives
the whole level, and derives the flags of the order off the chip anew, since
the files do not hold them.

What is loaded is judged like any other nest. The files are read in turn, each
to its end before the next: a tiling that does not make sense is reported
even if the file of the orders is missing.

An `Archive` is what the two files contain. A file that cannot be read
contains nothing, and a file that is not text in UTF-8 cannot be read as one.
-/

namespace ConvTiling

/-- **The contents of the two files of a schedule**, where there are any. -/
structure Archive where
  tiling : Option ByteArray := none
  orders : Option ByteArray := none

/-- Which of the two files can be written. -/
structure WritableFiles where
  tiling : Bool := true
  orders : Bool := true
  deriving DecidableEq, Repr

namespace Archive

/-- The text of a file. -/
def text (file : ScheduleFile) (contents : Option ByteArray) :
    Except ScheduleError String :=
  match contents.bind String.fromUTF8? with
  | some text => .ok text
  | none => .error (.inaccessible file)

end Archive

/-- **Rebuilds the nest of a layer** from the levels and orders that were
kept. The flags of the order off the chip are derived anew. -/
def LoopNest.restore (l : Layer) (levels : TileLevels) (orders : LoopOrders) :
    Attempt ScheduleError LoopNest := do
  let full ← Attempt.embed .invalidNest l.extents
  let n : LoopNest :=
    { tiling := { full, tile := levels.tile, unroll := levels.unroll }
      offChip := orders.offChip.deriveFlags full levels.tile
      onChip := orders.onChip }
  Attempt.accept .invalidNest n.checkValid
  return n

/-- **Loads the nest of a layer.** -/
def Archive.load (a : Archive) (l : Layer) : Attempt ScheduleError LoopNest := do
  let text ← Attempt.accept id (Archive.text .tiling a.tiling)
  let levels ← Attempt.accept .invalidNest (TileLevels.ofText text)
  let text ← Attempt.accept id (Archive.text .orders a.orders)
  let orders ← Attempt.accept .invalidNest (LoopOrders.ofText text)
  LoopNest.restore l levels orders

/-- **Saves a nest**, the file of the tiling first. -/
def Archive.save (n : LoopNest) (files : WritableFiles) :
    Except ScheduleError Archive := do
  require files.tiling (.inaccessible .tiling)
  require files.orders (.inaccessible .orders)
  return {
    tiling := some (TileLevels.ofNest n).write.toUTF8
    orders := some (LoopOrders.ofNest n).write.toUTF8 }

end ConvTiling
