import ConvTiling.Schedule.Search

/-!
# The schedule of a layer

A nest that was found is finished before it is used. Its order off the chip
gets the flags that its tiles give it, its order on the chip is fixed, and
every axis that is fully tiled moves innermost, where a loop of one iteration
does no harm. The order of the loops on the chip is not searched for: it is
the canonical one that keeps the output.

A schedule is the finished nest together with the dataflow and the score of
the search. The dataflow is the one that was chosen; the flags of the
finished order can say more.
-/

namespace ConvTiling

/-- The order of the loops on the chip. -/
def LoopOrder.fixedOnChip : LoopOrder := LoopOrder.canonical .output

/-- **Finishes a nest**: derives the flags of its order off the chip, fixes
its order on the chip, moves the fully tiled axes innermost, and checks the
result. -/
def LoopNest.finish (n : LoopNest) : Except NestError LoopNest :=
  let flagged : LoopNest :=
    { n with
      offChip := n.offChip.deriveFlags n.tiling.full n.tiling.tile
      onChip := .fixedOnChip }
  match LoopNest.gatherFullyTiled flagged with
  | .error reason _ => .error reason
  | .ok _ gathered => do
    gathered.checkValid
    return gathered

/-- **The schedule of a layer.** -/
structure LayerSchedule where
  nest : LoopNest
  /-- The dataflow that the search chose. -/
  dataflow : Operand
  score : Float

/-- **Searches for the nest of a layer and finishes it.** -/
def Scheduler.schedule (s : Scheduler) (l : Layer) :
    Attempt ScheduleError LayerSchedule := do
  let n ← Attempt.embed .invalidNest (LoopNest.ofLayer l)
  let found ← s.search n
  let nest ← Attempt.accept .invalidNest found.nest.finish
  return { nest, dataflow := found.dataflow, score := found.score }

end ConvTiling
