import ConvTiling.Schedule.Candidates
import ConvTiling.Schedule.Dataflow
import ConvTiling.Schedule.Error
import ConvTiling.Schedule.LoopRemoval
import ConvTiling.Schedule.Options
import ConvTiling.Schedule.Seed

/-!
# The search

A search goes from a nest to the best nest for an accelerator in five steps.
It seeds the tile from the shape of the array, removes the loops that the
buffers let it remove, chooses the dataflow by the loop that dominates what
is left, and then sweeps every tile between the one it has and the whole
layer. Last, a tile that is higher than it is wide is turned, where it still
lies in the layer then, and scored again.

A scheduler is an accelerator that has passed its check, with the options of
the search. The check is where an invalid one is refused, so that a
`Scheduler` carries the proof that its accelerator is valid.
-/

namespace ConvTiling

/-- **A search for one accelerator.** -/
structure Scheduler where
  accelerator : Accelerator
  options : SearchOptions := {}
  valid : accelerator.Valid

/-- **What a search finds.** -/
structure SearchResult where
  nest : LoopNest
  /-- The dataflow of the nest. -/
  dataflow : Operand
  score : Float
  /-- How many candidates there were. -/
  candidates : Nat
  /-- Whether some axes could be fully tiled within the buffers. -/
  feasible : Bool

namespace Scheduler

/-- **The scheduler for an accelerator**, which is refused if it is not
valid. -/
def of (a : Accelerator) (options : SearchOptions) :
    Except ScheduleError Scheduler :=
  match h : a.checkValid with
  | .ok _ => .ok ⟨a, options, Accelerator.checkValid_eq_ok_iff.1 h⟩
  | .error reason => .error (.invalidAccelerator reason)

/-- **The steps before the dataflow is chosen**: the nest is seeded, and
loops of it are removed. -/
def prepare (s : Scheduler) (n : LoopNest) : Checked LoopRemoval := do
  let seeded ← n.seed s.accelerator
  seeded.removeLoops s.accelerator

/-- **How many candidates a nest has**, and the best of them under a
dataflow. -/
def sweep (s : Scheduler) (n : LoopNest) (dataflow : Operand) :
    Checked (Nat × Option Candidate) := do
  let space ← TileSpace.of n.tiling
  let total ← space.total
  let spans ← Span.shareOut total s.options.workerCount
  let w : Sweep := { space, machine := s.accelerator, dataflow }
  let (found, _) ← w.runAll n spans (.start s.options.progressInterval)
  return (total, Candidate.bestOf found)

/-- **Turns a tile that is higher than it is wide**, where it still lies in
the layer then, and scores it again. -/
def orient (s : Scheduler) (dataflow : Operand) (c : Candidate) :
    Checked (LoopNest × Float) := do
  let tile := c.nest.tiling.tile
  if tile.outputWidth < tile.outputHeight then
    match c.nest.tiling.turn? with
    | some tiling =>
      let score ← tiling.score s.accelerator dataflow
      return ({ c.nest with tiling }, score)
    | none => return (c.nest, c.score)
  else
    return (c.nest, c.score)

/-- **Searches for the best nest.** -/
def search (s : Scheduler) (n : LoopNest) : Attempt ScheduleError SearchResult := do
  Attempt.accept .invalidNest n.checkValid
  let removal ← Attempt.compute (s.prepare n)
  Attempt.accept id <|
    require (removal.isFeasible ∨ ¬ s.options.strictMemory) .memoryOverflow
  let (n, dataflow) ← Attempt.compute removal.nest.adoptDataflow
  let (candidates, best) ← Attempt.compute (s.sweep n dataflow)
  match best with
  | none => Attempt.refuse (.noFeasibleTiling candidates)
  | some best =>
    let (nest, score) ← Attempt.compute (s.orient dataflow best)
    return { nest, dataflow, score, candidates, feasible := removal.isFeasible }

end Scheduler

end ConvTiling
