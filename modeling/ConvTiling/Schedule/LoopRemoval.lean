import ConvTiling.Nest.Basic
import ConvTiling.Schedule.Memory

/-!
# Removing loops

A loop off the chip goes away when its axis is fully tiled. The scheduler
makes as many axes fully tiled as the buffers allow: all four, or three of
them, or two. Of the sets of three the first in a fixed order that fits is
taken; of the sets of two the one that removes the most iterations, and the
earlier one of two that remove as many. A nest of which no two axes can be
fully tiled overflows the buffers and is handed on as it is.

With one loop or none left off the chip the output can stay in its buffer, so
the canonical order of that dataflow is taken on. With two left the order is
decided later, by the loop that dominates.
-/

namespace ConvTiling

/-- **The outcome of removing loops.** -/
inductive LoopRemoval where
  /-- Some axes could be fully tiled within the buffers. -/
  | fits (nest : LoopNest)
  /-- No two axes could; the nest is the one that was given. -/
  | overflow (nest : LoopNest)
  deriving DecidableEq, Repr

namespace LoopRemoval

/-- The nest to go on with. -/
def nest : LoopRemoval → LoopNest
  | fits n | overflow n => n

/-- Whether some axes could be fully tiled. -/
def isFeasible : LoopRemoval → Bool
  | fits _ => true
  | overflow _ => false

@[simp] theorem nest_fits (n : LoopNest) : (fits n).nest = n := rfl

/-- **The sets of three axes**, in the order in which they are tried. -/
def triples : List (List Axis) :=
  [[.kernelMap, .outputMap, .inputChannel],
    [.kernelMap, .outputMap, .outputChannel],
    [.kernelMap, .inputChannel, .outputChannel],
    [.outputMap, .inputChannel, .outputChannel]]

/-- **The sets of two axes**, in the order in which they are tried. -/
def pairs : List (List Axis) :=
  [[.kernelMap, .outputMap],
    [.kernelMap, .inputChannel],
    [.kernelMap, .outputChannel],
    [.outputMap, .inputChannel],
    [.outputMap, .outputChannel],
    [.inputChannel, .outputChannel]]

end LoopRemoval

namespace LoopNest

/-- Makes each of some axes fully tiled. -/
def tileFully (n : LoopNest) (axes : List Axis) : LoopNest :=
  { n with tiling := axes.foldl Tiling.tileFully n.tiling }

/-- Takes on a dataflow in the order off the chip. -/
def setDataflow (n : LoopNest) (s : Operand) : LoopNest :=
  { n with offChip := n.offChip.setDataflow s }

/-- **The first of some sets of axes that fits** when made fully tiled, as
the nest it gives. -/
def firstFitting? (n : LoopNest) (a : Accelerator) :
    List (List Axis) → Checked (Option LoopNest)
  | [] => .ok none
  | axes :: rest => do
    let candidate := n.tileFully axes
    if ← candidate.tiling.fits a then return some candidate
    else n.firstFitting? a rest

/-- **The iterations that a set of axes removes** when made fully tiled: the
product of the extents of the layer along them. -/
def iterationsRemoved (n : LoopNest) (axes : List Axis) : Checked Int :=
  Signed.productBy n.tiling.full.extent axes

/-- Takes a set of axes into account: it becomes the best one so far if it
fits and removes more iterations than the best one before it. -/
def betterPair (n : LoopNest) (a : Accelerator)
    (best : Option (Int × LoopNest)) (axes : List Axis) :
    Checked (Option (Int × LoopNest)) := do
  let candidate := n.tileFully axes
  if ← candidate.tiling.fits a then
    let count ← n.iterationsRemoved axes
    match best with
    | some (most, _) => return if most < count then some (count, candidate) else best
    | none => return some (count, candidate)
  else
    return best

/-- **Removes as many loops off the chip as the buffers allow.** -/
def removeLoops (n : LoopNest) (a : Accelerator) : Checked LoopRemoval := do
  match ← n.firstFitting? a (Axis.all :: LoopRemoval.triples) with
  | some found => return .fits (found.setDataflow .output)
  | none =>
    match ← LoopRemoval.pairs.foldlM (n.betterPair a) none with
    | some (_, found) => return .fits found
    | none => return .overflow n

end LoopNest

end ConvTiling
