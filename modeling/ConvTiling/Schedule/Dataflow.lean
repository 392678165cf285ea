import ConvTiling.Nest.Basic

/-!
# Choosing the dataflow

The loop off the chip with the most iterations decides which operand stays:
the one that this loop does not touch, so that it need not be fetched again
in any of its iterations. The order off the chip becomes the canonical one of
that dataflow. Where no loop is left the output stays.
-/

namespace ConvTiling

/-- **The operand to keep while the loop over an axis runs.** -/
def Axis.dataflow : Axis → Operand
  | .kernelMap | .outputChannel => .input
  | .inputChannel => .output
  | .outputMap => .weight

namespace Tiling

/-- The iterations of each loop off the chip. -/
def axisIterations (t : Tiling) : Checked (PerAxis Int) := do
  let kernelMap ← t.iterations .kernelMap
  let inputChannel ← t.iterations .inputChannel
  let outputMap ← t.iterations .outputMap
  let outputChannel ← t.iterations .outputChannel
  return { kernelMap, inputChannel, outputMap, outputChannel }

/-- The counts are those of each loop. -/
theorem axisIterations_eq_ok_iff {t : Tiling} {counts : PerAxis Int} :
    t.axisIterations = .ok counts ↔ ∀ a, t.iterations a = .ok (counts.get a) := by
  simp only [axisIterations, Checked.bind_eq_ok_iff, Checked.pure_eq_ok_iff]
  constructor
  · rintro ⟨k, hk, i, hi, m, hm, c, hc, rfl⟩ a
    cases a <;> assumption
  · intro h
    exact ⟨_, h .kernelMap, _, h .inputChannel, _, h .outputMap, _, h .outputChannel, rfl⟩

/-- **The axis with the largest count**, the first one of several. -/
def dominantAxis (counts : PerAxis Int) : Axis :=
  Axis.all.foldl (fun best a => if counts.get best < counts.get a then a else best)
    .kernelMap

/-- **The dataflow of the loop with the most iterations**, or that of the
output where every loop has one. -/
def chooseDataflow (t : Tiling) : Checked Operand := do
  let counts ← t.axisIterations
  let a := dominantAxis counts
  return if 1 < counts.get a then a.dataflow else .output

end Tiling

/-- **Takes on the dataflow of the dominant loop**, and names it. -/
def LoopNest.adoptDataflow (n : LoopNest) : Checked (LoopNest × Operand) := do
  let s ← n.tiling.chooseDataflow
  return ({ n with offChip := n.offChip.setDataflow s }, s)

end ConvTiling
