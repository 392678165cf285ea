import ConvTiling.Nest.Tiling

/-!
# Traffic off the chip

What a tiling costs is first of all what it moves between the chip and the
memory off it. Under a dataflow, the operand that stays in its buffer passes
once. Each of the others is fetched again in every iteration of the loops
that exchange its tile: the input in those over the kernel map and the output
channel, the weights in those over the output map. An output that does not
stay is stored and fetched again in every step of its sum but the first – so
twice for each step after the first, and not at all when there is one.
-/

namespace ConvTiling

/-- **What a tiling moves** off and onto the chip under a dataflow. -/
structure Traffic where
  /-- How many times the tiles of each operand pass. -/
  reloads : PerOperand Int
  /-- The bytes of each whole operand. -/
  bytes : PerOperand Int
  deriving DecidableEq, Repr

namespace Traffic

/-- The extents whose loops fetch an operand again, or for the output those
it is summed over. -/
def reloadDims : Operand → List Dim
  | .input => [.kernelWidth, .kernelHeight, .outputChannel]
  | .weight => [.outputWidth, .outputHeight]
  | .output => [.kernelWidth, .kernelHeight, .inputChannel]

/-- **How many times an operand passes** under the dataflow that keeps
`stationary`. -/
def reload (t : Tiling) (stationary : Operand) (o : Operand) : Checked Int :=
  if o = stationary then .ok 1
  else do
    let count ← t.tileCount (reloadDims o)
    match o with
    | .output =>
      let again ← Signed.sub count 1
      Signed.mul 2 again
    | _ => return count

/-- The traffic of a tiling under a dataflow. The reloads are counted before
the bytes. -/
def of (t : Tiling) (stationary : Operand) : Checked Traffic := do
  let inputReload ← reload t stationary .input
  let weightReload ← reload t stationary .weight
  let outputReload ← reload t stationary .output
  let inputBytes ← t.full.bytes .input
  let weightBytes ← t.full.bytes .weight
  let outputBytes ← t.full.bytes .output
  return ⟨⟨inputReload, weightReload, outputReload⟩,
    ⟨inputBytes, weightBytes, outputBytes⟩⟩

/-- What is moved of one operand, in bytes. -/
def moved (r : Traffic) (o : Operand) : Checked Int :=
  Signed.mul (r.reloads.get o) (r.bytes.get o)

/-- **All that is moved**, in bytes. -/
def total (r : Traffic) : Checked Int := do
  let input ← r.moved .input
  let weight ← r.moved .weight
  let inputs ← Signed.add input weight
  let output ← r.moved .output
  Signed.add inputs output

end Traffic

/-- All that a tiling moves under a dataflow, in bytes. -/
def Tiling.traffic (t : Tiling) (stationary : Operand) : Checked Int := do
  let r ← Traffic.of t stationary
  r.total

end ConvTiling
