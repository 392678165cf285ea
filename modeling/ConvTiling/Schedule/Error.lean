import ConvTiling.Accelerator
import ConvTiling.Nest.Error

/-!
# Why a layer is not scheduled

A schedule can be refused because the nest or the accelerator it is asked for
is not valid, because nothing fits the buffers, or because one of the two
files that schedules are kept in cannot be read or written. The wording is in
`ScheduleError.message` alone; that of a rejected nest is taken over.
-/

namespace ConvTiling

/-- One of the two files that a schedule is kept in. -/
inductive ScheduleFile where
  /-- The file of the tile and the unrolling. -/
  | tiling
  /-- The file of the loop orders. -/
  | orders
  deriving DecidableEq, Repr

/-- The name of a file. -/
def ScheduleFile.name : ScheduleFile → String
  | tiling => "tiling"
  | orders => "structure"

/-- **Why a layer is not scheduled.** -/
inductive ScheduleError where
  /-- The nest is not valid. -/
  | invalidNest (reason : NestError)
  /-- The accelerator is not valid. -/
  | invalidAccelerator (reason : AcceleratorFault)
  /-- No tile that the search can reach fits the buffers. -/
  | noFeasibleTiling (candidates : Nat)
  /-- No two axes can be fully tiled within the buffers. -/
  | memoryOverflow
  /-- A file cannot be read or written. -/
  | inaccessible (file : ScheduleFile)
  deriving DecidableEq, Repr

/-- The report of a refused schedule. -/
def ScheduleError.message : ScheduleError → String
  | invalidNest reason => s!"invalid loop configuration: {reason.message}"
  | invalidAccelerator reason => s!"invalid architecture: {reason.message}"
  | noFeasibleTiling n =>
    s!"none of {Decimal.write n} refinement candidates fits on-chip memory"
  | memoryOverflow => "no loop elimination fits on-chip memory"
  | inaccessible file => file.name

end ConvTiling
