import ConvTiling.Nest.Basic
import ConvTiling.Schedule.Handout
import ConvTiling.Schedule.Memory
import ConvTiling.Schedule.Score
import ConvTiling.Schedule.Span
import ConvTiling.Schedule.TileSpace

/-!
# Sweeping the candidates

Every tiling of a space is a candidate. One that does not fit the buffers is
passed over; one that does is unrolled anew and scored, and the lowest score
wins. Of equal scores the one with the lower number does – within a stretch
because a later candidate has to be strictly better, and between stretches
because the best of an earlier stretch has to be strictly beaten. So how the
candidates are shared out does not show in what is found, as long as every
score is a number: one that is not is neither better nor worse than another.

A sweep counts the candidates it visits and reports them a batch at a time.
The batches are as long as the interval of the report, except for the last
one of a stretch, so that the reports of a stretch add up to all of it.
-/

namespace ConvTiling

/-- A tiling with its score and its number. -/
structure Scored where
  tiling : Tiling
  score : Float
  number : Nat

/-- **The best candidate of a stretch**: a nest with its score and its
number. -/
structure Candidate where
  nest : LoopNest
  score : Float
  number : Nat

/-! ## Progress -/

/-- **How far a sweep is**: how many candidates have been reported as
visited, and how many are visited between two reports.

What is reported is added without a check. A sweep begins at `0` and reports
every candidate once, so at no time are there more than the candidates in all,
and how many those are is a count (`Sweep.visited_le_of_shareOut`). -/
structure Progress where
  evaluated : Nat := 0
  interval : Nat
  deriving DecidableEq, Repr

namespace Progress

/-- The progress of a sweep that begins. An interval is at least `1`. -/
def start (interval : Nat) : Progress where
  interval := max interval 1

/-- Reports a batch of visited candidates. -/
def advance (p : Progress) (count : Nat) : Progress :=
  { p with evaluated := p.evaluated + count }

end Progress

/-! ## One stretch -/

/-- **A stretch while it is swept**: the best candidate so far, how many were
visited since the last report, and the progress reported. -/
structure Scan where
  best : Option Scored := none
  pending : Nat := 0
  progress : Progress

namespace Scan

/-- Counts one more candidate as visited, and reports the batch when it is
full. -/
def count (s : Scan) : Scan :=
  if s.pending + 1 = s.progress.interval then
    { s with pending := 0, progress := s.progress.advance (s.pending + 1) }
  else
    { s with pending := s.pending + 1 }

/-- Takes a scored tiling into account. It has to be strictly better than the
best one so far. -/
def offer (s : Scan) (x : Scored) : Scan :=
  match s.best with
  | none => { s with best := some x }
  | some best => if x.score < best.score then { s with best := some x } else s

/-- Reports the last batch, if there is anything in it. -/
def finish (s : Scan) : Scan :=
  if 0 < s.pending then
    { s with pending := 0, progress := s.progress.advance s.pending }
  else s

end Scan

/-- **What is swept**: a space of tilings, for a machine and under a
dataflow. -/
structure Sweep where
  space : TileSpace
  machine : Accelerator
  dataflow : Operand

namespace Sweep

/-- **Scores the candidate of a number**, unless it does not fit the
buffers. -/
def score? (w : Sweep) (number : Nat) : Checked (Option Scored) := do
  let tiling ← w.space.tilingAt number
  if ← tiling.fits w.machine then
    let unroll ← unrollTile tiling.tile w.machine
    let tiling := { tiling with unroll }
    let score ← tiling.score w.machine w.dataflow
    return some ⟨tiling, score, number⟩
  else
    return none

/-- Visits the candidate of a number. -/
def visit (w : Sweep) (s : Scan) (number : Nat) : Checked Scan := do
  let s := s.count
  match ← w.score? number with
  | some x => return s.offer x
  | none => return s

/-- **Sweeps a stretch of candidates**: the best one, as a nest with the
orders of the seed, and the progress with all of the stretch added. -/
def run (w : Sweep) (seed : LoopNest) (span : Span) (progress : Progress) :
    Checked (Option Candidate × Progress) := do
  let s ← span.numbers.foldlM w.visit { progress }
  let found := s.best.map fun x =>
    { nest := { seed with tiling := x.tiling }, score := x.score, number := x.number }
  return (found, s.finish.progress)

/-- Sweeps several stretches, one after the other. -/
def runAll (w : Sweep) (seed : LoopNest) :
    List Span → Progress → Checked (List (Option Candidate) × Progress)
  | [], progress => .ok ([], progress)
  | span :: spans, progress => do
    let (found, progress) ← w.run seed span progress
    let (rest, progress) ← w.runAll seed spans progress
    return (found :: rest, progress)

end Sweep

/-! ## All stretches -/

namespace Candidate

/-- The better of two candidates. The earlier one stays unless its score
fails to be at most that of the later one. -/
def better (best : Option Candidate) (c : Candidate) : Candidate :=
  match best with
  | some b => if b.score ≤ c.score then b else c
  | none => c

/-- **The best of all stretches**, from what each of them found. -/
def bestOf (found : List (Option Candidate)) : Option Candidate :=
  (found.filterMap id).foldl (fun best c => some (better best c)) none

end Candidate

end ConvTiling
