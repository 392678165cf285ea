import ConvTiling.Arith.Checked

/-!
# Sharing out the candidates

The candidates of a search are numbered, and each worker gets a stretch of
consecutive numbers. There is a stretch for every worker, unless there are
fewer candidates than workers, and then one for every candidate. The
stretches have the same length, except that the last one takes the remainder
as well.
-/

namespace ConvTiling

/-- **A stretch of numbers**, both ends included. It is empty if the first
number is larger than the last. -/
structure Span where
  first : Nat
  last : Nat
  deriving DecidableEq, Repr

namespace Span

/-- The numbers of a stretch, in order. -/
def numbers (s : Span) : List Nat := List.range' s.first (s.last + 1 - s.first)

/-- A stretch holds the numbers between its ends. -/
theorem mem_numbers {s : Span} {n : Nat} :
    n ∈ s.numbers ↔ s.first ≤ n ∧ n ≤ s.last := by
  simp only [numbers, List.mem_range'_1]
  omega

/-- **The stretch of one of several workers.** -/
def share (total count chunk worker : Nat) : Checked Span := do
  let before ← Count.mul worker chunk
  let first ← Count.add before 1
  let next ← Count.add worker 1
  let last ← if next = count then pure total else Count.mul next chunk
  return ⟨first, last⟩

/-- **The stretches of all workers**, in order. -/
def shareOut (total workers : Nat) : Checked (List Span) :=
  let count := min (max workers 1) total
  (List.range count).mapM (share total count (total / count))

end Span

end ConvTiling
