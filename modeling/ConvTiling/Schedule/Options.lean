import ConvTiling.Text.Decimal

/-!
# Options of a search

How many workers share the candidates of a search, and how often they report
how far they are, never changes what the search finds; whether a layer that
no buffer holds is refused does. A search always has a worker and a positive
interval, so a `0` for either is read as `1`.
-/

namespace ConvTiling

/-- **How a search is run.** -/
structure SearchOptions where
  /-- How many workers share the candidates, or as many as the machine
  offers. -/
  workers : Option Nat := none
  /-- Whether a search is refused when no axes can be fully tiled within the
  buffers. -/
  strictMemory : Bool := false
  /-- How many candidates lie between two reports of progress. -/
  progressInterval : Nat := 4096
  deriving DecidableEq, Repr

namespace SearchOptions

/-- How many workers there are where the machine does not tell. -/
def fallbackWorkers : Nat := 8

/-- How many workers share the candidates. -/
def workerCount (o : SearchOptions) : Nat := o.workers.getD fallbackWorkers

/-- **The options chosen by a caller**, a `0` being read as `1`. -/
def of (workers : Option Nat) (strictMemory : Bool) (progressInterval : Nat) :
    SearchOptions where
  workers := workers.map (max · 1)
  strictMemory := strictMemory
  progressInterval := max progressInterval 1

/-- **The options chosen by the environment.** The number of workers counts
if it is a positive count, and strictness is on if it is mentioned at all. -/
def ofEnvironment (threads strict : Option String) : SearchOptions where
  workers := (threads.bind Decimal.readCount?).filter (0 < ·)
  strictMemory := strict.isSome

end SearchOptions

end ConvTiling
