import ConvTiling.Proofs.Stages

/-!
# The candidate that a search selects

A search ends in two steps: the sweep selects a candidate, and the last step
keeps the tile of it or turns it by a quarter. What is true of a result is
therefore shown of the selected candidate first (`Scheduler.Selects`), and then
carried over the turn (`Scheduler.selects_of_search`).

The sweep takes every candidate from the space of one tiling, and scores it. So
the input of a selected tile is the one that its output needs, the tile fits the
buffers, and its traffic has an answer. Its order off the chip is the canonical
one of the dataflow, and nothing in it is flagged as fully tiled that was not so
in the nest given.
-/

namespace ConvTiling

open Checked (bind_eq_ok_iff pure_eq_ok_iff)

namespace LoopOrder

/-- Taking on a dataflow flags no axis. -/
@[simp] theorem fullyTiled_setDataflow (o : LoopOrder) (s : Operand) :
    (o.setDataflow s).fullyTiled = o.fullyTiled := rfl

/-- The axes of an order that has taken on a dataflow are the canonical ones. -/
@[simp] theorem axes_setDataflow (o : LoopOrder) (s : Operand) :
    (o.setDataflow s).axes = s.loopOrder.toList := by
  cases s <;> rfl

end LoopOrder

/-- Removing loops flags no axis. -/
theorem LoopNest.fullyTiled_of_removeLoops {n : LoopNest} {a : Accelerator}
    {r : LoopRemoval} (run : n.removeLoops a = .ok r) :
    r.nest.offChip.fullyTiled = n.offChip.fullyTiled := by
  obtain ⟨axes, -, rfl | rfl⟩ | rfl := removeLoops_cases run <;> rfl

namespace Scheduler

variable {s : Scheduler} {n : LoopNest} {d : Operand} {c : Candidate}

/-- **The steps before the last one**: the dataflow that is chosen, and the
candidate that is selected under it, if there is one. -/
def select (s : Scheduler) (n : LoopNest) : Checked (Operand × Option Candidate) := do
  let removal ← s.prepare n
  let (n, dataflow) ← removal.nest.adoptDataflow
  let (_, best) ← s.sweep n dataflow
  return (dataflow, best)

/-- **A candidate is selected** under a dataflow. -/
def Selects (s : Scheduler) (n : LoopNest) (d : Operand) (c : Candidate) : Prop :=
  s.select n = .ok (d, some c)

/-- The steps that select a candidate. -/
theorem selects_iff :
    s.Selects n d c ↔ ∃ removal m total, s.prepare n = .ok removal
      ∧ removal.nest.adoptDataflow = .ok (m, d) ∧ s.sweep m d = .ok (total, some c) := by
  simp only [Selects, select, bind_eq_ok_iff, pure_eq_ok_iff, Prod.mk.injEq]
  constructor
  · rintro ⟨removal, hprepare, ⟨m, d⟩, hadopt, ⟨total, best⟩, hsweep, rfl, rfl⟩
    exact ⟨removal, m, total, hprepare, hadopt, hsweep⟩
  · rintro ⟨removal, m, total, hprepare, hadopt, hsweep⟩
    exact ⟨removal, hprepare, (m, d), hadopt, (total, some c), hsweep, rfl, rfl⟩

/-- **A search that ends with a result** has selected a candidate, and kept or
turned its tile. -/
theorem selects_of_search {r : SearchResult} (run : s.search n = .ok r) :
    n.Valid ∧ ∃ c, s.Selects n r.dataflow c
      ∧ s.orient r.dataflow c = .ok (r.nest, r.score) := by
  obtain ⟨hn, removal, hprepare, -, m, d, hadopt, total, c, hsweep, nest, score, horient,
    rfl⟩ := search_eq_ok_iff.1 run
  exact ⟨hn, c, selects_iff.2 ⟨removal, m, total, hprepare, hadopt, hsweep⟩, horient⟩

/-- **What is known of a selected candidate.** Its nest is derived from the one
given and fits the buffers, its input is the one that its output needs, and its
traffic has an answer. -/
structure Selected (s : Scheduler) (n : LoopNest) (d : Operand) (c : Candidate) : Prop where
  derived : c.nest.DerivedFrom n
  fits : c.nest.tiling.fits s.accelerator = .ok true
  input : c.nest.tiling.tile
    = TileSpace.derived c.nest.tiling.full c.nest.tiling.tile
  traffic : c.nest.tiling.traffic d = .ok (c.nest.tiling.movedBytes d)
  offChip : ∃ o : LoopOrder, c.nest.offChip = o.setDataflow d
    ∧ o.fullyTiled = n.offChip.fullyTiled

/-- A tile with the input that it needs has the input that it needs. -/
theorem derived_derived (full tile : Extents) :
    TileSpace.derived full (TileSpace.derived full tile) = TileSpace.derived full tile :=
  rfl

/-- **A selected candidate was scored** in the space of the nest that took on the
dataflow. -/
theorem Selects.scored (h : s.Selects n d c) (hn : n.Valid) :
    ∃ removal m space x, s.prepare n = .ok removal
      ∧ removal.nest.adoptDataflow = .ok (m, d) ∧ m.DerivedFrom n
      ∧ TileSpace.of m.tiling = .ok space ∧ space.Sound ∧ space.seed = m.tiling
      ∧ Sweep.score? ⟨space, s.accelerator, d⟩ x.number = .ok (some x)
      ∧ c = x.candidate m := by
  obtain ⟨removal, m, total, hprepare, hadopt, hsweep⟩ := selects_iff.1 h
  have hadopted := (derived_of_prepare hn hprepare).adoptDataflow hadopt
  obtain ⟨space, x, hspace, -, -, hx, hc⟩ := scored_of_sweep hsweep
  obtain ⟨hsound, hseed⟩ := TileSpace.sound_of_of hadopted.nested hspace
  exact ⟨removal, m, space, x, hprepare, hadopt, hadopted, hspace, hsound, hseed, hx, hc⟩

/-- **A candidate that is selected** for a valid nest. -/
theorem Selects.selected (h : s.Selects n d c) (hn : n.Valid) : s.Selected n d c := by
  obtain ⟨removal, m, space, x, hprepare, hadopt, hadopted, hspace, hsound, -, hx, rfl⟩ :=
    h.scored hn
  obtain ⟨hderived, hfits⟩ := hadopted.candidate s.valid hspace hx
  obtain ⟨t, unroll, ht, -, -, htiling, hscore, -⟩ := Sweep.score?_eq_ok_some_iff.1 hx
  obtain ⟨-, tile, -, -, rfl⟩ := hsound.tilingAt ht
  refine ⟨hderived, hfits, ?_, Tiling.answers_traffic_of_score hscore, ?_⟩
  · show x.tiling.tile = TileSpace.derived x.tiling.full x.tiling.tile
    rw [htiling]
    exact (derived_derived _ _).symm
  · obtain ⟨seeded, hseed, hremove⟩ := bind_eq_ok_iff.1 hprepare
    obtain ⟨tiling, -, hseeded⟩ := bind_eq_ok_iff.1 hseed
    obtain rfl := pure_eq_ok_iff.1 hseeded
    obtain ⟨-, rfl⟩ := LoopNest.adoptDataflow_eq_ok_iff.1 hadopt
    have hflags := LoopNest.fullyTiled_of_removeLoops hremove
    exact ⟨removal.nest.offChip, rfl, hflags⟩

/-- **What a search finds is derived** from the nest it was given, with its order
off the chip in that of the dataflow. -/
theorem derived_of_search {r : SearchResult} (run : s.search n = .ok r) :
    r.nest.DerivedFrom n ∧ ∃ o : LoopOrder, r.nest.offChip = o.setDataflow r.dataflow
      ∧ o.fullyTiled = n.offChip.fullyTiled := by
  obtain ⟨hn, c, hselects, horient⟩ := selects_of_search run
  have hc := hselects.selected hn
  obtain ⟨hderived, -⟩ := derived_of_orient hc.derived hc.fits horient
  refine ⟨hderived, ?_⟩
  obtain ⟨hnest, -⟩ | ⟨-, tiling, -, -, hnest⟩ := orient_cases horient
  · rw [hnest]
    exact hc.offChip
  · rw [hnest]
    exact hc.offChip

end Scheduler

end ConvTiling
