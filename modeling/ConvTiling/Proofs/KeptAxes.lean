import ConvTiling.Proofs.WholeKernel

/-!
# What is fully tiled stays fully tiled

The loops that are removed before the sweep do not come back. A candidate enlarges
the tile it starts from, each extent by a digit and none beyond the layer, so along an
axis where that tile has the whole layer every candidate has it
(`Tiling.GrownFrom`). What comes after the sweep is the quarter turn, and that
exchanges the extents of the output map.

A tile is turned only if it is higher than it is wide, and then the output map is
fully tiled neither before nor after. Before, the height that is to become the width
would be that of the layer, and larger than the width of the layer; after, it would
be the height that is too small, as the width it came from was smaller than the
height the layer has room for. So the turn leaves the fully tiled axes as they are
(`Tiling.isFullyTiled_turn_iff`), and what is found has every axis fully tiled that
was so when loops were removed (`Scheduler.isFullyTiled_of_search`).
-/

namespace ConvTiling

open Checked (Answers)

namespace Tiling

variable {t t' t'' : Tiling} {a : Axis}

/-! ## Growing -/

/-- **A tile grown from another one** in the same layer: each extent that the search
can enlarge is at least what it was, and at most that of the layer. -/
structure GrownFrom (t' t : Tiling) : Prop where
  full : t'.full = t.full
  le : ∀ d ∈ freeDims, t.tile.get d ≤ t'.tile.get d
  le_full : ∀ d ∈ freeDims, t'.tile.get d ≤ t.full.get d

/-- Every extent of an axis is one that the search can enlarge. -/
theorem mem_freeDims_of_mem_dims {d : Dim} (hd : d ∈ a.dims) : d ∈ freeDims := by
  have hall : ∀ a : Axis, a.dims ⊆ freeDims := by
    intro a
    cases a <;> decide
  exact hall a hd

/-- **A grown tile keeps its fully tiled axes**: what cannot grow beyond the layer and
has all of it already stays as it is. -/
theorem GrownFrom.isFullyTiled (h : t'.GrownFrom t) (ha : t.IsFullyTiled a) :
    t'.IsFullyTiled a := by
  intro d hd
  have hfree := mem_freeDims_of_mem_dims hd
  rw [h.full]
  refine Int.le_antisymm ?_ (h.le_full d hfree)
  rw [ha d hd]
  exact h.le d hfree

/-- The kernel map is fully tiled exactly if the tile has the kernel of the layer. -/
theorem isFullyTiled_kernelMap_iff :
    t.IsFullyTiled .kernelMap ↔ t.tile.SameKernel t.full := by
  constructor
  · intro h
    exact ⟨(h .kernelWidth (by decide)).symm, (h .kernelHeight (by decide)).symm⟩
  · rintro ⟨hwidth, hheight⟩
    exact List.forall_mem_cons.2 ⟨hwidth.symm, List.forall_mem_singleton.2 hheight.symm⟩

/-! ## Turning -/

/-- An axis other than the output map reads the same extents turned as not. -/
theorem turned_of_mem_dims (ha : a ≠ .outputMap) {d : Dim} (hd : d ∈ a.dims) :
    d.turned = d := by
  cases a with
  | outputMap => exact absurd rfl ha
  | _ => cases d <;> first | rfl | exact absurd hd (by decide)

/-- **A quarter turn makes no axis fully tiled and none that was so less than that**,
of a tile in its layer that is higher than it is wide. -/
theorem isFullyTiled_turn_iff (ht : t.tile.LiesIn t.full)
    (hhigh : t.tile.outputWidth < t.tile.outputHeight) (run : t.turn? = some t')
    (a : Axis) : t'.IsFullyTiled a ↔ t.IsFullyTiled a := by
  obtain ⟨⟨hturned, -⟩, rfl⟩ := turn?_eq_some_iff.1 run
  by_cases ha : a = .outputMap
  · subst ha
    have hheight : t.tile.outputHeight ≤ t.full.outputHeight := ht.le .outputHeight
    refine iff_of_false (fun h => ?_) fun h => ?_
    · -- the height of the turned tile is the width, which is too small
      have hwhole : t.full.outputHeight = t.tile.outputWidth :=
        h .outputHeight (by decide)
      exact absurd (hwhole ▸ hheight) (Int.not_le.2 hhigh)
    · -- the width of the turned tile is the height, which is too large
      have hwhole : t.full.outputWidth = t.tile.outputWidth := h .outputWidth (by decide)
      exact absurd (hwhole ▸ hturned) (Int.not_le.2 hhigh)
  · refine forall₂_congr fun d hd => ?_
    show t.full.get d = t.tile.turned.get d ↔ _
    rw [Extents.get_turned, turned_of_mem_dims ha hd]

end Tiling

/-! ## The candidates -/

/-- Deriving the input of a tile leaves the extents that the search can enlarge. -/
theorem TileSpace.get_derived {full tile : Extents} {d : Dim} (hd : d ∈ freeDims) :
    (derived full tile).get d = tile.get d := by
  cases d with
  | inputWidth => exact absurd hd (by decide)
  | inputHeight => exact absurd hd (by decide)
  | _ => rfl

/-- **Every tiling of a sound space is grown** from the one it starts from. -/
theorem TileSpace.Sound.grown_tilingAt {s : TileSpace} (hs : s.Sound) {t : Tiling}
    {number : Nat} (run : s.tilingAt number = .ok t) : t.GrownFrom s.seed := by
  obtain ⟨-, tile, henlarge, hin, rfl⟩ := hs.tilingAt run
  refine ⟨rfl, fun d hd => ?_, fun d hd => ?_⟩
  · show s.seed.tile.get d ≤ (derived s.seed.full tile).get d
    rw [get_derived hd]
    exact get_le_of_enlarge henlarge d
  · show (derived s.seed.full tile).get d ≤ s.seed.full.get d
    rw [get_derived hd]
    exact hin.le d

namespace Scheduler

variable {s : Scheduler} {n : LoopNest} {d : Operand} {c : Candidate}

/-- **A selected candidate is grown** from the nest that is left when loops are
removed. -/
theorem Selects.grown (h : s.Selects n d c) (hn : n.Valid) :
    ∃ removal, s.prepare n = .ok removal
      ∧ c.nest.tiling.GrownFrom removal.nest.tiling := by
  obtain ⟨removal, m, space, x, hprepare, hadopt, -, -, hsound, hseed, hx, rfl⟩ :=
    h.scored hn
  obtain ⟨t, unroll, ht, -, -, htiling, -⟩ := Sweep.score?_eq_ok_some_iff.1 hx
  have hgrown := hsound.grown_tilingAt ht
  obtain ⟨-, hm⟩ := LoopNest.adoptDataflow_eq_ok_iff.1 hadopt
  rw [hseed, hm] at hgrown
  refine ⟨removal, hprepare, ?_⟩
  -- the unrolling, which is the candidate's own, is not part of it
  show x.tiling.GrownFrom removal.nest.tiling
  rw [htiling]
  exact ⟨hgrown.full, hgrown.le, hgrown.le_full⟩

/-- **The last step leaves the fully tiled axes as they are.** -/
theorem isFullyTiled_orient_iff {m : LoopNest} {score : Float}
    (hc : c.nest.tiling.tile.LiesIn c.nest.tiling.full)
    (run : s.orient d c = .ok (m, score)) (a : Axis) :
    m.tiling.IsFullyTiled a ↔ c.nest.tiling.IsFullyTiled a := by
  obtain ⟨rfl, -⟩ | ⟨hhigh, tiling, hturn, -, rfl⟩ := orient_cases run
  · exact Iff.rfl
  · exact Tiling.isFullyTiled_turn_iff hc hhigh hturn a

/-- **What is fully tiled when loops are removed stays fully tiled** to the end of a
search. Between the two every extent that the search can enlarge has only grown, and
within the layer; the kernel map is fully tiled in what is found; and the quarter turn
at the end, where there is one, neither adds a fully tiled axis to those of the
selected candidate nor takes one away. -/
theorem isFullyTiled_of_search {r : SearchResult} (run : s.search n = .ok r) :
    ∃ removal c, s.prepare n = .ok removal ∧ s.Selects n r.dataflow c
      ∧ s.orient r.dataflow c = .ok (r.nest, r.score)
      ∧ (∀ a, removal.nest.tiling.IsFullyTiled a → r.nest.tiling.IsFullyTiled a)
      ∧ (∀ d ∈ freeDims, removal.nest.tiling.tile.get d ≤ c.nest.tiling.tile.get d
        ∧ c.nest.tiling.tile.get d ≤ n.tiling.full.get d)
      ∧ r.nest.tiling.IsFullyTiled .kernelMap
      ∧ ∀ a, r.nest.tiling.IsFullyTiled a ↔ c.nest.tiling.IsFullyTiled a := by
  obtain ⟨hn, c, hselects, horient⟩ := selects_of_search run
  obtain ⟨removal, hprepare, hgrown⟩ := hselects.grown hn
  have hselected := hselects.selected hn
  have hturn := isFullyTiled_orient_iff hselected.derived.nested.tile horient
  have hlayer := (derived_of_prepare hn hprepare).full
  refine ⟨removal, c, hprepare, hselects, horient, fun a ha => ?_, fun d hd => ?_, ?_, hturn⟩
  · exact (hturn a).2 (hgrown.isFullyTiled ha)
  · exact ⟨hgrown.le d hd, hlayer ▸ hgrown.le_full d hd⟩
  · have hkernel := hselects.sameKernel hn
    rw [← hselected.derived.full] at hkernel
    exact (hturn .kernelMap).2 (Tiling.isFullyTiled_kernelMap_iff.2 hkernel)

/-- A layer whose output channels and kernel map are fully tiled, and whose tile of one
by three is turned: the output channels stay fully tiled. -/
theorem isFullyTiled_of_search_threeByThree :
    let a : Accelerator :=
      ⟨1, 1.0, 1.0, ⟨64, 64, 48⟩, 1, 3, [.outputWidth], [.outputHeight]⟩
    let s : Scheduler := ⟨a, {}, by decide⟩
    let n : LoopNest := { tiling := .untiled ⟨1, 0, 0, 4, 4, 2, 2, 2, 3, 3, 2⟩ }
    ∃ r removal c, s.search n = .ok r ∧ s.prepare n = .ok removal
      ∧ s.Selects n r.dataflow c ∧ s.orient r.dataflow c = .ok (r.nest, r.score)
      ∧ removal.nest.tiling.IsFullyTiled .outputChannel
      ∧ r.nest.tiling.IsFullyTiled .outputChannel
      ∧ r.nest.tiling.IsFullyTiled .kernelMap := by
  intro a s n
  have hok : Answers (s.search n) := Checked.answers_of_isOk (by decide +kernel)
  have hleft : (match s.prepare n with
      | .ok removal => decide (removal.nest.tiling.IsFullyTiled .outputChannel)
      | .error _ => false) = true := by decide +kernel
  obtain ⟨r, hsearch⟩ := hok
  obtain ⟨removal, c, hprepare, hselects, horient, hkept, -, hkernel, -⟩ :=
    isFullyTiled_of_search hsearch
  rw [hprepare] at hleft
  have hchannel := of_decide_eq_true hleft
  exact ⟨r, removal, c, hsearch, hprepare, hselects, horient, hchannel, hkept _ hchannel,
    hkernel⟩

end Scheduler

end ConvTiling
