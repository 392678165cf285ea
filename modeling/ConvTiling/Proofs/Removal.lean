import ConvTiling.Proofs.GreedyRemoval
import ConvTiling.Proofs.Residency

/-!
# Removing loops keeps a nest nested

An axis that is made fully tiled takes its extents from the layer, so the tile
lies in the layer as before, and it only grows, so the unrolling lies in it as
before (`Tiling.Nested.tileFully`). Which sets of axes are tried in which order
does not matter for that. What comes out of the removal of loops is the nest
with some axes fully tiled that fits the buffers, or the nest that was given
(`LoopNest.removeLoops_cases`).

In a moderate layer the removal has an answer: the sizes it compares are those
of tiles in the layer, and the iterations it counts are products over extents of
the output side, as no two axes share an extent.
-/

namespace ConvTiling

open Checked (Answers)

/-! ## Axes made fully tiled -/

/-- A level that takes over extents of the upper one lies in it still. -/
theorem Extents.LiesIn.takeOver {e upper : Extents} (h : e.LiesIn upper)
    (hupper : upper.Valid) (ds : List Dim) :
    (ds.foldl (fun e d => e.set d (upper.get d)) e).LiesIn upper := by
  induction ds generalizing e with
  | nil => exact h
  | cons d ds ih => exact ih (h.set (hupper.one_le_get d) (Int.le_refl _))

namespace Tiling

variable {t : Tiling}

/-- **An axis made fully tiled** keeps a tiling nested. -/
theorem Nested.tileFully (h : t.Nested) (a : Axis) : (t.tileFully a).Nested := by
  have htile : (t.tileFully a).tile.LiesIn t.full := h.tile.takeOver h.full a.carried
  refine ⟨h.full, htile, ?_⟩
  -- the tile has only grown, so what lay in it lies in it still
  refine h.unroll.mono ?_ ?_ ?_ fun d => ?_
  · rw [h.tile.stride, htile.stride]
  · rw [h.tile.paddingWidth, htile.paddingWidth]
  · rw [h.tile.paddingHeight, htile.paddingHeight]
  · rw [get_tile_tileFully]
    split
    · exact h.tile.le d
    · exact Int.le_refl _

theorem Nested.foldl_tileFully (h : t.Nested) (axes : List Axis) :
    (axes.foldl Tiling.tileFully t).Nested := by
  induction axes generalizing t with
  | nil => exact h
  | cons a axes ih => exact ih (h.tileFully a)

end Tiling

namespace LoopNest

variable {n m : LoopNest} {a : Accelerator} {axes : List Axis}

/-! ## What is removed -/

/-- **What the removal of loops gives**: the nest with some axes fully tiled,
which fits the buffers and may have taken on the dataflow of the output, or the
nest it was given. -/
theorem removeLoops_cases {r : LoopRemoval} (run : n.removeLoops a = .ok r) :
    (∃ axes, (n.tileFully axes).tiling.fits a = .ok true
      ∧ (r = .fits ((n.tileFully axes).setDataflow .output)
        ∨ r = .fits (n.tileFully axes)))
      ∨ r = .overflow n := by
  obtain ⟨axes, h⟩ := removes_of_removeLoops run
  cases h with
  | whole hfits => exact .inl ⟨_, hfits, .inl rfl⟩
  | triple _ hfits => exact .inl ⟨_, hfits, .inl rfl⟩
  | pair hbest => exact .inl ⟨_, hbest.fits, .inr rfl⟩
  | nothing => exact .inr rfl

/-- **Removing loops keeps a nest nested**, its layer, its unrolling and its
order on the chip. -/
theorem nested_of_removeLoops {r : LoopRemoval} (hn : n.tiling.Nested)
    (run : n.removeLoops a = .ok r) :
    r.nest.tiling.Nested ∧ r.nest.tiling.full = n.tiling.full
      ∧ r.nest.onChip = n.onChip := by
  obtain ⟨axes, -, rfl | rfl⟩ | rfl := removeLoops_cases run
  · exact ⟨hn.foldl_tileFully axes, Tiling.full_foldl_tileFully _ axes, rfl⟩
  · exact ⟨hn.foldl_tileFully axes, Tiling.full_foldl_tileFully _ axes, rfl⟩
  · exact ⟨hn, rfl, rfl⟩

/-- The removal of loops keeps an order whose directions agree, or takes on a
canonical one. -/
theorem bijective_of_removeLoops {r : LoopRemoval} (hn : n.offChip.Bijective)
    (run : n.removeLoops a = .ok r) : r.nest.offChip.Bijective := by
  obtain ⟨axes, -, rfl | rfl⟩ | rfl := removeLoops_cases run
  · exact LoopOrder.bijective_setDataflow _ _
  · exact hn
  · exact hn

/-! ## Answers -/

/-- Whether a set of axes fits has an answer in a moderate layer. -/
theorem answers_fits_tileFully (hfull : n.tiling.full.Moderate) (hn : n.tiling.Nested)
    (axes : List Axis) : Answers ((n.tileFully axes).tiling.fits a) := by
  have hnested := hn.foldl_tileFully axes
  refine Tiling.answers_fits ?_ hnested.tile
  show (axes.foldl Tiling.tileFully n.tiling).full.Moderate
  rwa [Tiling.full_foldl_tileFully]

/-- **The iterations that some axes remove** are the product of the layer over
their extents, which a moderate layer has as a word if no two share one. -/
theorem answers_iterationsRemoved (hfull : n.tiling.full.Moderate)
    (haxes : (axes.flatMap Axis.dims).Nodup) : Answers (n.iterationsRemoved axes) := by
  have hone := hfull.valid.one_le_get
  have hdims : ∀ a : Axis, a.dims ⊆ outputSide := by
    intro a
    cases a <;> decide
  have hrun : n.iterationsRemoved axes
      = .ok (axes.map fun a => n.tiling.full.volume a.dims).prod := by
    refine Signed.productBy_eq_ok (fun a _ => ?_)
      (fun a _ => Extents.one_le_volume hone a.dims) ?_
    · refine Extents.productBy_get_eq_ok hone ?_
      exact hfull.fits_volume hfull.valid.liesIn_self (by cases a <;> decide)
        (.inr (hdims a))
    · rw [← Extents.volume_flatMap]
      refine hfull.fits_volume hfull.valid.liesIn_self haxes (.inr fun d hd => ?_)
      obtain ⟨a, -, hd⟩ := List.mem_flatMap.1 hd
      exact hdims a hd
  exact ⟨_, hrun⟩

/-- A moderate layer has an answer to which set of axes is the first to fit. -/
theorem answers_firstFitting? (hfull : n.tiling.full.Moderate) (hn : n.tiling.Nested)
    (sets : List (List Axis)) : Answers (n.firstFitting? a sets) := by
  induction sets with
  | nil => exact Checked.answers_ok none
  | cons axes sets ih =>
    refine (answers_fits_tileFully hfull hn axes).bind fun b _ => ?_
    cases b with
    | true => exact Checked.answers_pure _
    | false => exact ih

/-- A moderate layer has an answer to which pair of axes is better, if the two
share no extent. -/
theorem answers_betterPair (hfull : n.tiling.full.Moderate) (hn : n.tiling.Nested)
    (best : Option (Int × LoopNest)) (haxes : (axes.flatMap Axis.dims).Nodup) :
    Answers (n.betterPair a best axes) := by
  refine (answers_fits_tileFully hfull hn axes).bind fun b _ => ?_
  cases b with
  | false => exact Checked.answers_pure _
  | true =>
    refine (answers_iterationsRemoved hfull haxes).bind fun count _ => ?_
    cases best <;> exact Checked.answers_pure _

/-- **Loops of a moderate layer are removed.** -/
theorem answers_removeLoops (hfull : n.tiling.full.Moderate) (hn : n.tiling.Nested) :
    Answers (n.removeLoops a) := by
  refine (answers_firstFitting? hfull hn _).bind fun found _ => ?_
  cases found with
  | some m => exact Checked.answers_pure _
  | none =>
    have hpairs : ∀ axes ∈ LoopRemoval.pairs, (axes.flatMap Axis.dims).Nodup := by decide
    have hfold : Answers (LoopRemoval.pairs.foldlM (n.betterPair a) none) :=
      Checked.answers_foldlM_of_forall fun axes hmem best =>
        answers_betterPair hfull hn best (hpairs axes hmem)
    refine hfold.bind fun best _ => ?_
    cases best <;> exact Checked.answers_pure _

end LoopNest

end ConvTiling
