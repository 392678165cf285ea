import ConvTiling.Proofs.Products
import ConvTiling.Schedule.LoopRemoval

/-!
# Which loops are removed

The removal of loops makes the axes of one set fully tiled, and there are eleven sets to
choose from: all four axes, four sets of three and six sets of two
(`LoopRemoval.sets`). The rule by which it chooses is `LoopNest.Removes`. A set fits if
the tile with its axes fully tiled fits the buffers. All four axes go first; then the
sets of three, the first in the table that fits; then the sets of two, the one that
removes the most iterations of those that fit, and the first of several. If nothing fits
nothing is done.

The removal of loops follows the rule (`LoopNest.removes_of_removeLoops`), and whatever
else is known of a nest of which loops were removed is read off it. The iterations that a
set removes are counted on words; where the count has an answer it is the product of the
extents of the layer (`LoopNest.volumeAlong`), and the rule is stated with that.

The greed of the rule is that no set which fits beats the one that is chosen
(`LoopNest.Removes.removesNoMore`): it has no more axes, and if both have two it removes
no more iterations.
-/

namespace ConvTiling

open Checked (bind_eq_ok_iff pure_eq_ok_iff)

/-! ## Axes made fully tiled -/

namespace Tiling

@[simp] theorem full_foldl_tileFully (t : Tiling) (axes : List Axis) :
    (axes.foldl Tiling.tileFully t).full = t.full := by
  induction axes generalizing t with
  | nil => rfl
  | cons a axes ih => rw [List.foldl_cons, ih, full_tileFully]

@[simp] theorem unroll_foldl_tileFully (t : Tiling) (axes : List Axis) :
    (axes.foldl Tiling.tileFully t).unroll = t.unroll := by
  induction axes generalizing t with
  | nil => rfl
  | cons a axes ih => rw [List.foldl_cons, ih, unroll_tileFully]

/-- A tile that takes over an axis has the numbers of the extents carried by it from the
layer, and keeps its others. -/
theorem field_tile_tileFully (t : Tiling) (a : Axis) (f : Field) :
    (t.tileFully a).tile.field f
      = if ∃ d ∈ a.carried, d.field = f then t.full.field f else t.tile.field f := by
  cases a <;> cases f <;> rfl

/-- **A tile that takes over several axes** has the numbers of the extents carried by one
of them from the layer, and keeps its others, its stride and padding among them. -/
theorem field_tile_foldl_tileFully (t : Tiling) (axes : List Axis) (f : Field) :
    (axes.foldl Tiling.tileFully t).tile.field f
      = if ∃ a ∈ axes, ∃ d ∈ a.carried, d.field = f then t.full.field f
        else t.tile.field f := by
  induction axes generalizing t with
  | nil => simp
  | cons a axes ih =>
    rw [List.foldl_cons, ih, full_tileFully, field_tile_tileFully]
    by_cases hf : ∃ d ∈ a.carried, d.field = f <;> simp [hf]

/-- The extents of such a tile. -/
theorem get_tile_foldl_tileFully (t : Tiling) (axes : List Axis) (d : Dim) :
    (axes.foldl Tiling.tileFully t).tile.get d
      = if ∃ a ∈ axes, d ∈ a.carried then t.full.get d else t.tile.get d := by
  rw [Extents.get, field_tile_foldl_tileFully]
  simp only [Dim.field_inj, exists_eq_right, Extents.get]

end Tiling

/-! ## The rule -/

namespace LoopRemoval

/-- **The sets of axes that are tried** when loops are removed: all four axes, the sets
of three and the sets of two. -/
def sets : List (List Axis) := Axis.all :: triples ++ pairs

theorem length_of_mem_triples {set : List Axis} (h : set ∈ triples) : set.length = 3 := by
  have hall : ∀ set ∈ triples, set.length = 3 := by decide
  exact hall set h

theorem length_of_mem_pairs {set : List Axis} (h : set ∈ pairs) : set.length = 2 := by
  have hall : ∀ set ∈ pairs, set.length = 2 := by decide
  exact hall set h

/-- No set has more than all axes, and all but that have no more than three. -/
theorem length_le_of_mem_sets {set : List Axis} (h : set ∈ sets) :
    set.length ≤ 4 ∧ (set ≠ Axis.all → set.length ≤ 3) := by
  have hall : ∀ set ∈ sets, set.length ≤ 4 ∧ (set ≠ Axis.all → set.length ≤ 3) := by decide
  exact hall set h

end LoopRemoval

namespace LoopNest

variable {n m : LoopNest} {a : Accelerator} {axes set : List Axis}
  {tried : List (List Axis)} {r : LoopRemoval}

/-- **The iterations that a set of axes removes**, as an integer: the product of the
extents of the layer along them. -/
def volumeAlong (n : LoopNest) (axes : List Axis) : Int :=
  n.tiling.full.volume (axes.flatMap Axis.dims)

/-- The iterations that are counted are those that are removed. -/
theorem eq_volumeAlong_of_iterationsRemoved {count : Int}
    (run : n.iterationsRemoved axes = .ok count) : count = n.volumeAlong axes := by
  rw [volumeAlong, Extents.volume_flatMap]
  exact (Signed.eq_prod_of_productBy (fun _ _ _ h => Extents.eq_volume_of_productBy h) run).1

/-- **The set that removes the most iterations** of those that fit, and the first one of
several that remove as many. -/
structure RemovesMost (n : LoopNest) (a : Accelerator) (tried : List (List Axis))
    (axes : List Axis) : Prop where
  fits : (n.tileFully axes).tiling.fits a = .ok true
  most : ∀ set ∈ tried, (n.tileFully set).tiling.fits a = .ok true →
    n.volumeAlong set ≤ n.volumeAlong axes
  first : ∃ before after, tried = before ++ axes :: after
    ∧ ∀ set ∈ before, (n.tileFully set).tiling.fits a = .ok true →
      n.volumeAlong set < n.volumeAlong axes

/-- **The rule by which loops are removed**: which axes are made fully tiled, and what
comes of it. With one loop left off the chip or none, the nest takes on the dataflow of
the output as well. -/
inductive Removes (n : LoopNest) (a : Accelerator) : List Axis → LoopRemoval → Prop
  /-- All four axes, if they fit. -/
  | whole (fits : (n.tileFully Axis.all).tiling.fits a = .ok true) :
      Removes n a Axis.all (.fits ((n.tileFully Axis.all).setDataflow .output))
  /-- Otherwise the first set of three that fits. -/
  | triple {axes : List Axis} {before after : List (List Axis)}
      (table : LoopRemoval.triples = before ++ axes :: after)
      (fits : (n.tileFully axes).tiling.fits a = .ok true)
      (earlier : ∀ set ∈ Axis.all :: before, (n.tileFully set).tiling.fits a = .ok false) :
      Removes n a axes (.fits ((n.tileFully axes).setDataflow .output))
  /-- Otherwise the set of two that removes the most iterations of those that fit. -/
  | pair {axes : List Axis} (best : n.RemovesMost a LoopRemoval.pairs axes)
      (earlier : ∀ set ∈ Axis.all :: LoopRemoval.triples,
        (n.tileFully set).tiling.fits a = .ok false) :
      Removes n a axes (.fits (n.tileFully axes))
  /-- Otherwise none. -/
  | nothing (all : ∀ set ∈ LoopRemoval.sets, (n.tileFully set).tiling.fits a = .ok false) :
      Removes n a [] (.overflow n)

/-! ## The removal follows the rule -/

/-- **The search for a set that fits** ends with nothing if none does, and with the first
that does otherwise. -/
theorem firstFitting?_cases {sets : List (List Axis)} {found : Option LoopNest}
    (run : n.firstFitting? a sets = .ok found) :
    (found = none ∧ ∀ set ∈ sets, (n.tileFully set).tiling.fits a = .ok false)
      ∨ ∃ before axes after, sets = before ++ axes :: after
        ∧ (∀ set ∈ before, (n.tileFully set).tiling.fits a = .ok false)
        ∧ (n.tileFully axes).tiling.fits a = .ok true ∧ found = some (n.tileFully axes) := by
  induction sets with
  | nil =>
    obtain rfl := Except.ok.inj run
    exact .inl ⟨rfl, List.forall_mem_nil _⟩
  | cons axes sets ih =>
    obtain ⟨b, hb, run⟩ := bind_eq_ok_iff.1 run
    cases b with
    | true =>
      obtain rfl := pure_eq_ok_iff.1 run
      exact .inr ⟨[], axes, sets, rfl, List.forall_mem_nil _, hb, rfl⟩
    | false =>
      obtain ⟨hfound, hall⟩ | ⟨before, set, after, rfl, hbefore, hset⟩ := ih run
      · exact .inl ⟨hfound, List.forall_mem_cons.2 ⟨hb, hall⟩⟩
      · exact .inr ⟨axes :: before, set, after, rfl,
          List.forall_mem_cons.2 ⟨hb, hbefore⟩, hset⟩

/-- The best set stays the best if the next one does not remove more. -/
theorem RemovesMost.keep (h : n.RemovesMost a tried axes)
    (hset : (n.tileFully set).tiling.fits a = .ok true →
      n.volumeAlong set ≤ n.volumeAlong axes) : n.RemovesMost a (tried ++ [set]) axes where
  fits := h.fits
  most := List.forall_mem_append.2 ⟨h.most, List.forall_mem_singleton.2 hset⟩
  first := by
    obtain ⟨before, after, rfl, hbefore⟩ := h.first
    exact ⟨before, after ++ [set], by simp, hbefore⟩

/-- The next set becomes the best if it fits and removes more than any before it. -/
theorem RemovesMost.next (hfits : (n.tileFully axes).tiling.fits a = .ok true)
    (hmore : ∀ set ∈ tried, (n.tileFully set).tiling.fits a = .ok true →
      n.volumeAlong set < n.volumeAlong axes) : n.RemovesMost a (tried ++ [axes]) axes where
  fits := hfits
  most := List.forall_mem_append.2 ⟨fun set hset hfit => Int.le_of_lt (hmore set hset hfit),
    List.forall_mem_singleton.2 fun _ => Int.le_refl _⟩
  first := ⟨tried, [], rfl, hmore⟩

/-- **What is held of the sets that were tried**: nothing if none fits, and otherwise the
one that removes the most iterations. -/
inductive Held (n : LoopNest) (a : Accelerator) (tried : List (List Axis)) :
    Option (Int × LoopNest) → Prop
  | nothing (all : ∀ set ∈ tried, (n.tileFully set).tiling.fits a = .ok false) :
      Held n a tried none
  | best {axes : List Axis} (best : n.RemovesMost a tried axes) :
      Held n a tried (some (n.volumeAlong axes, n.tileFully axes))

/-- **Taking one more set into account.** -/
theorem Held.betterPair {best best' : Option (Int × LoopNest)} (h : n.Held a tried best)
    (run : n.betterPair a best set = .ok best') : n.Held a (tried ++ [set]) best' := by
  obtain ⟨b, hb, run⟩ := bind_eq_ok_iff.1 run
  cases b with
  | false =>
    obtain rfl := pure_eq_ok_iff.1 run
    cases h with
    | nothing hall =>
      exact .nothing (List.forall_mem_append.2 ⟨hall, List.forall_mem_singleton.2 hb⟩)
    | best hbest => exact .best (hbest.keep fun hfit => nomatch hb.symm.trans hfit)
  | true =>
    obtain ⟨count, hcount, run⟩ := bind_eq_ok_iff.1 run
    obtain rfl := eq_volumeAlong_of_iterationsRemoved hcount
    cases h with
    | nothing hall =>
      obtain rfl := pure_eq_ok_iff.1 run
      exact .best (.next hb fun s hs hfit => nomatch (hall s hs).symm.trans hfit)
    | best hbest =>
      obtain rfl := pure_eq_ok_iff.1 run
      split
      · next hless =>
        exact .best (.next hb fun s hs hfit =>
          Int.lt_of_le_of_lt (hbest.most s hs hfit) hless)
      · next hless => exact .best (hbest.keep fun _ => Int.not_lt.1 hless)

/-- Taking all sets into account, one after the other. -/
theorem Held.foldlM_betterPair {sets : List (List Axis)}
    {best best' : Option (Int × LoopNest)} (h : n.Held a tried best)
    (run : sets.foldlM (n.betterPair a) best = .ok best') :
    n.Held a (tried ++ sets) best' := by
  induction sets generalizing tried best with
  | nil =>
    obtain rfl := pure_eq_ok_iff.1 run
    rwa [List.append_nil]
  | cons set sets ih =>
    obtain ⟨next, hstep, hrest⟩ := Checked.foldlM_cons_eq_ok_iff.1 run
    rw [List.append_cons]
    exact ih (h.betterPair hstep) hrest

/-- **The removal of loops follows the rule.** -/
theorem removes_of_removeLoops (run : n.removeLoops a = .ok r) :
    ∃ axes, n.Removes a axes r := by
  obtain ⟨found, hfound, run⟩ := bind_eq_ok_iff.1 run
  obtain ⟨rfl, hnone⟩ | ⟨before, axes, after, htable, hbefore, hfits, rfl⟩ :=
    firstFitting?_cases hfound
  · obtain ⟨best, hfold, run⟩ := bind_eq_ok_iff.1 run
    have hheld : n.Held a LoopRemoval.pairs best :=
      Held.foldlM_betterPair (.nothing (List.forall_mem_nil _)) hfold
    cases hheld with
    | nothing hall =>
      obtain rfl := pure_eq_ok_iff.1 run
      exact ⟨_, .nothing (List.forall_mem_append.2 ⟨hnone, hall⟩)⟩
    | best hbest =>
      obtain rfl := pure_eq_ok_iff.1 run
      exact ⟨_, .pair hbest hnone⟩
  · obtain rfl := pure_eq_ok_iff.1 run
    -- the set found is the first of the table, which is all four axes, or a set of three
    cases before with
    | nil =>
      obtain ⟨rfl, -⟩ := List.cons.inj htable
      exact ⟨_, .whole hfits⟩
    | cons all before =>
      rw [List.cons_append] at htable
      obtain ⟨rfl, htriples⟩ := List.cons.inj htable
      exact ⟨_, .triple htriples hfits hbefore⟩

/-! ## Where nothing fits -/

/-- None of some sets is the first to fit if none fits. -/
theorem firstFitting?_eq_none {sets : List (List Axis)}
    (hnone : ∀ set ∈ sets, (n.tileFully set).tiling.fits a = .ok false) :
    n.firstFitting? a sets = .ok none := by
  induction sets with
  | nil => rfl
  | cons set sets ih =>
    obtain ⟨hset, hsets⟩ := List.forall_mem_cons.1 hnone
    exact bind_eq_ok_iff.2 ⟨false, hset, ih hsets⟩

/-- None of some sets is the best if none fits. -/
theorem foldlM_betterPair_eq_none {sets : List (List Axis)}
    (hnone : ∀ set ∈ sets, (n.tileFully set).tiling.fits a = .ok false) :
    sets.foldlM (n.betterPair a) none = .ok none := by
  induction sets with
  | nil => rfl
  | cons set sets ih =>
    obtain ⟨hset, hsets⟩ := List.forall_mem_cons.1 hnone
    have hstep : n.betterPair a none set = .ok none := bind_eq_ok_iff.2 ⟨false, hset, rfl⟩
    exact Checked.foldlM_cons_eq_ok_iff.2 ⟨none, hstep, ih hsets⟩

/-- **Where no set fits no loops are removed.** No iterations are counted then, so there
is an answer. -/
theorem removeLoops_eq_overflow
    (hall : ∀ set ∈ LoopRemoval.sets, (n.tileFully set).tiling.fits a = .ok false) :
    n.removeLoops a = .ok (.overflow n) := by
  obtain ⟨hlarge, hpairs⟩ := List.forall_mem_append.1 hall
  exact bind_eq_ok_iff.2 ⟨none, firstFitting?_eq_none hlarge,
    bind_eq_ok_iff.2 ⟨none, foldlM_betterPair_eq_none hpairs, rfl⟩⟩

/-! ## What the rule says -/

/-- The best of some sets is one of them. -/
theorem RemovesMost.mem (h : n.RemovesMost a tried axes) : axes ∈ tried := by
  obtain ⟨before, after, rfl, -⟩ := h.first
  exact List.mem_append_right _ List.mem_cons_self

/-- What is made fully tiled is one of the sets, and fits. -/
theorem Removes.mem_sets (h : n.Removes a axes r) (hfeasible : r.isFeasible = true) :
    axes ∈ LoopRemoval.sets ∧ (n.tileFully axes).tiling.fits a = .ok true := by
  cases h with
  | whole hfits => exact ⟨by decide, hfits⟩
  | triple htable hfits =>
    have hmem : axes ∈ LoopRemoval.triples := htable ▸ by simp
    exact ⟨List.mem_append_left _ (List.mem_cons_of_mem _ hmem), hfits⟩
  | pair hbest => exact ⟨List.mem_append_right _ hbest.mem, hbest.fits⟩
  | nothing => cases hfeasible

/-- **Loops are removed** unless no set of axes fits. -/
theorem Removes.isFeasible_eq_false_iff (h : n.Removes a axes r) :
    r.isFeasible = false ↔
      ∀ set ∈ LoopRemoval.sets, (n.tileFully set).tiling.fits a = .ok false := by
  by_cases hfeasible : r.isFeasible = true
  · obtain ⟨hmem, hfits⟩ := h.mem_sets hfeasible
    refine iff_of_false (by rw [hfeasible]; decide) fun hall => ?_
    cases hfits.symm.trans (hall axes hmem)
  · cases h with
    | nothing hall => exact iff_of_true rfl hall
    | _ => exact absurd rfl hfeasible

/-- **A set removes no more than another**: it has no more axes, and if both have two it
removes no more iterations. -/
def RemovesNoMore (n : LoopNest) (set axes : List Axis) : Prop :=
  set.length ≤ axes.length
    ∧ (set.length = 2 → axes.length = 2 → n.volumeAlong set ≤ n.volumeAlong axes)

/-- **No set that fits removes more than the one that is chosen.** -/
theorem Removes.removesNoMore (h : n.Removes a axes r) (hset : set ∈ LoopRemoval.sets)
    (hfits : (n.tileFully set).tiling.fits a = .ok true) : n.RemovesNoMore set axes := by
  -- a set that fits is none of those that do not
  have hnot : ∀ {sets : List (List Axis)},
      (∀ set ∈ sets, (n.tileFully set).tiling.fits a = .ok false) → set ∉ sets :=
    fun hall hmem => nomatch (hall set hmem).symm.trans hfits
  cases h with
  | whole =>
    exact ⟨(LoopRemoval.length_le_of_mem_sets hset).1, fun _ hall => absurd hall (by decide)⟩
  | triple htable _ hearlier =>
    have haxes : axes.length = 3 := LoopRemoval.length_of_mem_triples (htable ▸ by simp)
    have hne : set ≠ Axis.all := fun heq => hnot hearlier (heq ▸ List.mem_cons_self)
    rw [RemovesNoMore, haxes]
    exact ⟨(LoopRemoval.length_le_of_mem_sets hset).2 hne,
      fun _ hpair => absurd hpair (by decide)⟩
  | pair hbest hearlier =>
    have hmem : set ∈ LoopRemoval.pairs :=
      (List.mem_append.1 hset).resolve_left (hnot hearlier)
    rw [RemovesNoMore, LoopRemoval.length_of_mem_pairs hmem,
      LoopRemoval.length_of_mem_pairs hbest.mem]
    exact ⟨Nat.le_refl 2, fun _ _ => hbest.most set hmem hfits⟩
  | nothing hall => exact absurd hset (hnot hall)

/-! ## What is handed on -/

@[simp] theorem offChip_tileFully (n : LoopNest) (axes : List Axis) :
    (n.tileFully axes).offChip = n.offChip := rfl

@[simp] theorem offChip_setDataflow (n : LoopNest) (o : Operand) :
    (n.setDataflow o).offChip = n.offChip.setDataflow o := rfl

/-- The tiling that is handed on is the one with the axes chosen fully tiled. -/
theorem Removes.tiling_nest (h : n.Removes a axes r) :
    r.nest.tiling = (n.tileFully axes).tiling := by
  cases h <;> rfl

/-- **A nest with some axes fully tiled**: the tile takes the extents carried by the axes
from the layer, and all else stays as it was, but for the order off the chip. -/
structure FullAlong (n : LoopNest) (axes : List Axis) (m : LoopNest) : Prop where
  full : m.tiling.full = n.tiling.full
  unroll : m.tiling.unroll = n.tiling.unroll
  onChip : m.onChip = n.onChip
  tile : ∀ f, m.tiling.tile.field f
    = if ∃ x ∈ axes, ∃ d ∈ x.carried, d.field = f then n.tiling.full.field f
      else n.tiling.tile.field f

theorem fullAlong_tileFully (n : LoopNest) (axes : List Axis) :
    n.FullAlong axes (n.tileFully axes) where
  full := Tiling.full_foldl_tileFully _ axes
  unroll := Tiling.unroll_foldl_tileFully _ axes
  onChip := rfl
  tile := Tiling.field_tile_foldl_tileFully _ axes

/-- The dataflow of a nest is no part of its tiling. -/
theorem FullAlong.setDataflow (h : n.FullAlong axes m) (o : Operand) :
    n.FullAlong axes (m.setDataflow o) :=
  ⟨h.full, h.unroll, h.onChip, h.tile⟩

/-- The nest that is handed on has the axes chosen fully tiled. -/
theorem Removes.fullAlong (h : n.Removes a axes r) : n.FullAlong axes r.nest := by
  cases h with
  | whole => exact (n.fullAlong_tileFully _).setDataflow _
  | triple => exact (n.fullAlong_tileFully _).setDataflow _
  | pair => exact n.fullAlong_tileFully _
  | nothing => exact n.fullAlong_tileFully []

/-- Its order off the chip takes on the dataflow of the output unless two loops are left
there. -/
theorem Removes.offChip_eq (h : n.Removes a axes (.fits m)) :
    m.offChip = if axes.length = 2 then n.offChip else n.offChip.setDataflow .output := by
  cases h with
  | whole => rw [if_neg (by decide), offChip_setDataflow, offChip_tileFully]
  | triple htable =>
    have haxes : axes.length = 3 := LoopRemoval.length_of_mem_triples (htable ▸ by simp)
    rw [if_neg (by omega), offChip_setDataflow, offChip_tileFully]
  | pair hbest =>
    rw [if_pos (LoopRemoval.length_of_mem_pairs hbest.mem), offChip_tileFully]

/-- **What the removal of loops gives.** It gives up exactly when no set of axes fits the
buffers, and hands on the nest it was given. Otherwise it hands on a nest that fits them,
the one it was given with one of the sets fully tiled. That is the set of all axes if it
fits, or else the first set of three that fits, or else the set of two that removes the
most iterations of those that fit, and the first of several that remove as many. The
layer, the unrolling, the order on the chip, and the stride and padding of the tile stay
as they were. The order off the chip does if the set has two axes, and otherwise takes on
the dataflow of the output. -/
theorem removeLoops_greedy (run : n.removeLoops a = .ok r) :
    (r.isFeasible = false ↔
        ∀ set ∈ LoopRemoval.sets, (n.tileFully set).tiling.fits a = .ok false)
      ∧ (r.isFeasible = false → r = .overflow n)
      ∧ ∀ m, r = .fits m → m.tiling.fits a = .ok true
        ∧ ∃ axes ∈ LoopRemoval.sets, n.Removes a axes r ∧ n.FullAlong axes m
          ∧ m.offChip
            = if axes.length = 2 then n.offChip else n.offChip.setDataflow .output := by
  obtain ⟨axes, h⟩ := removes_of_removeLoops run
  refine ⟨h.isFeasible_eq_false_iff, fun hinfeasible => ?_, ?_⟩
  · cases h with
    | nothing => rfl
    | _ => cases hinfeasible
  · rintro m rfl
    obtain ⟨hmem, hfits⟩ := h.mem_sets rfl
    exact ⟨h.tiling_nest ▸ hfits, axes, hmem, h, h.fullAlong, h.offChip_eq⟩

/-- Six sets of two axes are left for buffers too small for three. Two of them fit: the
kernel with the channels of the input, and the kernel with those of the output, of which
there are more. -/
theorem removeLoops_greedy_moreOutputChannels :
    let a : Accelerator :=
      ⟨1, 1.0, 1.0, ⟨64, 32, 72⟩, 1, 3, [.outputWidth], [.outputHeight]⟩
    let n : LoopNest := { tiling := ⟨⟨1, 0, 0, 3, 3, 3, 1, 1, 3, 3, 4⟩,
      ⟨1, 0, 0, 1, 1, 1, 1, 1, 1, 1, 1⟩, ⟨1, 0, 0, 1, 1, 1, 1, 1, 1, 1, 1⟩⟩ }
    (n.tileFully [.kernelMap, .inputChannel]).tiling.fits a = .ok true
      ∧ n.removeLoops a = .ok (.fits (n.tileFully [.kernelMap, .outputChannel]))
      ∧ ∃ axes ∈ LoopRemoval.sets, n.Removes a axes
        (.fits (n.tileFully [.kernelMap, .outputChannel])) := by
  intro a n
  have run : n.removeLoops a = .ok (.fits (n.tileFully [.kernelMap, .outputChannel])) := by
    decide +kernel
  obtain ⟨-, -, hfits⟩ := removeLoops_greedy run
  obtain ⟨-, axes, hmem, hremoves, -⟩ := hfits _ rfl
  exact ⟨by decide +kernel, run, axes, hmem, hremoves⟩

end LoopNest

end ConvTiling
