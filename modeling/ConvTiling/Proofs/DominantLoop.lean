import Mathlib.Order.Bounds.Basic
import ConvTiling.Proofs.LayerAlone

/-!
# The loop that decides the dataflow

The dataflow is that of the loop with the most iterations, and of several such loops
that of the first one. Exactly one axis is like that (`Axis.Dominates`), so it need not be
said how it is found: the axes are gone through in order, and the one that leads those
that were looked at is replaced only by one with more iterations
(`Axis.Leads.foldl`).

The iterations of a loop are the least number of tiles that cover the layer along
it. A loop has a single one exactly where its axis is fully tiled, so no loop is left to
decide, and the output is kept, exactly if all of them are
(`Tiling.chooseDataflow_of_dominates`). Of the nest the choice changes the order off the
chip alone, and that forgets its bindings and keeps its flags
(`LoopNest.adoptDataflow_exact`).
-/

namespace ConvTiling

open Checked (bind_eq_ok_iff pure_eq_ok_iff)

/-! ## The first of the largest -/

namespace Axis

variable {a b best : Axis} {counts : Axis → Int} {seen : List Axis}

/-- Two axes at one place are one axis. -/
theorem ordinal_injective (h : a.ordinal = b.ordinal) : a = b := by
  have hsome := ofOrdinal?_ordinal a
  rw [h, ofOrdinal?_ordinal] at hsome
  exact (Option.some.inj hsome).symm

/-- **An axis dominates**: no axis has a larger count, and those before it have
smaller ones. -/
structure Dominates (a : Axis) (counts : Axis → Int) : Prop where
  le : ∀ b, counts b ≤ counts a
  lt : ∀ b, b.ordinal < a.ordinal → counts b < counts a

/-- **At most one axis dominates**: the count of the earlier one of two would have to be
the smaller one. -/
theorem Dominates.unique (ha : a.Dominates counts) (hb : b.Dominates counts) : a = b := by
  obtain hlt | heq | hgt := Nat.lt_trichotomy a.ordinal b.ordinal
  · exact absurd (hb.lt a hlt) (Int.not_lt.2 (ha.le b))
  · exact ordinal_injective heq
  · exact absurd (ha.lt b hgt) (Int.not_lt.2 (hb.le a))

/-- **An axis leads** the axes that were looked at. -/
structure Leads (a : Axis) (seen : List Axis) (counts : Axis → Int) : Prop where
  mem : a ∈ seen
  le : ∀ b ∈ seen, counts b ≤ counts a
  lt : ∀ b ∈ seen, b.ordinal < a.ordinal → counts b < counts a

/-- **A later axis** takes the lead if its count is larger. -/
theorem Leads.step (h : best.Leads seen counts)
    (hlater : ∀ b ∈ seen, b.ordinal < a.ordinal) :
    (if counts best < counts a then a else best).Leads (seen ++ [a]) counts := by
  split
  · next hmore =>
    have hbeaten : ∀ b ∈ seen, counts b < counts a := fun b hb =>
      Int.lt_of_le_of_lt (h.le b hb) hmore
    refine ⟨List.mem_append_right _ List.mem_cons_self, ?_, ?_⟩
    · refine List.forall_mem_append.2 ⟨fun b hb => Int.le_of_lt (hbeaten b hb), ?_⟩
      exact List.forall_mem_singleton.2 (Int.le_refl _)
    · refine List.forall_mem_append.2 ⟨fun b hb _ => hbeaten b hb, ?_⟩
      exact List.forall_mem_singleton.2 fun hlt => absurd hlt (Nat.lt_irrefl _)
  · next hless =>
    refine ⟨List.mem_append_left _ h.mem, ?_, ?_⟩
    · exact List.forall_mem_append.2
        ⟨h.le, List.forall_mem_singleton.2 (Int.not_lt.1 hless)⟩
    · -- the new axis is not before the one that leads
      have hafter := hlater best h.mem
      refine List.forall_mem_append.2 ⟨h.lt, List.forall_mem_singleton.2 fun hlt => ?_⟩
      exact absurd hlt (Nat.lt_asymm hafter)

/-- **Going through the axes in order** ends with the one that leads them all. -/
theorem Leads.foldl (h : best.Leads seen counts) (rest : List Axis)
    (hordered : (seen ++ rest).Pairwise fun a b => a.ordinal < b.ordinal) :
    (rest.foldl (fun best a => if counts best < counts a then a else best) best).Leads
      (seen ++ rest) counts := by
  induction rest generalizing seen best with
  | nil =>
    rw [List.append_nil]
    exact h
  | cons a rest ih =>
    rw [List.append_cons] at hordered ⊢
    obtain ⟨hseen, -, -⟩ := List.pairwise_append.1 hordered
    obtain ⟨-, -, hlater⟩ := List.pairwise_append.1 hseen
    exact ih (h.step fun b hb => hlater b hb a List.mem_cons_self) hordered

end Axis

/-- The least number of tiles that cover a length. -/
theorem isLeast_quotientUp {full tile : Int} (hfull : 1 ≤ full) (htile : 1 ≤ tile) :
    IsLeast {k | full ≤ k * tile} (quotientUp full tile) :=
  ⟨(quotientUp_le_iff hfull htile).1 (Int.le_refl _),
    fun _ hk => (quotientUp_le_iff hfull htile).2 hk⟩

/-! ## The choice -/

namespace Tiling

variable {t : Tiling} {s : Operand} {a : Axis}

/-- **The axis that is found dominates.** -/
theorem dominates_dominantAxis (counts : PerAxis Int) :
    (dominantAxis counts).Dominates counts.get := by
  have hfirst : Axis.kernelMap.Leads [.kernelMap] counts.get :=
    ⟨List.mem_cons_self, List.forall_mem_singleton.2 (Int.le_refl _),
      List.forall_mem_singleton.2 fun hlt => absurd hlt (Nat.lt_irrefl _)⟩
  have hleads := hfirst.foldl [.inputChannel, .outputMap, .outputChannel] (by decide)
  have hfound : dominantAxis counts = [Axis.inputChannel, .outputMap, .outputChannel].foldl
      (fun best a => if counts.get best < counts.get a then a else best) .kernelMap := by
    unfold dominantAxis Axis.all
    rw [List.foldl_cons, ite_self]
  rw [← hfound] at hleads
  exact ⟨fun b => hleads.le b b.mem_all, fun b => hleads.lt b b.mem_all⟩

/-- The iterations that are chosen by are the numbers of tiles along every axis. -/
theorem get_eq_tilesOver_of_axisIterations {counts : PerAxis Int}
    (run : t.axisIterations = .ok counts) : counts.get = fun a => t.tilesOver a.dims :=
  funext fun a => eq_tilesOver_of_tileCount (axisIterations_eq_ok_iff.1 run a)

/-- **A loop has a single iteration** exactly if the tile has the whole layer along it. -/
theorem tilesOver_dims_eq_one_iff (hone : ∀ d ∈ a.dims, 1 ≤ t.tile.get d)
    (hle : ∀ d ∈ a.dims, t.tile.get d ≤ t.full.get d) :
    t.tilesOver a.dims = 1 ↔ t.IsFullyTiled a := by
  have hfull : ∀ d ∈ a.dims, 1 ≤ t.full.get d := fun d hd =>
    Int.le_trans (hone d hd) (hle d hd)
  rw [tilesOver_eq_one_iff hfull hone]
  refine forall₂_congr fun d hd => ?_
  rw [quotientUp_eq_one_iff (hfull d hd) (hone d hd)]
  exact ⟨fun h => Int.le_antisymm h (hle d hd), fun h => Int.le_of_eq h⟩

/-- **The dataflow that is chosen** is that of the dominating axis, unless every axis is
fully tiled: then no axis has more than one iteration. -/
theorem chooseDataflow_of_dominates (hone : ∀ a : Axis, ∀ d ∈ a.dims, 1 ≤ t.tile.get d)
    (hle : ∀ a : Axis, ∀ d ∈ a.dims, t.tile.get d ≤ t.full.get d)
    (run : t.chooseDataflow = .ok s) (ha : a.Dominates fun b => t.tilesOver b.dims) :
    ((∀ b, t.IsFullyTiled b) → s = .output)
      ∧ (¬ (∀ b, t.IsFullyTiled b) → s = a.dataflow) := by
  obtain ⟨counts, hcounts, run⟩ := bind_eq_ok_iff.1 run
  obtain rfl := pure_eq_ok_iff.1 run
  have hget := get_eq_tilesOver_of_axisIterations hcounts
  have hfound := dominates_dominantAxis counts
  rw [hget] at hfound
  rw [← ha.unique hfound, hget]
  have hwhole : ∀ b : Axis, t.tilesOver b.dims = 1 ↔ t.IsFullyTiled b := fun b =>
    tilesOver_dims_eq_one_iff (hone b) (hle b)
  refine ⟨fun hall => ?_, fun hsome => ?_⟩
  · rw [if_neg (Int.not_lt.2 (Int.le_of_eq ((hwhole a).2 (hall a))))]
  · have hmore : 1 < t.tilesOver a.dims := by
      refine Int.not_le.1 fun hfew => hsome fun b => (hwhole b).1 ?_
      have hpos : 1 ≤ t.tilesOver b.dims := one_le_prod_map fun d hd =>
        one_le_quotientUp (Int.le_trans (hone b d hd) (hle b d hd)) (hone b d hd)
      exact Int.le_antisymm (Int.le_trans (ha.le b) hfew) hpos
    exact if_pos hmore

end Tiling

namespace LoopNest

variable {n n' : LoopNest} {s : Operand}

/-- **What taking on a dataflow does.** The tiling, the order on the chip and what is known
of the fully tiled axes stay. The iterations of a loop are the product over its extents
of the least numbers of tiles that cover the layer; exactly one axis has as many as any
other and more than those before it, and its dataflow is taken on, or that of the output
if the tile is the whole layer along every axis. The order off the chip is bound as the
canonical one of that dataflow, and its operand is flagged beside those that were. -/
theorem adoptDataflow_exact
    (hone : ∀ a : Axis, ∀ d ∈ a.dims, 1 ≤ n.tiling.tile.get d)
    (hle : ∀ a : Axis, ∀ d ∈ a.dims, n.tiling.tile.get d ≤ n.tiling.full.get d)
    (run : n.adoptDataflow = .ok (n', s)) :
    (n'.tiling = n.tiling ∧ n'.onChip = n.onChip
      ∧ n'.offChip.fullyTiled = n.offChip.fullyTiled)
    ∧ (∃ count : Dim → Int,
      (∀ a : Axis, ∀ d ∈ a.dims,
        IsLeast {k | n.tiling.full.get d ≤ k * n.tiling.tile.get d} (count d))
      ∧ (∀ a, n.tiling.iterations a = .ok (a.dims.map count).prod)
      ∧ (∃! a : Axis, a.Dominates fun b => (b.dims.map count).prod)
      ∧ ∀ a : Axis, (a.Dominates fun b => (b.dims.map count).prod) →
        ((∀ b, n.tiling.IsFullyTiled b) → s = .output)
          ∧ (¬ (∀ b, n.tiling.IsFullyTiled b) → s = a.dataflow))
    ∧ (n'.offChip.positionOf = (LoopOrder.canonical s).positionOf
      ∧ n'.offChip.axisAt = (LoopOrder.canonical s).axisAt)
    ∧ ∀ o, n'.offChip.stationary.get o = true ↔
      n.offChip.stationary.get o = true ∨ o = s := by
  obtain ⟨hchoose, rfl⟩ := adoptDataflow_eq_ok_iff.1 run
  obtain ⟨counts, hcounts, -⟩ := bind_eq_ok_iff.1 hchoose
  have hget := Tiling.get_eq_tilesOver_of_axisIterations hcounts
  have hfound := Tiling.dominates_dominantAxis counts
  rw [hget] at hfound
  refine ⟨⟨rfl, rfl, rfl⟩, ?_, LoopOrder.bindings_setDataflow {} n.offChip s, fun o => ?_⟩
  · refine ⟨fun d => quotientUp (n.tiling.full.get d) (n.tiling.tile.get d),
      fun a d hd => ?_, fun a => ?_, ?_, fun a ha => ?_⟩
    · exact isLeast_quotientUp (Int.le_trans (hone a d hd) (hle a d hd)) (hone a d hd)
    · rw [Tiling.axisIterations_eq_ok_iff.1 hcounts a, hget]
      rfl
    · exact ⟨_, hfound, fun a ha => ha.unique hfound⟩
    · exact Tiling.chooseDataflow_of_dominates hone hle hchoose ha
  · show (n.offChip.setDataflow s).stationary.get o = true ↔ _
    rw [LoopOrder.stationary_setDataflow, PerOperand.get_set]
    by_cases ho : s = o
    · simp [ho]
    · simp [ho, Ne.symm ho]

/-- The output map and the output channels take four tiles each, and the output map comes
first, so the weights stay. The order had been that of the input, which is flagged
still. -/
theorem adoptDataflow_exact_tie :
    let n : LoopNest :=
      { tiling := ⟨⟨1, 0, 0, 6, 6, 4, 3, 3, 4, 4, 4⟩, ⟨1, 0, 0, 4, 5, 2, 3, 3, 2, 3, 1⟩,
          .unit 1 0 0⟩
        offChip := .canonical .input }
    (∀ a : Axis, ∀ d ∈ a.dims, 1 ≤ n.tiling.tile.get d)
      ∧ (∀ a : Axis, ∀ d ∈ a.dims, n.tiling.tile.get d ≤ n.tiling.full.get d)
      ∧ n.tiling.iterations .outputMap = n.tiling.iterations .outputChannel
      ∧ ∃ n', n.adoptDataflow = .ok (n', .weight)
        ∧ n'.offChip.axisAt = (LoopOrder.canonical .weight).axisAt
        ∧ n'.offChip.stationary.get .input = true
        ∧ n'.offChip.stationary.get .output ≠ true := by
  intro n
  have hone : ∀ a : Axis, ∀ d ∈ a.dims, 1 ≤ n.tiling.tile.get d := by
    intro a
    cases a <;> decide
  have hle : ∀ a : Axis, ∀ d ∈ a.dims, n.tiling.tile.get d ≤ n.tiling.full.get d := by
    intro a
    cases a <;> decide
  obtain ⟨⟨n', s⟩, run⟩ : Checked.Answers n.adoptDataflow := ⟨_, rfl⟩
  obtain ⟨-, ⟨count, -, hcount, -, hchosen⟩, ⟨-, haxes⟩, hflags⟩ :=
    adoptDataflow_exact hone hle run
  have hcounts : ∀ a : Axis,
      (a.dims.map count).prod = (⟨1, 2, 4, 4⟩ : PerAxis Int).get a := by
    intro a
    refine Except.ok.inj ((hcount a).symm.trans ?_)
    cases a <;> decide
  have hdominates : Axis.outputMap.Dominates fun b => (b.dims.map count).prod := by
    simp only [hcounts]
    constructor
    · rintro (_ | _ | _ | _) <;> decide
    · rintro (_ | _ | _ | _) <;> decide
  have hleft : ¬ ∀ b, n.tiling.IsFullyTiled b := fun h => absurd (h .inputChannel) (by decide)
  obtain rfl : s = .weight := (hchosen .outputMap hdominates).2 hleft
  refine ⟨hone, hle, by decide, n', run, haxes, (hflags .input).2 (.inl (by decide)), ?_⟩
  rw [ne_eq, hflags]
  decide

end LoopNest

end ConvTiling
