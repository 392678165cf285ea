import ConvTiling.Proofs.Finishing
import ConvTiling.Proofs.Selection

/-!
# Finishing a nest that is finished

When a nest is finished for the second time, its fully tiled axes are in front already, so
no axis changes its place, and they are flagged already, so no flag of an axis is added
(`LoopNest.Finished.again`).

What is inferred can change, though. The second time it is inferred of the axes as they
were left, and to move an axis away from between the kernel map and the input channel
makes neighbours of them, so that the output is inferred which was not before. Where the
input channel is next outward of the kernel map from the start, as in every canonical
order, nothing else is inferred than before (`LoopNest.inferred_iff_of_finish`). Then a
finished nest is its own finished nest, and this is so of every result of a search
(`LoopNest.finish_stable`).
-/

namespace ConvTiling

namespace LoopNest

variable {n m m' : LoopNest}

/-! ## What does not change again -/

/-- The fully tiled axes of a finished nest are flagged already. -/
theorem Finished.whole_or_iff (h : n.Finished m) (a : Axis) :
    m.offChip.Whole a ∨ m.tiling.IsFullyTiled a ↔ m.offChip.Whole a := by
  rw [h.tiling]
  exact ⟨fun ha => ha.elim id fun ha => (h.fullyTiled a).2 (.inr ha), .inl⟩

/-- The fully tiled axes of a finished nest are in front already. -/
theorem Finished.gathered_axes (h : n.Finished m) :
    [Axis.kernelMap, .outputMap, .inputChannel, .outputChannel].filter
        (m.tiling.IsFullyTiled ·)
      ++ m.offChip.axes.filter (fun a => ¬ m.tiling.IsFullyTiled a) = m.offChip.axes := by
  have hnone : ∀ a ∈ [Axis.kernelMap, .outputMap, .inputChannel, .outputChannel].filter
      (n.tiling.IsFullyTiled ·), ¬ (decide ¬ n.tiling.IsFullyTiled a) = true := by
    intro a ha
    simpa using (List.mem_filter.1 ha).2
  rw [h.tiling, h.axes, List.filter_append, List.filter_eq_nil_iff.2 hnone, List.nil_append,
    List.filter_filter]
  simp only [Bool.and_self]

/-- **Finishing a finished nest** leaves its levels, its two orders and the axes that are
flagged. -/
theorem Finished.again (h : n.Finished m) (h' : m.Finished m') :
    m'.tiling = m.tiling ∧ m'.onChip = m.onChip
      ∧ m'.offChip.positionOf = m.offChip.positionOf
      ∧ m'.offChip.axisAt = m.offChip.axisAt
      ∧ m'.offChip.fullyTiled = m.offChip.fullyTiled := by
  obtain ⟨haxis, hposition⟩ :=
    h.bijective.bindings_eq h'.bijective (h'.axes.trans h.gathered_axes)
  exact ⟨h'.tiling, h'.onChip.trans h.onChip.symm, hposition, haxis, PerAxis.ext_get fun a =>
    Bool.eq_iff_iff.2 ((h'.fullyTiled a).trans (h.whole_or_iff a))⟩

/-! ## What is inferred again -/

/-- **A finished nest is its own finished nest** if nothing is inferred of its axes that was
not inferred before they were moved. -/
theorem Finished.self (h : n.Finished m)
    (hinferred : ∀ s, LoopOrder.Inferred m.offChip.axes m.offChip.Whole s →
      LoopOrder.Inferred n.offChip.axes m.offChip.Whole s) : m.Finished m where
  tiling := rfl
  onChip := h.onChip
  bijective := h.bijective
  axes := h.gathered_axes.symm
  fullyTiled a := (h.whole_or_iff a).symm
  stationary s :=
    ⟨.inl, fun hs => hs.elim id fun hs => (h.stationary s).2 (.inr (hinferred s hs))⟩

/-- **Moving the fully tiled axes changes nothing that is inferred**, if the input channel
was next outward of the kernel map. -/
theorem inferred_iff_of_finish (hn : n.offChip.Bijective)
    (hsums : [.kernelMap, .inputChannel] <:+: n.offChip.axes) (run : n.finish = .ok m)
    (s : Operand) :
    LoopOrder.Inferred m.offChip.axes m.offChip.Whole s ↔
      LoopOrder.Inferred n.offChip.axes m.offChip.Whole s := by
  obtain ⟨-, -, -, hgathered⟩ := finish_eq_ok hn run
  have hd := LoopOrder.derived_deriveFlags n.offChip n.tiling.full n.tiling.tile
  generalize n.offChip.deriveFlags n.tiling.full n.tiling.tile = o at hgathered hd
  have ho := hd.bijective hn
  calc LoopOrder.Inferred m.offChip.axes m.offChip.Whole s
      ↔ m.offChip.implied.get s = true := hgathered.bijective.implied_get_iff.symm
    _ ↔ o.implied.get s = true := by
      rw [hgathered.implied_eq ho (hd.axes ▸ hsums) hd.flagged]
    _ ↔ LoopOrder.Inferred o.axes o.Whole s := ho.implied_get_iff
    _ ↔ LoopOrder.Inferred n.offChip.axes m.offChip.Whole s := by
      rw [hd.axes, LoopOrder.whole_congr (hgathered.fullyTiled_eq hd.flagged)]

/-- **To finish a finished nest** gives that nest, if the input channel was next outward of
the kernel map before it was finished. -/
theorem eq_of_finished_of_finish (hn : n.offChip.Bijective)
    (hsums : [.kernelMap, .inputChannel] <:+: n.offChip.axes) (run : n.finish = .ok m)
    (h' : m.Finished m') : m' = m :=
  have hself := (finished_of_finish hn run).self fun s hs =>
    (inferred_iff_of_finish hn hsums run s).1 hs
  hself.unique h'

/-- Every valid nest can be finished twice. -/
theorem exists_finish_finish (hn : n.Valid) :
    ∃ m m', n.finish = .ok m ∧ m.finish = .ok m' ∧ n.Finished m ∧ m.Finished m' := by
  obtain ⟨m, hm⟩ := answers_finish hn.1 hn.2.1
  obtain ⟨hvalid, -⟩ := finish_eq_ok hn.2.1 hm
  obtain ⟨m', hm'⟩ := answers_finish hvalid.1 hvalid.2.1
  exact ⟨m, m', hm, hm', finished_of_finish hn.2.1 hm, finished_of_finish hvalid.2.1 hm'⟩

/-- **Finishing is stable.** Of a valid nest, finishing it twice gives the levels, the two
orders and the fully tiled axes that finishing it once gives; and if the input channel sits
next outward of the kernel map in its order off the chip, the operands that stay are the
same as well. It does in every canonical order, so that of every result of a search, to
finish it once more changes nothing. -/
theorem finish_stable :
    (∀ n : LoopNest, n.Valid → ∃ m m', n.finish = .ok m ∧ m.finish = .ok m'
      ∧ m'.tiling = m.tiling ∧ m'.onChip = m.onChip
      ∧ m'.offChip.positionOf = m.offChip.positionOf
      ∧ m'.offChip.axisAt = m.offChip.axisAt
      ∧ m'.offChip.fullyTiled = m.offChip.fullyTiled
      ∧ ([.kernelMap, .inputChannel] <:+: n.offChip.axes → m' = m))
    ∧ (∀ (o : LoopOrder) s, [.kernelMap, .inputChannel] <:+: (o.setDataflow s).axes)
    ∧ ∀ (s : Scheduler) n r, s.search n = .ok r →
      ∃ m, r.nest.finish = .ok m ∧ m.finish = .ok m := by
  refine ⟨fun n hn => ?_, fun o s => ?_, fun s n r run => ?_⟩
  · obtain ⟨m, m', hm, hm', h, h'⟩ := exists_finish_finish hn
    obtain ⟨htiling, honChip, hposition, haxis, hflags⟩ := h.again h'
    exact ⟨m, m', hm, hm', htiling, honChip, hposition, haxis, hflags, fun hsums =>
      eq_of_finished_of_finish hn.2.1 hsums hm h'⟩
  · rw [LoopOrder.axes_setDataflow]
    exact s.sums_isInfix_loopOrder
  · obtain ⟨hn, -⟩ := Scheduler.selects_of_search run
    obtain ⟨hderived, o, ho, -⟩ := Scheduler.derived_of_search run
    have hsums : [.kernelMap, .inputChannel] <:+: r.nest.offChip.axes := by
      rw [ho, LoopOrder.axes_setDataflow]
      exact Operand.sums_isInfix_loopOrder _
    obtain ⟨m, m', hm, hm', -, h'⟩ := exists_finish_finish (hderived.valid hn)
    obtain rfl := eq_of_finished_of_finish hderived.offChip hsums hm h'
    exact ⟨m', hm, hm'⟩

/-- The canonical order that keeps the weights, with an axis flagged that is not fully tiled:
finishing it moves the output channel, and finishing it once more moves nothing. The result
of a search is finished by finishing it once, too. -/
theorem finish_stable_canonical :
    let full : Extents := ⟨1, 0, 0, 6, 6, 3, 3, 3, 4, 4, 2⟩
    let tile : Extents := ⟨1, 0, 0, 4, 4, 1, 1, 1, 2, 2, 2⟩
    let start : LoopOrder := { fullyTiled := ⟨false, true, false, false⟩ }
    let n : LoopNest := { tiling := ⟨full, tile, tile⟩, offChip := start.setDataflow .weight }
    let s : Scheduler :=
      ⟨⟨1, 1.0, 1.0, ⟨864, 432, 256⟩, 1, 2, [.outputWidth], [.outputChannel]⟩, {}, by decide⟩
    n.Valid ∧ [.kernelMap, .inputChannel] <:+: n.offChip.axes
      ∧ (∃ m, n.finish = .ok m ∧ m.finish = .ok m
        ∧ m.offChip.axes = [.outputChannel, .outputMap, .kernelMap, .inputChannel])
      ∧ ∃ r m, s.search n = .ok r ∧ r.nest.finish = .ok m ∧ m.finish = .ok m := by
  intro full tile start n s
  have hn : n.Valid := by decide
  have hsums : [.kernelMap, .inputChannel] <:+: n.offChip.axes := by decide
  obtain ⟨htwice, -, hsearch⟩ := finish_stable
  obtain ⟨m, m', hm, hm', -, -, -, -, -, hsame⟩ := htwice n hn
  obtain rfl := hsame hsums
  have haxes := (finished_of_finish hn.2.1 hm).axes
  obtain ⟨r, hr⟩ : Checked.Answers (s.search n) :=
    Checked.answers_of_isOk (by decide +kernel)
  obtain ⟨k, hk, hk'⟩ := hsearch s n r hr
  exact ⟨hn, hsums, ⟨m', hm, hm', haxes.trans (by decide)⟩, r, k, hr, hk, hk'⟩

-- The output channel between the two sums is moved the first time, and the output is
-- inferred to stay the second time.
example :
    let full : Extents := ⟨1, 0, 0, 6, 6, 3, 3, 3, 4, 4, 2⟩
    let tile : Extents := ⟨1, 0, 0, 4, 4, 1, 1, 1, 2, 2, 2⟩
    let order : PerPosition Axis := ⟨.kernelMap, .outputChannel, .inputChannel, .outputMap⟩
    let n : LoopNest :=
      { tiling := ⟨full, tile, tile⟩, offChip := LoopOrder.arrange {} order }
    (n.finish.map (·.offChip.stationary)) = .ok ⟨false, false, false⟩
      ∧ (n.finish.bind finish).map (·.offChip.stationary) = .ok ⟨false, false, true⟩ := by
  decide

end LoopNest

end ConvTiling
