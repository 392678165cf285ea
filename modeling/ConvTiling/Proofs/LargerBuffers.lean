import ConvTiling.Proofs.Refusals

/-!
# Larger buffers

An accelerator whose buffers are no smaller than those of another, and which is the same
otherwise, seeds the same tile (`Accelerator.Enlarged.seed_eq`), as the seed is read off
the array alone. What fits the small buffers fits the large ones: the part of a buffer
that a tile may fill grows with the buffer, whether it is all of it or half
(`Tiling.fits_of_enlarged`).

So a set of axes that could be fully tiled can be still, and the removal of loops, which
no set that fits can beat, removes no less (`LoopNest.Removes.removesNoMore_of_enlarged`).
A search that is refused for want of room with the large buffers is refused with the
small ones.
-/

namespace ConvTiling

open Checked (bind_eq_ok_iff)

/-- **An accelerator with more room**: its buffers are no smaller, and it is the same
otherwise. -/
structure Accelerator.Enlarged (a a' : Accelerator) : Prop where
  same : a' = { a with buffers := a'.buffers }
  le : ∀ o, a.buffers.get o ≤ a'.buffers.get o

variable {a a' : Accelerator} {n : LoopNest}

/-! ## What fits -/

namespace Load

/-- A tile may fill more of a larger buffer. -/
theorem capacity_mono (l : Load) {small large : Int} (h : small ≤ large) :
    l.capacity small ≤ l.capacity large := by
  unfold capacity
  split
  · exact Int.tdiv_le_tdiv (by decide) h
  · exact h

/-- A tile that fits a buffer fits a larger one. -/
theorem Fits.mono {l : Load} {small large : Int} (hfits : l.Fits small)
    (h : small ≤ large) : l.Fits large :=
  Int.le_trans hfits (l.capacity_mono h)

end Load

namespace Tiling

variable {t : Tiling}

/-- **What fits the buffers fits larger ones.** -/
theorem fits_of_enlarged (h : a.Enlarged a') (hfits : t.fits a = .ok true) :
    t.fits a' = .ok true := by
  obtain ⟨loads, hloads, hall⟩ := fits_eq_ok_true_iff.1 hfits
  exact fits_eq_ok_true_iff.2 ⟨loads, hloads, fun o => (hall o).mono (h.le o)⟩

/-- What does not fit the large buffers does not fit the small ones. The loads that are
compared are the same, so there is an answer. -/
theorem not_fits_of_enlarged (h : a.Enlarged a') (hfits : t.fits a' = .ok false) :
    t.fits a = .ok false := by
  obtain ⟨loads, hloads, -⟩ := bind_eq_ok_iff.1 hfits
  obtain ⟨b, hb⟩ : ∃ b, t.fits a = .ok b := ⟨_, bind_eq_ok_iff.2 ⟨loads, hloads, rfl⟩⟩
  cases b with
  | false => exact hb
  | true => cases hfits.symm.trans (fits_of_enlarged h hb)

end Tiling

/-! ## The seed -/

namespace Accelerator.Enlarged

theorem mapped_eq (h : a.Enlarged a') : a'.mapped = a.mapped := by
  funext s
  rw [h.same]
  cases s <;> rfl

theorem length_eq (h : a.Enlarged a') : a'.length = a.length := by
  funext s
  rw [h.same]
  cases s <;> rfl

/-- **The seed does not depend on the buffers.** -/
theorem seed_eq (h : a.Enlarged a') (n : LoopNest) : n.seed a' = n.seed a := by
  have hseed : seedSide n.tiling.full a' = seedSide n.tiling.full a := by
    funext tile s
    unfold seedSide
    rw [h.mapped_eq, h.length_eq]
  have hunroll : ∀ tile, handOutSide tile a' = handOutSide tile a := by
    intro tile
    funext unroll s
    unfold handOutSide
    rw [h.mapped_eq, h.length_eq]
  unfold LoopNest.seed Tiling.seed seedTile unrollTile
  simp only [hseed, hunroll]

end Accelerator.Enlarged

/-! ## The removal of loops -/

namespace LoopNest

variable {axes axes' : List Axis} {r r' : LoopRemoval}

/-- **No less is removed within larger buffers.** -/
theorem Removes.removesNoMore_of_enlarged (h : a.Enlarged a') (hr : n.Removes a axes r)
    (hr' : n.Removes a' axes' r') : n.RemovesNoMore axes axes' := by
  by_cases hfeasible : r.isFeasible = true
  · obtain ⟨hmem, hfits⟩ := hr.mem_sets hfeasible
    exact hr'.removesNoMore hmem (Tiling.fits_of_enlarged h hfits)
  · cases hr with
    | nothing => exact ⟨Nat.zero_le _, fun hpair => absurd hpair (by decide)⟩
    | _ => exact absurd rfl hfeasible

/-- Where no set of at least two axes fits the large buffers none fits the small ones. -/
theorem NoneFit.of_enlarged (h : a.Enlarged a') (hnone : n.NoneFit a') : n.NoneFit a :=
  fun axes hdistinct htwo => Tiling.not_fits_of_enlarged h (hnone axes hdistinct htwo)

end LoopNest

/-! ## The search -/

namespace Scheduler

variable {s : Scheduler}

/-- **A strict search is refused for want of room** if no two axes of the seed can be
fully tiled, and only then. -/
theorem search_strict_eq_memoryOverflow_iff (hn : n.Valid) :
    s.strict.search n = .error (.refused .memoryOverflow)
      ↔ ∃ seeded, n.seed s.accelerator = .ok seeded ∧ seeded.NoneFit s.accelerator := by
  constructor
  · intro hrefused
    obtain ⟨seeded, hseed, hends⟩ := ends_search (s := s.strict) hn
      (hrefused ▸ Attempt.faultFree_refuse _)
    rw [hrefused] at hends
    refine ⟨seeded, hseed, ?_⟩
    obtain ⟨⟨-, hnone⟩, -⟩ | ⟨-, -, -, hother⟩ | ⟨-, -, -, r, hr⟩ := hends
    · exact hnone
    · cases hother
    · cases hr
  · rintro ⟨seeded, hseed, hnone⟩
    have hprepare : s.strict.prepare n = .ok (.overflow seeded) :=
      bind_eq_ok_iff.2 ⟨seeded, hseed,
        LoopNest.removeLoops_eq_overflow (LoopNest.noneFit_iff.1 hnone)⟩
    refine search_eq_memoryOverflow hn hprepare ?_
    rintro (hfeasible | hstrict)
    · cases hfeasible
    · exact hstrict rfl

/-- **Larger buffers never make the removal of loops worse.** The seed is the same. Of it
no more axes are made fully tiled within the small buffers than within the large ones,
and if it is two within each, those within the small buffers remove no more iterations.
A strict search that is refused for want of room with the large buffers is refused with
the small ones. -/
theorem removal_mono_buffers (s s' : Scheduler)
    (h : s.accelerator.Enlarged s'.accelerator) (hn : n.Valid) :
    n.seed s'.accelerator = n.seed s.accelerator
      ∧ (∀ r r', s.prepare n = .ok r → s'.prepare n = .ok r' →
        ∃ seeded, n.seed s.accelerator = .ok seeded
          ∧ (∃ axes, seeded.Removes s.accelerator axes r)
          ∧ (∃ axes', seeded.Removes s'.accelerator axes' r')
          ∧ ∀ axes axes', seeded.Removes s.accelerator axes r →
            seeded.Removes s'.accelerator axes' r' → seeded.RemovesNoMore axes axes')
      ∧ (s'.strict.search n = .error (.refused .memoryOverflow) →
        s.strict.search n = .error (.refused .memoryOverflow)) := by
  refine ⟨h.seed_eq n, fun r r' run run' => ?_, fun hrefused => ?_⟩
  · obtain ⟨seeded, hseed, hremove⟩ := bind_eq_ok_iff.1 run
    obtain ⟨seeded', hseed', hremove'⟩ := bind_eq_ok_iff.1 run'
    rw [h.seed_eq n] at hseed'
    obtain rfl := Except.ok.inj (hseed.symm.trans hseed')
    exact ⟨seeded, hseed, LoopNest.removes_of_removeLoops hremove,
      LoopNest.removes_of_removeLoops hremove',
      fun _ _ hr hr' => hr.removesNoMore_of_enlarged h hr'⟩
  · obtain ⟨seeded, hseed, hnone⟩ := (search_strict_eq_memoryOverflow_iff hn).1 hrefused
    rw [h.seed_eq n] at hseed
    exact (search_strict_eq_memoryOverflow_iff hn).2 ⟨seeded, hseed, hnone.of_enlarged h⟩

/-- A buffer of the input twice as large, and the output map goes with the kernel where
the output channels did. With buffers a little smaller than the first no two axes could
be fully tiled, and so with any smaller than that. -/
theorem removal_mono_buffers_wholeInput :
    let machine : PerOperand Int → Accelerator := fun buffers =>
      ⟨1, 1.0, 1.0, buffers, 1, 3, [.outputWidth], [.outputHeight]⟩
    let tiny : Scheduler := ⟨machine ⟨32, 48, 36⟩, {}, by decide⟩
    let small : Scheduler := ⟨machine ⟨64, 72, 72⟩, {}, by decide⟩
    let medium : Scheduler := ⟨machine ⟨64, 96, 72⟩, {}, by decide⟩
    let large : Scheduler := ⟨machine ⟨128, 96, 72⟩, {}, by decide⟩
    let full : Extents := ⟨1, 0, 0, 4, 4, 3, 2, 2, 3, 3, 3⟩
    let n : LoopNest := { tiling := .untiled full }
    let seeded : LoopNest := { tiling := ⟨full, ⟨1, 0, 0, 2, 4, 1, 2, 2, 1, 3, 1⟩,
      ⟨1, 0, 0, 1, 1, 1, 1, 1, 1, 3, 1⟩⟩ }
    (∃ axes axes',
      seeded.Removes medium.accelerator axes
          (.fits (seeded.tileFully [.kernelMap, .outputChannel]))
        ∧ seeded.Removes large.accelerator axes'
          (.fits (seeded.tileFully [.kernelMap, .outputMap]))
        ∧ seeded.RemovesNoMore axes axes')
      ∧ small.strict.search n = .error (.refused .memoryOverflow)
      ∧ tiny.strict.search n = .error (.refused .memoryOverflow) := by
  intro machine tiny small medium large full n seeded
  have hn : n.Valid := by decide
  have henlarged : ∀ b b' : PerOperand Int, (∀ o, b.get o ≤ b'.get o) →
      (machine b).Enlarged (machine b') := fun b b' hle => ⟨rfl, hle⟩
  constructor
  · have hseeded : n.seed medium.accelerator = .ok seeded := by decide +kernel
    have run : medium.prepare n
        = .ok (.fits (seeded.tileFully [.kernelMap, .outputChannel])) := by decide +kernel
    have run' : large.prepare n
        = .ok (.fits (seeded.tileFully [.kernelMap, .outputMap])) := by decide +kernel
    obtain ⟨-, hremoval, -⟩ := removal_mono_buffers medium large
      (henlarged _ _ fun o => by cases o <;> decide) hn
    obtain ⟨seeded', hseed, ⟨axes, hr⟩, ⟨axes', hr'⟩, hmono⟩ := hremoval _ _ run run'
    obtain rfl : seeded = seeded' := Except.ok.inj (hseeded.symm.trans hseed)
    exact ⟨axes, axes', hr, hr', hmono axes axes' hr hr'⟩
  · have run : small.prepare n = .ok (.overflow seeded) := by decide +kernel
    have hrefused : small.strict.search n = .error (.refused .memoryOverflow) := by
      refine search_eq_memoryOverflow (s := small.strict) hn run ?_
      rintro (hfeasible | hstrict)
      · cases hfeasible
      · exact hstrict rfl
    obtain ⟨-, -, hstrict⟩ := removal_mono_buffers tiny small
      (henlarged _ _ fun o => by cases o <;> decide) hn
    exact ⟨hrefused, hstrict hrefused⟩

end Scheduler

end ConvTiling
