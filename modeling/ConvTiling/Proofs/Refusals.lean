import Mathlib.Data.List.Sublists
import ConvTiling.Proofs.Endings
import ConvTiling.Proofs.Reloading

/-!
# Why a layer is not scheduled

A layer is scheduled or it is refused, and a refusal tells which of three questions had
the answer no: whether the layer is one, whether two axes of it can be fully tiled
within the buffers, and whether any candidate fits them. The second is asked of a
strict search alone.

The answers are complete. The removal of loops tries eleven sets of axes, and every set
of at least two axes has the members of one of them (`LoopRemoval.exists_mem_sets`);
which axes are fully tiled decides what the tile takes over, and not in which order
(`LoopNest.fits_tileFully_congr`). So where it gives up no such set fits
(`LoopNest.isFeasible_eq_false_iff`). The sweep, if it ends with nothing, has visited
every candidate of the space.

Nothing else refuses a layer. What a search finds has a valid tiling and an order
whose directions agree, and that is all it takes to be finished.
-/

namespace ConvTiling

open Checked (Answers bind_eq_ok_iff)

/-! ## Sets of axes -/

namespace LoopRemoval

/-- **Every set of at least two axes is tried**, its axes in some order. -/
theorem exists_mem_sets {axes : List Axis} (hdistinct : axes.Nodup)
    (htwo : 2 ≤ axes.length) : ∃ set ∈ sets, ∀ a, a ∈ axes ↔ a ∈ set := by
  have hall : ∀ l ∈ Axis.all.sublists, 2 ≤ l.length →
      ∃ set ∈ sets, ∀ a ∈ Axis.all, a ∈ l ↔ a ∈ set := by decide
  -- the axes in the order of all axes
  have hperm : (Axis.all.filter (· ∈ axes)).Perm axes := by
    have hnodup : (Axis.all.filter (· ∈ axes)).Nodup := .filter _ (by decide)
    refine (List.perm_ext_iff_of_nodup hnodup hdistinct).2 fun a => ?_
    rw [List.mem_filter, decide_eq_true_eq, and_iff_right a.mem_all]
  have hsublist := List.mem_sublists.2 (List.filter_sublist (p := (· ∈ axes)) (l := Axis.all))
  obtain ⟨set, hset, hmem⟩ := hall _ hsublist (hperm.length_eq ▸ htwo)
  exact ⟨set, hset, fun a => hperm.mem_iff.symm.trans (hmem a a.mem_all)⟩

/-- The sets that are tried are sets of at least two axes. -/
theorem two_le_of_mem_sets {axes : List Axis} (h : axes ∈ sets) :
    axes.Nodup ∧ 2 ≤ axes.length := by
  have hall : ∀ axes ∈ sets, axes.Nodup ∧ 2 ≤ axes.length := by decide
  exact hall axes h

end LoopRemoval

/-- The bytes of an operand are read off the extents of a level. -/
theorem Extents.bytes_congr {e e' : Extents} (h : ∀ d, e'.get d = e.get d) (o : Operand) :
    e'.bytes o = e.bytes o := by
  have hget : e'.get = e.get := funext h
  unfold bytes size
  rw [hget]

/-- Whether a tiling fits the buffers is read off the layer and the extents of the
tile. -/
theorem Tiling.fits_congr {t t' : Tiling} {a : Accelerator} (hfull : t'.full = t.full)
    (htile : ∀ d, t'.tile.get d = t.tile.get d) : t'.fits a = t.fits a := by
  refine fits_congr_load fun o => ?_
  unfold load
  rw [Extents.bytes_congr htile, hfull]

namespace LoopNest

variable {n : LoopNest} {a : Accelerator} {axes : List Axis}

/-- **No two axes can be fully tiled** within the buffers, and no more than two. -/
def NoneFit (n : LoopNest) (a : Accelerator) : Prop :=
  ∀ axes : List Axis, axes.Nodup → 2 ≤ axes.length →
    (n.tileFully axes).tiling.fits a = .ok false

/-- **The same axes in another order** give a tile that fits the buffers as well. -/
theorem fits_tileFully_congr {axes' : List Axis} (h : ∀ x, x ∈ axes ↔ x ∈ axes') :
    (n.tileFully axes).tiling.fits a = (n.tileFully axes').tiling.fits a := by
  refine Tiling.fits_congr ?_ fun d => ?_
  · show (axes.foldl Tiling.tileFully n.tiling).full = (axes'.foldl Tiling.tileFully _).full
    rw [Tiling.full_foldl_tileFully, Tiling.full_foldl_tileFully]
  · show (axes.foldl Tiling.tileFully n.tiling).tile.get d
      = (axes'.foldl Tiling.tileFully n.tiling).tile.get d
    rw [Tiling.get_tile_foldl_tileFully, Tiling.get_tile_foldl_tileFully]
    simp only [h]

/-- No set of at least two axes fits exactly when none of the sets that are tried
does. -/
theorem noneFit_iff :
    n.NoneFit a ↔ ∀ axes ∈ LoopRemoval.sets,
      (n.tileFully axes).tiling.fits a = .ok false := by
  constructor
  · intro h axes hmem
    obtain ⟨hdistinct, htwo⟩ := LoopRemoval.two_le_of_mem_sets hmem
    exact h axes hdistinct htwo
  · intro h axes hdistinct htwo
    obtain ⟨set, hset, hmem⟩ := LoopRemoval.exists_mem_sets hdistinct htwo
    rw [fits_tileFully_congr hmem]
    exact h set hset

/-! ## When no loops are removed -/

/-- **The removal of loops gives up** exactly where no set of at least two axes can be
fully tiled within the buffers. -/
theorem isFeasible_eq_false_iff {r : LoopRemoval} (run : n.removeLoops a = .ok r) :
    r.isFeasible = false ↔ n.NoneFit a := by
  obtain ⟨axes, h⟩ := removes_of_removeLoops run
  rw [h.isFeasible_eq_false_iff, noneFit_iff]

end LoopNest

/-! ## The search -/

namespace Scheduler

variable {s : Scheduler} {n : LoopNest} {l : Layer} {e : Extents}

/-- Loops are removed of the seed. -/
theorem isFeasible_of_prepare {removal : LoopRemoval} (run : s.prepare n = .ok removal) :
    ∃ seeded, n.seed s.accelerator = .ok seeded
      ∧ (removal.isFeasible = false ↔ seeded.NoneFit s.accelerator) := by
  obtain ⟨seeded, hseed, hremove⟩ := bind_eq_ok_iff.1 run
  exact ⟨seeded, hseed, LoopNest.isFeasible_eq_false_iff hremove⟩

/-- **How an attempt ends** that searches a nest with the seed `seeded`: it is refused, if
it is strict, as no two axes can be fully tiled within the buffers; or it has a space of
candidates, and is refused as none of them fits the buffers, or ends with an answer as
one does. -/
inductive Ends {α : Type} (s : Scheduler) (n seeded : LoopNest)
    (x : Attempt ScheduleError α) : Prop
  | overflow (hrefused : s.options.strictMemory = true ∧ seeded.NoneFit s.accelerator)
      (h : x = .error (.refused .memoryOverflow))
  | nothing (hadmitted : ¬ (s.options.strictMemory = true ∧ seeded.NoneFit s.accelerator))
      {removal : LoopRemoval} {m : LoopNest} {d : Operand} {space : TileSpace} {total : Nat}
      (hsteps : s.Steps n removal m d space total)
      (hnone : ∀ k, 1 ≤ k → k ≤ total → ¬ Sweep.Fitting ⟨space, s.accelerator, d⟩ k)
      (h : x = .error (.refused (.noFeasibleTiling total)))
  | answer (hadmitted : ¬ (s.options.strictMemory = true ∧ seeded.NoneFit s.accelerator))
      {removal : LoopRemoval} {m : LoopNest} {d : Operand} {space : TileSpace} {total : Nat}
      (hsteps : s.Steps n removal m d space total)
      (hfitting : ∃ k, 1 ≤ k ∧ k ≤ total ∧ Sweep.Fitting ⟨space, s.accelerator, d⟩ k)
      (h : Answers x)

/-- **A search that stops at no fault** ends in one of the three ways. -/
theorem ends_search (hn : n.Valid) (hrun : Attempt.FaultFree (s.search n)) :
    ∃ seeded, n.seed s.accelerator = .ok seeded ∧ s.Ends n seeded (s.search n) := by
  obtain ⟨removal, hprepare, hswept⟩ := steps_of_faultFree hn hrun
  obtain ⟨seeded, hseed, hfeasible⟩ := isFeasible_of_prepare hprepare
  have hadmitted : (removal.isFeasible ∨ ¬ s.options.strictMemory)
      ↔ ¬ (s.options.strictMemory = true ∧ seeded.NoneFit s.accelerator) := by
    rw [← hfeasible, not_and_or, Bool.not_eq_false, or_comm]
  refine ⟨seeded, hseed, ?_⟩
  by_cases hadmit : removal.isFeasible ∨ ¬ s.options.strictMemory
  · obtain ⟨m, d, space, total, best, hsteps, hsweep, horient⟩ := hswept hadmit
    have hnone := hsteps.sweep_eq_none_iff hsweep
    cases best with
    | none =>
      exact .nothing (hadmitted.1 hadmit) hsteps (hnone.1 rfl)
        (search_eq_noFeasibleTiling hn hprepare hadmit hsteps.adopted hsweep)
    | some c =>
      have hfitting : ∃ k, 1 ≤ k ∧ k ≤ total ∧ Sweep.Fitting ⟨space, s.accelerator, d⟩ k := by
        by_contra hno
        exact Option.some_ne_none c
          (hnone.2 fun k hone hle hfit => hno ⟨k, hone, hle, hfit⟩)
      obtain ⟨⟨nest, score⟩, horient⟩ := horient c rfl
      exact .answer (hadmitted.1 hadmit) hsteps hfitting ⟨_, search_eq_ok_iff.2 ⟨hn, removal,
        hprepare, hadmit, m, d, hsteps.adopted, total, c, hsweep, nest, score, horient, rfl⟩⟩
  · exact .overflow (not_not.1 (mt hadmitted.2 hadmit))
      (search_eq_memoryOverflow hn hprepare hadmit)

/-! ## The schedule -/

/-- A layer that is none is refused for that. -/
theorem schedule_of_invalid {reason : NestError} (hl : l.extents = .error (.refused reason)) :
    s.schedule l = .error (.refused (.invalidNest reason)) := by
  simp only [schedule, LoopNest.ofLayer, hl, bind, Except.bind, Attempt.embed]

/-- A layer whose output has no length as a word is not judged. -/
theorem schedule_of_fault {cause : Fault} (hl : l.extents = .error (.fault cause)) :
    s.schedule l = .error (.fault cause) := by
  simp only [schedule, LoopNest.ofLayer, hl, bind, Except.bind, Attempt.embed]

/-- A layer that is not searched with success is not scheduled, for the same reason. -/
theorem schedule_of_search_error (hl : l.extents = .ok e) {f : Failure ScheduleError}
    (h : s.search { tiling := .untiled e } = .error f) : s.schedule l = .error f := by
  have hn : LoopNest.ofLayer l = .ok { tiling := .untiled e } :=
    LoopNest.ofLayer_eq_ok_iff.2 ⟨e, hl, rfl⟩
  simp only [schedule, hn, h, bind, Except.bind, Attempt.embed]

/-- **What a search finds can be finished.** -/
theorem answers_finish_of_search {r : SearchResult} (run : s.search n = .ok r) :
    Answers r.nest.finish := by
  obtain ⟨hderived, -⟩ := derived_of_search run
  exact LoopNest.answers_finish hderived.nested.valid hderived.offChip

/-- **A layer that is searched with success is scheduled.** -/
theorem schedule_of_search (hl : l.extents = .ok e) {found : SearchResult}
    (h : s.search { tiling := .untiled e } = .ok found) : ∃ r, s.schedule l = .ok r := by
  obtain ⟨nest, hfinish⟩ := answers_finish_of_search h
  exact ⟨⟨nest, found.dataflow, found.score⟩,
    schedule_eq_ok_iff.2 ⟨e, found, hl, h, hfinish, rfl, rfl⟩⟩

/-- A layer is scheduled with no fault only if it is searched with none. -/
theorem faultFree_search_of_schedule (hl : l.extents = .ok e)
    (hrun : Attempt.FaultFree (s.schedule l)) :
    Attempt.FaultFree (s.search { tiling := .untiled e }) :=
  fun cause h => hrun cause (schedule_of_search_error hl h)

/-- **A schedule ends as its search does**, if its layer is one. -/
theorem ends_schedule (hl : l.extents = .ok e) (hrun : Attempt.FaultFree (s.schedule l)) :
    ∃ seeded, LoopNest.seed { tiling := .untiled e } s.accelerator = .ok seeded
      ∧ s.Ends { tiling := .untiled e } seeded (s.schedule l) := by
  obtain ⟨-, -, -, -, -, -, hvalid⟩ := Layer.extents_eq_ok_iff.1 hl
  obtain ⟨seeded, hseed, hends⟩ := ends_search (LoopNest.valid_untiled hvalid)
    (faultFree_search_of_schedule hl hrun)
  refine ⟨seeded, hseed, ?_⟩
  cases hends with
  | overflow hrefused h => exact .overflow hrefused (schedule_of_search_error hl h)
  | nothing hadmitted hsteps hnone h =>
    exact .nothing hadmitted hsteps hnone (schedule_of_search_error hl h)
  | answer hadmitted hsteps hfitting h =>
    obtain ⟨found, hfound⟩ := h
    exact .answer hadmitted hsteps hfitting (schedule_of_search hl hfound)

/-- The same scheduler, asked to be strict. -/
def strict (s : Scheduler) : Scheduler :=
  { s with options := { s.options with strictMemory := true } }

/-- **A strict search** finds what the search finds, or is refused. -/
theorem search_strict {r : SearchResult} (run : s.search n = .ok r) :
    s.strict.search n = .ok r ∨ s.strict.search n = .error (.refused .memoryOverflow) := by
  obtain ⟨hn, removal, hprepare, -, hrest⟩ := search_eq_ok_iff.1 run
  by_cases hfeasible : removal.isFeasible = true
  · -- strictness is asked for nowhere but where the search is refused for it
    exact .inl (search_eq_ok_iff.2 ⟨hn, removal, hprepare, .inl hfeasible, hrest⟩)
  · refine .inr (search_eq_memoryOverflow (s := s.strict) hn hprepare ?_)
    rintro (h | h)
    · exact hfeasible h
    · exact h rfl

/-- **Why a layer is not scheduled**, when no operation on words is without an answer. It
is refused as invalid exactly when it has no level, for the reason that it has none.
Otherwise the tile is seeded, and a strict schedule is refused exactly when no two axes
or more of the seed can be fully tiled within the buffers. Otherwise there is a space of
candidates, and the layer is refused exactly when none of them fits the buffers, with
their number; and if one does, it is scheduled. So whatever a search finds can be
finished. To ask for strictness can turn a schedule into a refusal and never into
another schedule. -/
theorem schedule_refused_iff (s : Scheduler) (l : Layer)
    (hrun : Attempt.FaultFree (s.schedule l)) :
    (∀ reason, s.schedule l = .error (.refused (.invalidNest reason))
        ↔ l.extents = .error (.refused reason))
      ∧ (∀ e, l.extents = .ok e → ∃ seeded,
        LoopNest.seed { tiling := .untiled e } s.accelerator = .ok seeded
          ∧ (s.schedule l = .error (.refused .memoryOverflow)
            ↔ s.options.strictMemory = true ∧ seeded.NoneFit s.accelerator)
          ∧ (¬ (s.options.strictMemory = true ∧ seeded.NoneFit s.accelerator) →
            ∃ removal m d space total,
              s.Steps { tiling := .untiled e } removal m d space total
                ∧ (∀ count, s.schedule l = .error (.refused (.noFeasibleTiling count))
                  ↔ count = total ∧ ∀ k, 1 ≤ k → k ≤ total →
                    ¬ Sweep.Fitting ⟨space, s.accelerator, d⟩ k)
                ∧ ((∃ k, 1 ≤ k ∧ k ≤ total ∧ Sweep.Fitting ⟨space, s.accelerator, d⟩ k) →
                  ∃ r, s.schedule l = .ok r))
          ∧ ∀ found, s.search { tiling := .untiled e } = .ok found → Answers found.nest.finish)
      ∧ ∀ r, s.schedule l = .ok r → s.strict.schedule l = .ok r
        ∨ s.strict.schedule l = .error (.refused .memoryOverflow) := by
  refine ⟨fun reason => ⟨fun h => ?_, schedule_of_invalid⟩, fun e hl => ?_, fun r h => ?_⟩
  · cases hl : l.extents with
    | error f =>
      cases f with
      | fault cause => exact absurd (schedule_of_fault hl) (hrun cause)
      | refused reason' =>
        rw [schedule_of_invalid hl] at h
        cases h
        rfl
    | ok e =>
      -- a layer with a level is refused for another reason, if it is
      obtain ⟨seeded, -, hends⟩ := ends_schedule hl hrun
      rw [h] at hends
      obtain ⟨-, hother⟩ | ⟨-, -, -, hother⟩ | ⟨-, -, -, r, hr⟩ := hends
      · cases hother
      · cases hother
      · cases hr
  · obtain ⟨seeded, hseed, hends⟩ := ends_schedule hl hrun
    refine ⟨seeded, hseed, ?_, fun hadmitted => ?_, fun found => answers_finish_of_search⟩
    · cases hends with
      | overflow hrefused h => exact iff_of_true h hrefused
      | nothing hadmitted _ _ h =>
        rw [h]
        exact iff_of_false (by rintro ⟨⟩) hadmitted
      | answer hadmitted _ _ h =>
        obtain ⟨r, hr⟩ := h
        rw [hr]
        exact iff_of_false (by rintro ⟨⟩) hadmitted
    · cases hends with
      | overflow hrefused _ => exact absurd hrefused hadmitted
      | nothing _ hsteps hnone h =>
        refine ⟨_, _, _, _, _, hsteps, fun count => ?_, ?_⟩
        · rw [h]
          constructor
          · rintro ⟨⟩
            exact ⟨rfl, hnone⟩
          · rintro ⟨rfl, -⟩
            rfl
        · rintro ⟨k, hone, hle, hfit⟩
          exact absurd hfit (hnone k hone hle)
      | answer _ hsteps hfitting h =>
        refine ⟨_, _, _, _, _, hsteps, fun count => ?_, fun _ => h⟩
        obtain ⟨r, hr⟩ := h
        obtain ⟨k, hone, hle, hfit⟩ := hfitting
        rw [hr]
        exact iff_of_false (by rintro ⟨⟩) fun h => h.2 k hone hle hfit
  · obtain ⟨e, found, hl, hfound, hfinish, hdataflow, hscore⟩ := schedule_eq_ok_iff.1 h
    obtain hsame | hover := search_strict hfound
    · exact .inl (schedule_eq_ok_iff.2 ⟨e, found, hl, hsame, hfinish, hdataflow, hscore⟩)
    · exact .inr (schedule_of_search_error hl hover)

/-- A layer of which no two axes can be fully tiled within the buffers, and yet one of its
candidates fits them: it is scheduled, and refused by a strict schedule. -/
theorem schedule_refused_iff_threeByThree :
    let a : Accelerator :=
      ⟨1, 1.0, 1.0, ⟨64, 32, 24⟩, 1, 3, [.outputWidth], [.outputHeight]⟩
    let s : Scheduler := ⟨a, {}, by decide⟩
    let l : Layer := ⟨4, 4, 2, 2, 2, 2, 1, 0, 0⟩
    let e : Extents := ⟨1, 0, 0, 4, 4, 2, 2, 2, 3, 3, 2⟩
    Attempt.FaultFree (s.strict.schedule l) ∧ l.extents = .ok e
      ∧ (∃ seeded, LoopNest.seed { tiling := .untiled e } a = .ok seeded ∧ seeded.NoneFit a)
      ∧ (∃ r, s.schedule l = .ok r)
      ∧ s.strict.schedule l = .error (.refused .memoryOverflow) := by
  intro a s l e
  have hl : l.extents = .ok e := by decide
  have hnot : (s.strict.schedule l).isOk = false := by decide +kernel
  obtain ⟨r, hr⟩ : Answers (s.schedule l) := Checked.answers_of_isOk (by decide +kernel)
  have hrun : Attempt.FaultFree (s.schedule l) := by
    rw [hr]
    exact Attempt.faultFree_ok r
  obtain ⟨-, -, hstrict⟩ := schedule_refused_iff s l hrun
  obtain hsame | hover := hstrict r hr
  · rw [hsame] at hnot
    cases hnot
  · have hrun' : Attempt.FaultFree (s.strict.schedule l) := by
      rw [hover]
      exact Attempt.faultFree_refuse _
    obtain ⟨-, hrefused, -⟩ := schedule_refused_iff s.strict l hrun'
    obtain ⟨seeded, hseed, hiff, -⟩ := hrefused e hl
    exact ⟨hrun', hl, ⟨seeded, hseed, (hiff.1 hover).2⟩, ⟨r, hr⟩, hover⟩

end Scheduler

end ConvTiling
