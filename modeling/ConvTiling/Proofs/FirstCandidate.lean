import ConvTiling.Proofs.Endings
import ConvTiling.Proofs.FaultFree
import ConvTiling.Proofs.WholeKernel

/-!
# The first candidate is the tile that is left

The stages before the sweep carry the input of a tile along with its output, and the
sweep derives the input of every candidate anew. Both go by the same rule – the
window of the output, cut to the layer – but the first of them only where something
is set: the stripe has the whole input because it has the whole output, and an
output map made fully tiled takes the whole input over. So the two agree exactly
where the whole output reads the whole input (`Extents.ReadsAll`), and as long as no
extent of the input is mapped onto the array, which would be set without regard to
the rule.

Then every tile has the input that its output needs (`Extents.HasInput`): the
stripe, a tile that serves an extent, and a tile along any axes made fully tiled. To
derive the input of such a tile changes nothing, so the first candidate of the space,
which enlarges nothing, is the tile that is left (`Scheduler.tilingAt_one`). What was
found to fit the buffers when loops were removed is thus among the candidates.
-/

namespace ConvTiling

open Checked (bind_eq_ok_iff pure_eq_ok_iff)

/-- **The whole output reads the whole input.** -/
def Extents.ReadsAll (e : Extents) : Prop :=
  e.inputWidth ≤ window e.outputWidth e.kernelWidth e.stride
    ∧ e.inputHeight ≤ window e.outputHeight e.kernelHeight e.stride

instance (e : Extents) : Decidable e.ReadsAll := inferInstanceAs (Decidable (_ ∧ _))

/-- **A tile has the input that its output needs**, within the layer. -/
def Extents.HasInput (tile full : Extents) : Prop :=
  tile.inputWidth
      = min (window tile.outputWidth tile.kernelWidth full.stride) full.inputWidth
    ∧ tile.inputHeight
      = min (window tile.outputHeight tile.kernelHeight full.stride) full.inputHeight

/-- **The output of a layer of stride one** reads all of its input: its window is the
padded input, or the kernel where the input is shorter. -/
theorem le_window_of_outputLength {input kernel padding n : Int} (hp : 0 ≤ padding)
    (run : outputLength input kernel 1 padding = .ok n) : input ≤ window n kernel 1 := by
  by_cases hshort : input < kernel
  · rw [outputLength_of_lt hshort] at run
    obtain rfl := Except.ok.inj run
    rw [window, Int.sub_self, Int.zero_mul, Int.zero_add]
    exact Int.le_of_lt hshort
  · obtain ⟨rfl, -⟩ := (outputLength_eq_ok_iff (Int.not_lt.1 hshort) hp).1 run
    have hlong := lt_window_places_add_one (input + 2 * padding) kernel Int.zero_lt_one
    rw [Int.max_self]
    unfold window at *
    omega

/-- Every layer of stride one is read whole. -/
theorem Layer.readsAll_of_stride {l : Layer} {e : Extents} (run : l.extents = .ok e)
    (hs : l.stride = 1) : e.ReadsAll := by
  obtain ⟨-, w, h, hw, hh, rfl, hvalid⟩ := Layer.extents_eq_ok_iff.1 run
  obtain ⟨⟨-, hpw, hph⟩, -⟩ := Extents.valid_iff_one_le_get.1 hvalid
  rw [Layer.outputWidth, hs] at hw
  rw [Layer.outputHeight, hs] at hh
  have hwidth := le_window_of_outputLength hpw hw
  have hheight := le_window_of_outputLength hph hh
  rw [← hs] at hwidth hheight
  exact ⟨hwidth, hheight⟩

variable {full tile e : Extents} {a : Accelerator}

/-- **To derive the input of a tile that has it** changes nothing. -/
theorem Extents.HasInput.derived_eq (h : tile.HasInput full) :
    TileSpace.derived full tile = tile := by
  unfold TileSpace.derived
  rw [← h.1, ← h.2]

/-! ## The seed -/

/-- The stripe has the whole width of input, which its whole width of output reads,
and the rows that its one row of output needs. -/
theorem hasInput_stripe (hreads : full.ReadsAll) (run : stripe full = .ok tile) :
    tile.HasInput full := by
  obtain ⟨rows, hrows, run⟩ := bind_eq_ok_iff.1 run
  obtain rfl := pure_eq_ok_iff.1 run
  obtain ⟨rfl, -⟩ := (tileInputLength_eq_ok_iff (Int.le_refl 1)).1 hrows
  exact ⟨(Int.min_eq_right hreads.1).symm, rfl⟩

namespace Seeding

variable {s s' : Seeding} {d : Dim} {length : Int}

/-- **Serving an extent that is none of the input** keeps the input that the output
needs: an extent of the output brings it along, and a channel does not matter to
it. -/
theorem hasInput_serve (hfull : full.Valid) (hs : s.Sound full length)
    (h : s.tile.HasInput full) (hd : d ≠ .inputWidth ∧ d ≠ .inputHeight)
    (run : Seeding.serve full s d = .ok s') : s'.tile.HasInput full := by
  obtain ⟨hone, -⟩ := hs.taken_bounds hfull d
  cases d
  case inputWidth => exact absurd rfl hd.1
  case inputHeight => exact absurd rfl hd.2
  case kernelWidth | kernelHeight =>
    obtain rfl := Except.ok.inj run
    exact h
  all_goals
    obtain ⟨tile, htile, run⟩ := bind_eq_ok_iff.1 run
    obtain ⟨left, -, run⟩ := bind_eq_ok_iff.1 run
    obtain rfl := pure_eq_ok_iff.1 run
  case outputWidth =>
    obtain ⟨m, hm, htile⟩ := bind_eq_ok_iff.1 htile
    obtain rfl := pure_eq_ok_iff.1 htile
    obtain ⟨rfl, -⟩ := (tileInputLength_eq_ok_iff hone).1 hm
    exact ⟨rfl, h.2⟩
  case outputHeight =>
    obtain ⟨m, hm, htile⟩ := bind_eq_ok_iff.1 htile
    obtain rfl := pure_eq_ok_iff.1 htile
    obtain ⟨rfl, -⟩ := (tileInputLength_eq_ok_iff hone).1 hm
    exact ⟨h.1, rfl⟩
  case inputChannel | outputChannel =>
    obtain rfl := Except.ok.inj htile
    exact h

end Seeding

/-- A length that was computed as a window and cut already reaches the kernel. -/
theorem min_max_window {length kernel bound : Int} (hle : kernel ≤ length) :
    min (max (min length bound) kernel) bound = min length bound := by
  omega

/-- **The input that an output needs reaches the kernel**, so that widening it to the
kernel changes nothing. -/
theorem reachKernel_eq_self (hfull : full.Valid) (ht : tile.LiesIn full)
    (h : tile.HasInput full) : reachKernel full tile = tile := by
  have hs := hfull.stride_nonneg
  have hw : tile.kernelWidth ≤ window tile.outputWidth tile.kernelWidth full.stride :=
    kernel_le_window tile.kernelWidth (ht.one_le .outputWidth) hs
  have hh : tile.kernelHeight ≤ window tile.outputHeight tile.kernelHeight full.stride :=
    kernel_le_window tile.kernelHeight (ht.one_le .outputHeight) hs
  unfold reachKernel
  rw [h.1, h.2, min_max_window hw, min_max_window hh, ← h.1, ← h.2]

/-- **The tile that a search starts from** has the input that its output needs. -/
theorem hasInput_seedTile (hfull : full.Valid) (hreads : full.ReadsAll)
    (ha : ∀ s, 1 ≤ a.length s) (hmapped : a.MapsNoInput)
    (run : seedTile full a = .ok tile) : tile.HasInput full := by
  have hserve : ∀ side, ∀ d ∈ a.mapped side, ∀ s s' : Seeding,
      s.Sound full (a.length side) → s.tile.HasInput full →
      Seeding.serve full s d = .ok s' → s'.tile.HasInput full := by
    intro side d hd s s' hs h hstep
    exact Seeding.hasInput_serve hfull hs h (hmapped.ne_of_mem hd) hstep
  obtain ⟨served, hin, h, rfl⟩ :=
    seedTile_keeps hfull ha (fun _ hstart => hasInput_stripe hreads hstart) hserve run
  rw [reachKernel_eq_self hfull hin h]
  exact h

/-! ## The axes made fully tiled -/

namespace Tiling

variable {t : Tiling}

/-- An axis made fully tiled keeps the whole kernel. -/
theorem sameKernel_tileFully (hkernel : t.tile.SameKernel t.full) (a : Axis) :
    (t.tileFully a).tile.SameKernel t.full := by
  cases a with
  | kernelMap => exact ⟨rfl, rfl⟩
  | _ => exact hkernel

/-- **An axis made fully tiled** keeps the input that the output needs, in a layer that
is read whole: an output map brings the whole input along, and the kernel is whole
already. -/
theorem hasInput_tileFully (hreads : t.full.ReadsAll) (hkernel : t.tile.SameKernel t.full)
    (h : t.tile.HasInput t.full) (a : Axis) : (t.tileFully a).tile.HasInput t.full := by
  obtain ⟨hkw, hkh⟩ := hkernel
  cases a with
  | kernelMap =>
    show t.tile.inputWidth = min (window _ t.full.kernelWidth _) _
      ∧ t.tile.inputHeight = min (window _ t.full.kernelHeight _) _
    rw [← hkw, ← hkh]
    exact h
  | outputMap =>
    show t.full.inputWidth = min (window _ t.tile.kernelWidth _) _
      ∧ t.full.inputHeight = min (window _ t.tile.kernelHeight _) _
    rw [hkw, hkh]
    exact ⟨(Int.min_eq_right hreads.1).symm, (Int.min_eq_right hreads.2).symm⟩
  | inputChannel => exact h
  | outputChannel => exact h

/-- Several axes made fully tiled keep the input that the output needs. -/
theorem hasInput_foldl_tileFully (hreads : t.full.ReadsAll)
    (hkernel : t.tile.SameKernel t.full) (h : t.tile.HasInput t.full) (axes : List Axis) :
    (axes.foldl Tiling.tileFully t).tile.HasInput t.full := by
  induction axes generalizing t with
  | nil => exact h
  | cons a axes ih =>
    exact ih (t := t.tileFully a) hreads (sameKernel_tileFully hkernel a)
      (hasInput_tileFully hreads hkernel h a)

end Tiling

/-- Removing loops keeps the input that the output needs. -/
theorem LoopNest.hasInput_of_removeLoops {n : LoopNest} {r : LoopRemoval}
    (hreads : n.tiling.full.ReadsAll) (hkernel : n.tiling.tile.SameKernel n.tiling.full)
    (h : n.tiling.tile.HasInput n.tiling.full) (run : n.removeLoops a = .ok r) :
    r.nest.tiling.tile.HasInput n.tiling.full := by
  have htiled := Tiling.hasInput_foldl_tileFully hreads hkernel h
  obtain ⟨axes, -, rfl | rfl⟩ | rfl := removeLoops_cases run
  · exact htiled axes
  · exact htiled axes
  · exact h

/-- What some axes could be made fully tiled of fits the buffers. -/
theorem LoopNest.fits_of_removeLoops {n : LoopNest} {r : LoopRemoval}
    (run : n.removeLoops a = .ok r) (hfeasible : r.isFeasible = true) :
    r.nest.tiling.fits a = .ok true := by
  obtain ⟨axes, hfits, rfl | rfl⟩ | rfl := removeLoops_cases run
  · exact hfits
  · exact hfits
  · cases hfeasible

/-! ## The first candidate -/

/-- **The first tiling of a space** is the one that the space starts from, if the tile
of that has the input that its output needs: its digits enlarge nothing, and to
derive its input changes nothing. -/
theorem TileSpace.Sound.tilingAt_one_eq_seed {space : TileSpace} {t : Tiling}
    (hs : space.Sound) (h : space.seed.tile.HasInput space.seed.full)
    (run : space.tilingAt 1 = .ok t) : t = space.seed := by
  obtain ⟨-, tile, htile, -, rfl⟩ := hs.tilingAt run
  rw [eq_of_enlarge_zero htile, h.derived_eq]

/-- A sound space has at least one tile. -/
theorem TileSpace.Sound.one_le_total {space : TileSpace} {total : Nat} (hs : space.Sound)
    (run : space.total = .ok total) : 1 ≤ total := by
  obtain ⟨rfl, -⟩ := hs.total_eq_ok_iff.1 run
  refine List.prod_pos_iff_forall_pos_nat.2 fun r hr => ?_
  obtain ⟨d, -, rfl⟩ := List.mem_map.1 hr
  exact one_le_room space.seed d

namespace Scheduler

variable {s : Scheduler} {n m : LoopNest} {removal : LoopRemoval} {d : Operand}
  {space : TileSpace} {total : Nat}

/-- **The nest that is left** when loops are removed has the input that its output
needs, in a layer that is read whole. -/
theorem hasInput_of_prepare (hn : n.Valid) (hreads : n.tiling.full.ReadsAll)
    (hmapped : s.accelerator.MapsNoInput)
    (run : s.prepare n = .ok removal) :
    removal.nest.tiling.tile.HasInput n.tiling.full := by
  obtain ⟨tile, unroll, htile, hremove⟩ := seedTile_of_prepare run
  exact LoopNest.hasInput_of_removeLoops (n := { n with tiling := ⟨_, tile, unroll⟩ }) hreads
    (sameKernel_seedTile htile)
    (hasInput_seedTile hn.1.1 hreads s.valid.one_le_length hmapped htile) hremove

/-- **The first candidate** of a layer that is read whole is the nest that is left. -/
theorem Steps.tilingAt_one (h : s.Steps n removal m d space total) (hn : n.Valid)
    (hreads : n.tiling.full.ReadsAll)
    (hmapped : s.accelerator.MapsNoInput)
    {t : Tiling} (run : space.tilingAt 1 = .ok t) : t = m.tiling := by
  obtain ⟨hsound, hseed⟩ := h.sound hn
  obtain ⟨-, hm⟩ := LoopNest.adoptDataflow_eq_ok_iff.1 h.adopted
  have hleft : m.tiling.tile.HasInput m.tiling.full := by
    rw [(h.derived hn).full, hm]
    exact hasInput_of_prepare hn hreads hmapped h.prepared
  rw [← hseed] at hleft ⊢
  exact hsound.tilingAt_one_eq_seed hleft run

/-- A sweep that ends has visited the first candidate, which is the nest that is
left. -/
theorem Steps.tilingAt_one_of_sweep (h : s.Steps n removal m d space total) (hn : n.Valid)
    (hreads : n.tiling.full.ReadsAll)
    (hmapped : s.accelerator.MapsNoInput)
    {best : Option Candidate} (run : s.sweep m d = .ok (total, best)) :
    space.tilingAt 1 = .ok m.tiling := by
  obtain ⟨hsound, -⟩ := h.sound hn
  have hone := hsound.one_le_total h.counted
  obtain ⟨-, hvisited⟩ := h.visited run
  obtain ⟨r, hr⟩ := hvisited.answers 1 (List.mem_range'_1.2 ⟨Nat.le_refl 1, by omega⟩)
  -- a candidate that has an answer has a tiling
  obtain ⟨t, ht, -⟩ := bind_eq_ok_iff.1 hr
  rw [ht, h.tilingAt_one hn hreads hmapped ht]

/-- **A sweep of what some axes were made fully tiled of finds something**, as the first
candidate fits the buffers. -/
theorem Steps.sweep_ne_none (h : s.Steps n removal m d space total) (hn : n.Valid)
    (hreads : n.tiling.full.ReadsAll) (hmapped : s.accelerator.MapsNoInput)
    (hfeasible : removal.isFeasible) {best : Option Candidate}
    (run : s.sweep m d = .ok (total, best)) : ∃ c, best = some c := by
  have hfirst := h.tilingAt_one_of_sweep hn hreads hmapped run
  have hfits : m.tiling.fits s.accelerator = .ok true := by
    obtain ⟨seeded, -, hremove⟩ := bind_eq_ok_iff.1 h.prepared
    obtain ⟨-, hm⟩ := LoopNest.adoptDataflow_eq_ok_iff.1 h.adopted
    rw [hm]
    exact LoopNest.fits_of_removeLoops hremove hfeasible
  obtain ⟨hsound, -⟩ := h.sound hn
  refine Option.ne_none_iff_exists'.1 fun hnone => ?_
  exact (h.sweep_eq_none_iff run).1 hnone 1 (Nat.le_refl 1)
    (hsound.one_le_total h.counted) ⟨m.tiling, hfirst, hfits⟩

/-- **A search for which some axes can be made fully tiled finds a tiling.** Let no
extent of the input be mapped onto the array, and let the whole output read the whole
input, as it does in every layer of stride one. Then the first candidate of the sweep
is the nest that the stages before it left, with all three levels of its tiling. A
search that stops at no fault, and is not refused before the sweep, has this candidate;
and if some axes could be fully tiled within the buffers, it ends with a result, as the
candidate fits them. -/
theorem search_of_isFeasible (s : Scheduler) {l : Layer} {n : LoopNest} (hn : n.Valid)
    (hl : l.extents = .ok n.tiling.full)
    (hmapped : s.accelerator.MapsNoInput) :
    (l.stride = 1 → n.tiling.full.ReadsAll)
      ∧ (n.tiling.full.ReadsAll →
        (∀ removal m d space total t, s.Steps n removal m d space total →
          space.tilingAt 1 = .ok t → t = m.tiling)
        ∧ (Attempt.FaultFree (s.search n) → ∃ removal, s.prepare n = .ok removal
          ∧ (removal.isFeasible ∨ ¬ s.options.strictMemory → ∃ m d space total,
            s.Steps n removal m d space total ∧ space.tilingAt 1 = .ok m.tiling)
          ∧ (removal.isFeasible → ∃ r, s.search n = .ok r))) := by
  refine ⟨Layer.readsAll_of_stride hl, fun hreads => ⟨?_, fun hrun => ?_⟩⟩
  · intro removal m d space total t hsteps ht
    exact hsteps.tilingAt_one hn hreads hmapped ht
  · obtain ⟨removal, hprepare, hswept⟩ := steps_of_faultFree hn hrun
    refine ⟨removal, hprepare, fun hadmitted => ?_, fun hfeasible => ?_⟩
    · obtain ⟨m, d, space, total, best, hsteps, hsweep, -⟩ := hswept hadmitted
      exact ⟨m, d, space, total, hsteps,
        hsteps.tilingAt_one_of_sweep hn hreads hmapped hsweep⟩
    · obtain ⟨m, d, space, total, best, hsteps, hsweep, horient⟩ := hswept (.inl hfeasible)
      obtain ⟨c, rfl⟩ := hsteps.sweep_ne_none hn hreads hmapped hfeasible hsweep
      obtain ⟨⟨nest, score⟩, horient⟩ := horient c rfl
      exact ⟨_, search_eq_ok_iff.2 ⟨hn, removal, hprepare, .inl hfeasible, m, d,
        hsteps.adopted, total, c, hsweep, nest, score, horient, rfl⟩⟩

/-- A layer of stride two whose windows end where the input does, on an array onto which
the output map is mapped, with buffers that let the kernel map and the output channels
be fully tiled and no third axis. -/
theorem search_of_isFeasible_strided :
    let l : Layer := ⟨7, 5, 2, 3, 3, 4, 2, 0, 0⟩
    let e : Extents := ⟨2, 0, 0, 7, 5, 2, 3, 3, 3, 2, 4⟩
    let a : Accelerator :=
      ⟨1, 1.0, 1.0, ⟨200, 320, 90⟩, 1, 2, [.outputHeight], [.outputWidth]⟩
    let s : Scheduler := ⟨a, {}, by decide⟩
    let n : LoopNest := { tiling := .untiled e }
    l.extents = .ok e ∧ e.ReadsAll ∧ Attempt.FaultFree (s.search n)
      ∧ ∃ removal m d space total r, s.Steps n removal m d space total
        ∧ removal.isFeasible = true ∧ space.tilingAt 1 = .ok m.tiling
        ∧ s.search n = .ok r := by
  intro l e a s n
  have hl : l.extents = .ok e := by decide
  have hreads : e.ReadsAll := by decide
  have hfull : e.Moderate := Layer.moderate_of_extents hl (by decide)
  have hrun : Attempt.FaultFree (s.search n) :=
    search_faultFree (LoopNest.valid_untiled hfull.valid) hfull (by decide)
  obtain ⟨removal, hprepare, hfirst, hfound⟩ :=
    ((search_of_isFeasible s (n := n) (LoopNest.valid_untiled hfull.valid) hl
      (by decide)).2 hreads).2 hrun
  have hfeasible : (match s.prepare n with
      | .ok removal => removal.isFeasible
      | .error _ => false) = true := by decide +kernel
  rw [hprepare] at hfeasible
  obtain ⟨m, d, space, total, hsteps, hone⟩ := hfirst (.inl hfeasible)
  obtain ⟨r, hr⟩ := hfound hfeasible
  exact ⟨hl, hreads, hrun, removal, m, d, space, total, r, hsteps, hfeasible, hone, hr⟩

end Scheduler

end ConvTiling
