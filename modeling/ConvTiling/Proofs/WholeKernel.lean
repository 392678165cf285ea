import ConvTiling.Proofs.Selection

/-!
# The kernel is whole throughout a search

No step of a search tiles the kernel. The stripe it starts from has the whole
kernel; an extent that is served brings a map along and never the kernel; an
axis made fully tiled takes over what the tile has already; and since the tile
is as large as the layer along the kernel, a candidate has no room to enlarge it
(`TileSpace.eq_of_enlarge_of_eq`). So the kernel map of every selected tile is
fully tiled (`Scheduler.Selects.sameKernel`), whatever is mapped onto the array.
-/

namespace ConvTiling

open Checked (bind_eq_ok_iff pure_eq_ok_iff)

variable {full tile e e' : Extents} {a : Accelerator}

/-! ## The seed -/

/-- **A level has the kernel of another one.** -/
def Extents.SameKernel (e e' : Extents) : Prop :=
  e.kernelWidth = e'.kernelWidth ∧ e.kernelHeight = e'.kernelHeight

/-- Setting an extent that is none of the kernel keeps the kernel. -/
theorem Extents.SameKernel.set (h : e.SameKernel full) {d : Dim}
    (hd : d ≠ .kernelWidth ∧ d ≠ .kernelHeight) (n : Int) : (e.set d n).SameKernel full := by
  cases d with
  | kernelWidth => exact absurd rfl hd.1
  | kernelHeight => exact absurd rfl hd.2
  | _ => exact h

/-- What an extent brings along is not the kernel. -/
theorem sameKernel_bringAlong {d : Dim} {n : Int} (h : tile.SameKernel full)
    (run : bringAlong full tile d n = .ok e) : e.SameKernel full := by
  cases d
  case outputWidth | outputHeight | inputWidth | inputHeight =>
    obtain ⟨_, -, run⟩ := bind_eq_ok_iff.1 run
    obtain rfl := pure_eq_ok_iff.1 run
    exact h
  all_goals
    obtain rfl := Except.ok.inj run
    exact h

/-- Serving an extent keeps the kernel. -/
theorem Seeding.sameKernel_serve {s s' : Seeding} {d : Dim} (h : s.tile.SameKernel full)
    (run : Seeding.serve full s d = .ok s') : s'.tile.SameKernel full := by
  unfold Seeding.serve at run
  split at run
  · obtain rfl := Except.ok.inj run
    exact h
  · obtain rfl := Except.ok.inj run
    exact h
  · next hwidth hheight =>
    obtain ⟨tile, htile, run⟩ := bind_eq_ok_iff.1 run
    obtain ⟨left, -, run⟩ := bind_eq_ok_iff.1 run
    obtain rfl := pure_eq_ok_iff.1 run
    exact (sameKernel_bringAlong h htile).set ⟨hwidth, hheight⟩ _

/-- **The tile that a search starts from** has the whole kernel. -/
theorem sameKernel_seedTile (run : seedTile full a = .ok tile) : tile.SameKernel full := by
  obtain ⟨start, hstart, run⟩ := bind_eq_ok_iff.1 run
  obtain ⟨seeded, hsides, run⟩ := bind_eq_ok_iff.1 run
  obtain rfl := pure_eq_ok_iff.1 run
  have hkernel : start.SameKernel full := by
    obtain ⟨rows, -, hstart⟩ := bind_eq_ok_iff.1 hstart
    obtain rfl := pure_eq_ok_iff.1 hstart
    exact ⟨rfl, rfl⟩
  show seeded.SameKernel full
  refine Checked.foldlM_keeps (P := fun t : Extents => t.SameKernel full)
    (fun side _ t t' ht hside => ?_) hkernel hsides
  obtain ⟨served, hserved, hside⟩ := bind_eq_ok_iff.1 hside
  obtain rfl := pure_eq_ok_iff.1 hside
  exact Checked.foldlM_keeps (P := fun s : Seeding => s.tile.SameKernel full)
    (fun d _ s s' hs hserve => Seeding.sameKernel_serve hs hserve) ht hserved

/-! ## The candidates -/

namespace TileSpace

/-- **Enlarging makes no extent smaller.** -/
theorem get_le_of_enlarge {ps : List (Dim × Nat)} {digits : Nat}
    (run : enlarge ps digits e = .ok e') (d : Dim) : e.get d ≤ e'.get d := by
  induction ps generalizing e digits with
  | nil =>
    obtain rfl : e = e' := Except.ok.inj run
    exact Int.le_refl _
  | cons p ps ih =>
    obtain ⟨n, hn, run⟩ := bind_eq_ok_iff.1 run
    obtain ⟨rfl, -⟩ := Signed.add_eq_ok_iff.1 hn
    refine Int.le_trans ?_ (ih run)
    rw [Extents.get_set]
    by_cases hd : p.1 = d
    · rw [if_pos hd, ← hd]
      exact Int.le_add_of_nonneg_right (Int.natCast_nonneg _)
    · rw [if_neg hd]

/-- **An extent without room** keeps its value. -/
theorem eq_of_enlarge_of_eq {ps : List (Dim × Nat)} {digits : Nat} {d : Dim}
    (run : enlarge ps digits e = .ok e') (he' : e'.LiesIn full) (he : e.get d = full.get d) :
    e'.get d = full.get d :=
  Int.le_antisymm (he'.le d) (he ▸ get_le_of_enlarge run d)

/-- The tiles of a space have the whole kernel if its seed has. -/
theorem Sound.sameKernel_tilingAt {s : TileSpace} (hs : s.Sound)
    (hkernel : s.seed.tile.SameKernel s.seed.full) {t : Tiling} {number : Nat}
    (run : s.tilingAt number = .ok t) : t.tile.SameKernel s.seed.full := by
  obtain ⟨-, tile, henlarge, hin, rfl⟩ := hs.tilingAt run
  have hwidth : tile.get .kernelWidth = s.seed.full.get .kernelWidth :=
    eq_of_enlarge_of_eq henlarge hin hkernel.1
  have hheight : tile.get .kernelHeight = s.seed.full.get .kernelHeight :=
    eq_of_enlarge_of_eq henlarge hin hkernel.2
  exact ⟨hwidth, hheight⟩

end TileSpace

/-! ## What is selected -/

/-- Removing loops keeps the whole kernel. -/
theorem LoopNest.sameKernel_of_removeLoops {n : LoopNest} {r : LoopRemoval}
    (h : n.tiling.tile.SameKernel n.tiling.full) (run : n.removeLoops a = .ok r) :
    r.nest.tiling.tile.SameKernel n.tiling.full := by
  obtain ⟨hwidth, hheight⟩ := h
  -- an extent that is taken over is the one the tile has
  have hkeeps : ∀ (axes : List Axis) (d : Dim), n.tiling.tile.get d = n.tiling.full.get d →
      (axes.foldl Tiling.tileFully n.tiling).tile.get d = n.tiling.full.get d := by
    intro axes d hd
    rw [Tiling.get_tile_foldl_tileFully, hd, ite_self]
  have htiled : ∀ axes, (n.tileFully axes).tiling.tile.SameKernel n.tiling.full := fun axes =>
    ⟨hkeeps axes .kernelWidth hwidth, hkeeps axes .kernelHeight hheight⟩
  obtain ⟨axes, -, rfl | rfl⟩ | rfl := removeLoops_cases run
  · exact htiled axes
  · exact htiled axes
  · exact ⟨hwidth, hheight⟩

namespace Scheduler

variable {s : Scheduler} {n : LoopNest} {d : Operand} {c : Candidate}

/-- **The loops that are removed** are those of the nest with the seeded tile and its
unrolling. -/
theorem seedTile_of_prepare {removal : LoopRemoval} (run : s.prepare n = .ok removal) :
    ∃ tile unroll, seedTile n.tiling.full s.accelerator = .ok tile
      ∧ LoopNest.removeLoops { n with tiling := ⟨n.tiling.full, tile, unroll⟩ } s.accelerator
        = .ok removal := by
  obtain ⟨seeded, hseed, hremove⟩ := bind_eq_ok_iff.1 run
  obtain ⟨tiling, htiling, hseed⟩ := bind_eq_ok_iff.1 hseed
  obtain rfl := pure_eq_ok_iff.1 hseed
  obtain ⟨tile, htile, htiling⟩ := bind_eq_ok_iff.1 htiling
  obtain ⟨unroll, -, htiling⟩ := bind_eq_ok_iff.1 htiling
  obtain rfl := pure_eq_ok_iff.1 htiling
  exact ⟨tile, unroll, htile, hremove⟩

/-- **The nest before the dataflow is chosen** has the whole kernel. -/
theorem sameKernel_of_prepare {removal : LoopRemoval} (run : s.prepare n = .ok removal) :
    removal.nest.tiling.tile.SameKernel n.tiling.full := by
  obtain ⟨tile, unroll, htile, hremove⟩ := seedTile_of_prepare run
  exact LoopNest.sameKernel_of_removeLoops (n := { n with tiling := ⟨_, tile, unroll⟩ })
    (sameKernel_seedTile htile) hremove

/-- **The kernel of a selected tile is whole.** -/
theorem Selects.sameKernel (h : s.Selects n d c) (hn : n.Valid) :
    c.nest.tiling.tile.SameKernel n.tiling.full := by
  obtain ⟨removal, m, space, x, hprepare, hadopt, hadopted, -, hsound, hseed, hx, rfl⟩ :=
    h.scored hn
  have hfull : space.seed.full = n.tiling.full := by
    rw [hseed]
    exact hadopted.full
  have hkernel : space.seed.tile.SameKernel space.seed.full := by
    obtain ⟨-, rfl⟩ := LoopNest.adoptDataflow_eq_ok_iff.1 hadopt
    rw [hfull, hseed]
    exact sameKernel_of_prepare hprepare
  obtain ⟨t, unroll, ht, -, -, htiling, -⟩ := Sweep.score?_eq_ok_some_iff.1 hx
  have hcandidate := hsound.sameKernel_tilingAt hkernel ht
  show x.tiling.tile.SameKernel n.tiling.full
  rw [htiling, ← hfull]
  exact hcandidate

end Scheduler

end ConvTiling
