import ConvTiling.Proofs.FirstCandidate

/-!
# A tile holds the input that its output needs

The extents of the output and of the input are written by turns while a tile is seeded.
Each of them brings the other one along when it is served, and a later one overwrites what
an earlier one has brought: the input of the output width may be replaced by an input width
that is mapped onto the array itself, or the reverse. What every one of these writes keeps
is that the input is long enough for the output – the window of the output, or the whole
input if that is shorter – or else shorter than the kernel alone, and then the output is a
single place (`Extents.Reaches`). That last shortage is made up when the input is widened
to the kernel, so a seeded tile holds its input (`holdsInput_seedTile`), whatever is mapped
onto the array and in which order.

After that the input can only be too long. An output map that is made fully tiled takes the
whole input over, and no other axis touches either (`Tiling.holdsInput_tileFully`). It is
the sweep that cuts the input of each candidate down to what its output needs
(`LoopNest.supplied_of_stages`).
-/

namespace ConvTiling

open Checked (Answers bind_eq_ok_iff pure_eq_ok_iff)

/-- **The output that an input gives needs no more** than that input, or than the kernel where
the input is shorter. -/
theorem window_le_of_tileOutputLength {input kernel stride n : Int}
    (run : tileOutputLength input kernel stride = .ok n) :
    window n kernel stride ≤ max input kernel := by
  by_cases hlt : input < kernel
  · rw [tileOutputLength_of_lt hlt] at run
    obtain rfl := Except.ok.inj run
    rw [window, Int.sub_self, Int.zero_mul, Int.zero_add]
    exact Int.le_max_right _ _
  · obtain ⟨hn, -⟩ := (tileOutputLength_eq_ok_iff (Int.not_lt.1 hlt)).1 run
    have hone := one_le_of_tileOutputLength run
    have hsteps : (n - 1) * stride ≤ (n - 1) * max stride 1 :=
      Int.mul_le_mul_of_nonneg_left (Int.le_max_left _ _) (by omega)
    calc window n kernel stride
        ≤ window n kernel (max stride 1) := Int.add_le_add_right hsteps _
      _ ≤ input := (window_le_iff (by omega)).2 (Int.le_of_eq hn)
      _ ≤ max input kernel := Int.le_max_left _ _

namespace Extents

/-- **A tile holds the input that its output needs**: in each direction at least the window of
the output, or the whole input if that is shorter, and no more than there is. -/
structure HoldsInput (tile full : Extents) : Prop where
  width : min full.inputWidth (window tile.outputWidth tile.kernelWidth full.stride)
    ≤ tile.inputWidth
  width_le : tile.inputWidth ≤ full.inputWidth
  height : min full.inputHeight (window tile.outputHeight tile.kernelHeight full.stride)
    ≤ tile.inputHeight
  height_le : tile.inputHeight ≤ full.inputHeight

/-- **The input of a tile reaches as far as its output needs**, or would if it were as long as
the kernel. -/
structure Reaches (tile full : Extents) : Prop where
  width : min full.inputWidth (window tile.outputWidth tile.kernelWidth full.stride)
    ≤ max tile.inputWidth tile.kernelWidth
  height : min full.inputHeight (window tile.outputHeight tile.kernelHeight full.stride)
    ≤ max tile.inputHeight tile.kernelHeight

end Extents

variable {full tile e : Extents} {a : Accelerator}

/-! ## The seed -/

/-- The stripe has the whole width of input, and the rows that one row of output needs. -/
theorem reaches_stripe (run : stripe full = .ok tile) : tile.Reaches full := by
  obtain ⟨rows, hrows, run⟩ := bind_eq_ok_iff.1 run
  obtain rfl := pure_eq_ok_iff.1 run
  obtain ⟨rfl, -⟩ := (tileInputLength_eq_ok_iff (Int.le_refl 1)).1 hrows
  constructor
  · exact Int.le_trans (Int.min_le_left _ _) (Int.le_max_left _ _)
  · exact Int.le_trans (Int.le_of_eq (Int.min_comm _ _)) (Int.le_max_left _ _)

/-- An input that was set to what an output needs reaches as far. -/
theorem reaches_of_output {whole length kernel : Int} :
    min whole length ≤ max (min length whole) kernel := by
  omega

/-- An output that was set to what an input gives, within the layer, needs no more than that
input or the kernel. -/
theorem reaches_of_input {whole input kernel stride n bound : Int} (hs : 0 ≤ stride)
    (run : tileOutputLength input kernel stride = .ok n) :
    min whole (window (min n bound) kernel stride) ≤ max input kernel :=
  calc min whole (window (min n bound) kernel stride)
      ≤ window (min n bound) kernel stride := Int.min_le_right _ _
    _ ≤ window n kernel stride :=
        window_le_window hs (Int.min_le_left _ _) (Int.le_refl _)
    _ ≤ max input kernel := window_le_of_tileOutputLength run

/-- **Serving any extent** keeps the input reaching as far as the output needs. An extent of
either map writes both of them in its direction, and leaves the other direction. -/
theorem Seeding.reaches_serve {s s' : Seeding} {d : Dim} {length : Int} (hfull : full.Valid)
    (hs : s.Sound full length) (h : s.tile.Reaches full)
    (run : Seeding.serve full s d = .ok s') : s'.tile.Reaches full := by
  have hstride := hfull.stride_nonneg
  obtain ⟨hone, -⟩ := hs.taken_bounds hfull d
  cases d
  case kernelWidth | kernelHeight =>
    obtain rfl := Except.ok.inj run
    exact h
  all_goals
    obtain ⟨tile, htile, run⟩ := bind_eq_ok_iff.1 run
    obtain ⟨left, -, run⟩ := bind_eq_ok_iff.1 run
    obtain rfl := pure_eq_ok_iff.1 run
  case inputChannel | outputChannel =>
    obtain rfl := Except.ok.inj htile
    exact ⟨h.width, h.height⟩
  all_goals
    obtain ⟨m, hm, htile⟩ := bind_eq_ok_iff.1 htile
    obtain rfl := pure_eq_ok_iff.1 htile
  case outputWidth =>
    obtain ⟨rfl, -⟩ := (tileInputLength_eq_ok_iff hone).1 hm
    exact ⟨reaches_of_output, h.height⟩
  case outputHeight =>
    obtain ⟨rfl, -⟩ := (tileInputLength_eq_ok_iff hone).1 hm
    exact ⟨h.width, reaches_of_output⟩
  case inputWidth => exact ⟨reaches_of_input hstride hm, h.height⟩
  case inputHeight => exact ⟨h.width, reaches_of_input hstride hm⟩

/-- **Widened to its kernel**, an input that reaches as far as the output needs is held. -/
theorem holdsInput_reachKernel (h : tile.Reaches full) :
    (reachKernel full tile).HoldsInput full where
  width := Int.le_min.2 ⟨h.width, Int.min_le_left _ _⟩
  width_le := Int.min_le_right _ _
  height := Int.le_min.2 ⟨h.height, Int.min_le_left _ _⟩
  height_le := Int.min_le_right _ _

/-- **The tile that a search starts from** holds its input, whatever is mapped onto the
array. -/
theorem holdsInput_seedTile (hfull : full.Valid) (ha : ∀ s, 1 ≤ a.length s)
    (run : seedTile full a = .ok tile) : tile.HoldsInput full := by
  obtain ⟨served, -, h, rfl⟩ := seedTile_keeps hfull ha (fun _ => reaches_stripe)
    (fun _ _ _ _ _ hs h hstep => Seeding.reaches_serve hfull hs h hstep) run
  exact holdsInput_reachKernel h

/-! ## The axes made fully tiled -/

namespace Tiling

variable {t : Tiling}

/-- **An axis made fully tiled** keeps the input held: an output map brings the whole input
along, and the kernel is whole already. -/
theorem holdsInput_tileFully (hkernel : t.tile.SameKernel t.full)
    (h : t.tile.HoldsInput t.full) (a : Axis) : (t.tileFully a).tile.HoldsInput t.full := by
  obtain ⟨hwidth, hheight⟩ := hkernel
  cases a with
  | kernelMap =>
    refine ⟨?_, h.width_le, ?_, h.height_le⟩
    · show min _ (window _ t.full.kernelWidth _) ≤ _
      exact hwidth ▸ h.width
    · show min _ (window _ t.full.kernelHeight _) ≤ _
      exact hheight ▸ h.height
  | outputMap =>
    exact ⟨Int.min_le_left _ _, Int.le_refl _, Int.min_le_left _ _, Int.le_refl _⟩
  | inputChannel => exact ⟨h.width, h.width_le, h.height, h.height_le⟩
  | outputChannel => exact ⟨h.width, h.width_le, h.height, h.height_le⟩

/-- Several axes made fully tiled keep the input held. -/
theorem holdsInput_foldl_tileFully (hkernel : t.tile.SameKernel t.full)
    (h : t.tile.HoldsInput t.full) (axes : List Axis) :
    (axes.foldl Tiling.tileFully t).tile.HoldsInput t.full := by
  induction axes generalizing t with
  | nil => exact h
  | cons a axes ih =>
    exact ih (t := t.tileFully a) (sameKernel_tileFully hkernel a)
      (holdsInput_tileFully hkernel h a)

end Tiling

/-! ## The stages -/

namespace LoopNest

variable {n m : LoopNest}

/-- **A nest supplies the output of its tile**, in the layer of another nest: it has the whole
kernel, and the input that the output needs. -/
structure Supplied (m n : LoopNest) : Prop where
  full : m.tiling.full = n.tiling.full
  kernel : m.tiling.tile.SameKernel n.tiling.full
  input : m.tiling.tile.HoldsInput n.tiling.full

/-- **The seed** supplies its output. -/
theorem supplied_of_seed (hn : n.tiling.full.Valid) (ha : a.Valid) (run : n.seed a = .ok m) :
    m.Supplied n ∧ m.tiling.Nested := by
  obtain ⟨tiling, htiling, run⟩ := bind_eq_ok_iff.1 run
  obtain rfl := pure_eq_ok_iff.1 run
  obtain ⟨hnested, -⟩ := Tiling.nested_of_seed hn ha.one_le_length htiling
  obtain ⟨tile, htile, htiling⟩ := bind_eq_ok_iff.1 htiling
  obtain ⟨unroll, -, htiling⟩ := bind_eq_ok_iff.1 htiling
  obtain rfl := pure_eq_ok_iff.1 htiling
  exact ⟨⟨rfl, sameKernel_seedTile htile, holdsInput_seedTile hn ha.one_le_length htile⟩,
    hnested⟩

/-- **Removing loops**, whether or not any are removed, keeps the output supplied. -/
theorem Supplied.removeLoops {r : LoopRemoval} (h : m.Supplied n)
    (run : m.removeLoops a = .ok r) : r.nest.Supplied n := by
  obtain ⟨hfull, hkernel, hinput⟩ := h
  rw [← hfull] at hkernel hinput
  have hkept := sameKernel_of_removeLoops hkernel run
  have htiled := Tiling.holdsInput_foldl_tileFully hkernel hinput
  rw [hfull] at hkept htiled hinput
  obtain ⟨axes, -, rfl | rfl⟩ | rfl := removeLoops_cases run
  · exact ⟨(Tiling.full_foldl_tileFully m.tiling axes).trans hfull, hkept, htiled axes⟩
  · exact ⟨(Tiling.full_foldl_tileFully m.tiling axes).trans hfull, hkept, htiled axes⟩
  · exact ⟨hfull, hkept, hinput⟩

/-- **The tiles of a space** that is made of a nest supplying its output have the whole kernel,
and exactly the input that their output needs. -/
theorem Supplied.tilingAt {space : TileSpace} (h : m.Supplied n) (hm : m.tiling.Nested)
    (hspace : TileSpace.of m.tiling = .ok space) {number : Nat} {t : Tiling}
    (run : space.tilingAt number = .ok t) :
    t.tile.SameKernel n.tiling.full ∧ t.tile.HasInput n.tiling.full := by
  obtain ⟨hsound, hseed⟩ := TileSpace.sound_of_of hm hspace
  have hfull : space.seed.full = n.tiling.full := by rw [hseed, h.full]
  have hkernel : space.seed.tile.SameKernel space.seed.full := by
    rw [hfull, hseed]
    exact h.kernel
  refine ⟨hfull ▸ hsound.sameKernel_tilingAt hkernel run, ?_⟩
  obtain ⟨-, tile, -, -, rfl⟩ := hsound.tilingAt run
  rw [← hfull]
  exact ⟨rfl, rfl⟩

/-- **Every stage has an answer** for a moderate layer, and so has every candidate. -/
theorem answers_stages (hfull : n.tiling.full.Moderate) (ha : a.Valid) (hc : a.Countable) :
    ∃ seeded removal m d space, n.seed a = .ok seeded
      ∧ seeded.removeLoops a = .ok removal ∧ removal.nest.adoptDataflow = .ok (m, d)
      ∧ TileSpace.of m.tiling = .ok space
      ∧ ∀ number, 1 ≤ number → Answers (space.tilingAt number) := by
  obtain ⟨seeded, hseed⟩ := answers_seed hfull ha hc
  obtain ⟨hsupplied, hnested⟩ := supplied_of_seed hfull.valid ha hseed
  rw [← hsupplied.full] at hfull
  obtain ⟨removal, hremoval⟩ : Answers (seeded.removeLoops a) :=
    answers_removeLoops hfull hnested
  obtain ⟨hnested, hsame, -⟩ := nested_of_removeLoops hnested hremoval
  rw [← hsame] at hfull
  obtain ⟨d, hchoose⟩ := Tiling.answers_chooseDataflow hfull hnested.tile
  obtain ⟨space, hspace⟩ := TileSpace.answers_of hfull hnested.tile
  obtain ⟨hsound, hseed'⟩ := TileSpace.sound_of_of hnested hspace
  rw [← hseed'] at hfull
  exact ⟨seeded, removal, _, d, space, hseed, hremoval,
    adoptDataflow_eq_ok_iff.2 ⟨hchoose, rfl⟩, hspace,
    fun _ hnumber => hsound.answers_tilingAt hfull hnumber⟩

/-- **Every stage of a search supplies the output of its tile.** Whatever is mapped onto the
array, an input map included, the seed, the nest that is left when loops are removed, and the
nest with its dataflow have the whole kernel, and an input within the layer that their output
does not exceed. The input of each candidate is just what its output needs. Of a moderate
layer and a countable array there are all of these. -/
theorem supplied_of_stages {l : Layer} (hl : l.extents = .ok n.tiling.full) (ha : a.Valid) :
    (∀ seeded, n.seed a = .ok seeded → seeded.Supplied n
      ∧ ∀ removal, seeded.removeLoops a = .ok removal → removal.nest.Supplied n
      ∧ ∀ m d, removal.nest.adoptDataflow = .ok (m, d) → m.Supplied n
      ∧ ∀ space, TileSpace.of m.tiling = .ok space →
        ∀ number t, space.tilingAt number = .ok t →
          t.tile.SameKernel n.tiling.full ∧ t.tile.HasInput n.tiling.full)
    ∧ (n.tiling.full.Moderate → a.Countable →
      ∃ seeded removal m d space, n.seed a = .ok seeded
        ∧ seeded.removeLoops a = .ok removal ∧ removal.nest.adoptDataflow = .ok (m, d)
        ∧ TileSpace.of m.tiling = .ok space
        ∧ ∀ number, 1 ≤ number → ∃ t, space.tilingAt number = .ok t) := by
  refine ⟨fun seeded hseed => ?_, fun hfull hc => answers_stages hfull ha hc⟩
  obtain ⟨-, _, _, -, -, -, hvalid⟩ := Layer.extents_eq_ok_iff.1 hl
  obtain ⟨hsupplied, hnested⟩ := supplied_of_seed hvalid ha hseed
  refine ⟨hsupplied, fun removal hremoval => ?_⟩
  have hleft := hsupplied.removeLoops hremoval
  obtain ⟨hnested, -⟩ := nested_of_removeLoops hnested hremoval
  refine ⟨hleft, fun m d hadopt => ?_⟩
  obtain ⟨-, rfl⟩ := adoptDataflow_eq_ok_iff.1 hadopt
  -- the dataflow orders the loops, and leaves the tiling
  have hadopted : LoopNest.Supplied
      { removal.nest with offChip := removal.nest.offChip.setDataflow d } n :=
    ⟨hleft.full, hleft.kernel, hleft.input⟩
  exact ⟨hadopted, fun space hspace number t ht => hadopted.tilingAt hnested hspace ht⟩

/-- A width of input on the columns overwrites what the width of output on the rows brings
along, and is shorter than the kernel. The tile that is left has the input for its output. -/
theorem supplied_of_stages_overwritten :
    let e : Extents := ⟨2, 1, 1, 9, 7, 2, 3, 3, 5, 4, 2⟩
    let a : Accelerator :=
      ⟨1, 1.0, 1.0, ⟨200, 320, 90⟩, 4, 2, [.outputWidth], [.inputWidth, .outputHeight]⟩
    let n : LoopNest := { tiling := .untiled e }
    Layer.extents ⟨9, 7, 2, 3, 3, 2, 2, 1, 1⟩ = .ok e ∧ a.Valid ∧ e.Moderate ∧ a.Countable
      ∧ ∃ seeded removal m d space t, n.seed a = .ok seeded
        ∧ seeded.removeLoops a = .ok removal ∧ removal.nest.adoptDataflow = .ok (m, d)
        ∧ TileSpace.of m.tiling = .ok space ∧ space.tilingAt 3 = .ok t
        ∧ seeded.Supplied n ∧ removal.nest.Supplied n ∧ m.Supplied n
        ∧ t.tile.SameKernel e ∧ t.tile.HasInput e := by
  intro e a n
  have hl : Layer.extents ⟨9, 7, 2, 3, 3, 2, 2, 1, 1⟩ = .ok e := by decide
  have ha : a.Valid := by decide
  have hfull : e.Moderate := Layer.moderate_of_extents hl (by decide)
  have hc : a.Countable := by decide
  obtain ⟨hstages, hanswers⟩ := supplied_of_stages (n := n) hl ha
  obtain ⟨seeded, removal, m, d, space, hseed, hremoval, hadopt, hspace, htilings⟩ :=
    hanswers hfull hc
  obtain ⟨t, ht⟩ := htilings 3 (by decide)
  obtain ⟨hseeded, hstages⟩ := hstages seeded hseed
  obtain ⟨hleft, hstages⟩ := hstages removal hremoval
  obtain ⟨hadopted, hspaces⟩ := hstages m d hadopt
  exact ⟨hl, ha, hfull, hc, seeded, removal, m, d, space, t, hseed, hremoval, hadopt, hspace,
    ht, hseeded, hleft, hadopted, hspaces space hspace 3 t ht⟩

end LoopNest

end ConvTiling
