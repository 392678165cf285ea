import ConvTiling.Proofs.Moderate
import ConvTiling.Proofs.Unrolling
import ConvTiling.Schedule.Seed

/-!
# The seed is nested

The tile that a search starts from lies in the layer, whatever is mapped onto
the array and in which order, and its unrolling lies in it
(`Tiling.nested_of_seed`). An extent takes what is left of a side, at most the
whole layer; and since it never takes more than what is left, something is left
for the next one: the rest of a side is at least `1` throughout, so no extent is
set to nothing (`Seeding.Sound`). What an extent brings along is cut to the
layer as well.

A moderate layer is seeded for every array whose sides can be factored
(`Tiling.answers_seed`).
-/

namespace ConvTiling

open Checked (Answers bind_eq_ok_iff pure_eq_ok_iff)

variable {full tile : Extents} {a : Accelerator}

/-! ## The stripe -/

/-- The stripe lies in the layer. -/
theorem liesIn_stripe (hfull : full.Valid) (run : stripe full = .ok tile) :
    tile.LiesIn full := by
  obtain ⟨rows, hrows, run⟩ := bind_eq_ok_iff.1 run
  obtain rfl := pure_eq_ok_iff.1 run
  have hone := hfull.one_le_get
  have hrow := one_le_of_tileInputLength (Int.le_refl 1) (hone .kernelHeight)
    hfull.stride_nonneg hrows
  have hunits := ((hfull.liesIn_self.set (d := .inputChannel) (Int.le_refl 1)
    (hone .inputChannel)).set (d := .outputChannel) (Int.le_refl 1)
    (hone .outputChannel)).set (d := .outputHeight) (Int.le_refl 1) (hone .outputHeight)
  exact hunits.set_min (d := .inputHeight) hrow

/-- A moderate layer has a stripe. -/
theorem answers_stripe (hfull : full.Moderate) : Answers (stripe full) := by
  have hone := hfull.valid.one_le_get
  have hrows := hfull.tileInputLength_height (Int.le_refl 1) (hone .outputHeight)
    (hone .kernelHeight) (Int.le_refl _)
  exact Answers.bind ⟨_, hrows⟩ fun _ _ => Checked.answers_pure _

/-! ## Serving an extent -/

/-- **What an extent brings along** is cut to the layer. -/
theorem liesIn_bringAlong {tile' : Extents} {d : Dim} {n : Int} (hfull : full.Valid)
    (ht : tile.LiesIn full) (hn : 1 ≤ n) (run : bringAlong full tile d n = .ok tile') :
    tile'.LiesIn full := by
  have hs := hfull.stride_nonneg
  unfold bringAlong at run
  split at run
  case h_1 =>
    obtain ⟨m, hm, run⟩ := bind_eq_ok_iff.1 run
    obtain rfl := pure_eq_ok_iff.1 run
    exact ht.set_min (d := .inputWidth)
      (one_le_of_tileInputLength hn (ht.one_le .kernelWidth) hs hm)
  case h_2 =>
    obtain ⟨m, hm, run⟩ := bind_eq_ok_iff.1 run
    obtain rfl := pure_eq_ok_iff.1 run
    exact ht.set_min (d := .inputHeight)
      (one_le_of_tileInputLength hn (ht.one_le .kernelHeight) hs hm)
  case h_3 =>
    obtain ⟨m, hm, run⟩ := bind_eq_ok_iff.1 run
    obtain rfl := pure_eq_ok_iff.1 run
    exact ht.set_min (d := .outputWidth) (one_le_of_tileOutputLength hm)
  case h_4 =>
    obtain ⟨m, hm, run⟩ := bind_eq_ok_iff.1 run
    obtain rfl := pure_eq_ok_iff.1 run
    exact ht.set_min (d := .outputHeight) (one_le_of_tileOutputLength hm)
  case h_5 =>
    obtain rfl := Except.ok.inj run
    exact ht

/-- What an extent of a moderate layer brings along has an answer. -/
theorem answers_bringAlong {d : Dim} {n : Int} (hfull : full.Moderate)
    (ht : tile.LiesIn full) (hn : 1 ≤ n) (hle : n ≤ full.get d) :
    Answers (bringAlong full tile d n) := by
  have hword : Signed.Fits n := by
    have := (hfull.fits_get hfull.valid.liesIn_self d).2
    exact ⟨by omega, by omega⟩
  unfold bringAlong
  split
  · have := hfull.tileInputLength_width hn hle (ht.one_le .kernelWidth)
      (ht.le .kernelWidth)
    exact Answers.bind ⟨_, this⟩ fun _ _ => Checked.answers_pure _
  · have := hfull.tileInputLength_height hn hle (ht.one_le .kernelHeight)
      (ht.le .kernelHeight)
    exact Answers.bind ⟨_, this⟩ fun _ _ => Checked.answers_pure _
  · exact (answers_tileOutputLength (ht.one_le .kernelWidth) hword).bind
      fun _ _ => Checked.answers_pure _
  · exact (answers_tileOutputLength (ht.one_le .kernelHeight) hword).bind
      fun _ _ => Checked.answers_pure _
  · exact Checked.answers_ok tile

namespace Seeding

/-- **What the serving of a side keeps**: a tile in the layer, and at least one
element of the side left. -/
structure Sound (full : Extents) (length : Int) (s : Seeding) : Prop where
  liesIn : s.tile.LiesIn full
  one_le_left : 1 ≤ s.left
  left_le : s.left ≤ length

variable {s s' : Seeding} {length : Int} {d : Dim}

/-- What an extent takes is at least `1`, and leaves at least `1`. -/
theorem Sound.taken_bounds (hs : s.Sound full length) (hfull : full.Valid) (d : Dim) :
    1 ≤ min s.left (full.get d) ∧ 1 ≤ s.left.tdiv (min s.left (full.get d))
      ∧ s.left.tdiv (min s.left (full.get d)) ≤ length := by
  have hleft := hs.one_le_left
  have hone := hfull.one_le_get d
  have htaken : 1 ≤ min s.left (full.get d) := by omega
  rw [Int.tdiv_eq_ediv_of_nonneg (by omega)]
  refine ⟨htaken, ?_, Int.le_trans (Int.ediv_le_self _ (by omega)) hs.left_le⟩
  rw [Int.le_ediv_iff_mul_le (by omega), Int.one_mul]
  exact Int.min_le_left _ _

/-- **Serving an extent** keeps the invariant. -/
theorem Sound.serve (hs : s.Sound full length) (hfull : full.Valid)
    (run : serve full s d = .ok s') : s'.Sound full length := by
  unfold Seeding.serve at run
  split at run
  · obtain rfl := Except.ok.inj run
    exact hs
  · obtain rfl := Except.ok.inj run
    exact hs
  · obtain ⟨tile, htile, run⟩ := bind_eq_ok_iff.1 run
    obtain ⟨left, hleft, run⟩ := bind_eq_ok_iff.1 run
    obtain rfl := pure_eq_ok_iff.1 run
    obtain ⟨-, rfl, -⟩ := Signed.div_eq_ok_iff.1 hleft
    obtain ⟨htaken, hone, hle⟩ := hs.taken_bounds hfull d
    have hin := liesIn_bringAlong hfull hs.liesIn htaken htile
    exact ⟨hin.set htaken (Int.min_le_right _ _), hone, hle⟩

/-- Serving an extent of a moderate layer has an answer. -/
theorem Sound.answers_serve (hs : s.Sound full length) (hfull : full.Moderate)
    (hlength : Signed.Fits length) : Answers (Seeding.serve full s d) := by
  unfold Seeding.serve
  split
  · exact Checked.answers_ok s
  · exact Checked.answers_ok s
  · obtain ⟨htaken, hone, hle⟩ := hs.taken_bounds hfull.valid d
    refine (answers_bringAlong hfull hs.liesIn htaken (Int.min_le_right _ _)).bind
      fun tile _ => ?_
    refine Answers.bind ⟨_, Signed.div_eq_ok_iff.2 ⟨by omega, rfl, ?_⟩⟩
      fun left _ => Checked.answers_pure _
    exact hlength.of_le (Int.le_of_lt hone) hle

end Seeding

/-! ## The seed -/

/-- Serving a side keeps a tile in the layer. -/
theorem liesIn_seedSide {tile' : Extents} {s : Side} (hfull : full.Valid)
    (ha : 1 ≤ a.length s) (ht : tile.LiesIn full)
    (run : seedSide full a tile s = .ok tile') : tile'.LiesIn full := by
  obtain ⟨served, hserved, run⟩ := bind_eq_ok_iff.1 run
  obtain rfl := pure_eq_ok_iff.1 run
  have hsound : served.Sound full (a.length s) :=
    Checked.foldlM_keeps (fun _ _ _ _ hs hstep => hs.serve hfull hstep)
      ⟨ht, ha, Int.le_refl _⟩ hserved
  exact hsound.liesIn

/-- Serving a side for a moderate layer has an answer. -/
theorem answers_seedSide {s : Side} (hfull : full.Moderate) (ha : 1 ≤ a.length s)
    (hlength : Signed.Fits (a.length s)) (ht : tile.LiesIn full) :
    Answers (seedSide full a tile s) := by
  have hstart : (⟨tile, a.length s⟩ : Seeding).Sound full (a.length s) :=
    ⟨ht, ha, Int.le_refl _⟩
  exact Checked.answers_foldlM_bind (fun _ _ _ hs => hs.answers_serve hfull hlength)
    (fun _ _ _ _ hs hstep => hs.serve hfull.valid hstep) hstart
    fun _ _ => Checked.answers_pure _

/-- Widening the input to the kernel keeps a tile in the layer, as it keeps an
unrolling in the tile. -/
theorem liesIn_reachKernel (ht : tile.LiesIn full) :
    (reachKernel full tile).LiesIn full :=
  liesIn_coverKernel ht

/-- **What every extent that is served keeps**, and the stripe has, the tile has that a
search starts from – up to the last step, which widens its input to its kernel. -/
theorem seedTile_keeps {P : Extents → Prop} (hfull : full.Valid)
    (ha : ∀ s, 1 ≤ a.length s) (hstart : ∀ start, stripe full = .ok start → P start)
    (hserve : ∀ side, ∀ d ∈ a.mapped side, ∀ s s' : Seeding, s.Sound full (a.length side) →
      P s.tile → Seeding.serve full s d = .ok s' → P s'.tile)
    (run : seedTile full a = .ok tile) :
    ∃ served, served.LiesIn full ∧ P served ∧ tile = reachKernel full served := by
  obtain ⟨start, hstripe, run⟩ := bind_eq_ok_iff.1 run
  obtain ⟨seeded, hsides, run⟩ := bind_eq_ok_iff.1 run
  obtain rfl := pure_eq_ok_iff.1 run
  have hkept : seeded.LiesIn full ∧ P seeded := by
    refine Checked.foldlM_keeps (P := fun t : Extents => t.LiesIn full ∧ P t)
      (fun side _ t t' ht hside => ?_)
      ⟨liesIn_stripe hfull hstripe, hstart start hstripe⟩ hsides
    obtain ⟨served, hserved, hside⟩ := bind_eq_ok_iff.1 hside
    obtain rfl := pure_eq_ok_iff.1 hside
    have hsound : served.Sound full (a.length side) ∧ P served.tile :=
      Checked.foldlM_keeps
        (P := fun s : Seeding => s.Sound full (a.length side) ∧ P s.tile)
        (fun d hd s s' hs hstep =>
          ⟨hs.1.serve hfull hstep, hserve side d hd s s' hs.1 hs.2 hstep⟩)
        ⟨⟨ht.1, ha side, Int.le_refl _⟩, ht.2⟩ hserved
    exact ⟨hsound.1.liesIn, hsound.2⟩
  exact ⟨seeded, hkept.1, hkept.2, rfl⟩

/-- **The tile that a search starts from lies in the layer.** -/
theorem liesIn_seedTile (hfull : full.Valid) (ha : ∀ s, 1 ≤ a.length s)
    (run : seedTile full a = .ok tile) : tile.LiesIn full := by
  obtain ⟨served, hin, -, rfl⟩ := seedTile_keeps (P := fun _ => True) hfull ha
    (fun _ _ => trivial) (fun _ _ _ _ _ _ _ _ => trivial) run
  exact liesIn_reachKernel hin

/-- A moderate layer has a tile to start from. -/
theorem answers_seedTile (hfull : full.Moderate) (ha : ∀ s, 1 ≤ a.length s)
    (hlength : ∀ s, Signed.Fits (a.length s)) : Answers (seedTile full a) := by
  refine (answers_stripe hfull).bind fun start hstart => ?_
  exact Checked.answers_foldlM_bind (P := fun t => t.LiesIn full)
    (fun s _ _ ht => answers_seedSide hfull (ha s) (hlength s) ht)
    (fun s _ _ _ ht hstep => liesIn_seedSide hfull.valid (ha s) ht hstep)
    (liesIn_stripe hfull.valid hstart) fun _ _ => Checked.answers_pure _

namespace Tiling

variable {t t' : Tiling}

/-- **The seed is nested**, and has the layer it was seeded for. -/
theorem nested_of_seed (hfull : t.full.Valid) (ha : ∀ s, 1 ≤ a.length s)
    (run : t.seed a = .ok t') : t'.Nested ∧ t'.full = t.full := by
  obtain ⟨tile, htile, run⟩ := bind_eq_ok_iff.1 run
  obtain ⟨unroll, hunroll, run⟩ := bind_eq_ok_iff.1 run
  obtain rfl := pure_eq_ok_iff.1 run
  have hin := liesIn_seedTile hfull ha htile
  have hunrolled :=
    liesIn_unrollTile hin.one_le (fun s => Int.le_of_lt (ha s)) hunroll
  exact ⟨⟨hfull, hin, hunrolled⟩, rfl⟩

/-- **A moderate layer is seeded** for every array whose sides can be
factored. -/
theorem answers_seed (hfull : t.full.Moderate) (ha : ∀ s, 1 ≤ a.length s)
    (hlength : ∀ s, a.length s < 3037000499 * 3037000499) : Answers (t.seed a) := by
  have hword : ∀ s, Signed.Fits (a.length s) := by
    intro s
    have hone := ha s
    have hlt := hlength s
    constructor <;> omega
  refine (answers_seedTile hfull ha hword).bind fun tile htile => ?_
  have hin := liesIn_seedTile hfull.valid ha htile
  refine (answers_unrollTile hin.one_le (fun d => hfull.fits_get hin d)
    (fun s => Int.le_of_lt (ha s)) hlength).bind fun unroll _ => ?_
  exact Checked.answers_pure _

end Tiling

end ConvTiling
