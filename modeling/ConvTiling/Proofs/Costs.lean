import ConvTiling.Proofs.Moderate
import ConvTiling.Schedule.Dataflow
import ConvTiling.Schedule.LoopRemoval
import ConvTiling.Schedule.Score

/-!
# What a tiling costs, exactly

How often an operand passes and how many bytes are moved is counted on words,
one operation after the other. Written as integers, the bytes moved are a sum
over the operands of the passes and the bytes of each (`Tiling.movedBytes`), and
a traffic that has an answer is that sum (`Tiling.eq_movedBytes_of_traffic`).

Two facts about the sum are used. It is **positive**: whatever stays in its
buffer, the inputs and the weights pass at least once, and no operand passes
less than never. And in a moderate layer it is a word: the passes of an operand
and its bytes run over different extents, all of one side, so their product is
bounded by that side (`Tiling.tilesOver_mul_volume_le`). The passes of
the output count twice, which is where the sixteen of a moderate layer comes
from.
-/

namespace ConvTiling

open Checked (Answers bind_eq_ok_iff pure_eq_ok_iff)

namespace Tiling

variable {t : Tiling} {s o : Operand} {n : Int}

/-! ## Passes -/

/-- How many times an operand passes that does not stay in its buffer. -/
def exchanges (t : Tiling) : Operand → Int
  | .input => t.tilesOver (Traffic.reloadDims .input)
  | .weight => t.tilesOver (Traffic.reloadDims .weight)
  | .output => 2 * (t.tilesOver (Traffic.reloadDims .output) - 1)

/-- **How many times an operand passes**, as an integer. -/
def passes (t : Tiling) (s o : Operand) : Int := if o = s then 1 else t.exchanges o

/-- A count of passes that has an answer is the exact one. -/
theorem eq_passes_of_reload (run : Traffic.reload t s o = .ok n) : n = t.passes s o := by
  unfold Traffic.reload at run
  unfold passes
  by_cases hs : o = s
  · rw [if_pos hs] at run ⊢
    exact (Except.ok.inj run).symm
  · rw [if_neg hs] at run ⊢
    obtain ⟨c, hc, run⟩ := bind_eq_ok_iff.1 run
    obtain rfl := eq_tilesOver_of_tileCount hc
    cases o with
    | input => exact pure_eq_ok_iff.1 run
    | weight => exact pure_eq_ok_iff.1 run
    | output =>
      obtain ⟨again, hagain, run⟩ := bind_eq_ok_iff.1 run
      obtain ⟨rfl, -⟩ := Signed.sub_eq_ok_iff.1 hagain
      exact (Signed.mul_eq_ok_iff.1 run).1

/-- The inputs and the weights pass at least once, and no more often than the
tiles that exchange them. -/
theorem passes_bounds_of_ne_output (hfull : ∀ d, 1 ≤ t.full.get d)
    (htile : ∀ d, 1 ≤ t.tile.get d) (s : Operand) (ho : o ≠ .output) :
    1 ≤ t.passes s o ∧ t.passes s o ≤ t.tilesOver (Traffic.reloadDims o) := by
  have hone := one_le_tilesOver hfull htile (Traffic.reloadDims o)
  have hexchanges : t.exchanges o = t.tilesOver (Traffic.reloadDims o) := by
    cases o with
    | input => rfl
    | weight => rfl
    | output => exact absurd rfl ho
  unfold passes
  split <;> omega

/-- No operand passes less than never, and none more often than twice the tiles
that exchange it. -/
theorem passes_bounds (hfull : ∀ d, 1 ≤ t.full.get d) (htile : ∀ d, 1 ≤ t.tile.get d)
    (s o : Operand) :
    0 ≤ t.passes s o ∧ t.passes s o ≤ 2 * t.tilesOver (Traffic.reloadDims o) := by
  have hone := one_le_tilesOver hfull htile (Traffic.reloadDims o)
  have hexchanges : 0 ≤ t.exchanges o
      ∧ t.exchanges o ≤ 2 * t.tilesOver (Traffic.reloadDims o) := by
    cases o <;> simp only [exchanges] <;> omega
  unfold passes
  split <;> omega

/-- **A tile that is the whole layer** along the extents an operand is exchanged
over lets it pass once, if it is no output or stays. -/
theorem passes_eq_one (hfull : ∀ d, 1 ≤ t.full.get d)
    (h : ∀ d ∈ Traffic.reloadDims o, t.tile.get d = t.full.get d)
    (ho : o = s ∨ o ≠ .output) : t.passes s o = 1 := by
  have hone := tilesOver_eq_one hfull h
  unfold passes
  split
  · rfl
  · next hs =>
    cases o with
    | input => exact hone
    | weight => exact hone
    | output => exact absurd rfl (ho.resolve_left hs)

/-! ## Bytes moved -/

/-- **All that is moved**, as an integer. -/
def movedBytes (t : Tiling) (s : Operand) : Int :=
  t.passes s .input * (t.full.volume Operand.input.dims * 4)
    + t.passes s .weight * (t.full.volume Operand.weight.dims * 4)
    + t.passes s .output * (t.full.volume Operand.output.dims * 4)

/-- What is moved is the exact product and sum where each step is a word. -/
theorem traffic_eq_ok_iff_steps :
    t.traffic s = .ok n ↔ ∃ r, Traffic.of t s = .ok r
      ∧ n = r.reloads.input * r.bytes.input + r.reloads.weight * r.bytes.weight
          + r.reloads.output * r.bytes.output
      ∧ Signed.Fits (r.reloads.input * r.bytes.input)
      ∧ Signed.Fits (r.reloads.weight * r.bytes.weight)
      ∧ Signed.Fits (r.reloads.input * r.bytes.input + r.reloads.weight * r.bytes.weight)
      ∧ Signed.Fits (r.reloads.output * r.bytes.output) ∧ Signed.Fits n := by
  simp only [traffic, Traffic.total, Traffic.moved, PerOperand.get, bind_eq_ok_iff,
    Signed.mul_eq_ok_iff, Signed.add_eq_ok_iff]
  constructor
  · rintro ⟨r, hr, _, ⟨rfl, hi⟩, _, ⟨rfl, hw⟩, _, ⟨rfl, hiw⟩, _, ⟨rfl, ho⟩, rfl, hn⟩
    exact ⟨r, hr, rfl, hi, hw, hiw, ho, hn⟩
  · rintro ⟨r, hr, rfl, hi, hw, hiw, ho, hn⟩
    exact ⟨r, hr, _, ⟨rfl, hi⟩, _, ⟨rfl, hw⟩, _, ⟨rfl, hiw⟩, _, ⟨rfl, ho⟩, rfl, hn⟩

/-- **A traffic that has an answer is the exact one.** -/
theorem eq_movedBytes_of_traffic (run : t.traffic s = .ok n) : n = t.movedBytes s := by
  obtain ⟨r, hr, rfl, -⟩ := traffic_eq_ok_iff_steps.1 run
  obtain ⟨i, hi, hr⟩ := bind_eq_ok_iff.1 hr
  obtain ⟨w, hw, hr⟩ := bind_eq_ok_iff.1 hr
  obtain ⟨o, ho, hr⟩ := bind_eq_ok_iff.1 hr
  obtain ⟨bi, hbi, hr⟩ := bind_eq_ok_iff.1 hr
  obtain ⟨bw, hbw, hr⟩ := bind_eq_ok_iff.1 hr
  obtain ⟨bo, hbo, hr⟩ := bind_eq_ok_iff.1 hr
  obtain rfl := pure_eq_ok_iff.1 hr
  rw [eq_passes_of_reload hi, eq_passes_of_reload hw, eq_passes_of_reload ho,
    Extents.eq_volume_of_bytes hbi, Extents.eq_volume_of_bytes hbw,
    Extents.eq_volume_of_bytes hbo]
  rfl

/-- **Something is always moved**: the inputs and the weights pass at least
once. -/
theorem movedBytes_pos (hfull : ∀ d, 1 ≤ t.full.get d) (htile : ∀ d, 1 ≤ t.tile.get d)
    (s : Operand) : 0 < t.movedBytes s := by
  obtain ⟨hinput, -⟩ := passes_bounds_of_ne_output hfull htile s (o := .input) (by decide)
  obtain ⟨hweight, -⟩ := passes_bounds_of_ne_output hfull htile s (o := .weight) (by decide)
  obtain ⟨houtput, -⟩ := passes_bounds hfull htile s .output
  have hvolume := fun o : Operand => Extents.one_le_volume hfull o.dims
  have h1 := Int.mul_le_mul hinput (hvolume .input) (by decide) (by omega)
  have h2 := Int.mul_le_mul hweight (hvolume .weight) (by decide) (by omega)
  have h3 := Int.mul_nonneg houtput (Int.le_of_lt (hvolume .output))
  unfold movedBytes
  simp only [← Int.mul_assoc]
  omega

/-- **What a whole layer moves** when its output stays: every operand once. -/
theorem movedBytes_output_of_whole (hfull : ∀ d, 1 ≤ t.full.get d)
    (h : ∀ o, ∀ d ∈ Traffic.reloadDims o, t.tile.get d = t.full.get d) :
    t.movedBytes .output = t.full.volume Operand.input.dims * 4
      + t.full.volume Operand.weight.dims * 4 + t.full.volume Operand.output.dims * 4 := by
  rw [movedBytes, passes_eq_one hfull (h .input) (.inr (by decide)),
    passes_eq_one hfull (h .weight) (.inr (by decide)),
    passes_eq_one hfull (h .output) (.inl rfl), Int.one_mul, Int.one_mul, Int.one_mul]

/-! ## Words -/

/-- **What is moved of an operand is a word**, with room to spare: its passes
and its bytes run over different extents, all of one side. -/
theorem tilesOver_mul_volume_le (hfull : t.full.Moderate) (ht : t.tile.LiesIn t.full)
    (o : Operand) :
    16 * (t.tilesOver (Traffic.reloadDims o) * t.full.volume o.dims)
      ≤ 9223372036854775807 := by
  have hone := hfull.valid.one_le_get
  have hside : Traffic.reloadDims o ++ o.dims ⊆ inputSide
      ∨ Traffic.reloadDims o ++ o.dims ⊆ outputSide := by
    cases o <;> decide
  have hnodup : (Traffic.reloadDims o ++ o.dims).Nodup := by
    cases o <;> decide
  calc 16 * (t.tilesOver (Traffic.reloadDims o) * t.full.volume o.dims)
      ≤ 16 * (t.full.volume (Traffic.reloadDims o) * t.full.volume o.dims) := by
        have := Int.mul_le_mul_of_nonneg_right
          (tilesOver_le_volume hone ht.one_le (Traffic.reloadDims o))
          (Int.le_of_lt (Extents.one_le_volume hone o.dims))
        omega
    _ = 16 * t.full.volume (Traffic.reloadDims o ++ o.dims) := by
        rw [Extents.volume_append]
    _ ≤ 9223372036854775807 := hfull.volume_le _ hnodup hside

/-- A count of tiles over extents of one side is a word in a moderate layer. -/
theorem tileCount_eq_ok_of_moderate (hfull : t.full.Moderate) (ht : t.tile.LiesIn t.full)
    (ds : List Dim) (hds : ds.Nodup) (hside : ds ⊆ outputSide) :
    t.tileCount ds = .ok (t.tilesOver ds) := by
  have hword := hfull.fits_volume hfull.valid.liesIn_self hds (.inr hside)
  refine tileCount_eq_ok hfull.valid.one_le_get ht.one_le ?_ hword
  exact fun d => hfull.fits_add hfull.valid.liesIn_self ht d

/-- The passes of an operand are a word in a moderate layer. -/
theorem reload_eq_ok (hfull : t.full.Moderate) (ht : t.tile.LiesIn t.full)
    (s o : Operand) : Traffic.reload t s o = .ok (t.passes s o) := by
  have hone := one_le_tilesOver hfull.valid.one_le_get ht.one_le (Traffic.reloadDims o)
  have hle := tilesOver_mul_volume_le hfull ht o
  have hvolume := Extents.one_le_volume hfull.valid.one_le_get o.dims
  have hcount : t.tilesOver (Traffic.reloadDims o)
      ≤ t.tilesOver (Traffic.reloadDims o) * t.full.volume o.dims :=
    le_mul_of_one_le_right (by omega) hvolume
  have hrun := tileCount_eq_ok_of_moderate hfull ht (Traffic.reloadDims o)
    (by cases o <;> decide) (by cases o <;> decide)
  unfold Traffic.reload passes
  split
  · rfl
  · refine bind_eq_ok_iff.2 ⟨_, hrun, ?_⟩
    cases o with
    | input => rfl
    | weight => rfl
    | output =>
      have hagain : Signed.Fits (t.tilesOver (Traffic.reloadDims .output) - 1) := by
        constructor <;> omega
      have hpasses : Signed.Fits (2 * (t.tilesOver (Traffic.reloadDims .output) - 1)) := by
        constructor <;> omega
      exact bind_eq_ok_iff.2 ⟨_, Signed.sub_eq_ok_iff.2 ⟨rfl, hagain⟩,
        Signed.mul_eq_ok_iff.2 ⟨rfl, hpasses⟩⟩

/-- What is moved of an operand is at most a half of the sixteen, and at most a
quarter for an operand other than the output. -/
theorem moved_bounds (hfull : t.full.Valid) (ht : t.tile.LiesIn t.full) (s o : Operand) :
    0 ≤ t.passes s o * (t.full.volume o.dims * 4)
      ∧ t.passes s o * (t.full.volume o.dims * 4)
        ≤ 8 * (t.tilesOver (Traffic.reloadDims o) * t.full.volume o.dims)
      ∧ (o ≠ .output → t.passes s o * (t.full.volume o.dims * 4)
        ≤ 4 * (t.tilesOver (Traffic.reloadDims o) * t.full.volume o.dims)) := by
  have hone := hfull.one_le_get
  have hbytes : 0 ≤ t.full.volume o.dims * 4 := by
    have := Extents.one_le_volume hone o.dims
    omega
  obtain ⟨hlow, hhigh⟩ := passes_bounds hone ht.one_le s o
  refine ⟨Int.mul_nonneg hlow hbytes, ?_, fun ho => ?_⟩
  · have := Int.mul_le_mul_of_nonneg_right hhigh hbytes
    linarith
  · obtain ⟨-, hhigh⟩ := passes_bounds_of_ne_output hone ht.one_le s ho
    have := Int.mul_le_mul_of_nonneg_right hhigh hbytes
    linarith

/-- **The traffic of a moderate layer is a word.** -/
theorem traffic_eq_ok (hfull : t.full.Moderate) (ht : t.tile.LiesIn t.full)
    (s : Operand) : t.traffic s = .ok (t.movedBytes s) := by
  have hbytes := hfull.bytes_eq_ok hfull.valid.liesIn_self
  obtain ⟨hi, -, hi'⟩ := moved_bounds hfull.valid ht s .input
  obtain ⟨hw, -, hw'⟩ := moved_bounds hfull.valid ht s .weight
  obtain ⟨ho, ho', -⟩ := moved_bounds hfull.valid ht s .output
  have hi' := hi' (by decide)
  have hw' := hw' (by decide)
  have hwordi := tilesOver_mul_volume_le hfull ht .input
  have hwordw := tilesOver_mul_volume_le hfull ht .weight
  have hwordo := tilesOver_mul_volume_le hfull ht .output
  have hof : Traffic.of t s = .ok ⟨⟨t.passes s .input, t.passes s .weight, t.passes s .output⟩,
      ⟨t.full.volume Operand.input.dims * 4, t.full.volume Operand.weight.dims * 4,
        t.full.volume Operand.output.dims * 4⟩⟩ := by
    simp only [Traffic.of, reload_eq_ok hfull ht, hbytes]
    rfl
  have hfits : ∀ n, 0 ≤ n → n ≤ 9223372036854775807 → Signed.Fits n :=
    fun n hn hle => ⟨by omega, hle⟩
  refine traffic_eq_ok_iff_steps.2 ⟨_, hof, rfl, hfits _ hi ?_, hfits _ hw ?_,
    hfits _ (Int.add_nonneg hi hw) ?_, hfits _ ho ?_, hfits _ ?_ ?_⟩
  · exact Int.le_trans hi' (by omega)
  · exact Int.le_trans hw' (by omega)
  · exact Int.le_trans (Int.add_le_add hi' hw') (by omega)
  · exact Int.le_trans ho' (by omega)
  · exact Int.add_nonneg (Int.add_nonneg hi hw) ho
  · exact Int.le_trans (Int.add_le_add (Int.add_le_add hi' hw') ho') (by omega)

/-- The dataflow of a moderate layer is chosen. -/
theorem answers_chooseDataflow (hfull : t.full.Moderate) (ht : t.tile.LiesIn t.full) :
    Answers t.chooseDataflow := by
  have hcount : ∀ a : Axis, t.iterations a = .ok (t.tilesOver a.dims) := fun a =>
    tileCount_eq_ok_of_moderate hfull ht a.dims (by cases a <;> decide)
      (by cases a <;> decide)
  refine Answers.bind ?_ fun _ _ => Checked.answers_pure _
  simp only [axisIterations, hcount]
  exact Checked.answers_ok _

/-! ## Scores -/

/-- What several passes of an unrolling cover is less than the tile and one
unrolling together. -/
theorem quotientUp_mul_le {tile unroll : Int} (htile : 1 ≤ tile) (hunroll : 1 ≤ unroll) :
    quotientUp tile unroll * unroll ≤ tile + unroll - 1 := by
  rw [quotientUp, Int.tdiv_eq_ediv_of_nonneg (by omega)]
  exact Int.ediv_mul_le _ (by omega)

/-- The share that an extent keeps busy is computed in a moderate layer. -/
theorem answers_busyShare (hfull : t.full.Moderate) (ht : t.tile.LiesIn t.full)
    (hu : t.unroll.LiesIn t.tile) (d : Dim) : Answers (t.busyShare d) := by
  have hword := hfull.get_le ht d
  have htile := ht.one_le d
  have hunroll := hu.one_le d
  have hle := hu.le d
  have hpasses := one_le_quotientUp htile hunroll
  have hcovered := quotientUp_mul_le htile hunroll
  have hnonneg := Int.mul_nonneg (Int.le_of_lt hpasses) (Int.le_of_lt hunroll)
  exact ⟨_, bind_eq_ok_iff.2 ⟨_, ceilDiv_eq_ok htile hunroll ⟨by omega, by omega⟩,
    bind_eq_ok_iff.2 ⟨_, Signed.mul_eq_ok_iff.2 ⟨rfl, ⟨by omega, by omega⟩⟩, rfl⟩⟩⟩

/-- The elements of an array are counted where their number is a word. -/
theorem answers_elements {a : Accelerator} (ha : ∀ s, 1 ≤ a.length s)
    (helements : Signed.Fits (a.rows * a.columns)) : Answers a.elements := by
  have hprod : (Side.all.map a.length).prod = a.rows * a.columns := by
    simp [Side.all, Accelerator.length]
  exact ⟨_, Signed.productBy_eq_ok (fun _ _ => rfl) (fun s _ => ha s) (by rwa [hprod])⟩

/-- The multiplications of a moderate layer are a word. -/
theorem answers_multiplications {e : Extents} (he : e.Moderate) :
    Answers e.multiplications := by
  refine ⟨_, Extents.productBy_get_eq_ok he.valid.one_le_get ?_⟩
  exact he.fits_volume he.valid.liesIn_self (by decide) (.inr (by decide))

/-- **The score of a moderate layer** is computed for every array whose elements
can be counted. -/
theorem answers_score {a : Accelerator} (hfull : t.full.Moderate)
    (ht : t.tile.LiesIn t.full) (hu : t.unroll.LiesIn t.tile)
    (ha : ∀ s, 1 ≤ a.length s) (helements : Signed.Fits (a.rows * a.columns))
    (s : Operand) : Answers (t.score a s) := by
  refine Answers.bind ⟨_, traffic_eq_ok hfull ht s⟩ fun _ _ => ?_
  refine (answers_multiplications hfull).bind fun _ _ => ?_
  refine (answers_elements ha helements).bind fun _ _ => ?_
  have hutilization : Answers (t.utilization a) :=
    Checked.answers_foldlM_of_forall fun d _ _ =>
      (answers_busyShare hfull ht hu d).bind fun _ _ => Checked.answers_pure _
  exact hutilization.bind fun _ _ => Checked.answers_pure _

/-- A tiling that is scored has a traffic. -/
theorem answers_traffic_of_score {a : Accelerator} {x : Float}
    (run : t.score a s = .ok x) : t.traffic s = .ok (t.movedBytes s) := by
  obtain ⟨m, hm, -⟩ := bind_eq_ok_iff.1 run
  rwa [← eq_movedBytes_of_traffic hm]

end Tiling

/-! ## Dataflows -/

namespace LoopNest

variable {n n' : LoopNest} {s : Operand}

/-- **Taking on a dataflow** changes the order off the chip alone, to one whose
directions agree. -/
theorem adoptDataflow_eq_ok_iff :
    n.adoptDataflow = .ok (n', s) ↔
      n.tiling.chooseDataflow = .ok s ∧ n' = n.setDataflow s := by
  simp only [adoptDataflow, bind_eq_ok_iff, pure_eq_ok_iff, Prod.mk.injEq]
  constructor
  · rintro ⟨s', hs, rfl, rfl⟩
    exact ⟨hs, rfl⟩
  · rintro ⟨hs, rfl⟩
    exact ⟨s, hs, rfl, rfl⟩

end LoopNest

end ConvTiling
