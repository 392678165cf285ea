import Mathlib.Algebra.BigOperators.Ring.Finset
import ConvTiling.Proofs.Moderate
import ConvTiling.Schedule.TileSpace

/-!
# The tiles of a space lie in the layer

A tile of a space is written in two steps, and both keep it in the layer. The
digits of its number enlarge six extents: a digit is less than its radix, and
the radix of an extent is one more than the room between the tile and the
layer, so an enlarged extent is at most that of the layer
(`TileSpace.liesIn_enlarge`). The input is then derived from the output and cut
to the layer.

What is needed of a space for that is that its radices are those of its seed
(`TileSpace.Sound`), which is how a space is made. Nothing is said of the range
of a number: every number is decoded, as what is left of it after the last digit
is dropped.

For a moderate layer all of this has an answer, and so has the count of the
tiles: it is the product of the radices, and a radix is at most the extent of
the layer (`TileSpace.Sound.answers_total`).
-/

namespace ConvTiling

open Checked (Answers bind_eq_ok_iff pure_eq_ok_iff)

namespace TileSpace

variable {full tile e e' : Extents} {t : Tiling} {s : TileSpace} {d : Dim}

/-! ## Radices -/

/-- **How many values an extent can take**, as a natural number. -/
def room (t : Tiling) (d : Dim) : Nat := (max (t.full.get d - t.tile.get d + 1) 1).toNat

/-- An extent can always keep its value. -/
theorem one_le_room (t : Tiling) (d : Dim) : 1 ≤ room t d := by
  unfold room
  omega

/-- The largest digit of an extent takes the tile to the layer. -/
theorem get_add_room (hle : t.tile.get d ≤ t.full.get d) :
    t.tile.get d + room t d = t.full.get d + 1 := by
  unfold room
  omega

/-- An extent can take no more values than the layer is long. -/
theorem room_le (ht : t.tile.LiesIn t.full) (d : Dim) : (room t d : Int) ≤ t.full.get d := by
  have := ht.one_le d
  have := get_add_room (ht.le d)
  omega

/-- A radix that has an answer is the exact one. -/
theorem radix_eq_ok_iff {r : Nat} :
    radix t d = .ok r ↔ r = room t d ∧ Signed.Fits (t.full.get d - t.tile.get d)
      ∧ Signed.Fits (t.full.get d - t.tile.get d + 1) := by
  simp only [radix, bind_eq_ok_iff, pure_eq_ok_iff, Signed.sub_eq_ok_iff,
    Signed.add_eq_ok_iff]
  constructor
  · rintro ⟨_, ⟨rfl, h⟩, _, ⟨rfl, h'⟩, rfl⟩
    exact ⟨rfl, h, h'⟩
  · rintro ⟨rfl, h, h'⟩
    exact ⟨_, ⟨rfl, h⟩, _, ⟨rfl, h'⟩, rfl⟩

/-- **A space whose radices are those of its seed**, a tile in a valid
layer. -/
structure Sound (s : TileSpace) : Prop where
  full : s.seed.full.Valid
  tile : s.seed.tile.LiesIn s.seed.full
  radices : s.radices = freeDims.map (room s.seed)

/-- **The space of a tiling** has the radices of its seed, where the steps of
computing them are words. -/
theorem of_eq_ok_iff : TileSpace.of t = .ok s ↔
    s = ⟨t, freeDims.map (room t)⟩ ∧ ∀ d ∈ freeDims,
      Signed.Fits (t.full.get d - t.tile.get d)
        ∧ Signed.Fits (t.full.get d - t.tile.get d + 1) := by
  have hradices : ∀ rs, freeDims.mapM (radix t) = .ok rs ↔
      rs = freeDims.map (room t) ∧ ∀ d ∈ freeDims, Answers (radix t d) := fun rs =>
    Checked.mapM_eq_ok_iff fun d _ r hr => (radix_eq_ok_iff.1 hr).1
  have hanswers : ∀ d, Answers (radix t d) ↔ Signed.Fits (t.full.get d - t.tile.get d)
      ∧ Signed.Fits (t.full.get d - t.tile.get d + 1) := fun d =>
    ⟨fun ⟨_, hr⟩ => (radix_eq_ok_iff.1 hr).2, fun h => ⟨_, radix_eq_ok_iff.2 ⟨rfl, h⟩⟩⟩
  simp only [TileSpace.of, bind_eq_ok_iff, pure_eq_ok_iff, hradices, hanswers]
  constructor
  · rintro ⟨_, ⟨rfl, h⟩, rfl⟩
    exact ⟨rfl, h⟩
  · rintro ⟨rfl, h⟩
    exact ⟨_, ⟨rfl, h⟩, rfl⟩

/-- **The space of a nested tiling is sound.** -/
theorem sound_of_of (ht : t.Nested) (run : TileSpace.of t = .ok s) :
    s.Sound ∧ s.seed = t := by
  obtain ⟨rfl, -⟩ := of_eq_ok_iff.1 run
  exact ⟨⟨ht.full, ht.tile, rfl⟩, rfl⟩

/-- A moderate layer has a space. -/
theorem answers_of (hfull : t.full.Moderate) (ht : t.tile.LiesIn t.full) :
    Answers (TileSpace.of t) := by
  refine ⟨_, of_eq_ok_iff.2 ⟨rfl, fun d _ => ?_⟩⟩
  have hone := ht.one_le d
  have hle := ht.le d
  have hword := hfull.get_le hfull.valid.liesIn_self d
  exact ⟨⟨by omega, by omega⟩, ⟨by omega, by omega⟩⟩

/-! ## The number of tiles -/

/-- A product of counts is the exact one, and has an answer where that is a
count, as long as no factor is `0`. -/
theorem foldlM_mul_eq_ok_iff {radices : List Nat} (hpos : ∀ r ∈ radices, 1 ≤ r)
    {acc n : Nat} (hacc : Count.Fits acc) :
    radices.foldlM Count.mul acc = .ok n ↔ n = acc * radices.prod ∧ Count.Fits n := by
  induction radices generalizing acc with
  | nil =>
    rw [List.foldlM_nil, pure_eq_ok_iff, List.prod_nil, Nat.mul_one]
    exact ⟨fun h => ⟨h, h ▸ hacc⟩, fun h => h.1⟩
  | cons r rs ih =>
    have hrs := fun q hq => hpos q (List.mem_cons_of_mem r hq)
    have hprod : 1 ≤ rs.prod := List.prod_pos_iff_forall_pos_nat.2 hrs
    rw [Checked.foldlM_cons_eq_ok_iff, List.prod_cons, ← Nat.mul_assoc]
    constructor
    · rintro ⟨next, hnext, run⟩
      obtain ⟨rfl, hfits⟩ := Count.mul_eq_ok_iff.1 hnext
      exact (ih hrs hfits).1 run
    · rintro ⟨rfl, hfits⟩
      -- the partial product is at most the whole one
      have hnext : Count.Fits (acc * r) :=
        Nat.le_trans (Nat.le_mul_of_pos_right _ hprod) hfits
      exact ⟨_, Count.mul_eq_ok_iff.2 ⟨rfl, hnext⟩, (ih hrs hnext).2 ⟨rfl, hfits⟩⟩

/-- A number of tiles is a count. -/
theorem fits_of_total {n : Nat} (run : s.total = .ok n) : Count.Fits n :=
  Checked.foldlM_keeps (P := Count.Fits)
    (fun _ _ _ _ _ hstep => (Count.mul_eq_ok_iff.1 hstep).2) (by decide) run

/-- **The number of tiles of a space** is the product of the rooms of its seed, if
those are its radices. -/
theorem total_eq_ok_iff (hradices : s.radices = freeDims.map (room s.seed)) {n : Nat} :
    s.total = .ok n ↔ n = (freeDims.map (room s.seed)).prod ∧ Count.Fits n := by
  have hpos : ∀ r ∈ s.radices, 1 ≤ r := by
    intro r hr
    rw [hradices] at hr
    obtain ⟨d, -, rfl⟩ := List.mem_map.1 hr
    exact one_le_room s.seed d
  rw [total, foldlM_mul_eq_ok_iff hpos (by decide), Nat.one_mul, hradices]

/-- **The number of tiles of a sound space** is the product of its rooms. -/
theorem Sound.total_eq_ok_iff (hs : s.Sound) {n : Nat} :
    s.total = .ok n ↔ n = (freeDims.map (room s.seed)).prod ∧ Count.Fits n :=
  TileSpace.total_eq_ok_iff hs.radices

/-- A moderate layer has a count of tiles. -/
theorem Sound.answers_total (hs : s.Sound) (hfull : s.seed.full.Moderate) :
    Answers s.total := by
  have hle : ((freeDims.map (room s.seed)).prod : Int) ≤ s.seed.full.volume freeDims := by
    rw [Nat.cast_list_prod, List.map_map]
    refine prod_map_le_prod_map (fun d _ => ?_) fun d _ => room_le hs.tile d
    show (1 : Int) ≤ (room s.seed d : Int)
    exact_mod_cast one_le_room s.seed d
  have hword := hfull.volume_le freeDims (by decide) (.inr (by decide))
  refine ⟨_, hs.total_eq_ok_iff.2 ⟨rfl, ?_⟩⟩
  unfold Count.Fits
  omega

/-! ## Enlarging -/

/-- **An extent enlarged by a digit** stays within the layer. -/
theorem digit_bounds (he : e.LiesIn full) {radix : Nat} (hradix : 1 ≤ radix)
    (hroom : e.get d + radix ≤ full.get d + 1) (digits : Nat) :
    1 ≤ e.get d + (digits % radix : Nat)
      ∧ e.get d + (digits % radix : Nat) ≤ full.get d := by
  have hone := he.one_le d
  have hdigit : digits % radix < radix := Nat.mod_lt _ hradix
  omega

/-- Writing one extent leaves room for the digits of the others. -/
theorem room_set {ps : List (Dim × Nat)} {n : Int} (hnotin : d ∉ ps.map Prod.fst)
    (hroom : ∀ p ∈ ps, 1 ≤ p.2 ∧ e.get p.1 + p.2 ≤ full.get p.1 + 1) :
    ∀ p ∈ ps, 1 ≤ p.2 ∧ (e.set d n).get p.1 + p.2 ≤ full.get p.1 + 1 := by
  intro p hp
  have hne : d ≠ p.1 := fun h => hnotin (h ▸ List.mem_map_of_mem hp)
  rw [Extents.get_set, if_neg hne]
  exact hroom p hp

/-- **A tile enlarged by the digits of a number** lies in the layer, if each
radix leaves room for its digits and no extent is enlarged twice. -/
theorem liesIn_enlarge {ps : List (Dim × Nat)} (hdistinct : (ps.map Prod.fst).Nodup)
    (hroom : ∀ p ∈ ps, 1 ≤ p.2 ∧ e.get p.1 + p.2 ≤ full.get p.1 + 1) {digits : Nat}
    (he : e.LiesIn full) (run : enlarge ps digits e = .ok e') : e'.LiesIn full := by
  induction ps generalizing e digits with
  | nil =>
    obtain rfl : e = e' := Except.ok.inj run
    exact he
  | cons p ps ih =>
    obtain ⟨n, hn, run⟩ := bind_eq_ok_iff.1 run
    obtain ⟨rfl, -⟩ := Signed.add_eq_ok_iff.1 hn
    obtain ⟨hradix, hp⟩ := hroom p List.mem_cons_self
    obtain ⟨hone, hle⟩ := digit_bounds he hradix hp digits
    obtain ⟨hnotin, hdistinct⟩ := List.nodup_cons.1 hdistinct
    -- the extent just written is not written again
    have hrest := room_set (n := e.get p.1 + (digits % p.2 : Nat)) hnotin fun q hq =>
      hroom q (List.mem_cons_of_mem p hq)
    exact ih hdistinct hrest (he.set hone hle) run

/-- The digits of `0` enlarge nothing. -/
theorem eq_of_enlarge_zero {ps : List (Dim × Nat)} (run : enlarge ps 0 e = .ok e') :
    e' = e := by
  induction ps generalizing e with
  | nil => exact (Except.ok.inj run).symm
  | cons p ps ih =>
    obtain ⟨n, hn, run⟩ := bind_eq_ok_iff.1 run
    obtain ⟨rfl, -⟩ := Signed.add_eq_ok_iff.1 hn
    rw [Nat.zero_mod, Nat.zero_div] at run
    have hsame := ih run
    rwa [Int.natCast_zero, Int.add_zero, Extents.set_get] at hsame

/-- Enlarging a tile in a moderate layer has an answer. -/
theorem answers_enlarge {ps : List (Dim × Nat)} (hdistinct : (ps.map Prod.fst).Nodup)
    (hroom : ∀ p ∈ ps, 1 ≤ p.2 ∧ e.get p.1 + p.2 ≤ full.get p.1 + 1) {digits : Nat}
    (he : e.LiesIn full) (hfull : full.Moderate) : Answers (enlarge ps digits e) := by
  induction ps generalizing e digits with
  | nil => exact Checked.answers_ok e
  | cons p ps ih =>
    obtain ⟨hradix, hp⟩ := hroom p List.mem_cons_self
    obtain ⟨hone, hle⟩ := digit_bounds he hradix hp digits
    obtain ⟨hnotin, hdistinct⟩ := List.nodup_cons.1 hdistinct
    have hword := (hfull.fits_get hfull.valid.liesIn_self p.1).2
    refine Answers.bind ⟨_, Signed.add_eq_ok_iff.2 ⟨rfl, ⟨by omega, by omega⟩⟩⟩
      fun n hn => ?_
    obtain ⟨rfl, -⟩ := Signed.add_eq_ok_iff.1 hn
    have hrest := room_set (n := e.get p.1 + (digits % p.2 : Nat)) hnotin fun q hq =>
      hroom q (List.mem_cons_of_mem p hq)
    exact ih hdistinct hrest (he.set hone hle)

/-! ## The input of a tile -/

/-- **A tile with the input that it needs**, within the layer, as integers. -/
def derived (full tile : Extents) : Extents :=
  { tile with
    inputWidth :=
      min (window tile.outputWidth tile.kernelWidth full.stride) full.inputWidth
    inputHeight :=
      min (window tile.outputHeight tile.kernelHeight full.stride) full.inputHeight }

/-- An input that has an answer is the exact one. -/
theorem eq_derived_of_withInput (ht : tile.LiesIn full)
    (run : withInput full tile = .ok e) : e = derived full tile := by
  obtain ⟨w, hw, run⟩ := bind_eq_ok_iff.1 run
  obtain ⟨h, hh, run⟩ := bind_eq_ok_iff.1 run
  obtain rfl := pure_eq_ok_iff.1 run
  obtain ⟨rfl, -⟩ := (tileInputLength_eq_ok_iff (ht.one_le .outputWidth)).1 hw
  obtain ⟨rfl, -⟩ := (tileInputLength_eq_ok_iff (ht.one_le .outputHeight)).1 hh
  rfl

/-- A tile with the input that it needs lies in the layer. -/
theorem liesIn_derived (hfull : full.Valid) (ht : tile.LiesIn full) :
    (derived full tile).LiesIn full := by
  have hs := hfull.stride_nonneg
  have hw := Int.le_trans (ht.one_le .kernelWidth)
    (kernel_le_window tile.kernelWidth (ht.one_le .outputWidth) hs)
  have hh := Int.le_trans (ht.one_le .kernelHeight)
    (kernel_le_window tile.kernelHeight (ht.one_le .outputHeight) hs)
  exact ht.set_input hw hh

/-- A tile of a moderate layer has an input. -/
theorem withInput_eq_ok (hfull : full.Moderate) (ht : tile.LiesIn full) :
    withInput full tile = .ok (derived full tile) := by
  have hw := hfull.tileInputLength_width (ht.one_le .outputWidth) (ht.le .outputWidth)
    (ht.one_le .kernelWidth) (ht.le .kernelWidth)
  have hh := hfull.tileInputLength_height (ht.one_le .outputHeight) (ht.le .outputHeight)
    (ht.one_le .kernelHeight) (ht.le .kernelHeight)
  exact bind_eq_ok_iff.2 ⟨_, hw, bind_eq_ok_iff.2 ⟨_, hh, rfl⟩⟩

/-! ## The tiling of a number -/

/-- The extents of a space whose radices are those of its seed, each with its
radix. -/
theorem zip_radices (hradices : s.radices = freeDims.map (room s.seed)) :
    freeDims.zip s.radices = freeDims.map fun d => (d, room s.seed d) := by
  rw [hradices, ← List.zip_map', List.map_id']

/-- The digits of a sound space leave room in the layer. -/
theorem Sound.room_of_mem_zip (hs : s.Sound) {p : Dim × Nat}
    (hp : p ∈ freeDims.zip s.radices) :
    1 ≤ p.2 ∧ s.seed.tile.get p.1 + p.2 ≤ s.seed.full.get p.1 + 1 := by
  rw [zip_radices hs.radices] at hp
  obtain ⟨d, -, rfl⟩ := List.mem_map.1 hp
  exact ⟨one_le_room s.seed d, Int.le_of_eq (get_add_room (hs.tile.le d))⟩

/-- No extent of a sound space is enlarged twice. -/
theorem Sound.nodup_zip (hs : s.Sound) :
    ((freeDims.zip s.radices).map Prod.fst).Nodup := by
  rw [zip_radices hs.radices, List.map_map]
  show (freeDims.map id).Nodup
  decide

/-- **A tiling of a sound space** has the layer and the unrolling of the seed,
and a tile that lies in the layer, with the input that it needs. -/
theorem Sound.tilingAt (hs : s.Sound) {number : Nat} (run : s.tilingAt number = .ok t) :
    t.tile.LiesIn s.seed.full ∧ ∃ tile, enlarge (freeDims.zip s.radices) (number - 1)
      s.seed.tile = .ok tile ∧ tile.LiesIn s.seed.full
        ∧ t = { s.seed with tile := derived s.seed.full tile } := by
  obtain ⟨digits, hdigits, run⟩ := bind_eq_ok_iff.1 run
  obtain ⟨tile, htile, run⟩ := bind_eq_ok_iff.1 run
  obtain ⟨tile', htile', run⟩ := bind_eq_ok_iff.1 run
  obtain rfl := pure_eq_ok_iff.1 run
  obtain ⟨-, rfl⟩ := Count.sub_eq_ok_iff.1 hdigits
  have hin := liesIn_enlarge hs.nodup_zip (fun p hp => hs.room_of_mem_zip hp) hs.tile htile
  obtain rfl := eq_derived_of_withInput hin htile'
  exact ⟨liesIn_derived hs.full hin, tile, htile, hin, rfl⟩

/-- **Every number from `1` on has a tiling** in a moderate layer. -/
theorem Sound.answers_tilingAt (hs : s.Sound) (hfull : s.seed.full.Moderate)
    {number : Nat} (hnumber : 1 ≤ number) : Answers (s.tilingAt number) := by
  refine Answers.bind ⟨_, Count.sub_eq_ok_iff.2 ⟨hnumber, rfl⟩⟩ fun digits _ => ?_
  have hroom := fun p hp => hs.room_of_mem_zip (p := p) hp
  refine (answers_enlarge hs.nodup_zip hroom hs.tile hfull).bind fun tile htile => ?_
  have hin := liesIn_enlarge hs.nodup_zip hroom hs.tile htile
  exact Answers.bind ⟨_, withInput_eq_ok hfull hin⟩ fun _ _ => Checked.answers_pure _

end TileSpace

end ConvTiling
