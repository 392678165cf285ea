import ConvTiling.Proofs.Costs

/-!
# A larger tile moves no more

An operand that does not stay in its buffer passes once for every tile that covers the layer
along the extents of its loops, and a larger tile takes no more of those. So nothing passes
more often under a tile that contains another one (`Tiling.passes_anti`), and the bytes moved
are no more either (`Tiling.movedBytes_anti`). Least of all is moved where the tile is the
whole layer. Every operand has bytes, so a pass more of any of them shows in the sum, and
another tile moves as little only if it covers the layer with one tile along every extent
that counts (`Tiling.movedBytes_eq_untiled_iff`).

On words the bytes moved have an answer exactly if they are a word and the bytes of every
operand are (`Tiling.traffic_eq_ok_iff`). The extents take part in the bytes of some operand,
so that no sum on the way to a rounded-up quotient can fail then, and the bytes moved of one
operand are part of all that are moved. A tile that moves no more than another one of the same
layer thus has a traffic where the other one has (`Tiling.traffic_anti`).
-/

namespace ConvTiling

open Checked (Answers bind_eq_ok_iff pure_eq_ok_iff)

/-! ## Bytes that are words -/

/-- Every extent takes part in the size of some operand. -/
theorem Dim.exists_mem_dims : ∀ d : Dim, ∃ o : Operand, d ∈ o.dims
  | .inputWidth | .inputHeight | .inputChannel => ⟨.input, by decide⟩
  | .kernelWidth | .kernelHeight | .outputChannel => ⟨.weight, by decide⟩
  | .outputWidth | .outputHeight => ⟨.output, by decide⟩

/-- **The bytes of a layer bound its extents**: where they are words, so is the sum of an
extent of the layer and one of a tile in it. -/
theorem Extents.fits_add_of_bytes {e lower : Extents} (hone : ∀ d, 1 ≤ lower.get d)
    (hle : e.Contains lower) (hwords : ∀ o, Answers (e.bytes o)) (d : Dim) :
    Signed.Fits (e.get d + lower.get d) := by
  have hle := contains_iff.1 hle
  have hone' : ∀ d, 1 ≤ e.get d := fun d => Int.le_trans (hone d) (hle d)
  obtain ⟨o, hd⟩ := d.exists_mem_dims
  obtain ⟨b, hb⟩ := hwords o
  have hword : Signed.Fits (e.volume o.dims * 4) := by
    rw [← eq_volume_of_bytes hb]
    exact (Signed.mul_eq_ok_iff.1 (bind_eq_ok_iff.1 hb).choose_spec.2).2
  have hvolume : e.get d ≤ e.volume o.dims := by
    have hsub : [d] ⊆ o.dims := by simpa using hd
    have := volume_le_of_subset hone' (by simp) hsub
    rwa [volume_cons, volume_nil, Int.mul_one] at this
  have := hone d
  have := hle d
  exact hword.of_le (by omega) (by omega)

/-- The traffic of a tiling is that of each operand: its passes and its bytes. -/
theorem Traffic.of_eq_ok_iff {t : Tiling} {s : Operand} {r : Traffic} :
    Traffic.of t s = .ok r ↔ (∀ o, reload t s o = .ok (r.reloads.get o))
      ∧ ∀ o, t.full.bytes o = .ok (r.bytes.get o) := by
  simp only [Traffic.of, bind_eq_ok_iff, pure_eq_ok_iff]
  constructor
  · rintro ⟨i, hi, w, hw, o, ho, bi, hbi, bw, hbw, bo, hbo, rfl⟩
    constructor
    · rintro (_ | _ | _)
      exacts [hi, hw, ho]
    · rintro (_ | _ | _)
      exacts [hbi, hbw, hbo]
  · rintro ⟨hr, hb⟩
    exact ⟨_, hr .input, _, hr .weight, _, hr .output, _, hb .input, _, hb .weight,
      _, hb .output, rfl⟩

namespace Tiling

variable {t u : Tiling} {s o : Operand} {n : Int}

/-! ## What is moved of an operand -/

/-- **What is moved of an operand**, as an integer: its bytes in every pass. -/
def movedOf (t : Tiling) (s o : Operand) : Int := t.passes s o * (t.full.volume o.dims * 4)

/-- All that is moved is what is moved of the three operands. -/
theorem movedBytes_eq (t : Tiling) (s : Operand) :
    t.movedBytes s = t.movedOf s .input + t.movedOf s .weight + t.movedOf s .output := rfl

/-- An operand of a layer has bytes. -/
theorem one_le_bytes (hfull : ∀ d, 1 ≤ t.full.get d) (o : Operand) :
    1 ≤ t.full.volume o.dims * 4 := by
  have := Extents.one_le_volume hfull o.dims
  omega

/-- No less than nothing is moved of an operand, and its passes are no more than the bytes
that are moved of it. -/
theorem movedOf_bounds (hfull : ∀ d, 1 ≤ t.full.get d) (htile : ∀ d, 1 ≤ t.tile.get d)
    (s o : Operand) : 0 ≤ t.passes s o ∧ t.passes s o ≤ t.movedOf s o := by
  obtain ⟨hpasses, -⟩ := passes_bounds hfull htile s o
  exact ⟨hpasses, le_mul_of_one_le_right hpasses (one_le_bytes hfull o)⟩

/-- What is moved of an operand is part of all that is moved. -/
theorem movedOf_le_movedBytes (hfull : ∀ d, 1 ≤ t.full.get d) (htile : ∀ d, 1 ≤ t.tile.get d)
    (s o : Operand) : t.movedOf s o ≤ t.movedBytes s := by
  have hnonneg : ∀ q, 0 ≤ t.movedOf s q := fun q =>
    Int.le_trans (movedOf_bounds hfull htile s q).1 (movedOf_bounds hfull htile s q).2
  have hi := hnonneg .input
  have hw := hnonneg .weight
  have ho := hnonneg .output
  rw [movedBytes_eq]
  cases o <;> omega

/-! ## Traffic that has an answer -/

/-- **The passes of an operand have an answer** where they are a word, and so are the sums
that its quotients are rounded up with. -/
theorem reload_eq_ok_of_fits (hfull : ∀ d, 1 ≤ t.full.get d) (htile : ∀ d, 1 ≤ t.tile.get d)
    (hsum : ∀ d, Signed.Fits (t.full.get d + t.tile.get d))
    (hfits : Signed.Fits (t.passes s o)) : Traffic.reload t s o = .ok (t.passes s o) := by
  unfold Traffic.reload
  unfold passes at hfits ⊢
  by_cases hs : o = s
  · rw [if_pos hs, if_pos hs]
  · rw [if_neg hs] at hfits
    rw [if_neg hs, if_neg hs]
    have hone := one_le_tilesOver hfull htile (Traffic.reloadDims o)
    have hcount : Signed.Fits (t.tilesOver (Traffic.reloadDims o)) := by
      cases o with
      | input => exact hfits
      | weight => exact hfits
      | output =>
        -- twice one tile less is a word, so the tiles are
        have hle : 2 * (t.tilesOver (Traffic.reloadDims .output) - 1) ≤ 9223372036854775807 :=
          hfits.2
        exact ⟨by omega, by omega⟩
    refine bind_eq_ok_iff.2 ⟨_, tileCount_eq_ok_of_fits hfull htile hsum hcount, ?_⟩
    cases o with
    | input => rfl
    | weight => rfl
    | output =>
      have hagain := hcount.of_le (n := t.tilesOver (Traffic.reloadDims .output) - 1)
        (by omega) (by omega)
      exact bind_eq_ok_iff.2 ⟨_, Signed.sub_eq_ok_iff.2 ⟨rfl, hagain⟩,
        Signed.mul_eq_ok_iff.2 ⟨rfl, hfits⟩⟩

/-- **The traffic of a tile in its layer has an answer** exactly if the bytes of every operand
are words, and all that is moved is one. -/
theorem traffic_eq_ok_iff (htile : ∀ d, 1 ≤ t.tile.get d) (hlayer : t.full.Contains t.tile) :
    t.traffic s = .ok n ↔
      n = t.movedBytes s ∧ Signed.Fits n ∧ ∀ o, Answers (t.full.bytes o) := by
  have hfull : ∀ d, 1 ≤ t.full.get d := fun d =>
    Int.le_trans (htile d) (Extents.contains_iff.1 hlayer d)
  constructor
  · intro run
    obtain ⟨r, hr, -, -, -, -, -, hn⟩ := traffic_eq_ok_iff_steps.1 run
    exact ⟨eq_movedBytes_of_traffic run, hn, fun o => ⟨_, (Traffic.of_eq_ok_iff.1 hr).2 o⟩⟩
  · rintro ⟨rfl, hfits, hwords⟩
    have hnonneg : ∀ o, 0 ≤ t.movedOf s o := fun o =>
      Int.le_trans (movedOf_bounds hfull htile s o).1 (movedOf_bounds hfull htile s o).2
    have hmoved : ∀ o, Signed.Fits (t.movedOf s o) := fun o =>
      hfits.of_le (hnonneg o) (movedOf_le_movedBytes hfull htile s o)
    have hreload : ∀ o, Traffic.reload t s o = .ok (t.passes s o) := fun o =>
      reload_eq_ok_of_fits hfull htile (Extents.fits_add_of_bytes htile hlayer hwords)
        ((hmoved o).of_le (movedOf_bounds hfull htile s o).1 (movedOf_bounds hfull htile s o).2)
    have hbytes : ∀ o, t.full.bytes o = .ok (t.full.volume o.dims * 4) := fun o => by
      obtain ⟨b, hb⟩ := hwords o
      rw [← Extents.eq_volume_of_bytes hb, hb]
    have hinputs : t.movedOf s .input + t.movedOf s .weight ≤ t.movedBytes s :=
      Int.le_add_of_nonneg_right (hnonneg .output)
    refine traffic_eq_ok_iff_steps.2
      ⟨⟨⟨t.passes s .input, t.passes s .weight, t.passes s .output⟩,
        ⟨t.full.volume Operand.input.dims * 4, t.full.volume Operand.weight.dims * 4,
          t.full.volume Operand.output.dims * 4⟩⟩, ?_, rfl, hmoved .input, hmoved .weight,
        hfits.of_le (Int.add_nonneg (hnonneg .input) (hnonneg .weight)) hinputs,
        hmoved .output, hfits⟩
    refine Traffic.of_eq_ok_iff.2 ⟨?_, ?_⟩
    · rintro (_ | _ | _) <;> exact hreload _
    · rintro (_ | _ | _) <;> exact hbytes _

/-! ## A tile that contains another one -/

/-- **An operand passes no more often** under a larger tile. -/
theorem passes_anti (hsame : u.full = t.full) (hfull : ∀ d, 1 ≤ t.full.get d)
    (htile : ∀ d, 1 ≤ t.tile.get d) (hle : ∀ d, t.tile.get d ≤ u.tile.get d)
    (s o : Operand) : u.passes s o ≤ t.passes s o := by
  have htiles := tilesOver_anti hsame hfull htile hle (Traffic.reloadDims o)
  have hexchanges : u.exchanges o ≤ t.exchanges o := by
    cases o with
    | input => exact htiles
    | weight => exact htiles
    | output => exact Int.mul_le_mul_of_nonneg_left (Int.sub_le_sub_right htiles 1) (by decide)
  unfold passes
  split
  · exact Int.le_refl 1
  · exact hexchanges

/-- What is moved of an operand is no more under a larger tile. -/
theorem movedOf_anti (hsame : u.full = t.full) (hfull : ∀ d, 1 ≤ t.full.get d)
    (hpasses : u.passes s o ≤ t.passes s o) : u.movedOf s o ≤ t.movedOf s o := by
  rw [movedOf, movedOf, hsame]
  exact Int.mul_le_mul_of_nonneg_right hpasses (Int.le_trans (by decide) (one_le_bytes hfull o))

/-- **All that is moved is no more** if nothing passes more often, and as much exactly if
everything passes as often. -/
theorem movedBytes_anti (hsame : u.full = t.full) (hfull : ∀ d, 1 ≤ t.full.get d)
    (hpasses : ∀ o, u.passes s o ≤ t.passes s o) :
    u.movedBytes s ≤ t.movedBytes s
      ∧ (t.movedBytes s = u.movedBytes s ↔ ∀ o, t.passes s o = u.passes s o) := by
  have hmoved : ∀ o, u.movedOf s o ≤ t.movedOf s o := fun o =>
    movedOf_anti hsame hfull (hpasses o)
  have hi := hmoved .input
  have hw := hmoved .weight
  have ho := hmoved .output
  rw [movedBytes_eq, movedBytes_eq]
  refine ⟨Int.add_le_add (Int.add_le_add hi hw) ho, fun hall o => ?_, fun hall => ?_⟩
  · have heach : t.movedOf s o = u.movedOf s o := by
      cases o <;> omega
    rw [movedOf, movedOf, hsame] at heach
    exact Int.eq_of_mul_eq_mul_right (Int.ne_of_gt (one_le_bytes hfull o)) heach
  · simp only [movedOf, hsame, hall]

/-- No operand passes less often than under the whole layer. -/
theorem passes_untiled_le (htile : ∀ d, 1 ≤ t.tile.get d) (hlayer : t.full.Contains t.tile)
    (s o : Operand) : (untiled t.full).passes s o ≤ t.passes s o := by
  have hle := Extents.contains_iff.1 hlayer
  have hfull : ∀ d, 1 ≤ t.full.get d := fun d => Int.le_trans (htile d) (hle d)
  exact passes_anti (t := t) (u := untiled t.full) rfl hfull htile hle s o

/-- **Under the whole layer** an operand that does not stay passes as often as it passes under
a tile that covers the layer alone along the extents of its loops, and only then. -/
theorem passes_eq_untiled_iff (hfull : ∀ d, 1 ≤ t.full.get d) :
    t.passes s o = (untiled t.full).passes s o ↔
      o = s ∨ t.tilesOver (Traffic.reloadDims o) = 1 := by
  have hwhole : (untiled t.full).tilesOver (Traffic.reloadDims o) = 1 :=
    tilesOver_eq_one hfull fun _ _ => rfl
  unfold passes
  by_cases hs : o = s
  · rw [if_pos hs, if_pos hs]
    exact iff_of_true rfl (.inl hs)
  · rw [if_neg hs, if_neg hs, or_iff_right hs, ← hwhole]
    cases o with
    | input => rfl
    | weight => rfl
    | output =>
      show 2 * (t.tilesOver _ - 1) = 2 * ((untiled t.full).tilesOver _ - 1) ↔ _
      omega

/-- **A tile moves as little as the whole layer** exactly if it covers the layer alone along
every extent whose loop makes an operand pass again. -/
theorem movedBytes_eq_untiled_iff (htile : ∀ d, 1 ≤ t.tile.get d)
    (hlayer : t.full.Contains t.tile) :
    t.movedBytes s = (untiled t.full).movedBytes s ↔
      ∀ o, o ≠ s → ∀ d ∈ Traffic.reloadDims o,
        quotientUp (t.full.get d) (t.tile.get d) = 1 := by
  have hfull : ∀ d, 1 ≤ t.full.get d := fun d =>
    Int.le_trans (htile d) (Extents.contains_iff.1 hlayer d)
  rw [(movedBytes_anti (t := t) (u := untiled t.full) rfl hfull
    (passes_untiled_le htile hlayer s)).2]
  refine forall_congr' fun o => ?_
  rw [passes_eq_untiled_iff hfull,
    tilesOver_eq_one_iff (fun d _ => hfull d) (fun d _ => htile d), ← or_iff_not_imp_left]

/-- **A larger tile moves no more.** Let two tiles lie in one layer, the first one contained in
the second. No operand passes more often under the second one, whichever stays; an operand
never passes less than never, nor an input or a weight less than once. Where the traffic of the
first one has an answer, so have those of the second one and of the whole layer: the second
one moves no more than the first, and no less than the whole layer. The first one moves as
little as the whole layer exactly if every rounded-up quotient that a pass is counted with
is one. -/
theorem traffic_anti (hsame : u.full = t.full) (hone : ∀ d, 1 ≤ t.tile.get d)
    (hle : u.tile.Contains t.tile) (hlayer : t.full.Contains u.tile) (s : Operand) :
    (∀ o p p', Traffic.reload t s o = .ok p → Traffic.reload u s o = .ok p' → p' ≤ p)
      ∧ (∀ o p, Traffic.reload t s o = .ok p → 0 ≤ p ∧ (o ≠ .output → 1 ≤ p))
      ∧ ∀ n, t.traffic s = .ok n → ∃ n' least, u.traffic s = .ok n'
        ∧ (untiled t.full).traffic s = .ok least ∧ least ≤ n' ∧ n' ≤ n
        ∧ (n = least ↔ ∀ o, o ≠ s → ∀ d ∈ Traffic.reloadDims o,
          Signed.ceilDiv (t.full.get d) (t.tile.get d) = .ok 1) := by
  have hwithin := hlayer.trans hle
  have hle' := Extents.contains_iff.1 hle
  have hfull : ∀ d, 1 ≤ t.full.get d := fun d =>
    Int.le_trans (hone d) (Extents.contains_iff.1 hwithin d)
  have hone' : ∀ d, 1 ≤ u.tile.get d := fun d => Int.le_trans (hone d) (hle' d)
  have hpasses := passes_anti hsame hfull hone hle' s
  refine ⟨fun o p p' hp hp' => ?_, fun o p hp => ?_, fun n run => ?_⟩
  · rw [eq_passes_of_reload hp, eq_passes_of_reload hp']
    exact hpasses o
  · rw [eq_passes_of_reload hp]
    exact ⟨(passes_bounds hfull hone s o).1,
      fun ho => (passes_bounds_of_ne_output hfull hone s ho).1⟩
  · obtain ⟨rfl, hfits, hwords⟩ := (traffic_eq_ok_iff hone hwithin).1 run
    obtain ⟨hmoved, -⟩ := movedBytes_anti hsame hfull hpasses
    have hleast : (untiled t.full).movedBytes s ≤ u.movedBytes s := by
      rw [← hsame] at hlayer hfull ⊢
      exact (movedBytes_anti (t := u) (u := untiled u.full) rfl hfull
        (passes_untiled_le hone' hlayer s)).1
    have hpos : 0 < (untiled t.full).movedBytes s :=
      movedBytes_pos (t := untiled t.full) hfull hfull s
    have hquotient : ∀ d, Signed.ceilDiv (t.full.get d) (t.tile.get d)
        = .ok (quotientUp (t.full.get d) (t.tile.get d)) := fun d =>
      ceilDiv_eq_ok (hfull d) (hone d) (Extents.fits_add_of_bytes hone hwithin hwords d)
    refine ⟨_, _, (traffic_eq_ok_iff hone' (hsame ▸ hlayer)).2 ⟨rfl, ?_, hsame ▸ hwords⟩,
      (traffic_eq_ok_iff (t := untiled t.full) hfull (Extents.Contains.refl _)).2
        ⟨rfl, ?_, hwords⟩, hleast, hmoved, ?_⟩
    · exact hfits.of_le (by omega) hmoved
    · exact hfits.of_le (by omega) (by omega)
    · rw [movedBytes_eq_untiled_iff hone hwithin]
      simp only [hquotient, Except.ok.injEq]

/-- Two tiles under a dataflow that keeps the input: the one that is cut along the output
channels alone moves as little as the whole layer, although two of it cover the layer, and the
one that is cut out of it along other extents moves more. -/
theorem traffic_anti_cutChannels :
    let full : Extents := ⟨1, 0, 0, 7, 6, 4, 3, 3, 5, 4, 6⟩
    let large : Tiling := ⟨full, ⟨1, 0, 0, 7, 6, 4, 3, 3, 5, 4, 4⟩, .unit 1 0 0⟩
    let small : Tiling := ⟨full, ⟨1, 0, 0, 4, 5, 2, 2, 3, 2, 3, 4⟩, .unit 1 0 0⟩
    large.tile.Contains small.tile ∧ full.Contains large.tile
      ∧ ∃ n n' least, small.traffic .input = .ok n ∧ large.traffic .input = .ok n'
        ∧ (untiled full).traffic .input = .ok least ∧ least < n ∧ n' = least := by
  intro full large small
  have hone : ∀ d, 1 ≤ small.tile.get d := fun d => by cases d <;> decide
  have hone' : ∀ d, 1 ≤ large.tile.get d := fun d => by cases d <;> decide
  have hle : large.tile.Contains small.tile := by decide
  have hlayer : full.Contains large.tile := by decide
  have hrun : small.traffic .input = .ok 8736 := by decide
  obtain ⟨-, -, htraffic⟩ := traffic_anti (t := small) (u := large) rfl hone hle hlayer .input
  obtain ⟨n', least, hn', hleast, hlow, hhigh, hequal⟩ := htraffic _ hrun
  -- two tiles cover the input channels, and the output is summed over them
  have hmore : (8736 : Int) ≠ least := fun h =>
    absurd (hequal.1 h .output (by decide) .inputChannel (by decide)) (by decide)
  obtain ⟨-, -, htraffic'⟩ := traffic_anti (t := large) (u := large) rfl hone'
    (Extents.Contains.refl _) hlayer .input
  obtain ⟨_, least', -, hleast', -, -, hequal'⟩ := htraffic' _ hn'
  obtain rfl := Except.ok.inj (hleast.symm.trans hleast')
  refine ⟨hle, hlayer, _, n', least, hrun, hn', hleast, by omega, hequal'.2 ?_⟩
  rintro (_ | _ | _) ho
  · exact absurd rfl ho
  · decide
  · decide

end Tiling

end ConvTiling
