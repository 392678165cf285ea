import ConvTiling.Proofs.Residency

/-!
# A smaller tile can need more room

The bytes of an operand are a product of extents, so a tile that is contained in another
one has no more bytes of any operand (`Extents.bytes_of_contains`). Still it need not fit
where the other one does. The part of a buffer that a tile may fill is read off the tile:
all of it for the whole operand, and half of it for anything less. A tile that is cut out
of the whole operand loses half of the buffer, and if it is more than that half it is too
large.

There is no other way (`Load.Within.not_fits_iff`). Whether a tile fits is thus not
monotone in the tile, and the operands it is not monotone in are those of which the larger
tile has all and the smaller one not, but more than half a buffer
(`Tiling.fits_contained`). With buffers of twice the whole operand this cannot happen, and
every tile fits.
-/

namespace ConvTiling

open Checked (Answers bind_eq_ok_iff)

/-- **A contained tile has no more bytes**, and as many as a word holds if the containing
one has. -/
theorem Extents.bytes_of_contains {e e' : Extents} (hone : ∀ d, 1 ≤ e.get d)
    (hle : e'.Contains e) {o : Operand} {b' : Int} (run : e'.bytes o = .ok b') :
    ∃ b, e.bytes o = .ok b ∧ 1 ≤ b ∧ b ≤ b' := by
  have hle := contains_iff.1 hle
  have hone' : ∀ d, 1 ≤ e'.get d := fun d => Int.le_trans (hone d) (hle d)
  obtain ⟨rfl, hfits⟩ := (bytes_eq_ok_iff hone').1 run
  have hvolume := volume_le_volume hone hle o.dims
  have hpositive := one_le_volume hone o.dims
  have hword : Signed.Fits (e.volume o.dims * 4) := hfits.of_le (by omega) (by omega)
  exact ⟨_, (bytes_eq_ok_iff hone).2 ⟨rfl, hword⟩, by omega, by omega⟩

namespace Load

variable {l small large : Load} {buffer : Int}

/-- A tile that is less than the operand may be half as large as the buffer. -/
theorem fits_iff_of_lt (htile : 1 ≤ l.tile) (hpart : l.tile < l.full) :
    l.Fits buffer ↔ 2 * l.tile ≤ buffer := by
  rw [Fits, capacity, if_pos hpart]
  obtain hnonneg | hneg := Int.le_total 0 buffer
  · rw [Int.tdiv_eq_ediv_of_nonneg hnonneg]
    omega
  · have hhalf : buffer.tdiv 2 ≤ Int.tdiv 0 2 := Int.tdiv_le_tdiv (by decide) hneg
    rw [Int.zero_tdiv] at hhalf
    omega

/-- A tile that is the whole operand may be as large as the buffer. -/
theorem fits_iff_of_le (hwhole : l.full ≤ l.tile) : l.Fits buffer ↔ l.tile ≤ buffer := by
  rw [Fits, capacity, if_neg (Int.not_lt.2 hwhole)]

/-- **One tile of an operand within another one**: it has no more bytes, and the operand is
the same. -/
structure Within (small large : Load) : Prop where
  one_le : 1 ≤ small.tile
  le : small.tile ≤ large.tile
  le_full : large.tile ≤ large.full
  same : large.full = small.full

/-- **Room is lost in one way.** Where a tile of an operand fits, a smaller one does not fit
exactly if the larger one is the whole operand, and the smaller one is not and is more than
half as large as the buffer. -/
theorem Within.not_fits_iff (h : small.Within large) (hfits : large.Fits buffer) :
    ¬ small.Fits buffer
      ↔ large.tile = large.full ∧ small.tile < small.full ∧ buffer < 2 * small.tile := by
  obtain ⟨hone, hle, hfull, hsame⟩ := h
  by_cases hpart : small.tile < small.full
  · rw [fits_iff_of_lt hone hpart, Int.not_le]
    refine ⟨fun hmore => ⟨?_, hpart, hmore⟩, fun h => h.2.2⟩
    by_contra hproper
    -- the larger tile would be at most half as large as the buffer as well
    have hhalf := (fits_iff_of_lt (Int.le_trans hone hle) (by omega)).1 hfits
    omega
  · have hbuffer := (fits_iff_of_le (by omega)).1 hfits
    have hsmall : small.Fits buffer :=
      (fits_iff_of_le (by omega)).2 (Int.le_trans hle hbuffer)
    exact iff_of_false (fun h => h hsmall) fun h => hpart h.2.1

/-- **Every tile fits a buffer twice as large as the operand.** -/
theorem Within.fits_of_two_mul_full_le (h : small.Within large)
    (hroom : 2 * small.full ≤ buffer) : small.Fits buffer := by
  obtain ⟨hone, hle, hfull, hsame⟩ := h
  by_cases hpart : small.tile < small.full
  · exact (fits_iff_of_lt hone hpart).2 (by omega)
  · exact (fits_iff_of_le (by omega)).2 (by omega)

end Load

namespace Tiling

variable {t t' : Tiling} {a : Accelerator}

/-- Loads that have an answer for each operand have one for all. -/
theorem loads_of_load {l : Operand → Load} (hl : ∀ o, t.load o = .ok (l o)) :
    ∃ r, t.loads = .ok r ∧ ∀ o, r.get o = l o := by
  have hget : ∀ o, (⟨l .input, l .weight, l .output⟩ : PerOperand Load).get o = l o :=
    fun o => by cases o <;> rfl
  exact ⟨_, loads_eq_ok_iff.2 fun o => (hget o).symm ▸ hl o, hget⟩

/-- **Loads that have an answer** are compared with the buffers. -/
theorem fits_of_load {l : Operand → Load} (hl : ∀ o, t.load o = .ok (l o)) :
    Answers (t.fits a)
      ∧ (t.fits a = .ok true ↔ ∀ o, (l o).Fits (a.buffers.get o))
      ∧ (t.fits a = .ok false ↔ ∃ o, ¬ (l o).Fits (a.buffers.get o)) := by
  obtain ⟨r, hr, hget⟩ := loads_of_load hl
  obtain ⟨b, hb⟩ : Answers (t.fits a) := ⟨_, bind_eq_ok_iff.2 ⟨r, hr, rfl⟩⟩
  have htrue : t.fits a = .ok true ↔ ∀ o, (l o).Fits (a.buffers.get o) := by
    rw [fits_eq_ok_true_iff]
    simp only [hr, ← hget, Except.ok.injEq, exists_eq_left']
  refine ⟨⟨b, hb⟩, htrue, ?_⟩
  rw [← not_forall, ← htrue, hb]
  cases b <;> simp

/-- **What two tiles ask of the buffers**, of which one contains the other, in a layer whose
bytes are words. -/
theorem load_within (hsame : t'.full = t.full) (hone : ∀ d, 1 ≤ t.tile.get d)
    (hle : t'.tile.Contains t.tile) (hlayer : t.full.Contains t'.tile)
    (hwords : ∀ o, Answers (t.full.bytes o)) (o : Operand) :
    ∃ l l', t.load o = .ok l ∧ t'.load o = .ok l' ∧ l.Within l' := by
  have hone' : ∀ d, 1 ≤ t'.tile.get d := fun d =>
    Int.le_trans (hone d) (Extents.contains_iff.1 hle d)
  obtain ⟨w, hw⟩ := hwords o
  obtain ⟨b', hb', -, hfull⟩ := Extents.bytes_of_contains hone' hlayer hw
  obtain ⟨b, hb, hpositive, hmono⟩ := Extents.bytes_of_contains hone hle hb'
  exact ⟨⟨b, w⟩, ⟨b', w⟩, load_eq_ok_iff.2 ⟨hb, hw⟩,
    load_eq_ok_iff.2 ⟨hb', hsame ▸ hw⟩, hpositive, hmono, hfull, rfl⟩

/-- **A contained tile, and the room it needs.** Let two tiles lie in one layer, the first
one contained in the second, and let the bytes of the layer be words. Then it is settled of
both whether they fit. The first one has no more bytes of any operand. If the second one
fits, the first one does not exactly if there is an operand of which the second one has
all, and the first one not all but more than half as many bytes as the buffer. And a layer
of which no operand has more than half as many bytes as its buffer lets every tile fit. -/
theorem fits_contained (hsame : t'.full = t.full) (hone : ∀ d, 1 ≤ t.tile.get d)
    (hle : t'.tile.Contains t.tile) (hlayer : t.full.Contains t'.tile)
    (hwords : ∀ o, Answers (t.full.bytes o)) (a : Accelerator) :
    (∀ o, ∃ b b' w, t.tile.bytes o = .ok b ∧ t'.tile.bytes o = .ok b'
        ∧ t.full.bytes o = .ok w ∧ b ≤ b' ∧ b' ≤ w)
      ∧ (Answers (t.fits a) ∧ Answers (t'.fits a))
      ∧ (t'.fits a = .ok true →
        (t.fits a = .ok false ↔ ∃ o b w, t.tile.bytes o = .ok b ∧ t'.tile.bytes o = .ok w
          ∧ t.full.bytes o = .ok w ∧ b < w ∧ a.buffers.get o < 2 * b))
      ∧ ((∀ o w, t.full.bytes o = .ok w → 2 * w ≤ a.buffers.get o) →
        t.fits a = .ok true) := by
  choose l l' hl hl' hwithin using load_within hsame hone hle hlayer hwords
  have hbytes : ∀ o, t.tile.bytes o = .ok (l o).tile ∧ t.full.bytes o = .ok (l o).full :=
    fun o => load_eq_ok_iff.1 (hl o)
  have hbytes' : ∀ o, t'.tile.bytes o = .ok (l' o).tile := fun o =>
    (load_eq_ok_iff.1 (hl' o)).1
  obtain ⟨hanswer, htrue, hfalse⟩ := fits_of_load (a := a) hl
  obtain ⟨hanswer', htrue', -⟩ := fits_of_load (a := a) hl'
  refine ⟨fun o => ?_, ⟨hanswer, hanswer'⟩, fun hfits => ?_, fun hroom => htrue.2 fun o => ?_⟩
  · exact ⟨_, _, _, (hbytes o).1, hbytes' o, (hbytes o).2, (hwithin o).le,
      (hwithin o).same ▸ (hwithin o).le_full⟩
  · rw [hfalse]
    refine exists_congr fun o => ((hwithin o).not_fits_iff (htrue'.1 hfits o)).trans ⟨?_, ?_⟩
    · rintro ⟨hwhole, hpart, hmore⟩
      rw [(hwithin o).same] at hwhole
      exact ⟨_, _, (hbytes o).1, hwhole ▸ hbytes' o, (hbytes o).2, hpart, hmore⟩
    · rintro ⟨b, w, hb, hb', hw, hpart, hmore⟩
      obtain rfl := Except.ok.inj ((hbytes o).1.symm.trans hb)
      obtain rfl := Except.ok.inj ((hbytes o).2.symm.trans hw)
      have hwhole := Except.ok.inj ((hbytes' o).symm.trans hb')
      exact ⟨hwhole.trans (hwithin o).same.symm, hpart, hmore⟩
  · exact (hwithin o).fits_of_two_mul_full_le (hroom o _ (hbytes o).2)

/-- Two tiles of a layer of four by four inputs: the one that has the whole input fits, and
the one that is cut out of it does not, until the buffer is twice the input. -/
theorem fits_contained_cutInput :
    let full : Extents := ⟨1, 0, 0, 4, 4, 2, 3, 3, 2, 2, 2⟩
    let large : Tiling := ⟨full, ⟨1, 0, 0, 4, 4, 2, 3, 3, 2, 2, 1⟩, .unit 1 0 0⟩
    let small : Tiling := ⟨full, ⟨1, 0, 0, 4, 3, 2, 3, 3, 2, 1, 1⟩, .unit 1 0 0⟩
    let machine : PerOperand Int → Accelerator := fun buffers =>
      ⟨1, 1.0, 1.0, buffers, 1, 1, [], []⟩
    large.fits (machine ⟨128, 144, 32⟩) = .ok true
      ∧ small.fits (machine ⟨128, 144, 32⟩) = .ok false
      ∧ (∃ o b w, small.tile.bytes o = .ok b ∧ large.tile.bytes o = .ok w
        ∧ full.bytes o = .ok w ∧ b < w ∧ (machine ⟨128, 144, 32⟩).buffers.get o < 2 * b)
      ∧ small.fits (machine ⟨256, 288, 64⟩) = .ok true := by
  intro full large small machine
  have hone : ∀ d, 1 ≤ small.tile.get d := fun d => by cases d <;> decide
  have hwords : ∀ o, Answers (full.bytes o) := fun o => by
    cases o <;> exact Checked.answers_of_isOk (by decide)
  have hfits : large.fits (machine ⟨128, 144, 32⟩) = .ok true := by decide
  have hnot : small.fits (machine ⟨128, 144, 32⟩) = .ok false := by decide
  have hsame : large.full = small.full := rfl
  have hcontained : large.tile.Contains small.tile := by decide
  have hlayer : small.full.Contains large.tile := by decide
  obtain ⟨-, -, hlost, -⟩ :=
    fits_contained hsame hone hcontained hlayer hwords (machine ⟨128, 144, 32⟩)
  obtain ⟨-, -, -, hroomy⟩ :=
    fits_contained hsame hone hcontained hlayer hwords (machine ⟨256, 288, 64⟩)
  refine ⟨hfits, hnot, (hlost hfits).1 hnot, hroomy fun o w hw => ?_⟩
  cases o <;> cases Except.ok.inj hw <;> decide

end Tiling

end ConvTiling
