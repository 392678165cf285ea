import ConvTiling.Proofs.Moderate
import ConvTiling.Schedule.Memory

/-!
# Fitting the buffers, exactly

Whether a tiling fits the buffers is computed from the bytes of six products,
and each of them can be too large to be a word. The exact question is about
integers: the tile of an operand fills at most the part of its buffer that it
may (`Tiling.Resident`). A tile that lies in its layer has no more bytes than
the layer, so whether the question has an answer depends on the layer alone,
and the answer is the exact one (`Tiling.fits_eq_ok_iff`).
-/

namespace ConvTiling

open Checked (Answers bind_eq_ok_iff pure_eq_ok_iff)

/-- **The bytes of an operand** are four times its volume, and have an answer
exactly when that is a word. -/
theorem Extents.bytes_eq_ok_iff {e : Extents} (h : ∀ d, 1 ≤ e.get d) {o : Operand}
    {b : Int} : e.bytes o = .ok b ↔ b = e.volume o.dims * 4 ∧ Signed.Fits b := by
  rw [bytes_eq_within h, Checked.within_eq_ok_iff, and_comm]
  exact and_congr_right fun hb => by rw [hb]

namespace Tiling

/-- What a buffer is asked to hold of an operand, as integers. -/
def exactLoad (t : Tiling) (o : Operand) : Load where
  tile := t.tile.volume o.dims * 4
  full := t.full.volume o.dims * 4

/-- **The tile of every operand fits its buffer.** -/
def Resident (t : Tiling) (a : Accelerator) : Prop :=
  ∀ o, (t.exactLoad o).Fits (a.buffers.get o)

variable {t t' : Tiling} {a : Accelerator}

/-- Whether a tiling fits the buffers is read off what they are asked to hold. -/
theorem fits_congr_load (h : ∀ o, t'.load o = t.load o) : t'.fits a = t.fits a := by
  unfold fits loads
  rw [h, h, h]

/-- A tile in the layer has at most the bytes of the layer. -/
theorem exactLoad_tile_le (ht : t.tile.LiesIn t.full) (o : Operand) :
    (t.exactLoad o).tile ≤ (t.exactLoad o).full := by
  have := Extents.volume_le_volume ht.one_le ht.le o.dims
  show t.tile.volume o.dims * 4 ≤ t.full.volume o.dims * 4
  omega

/-- The loads of a tile in its layer have an answer where the bytes of the
layer are words, and then are exact. -/
theorem load_eq_ok_iff_exact (hfull : t.full.Valid) (ht : t.tile.LiesIn t.full)
    {o : Operand} {l : Load} :
    t.load o = .ok l ↔ l = t.exactLoad o ∧ Signed.Fits (t.exactLoad o).full := by
  have hle := exactLoad_tile_le ht o
  have hone := Extents.one_le_volume ht.one_le o.dims
  rw [load_eq_ok_iff, Extents.bytes_eq_ok_iff ht.one_le,
    Extents.bytes_eq_ok_iff hfull.one_le_get]
  simp only [exactLoad] at *
  constructor
  · rintro ⟨⟨htile, -⟩, hl, hfits⟩
    refine ⟨?_, hl ▸ hfits⟩
    obtain ⟨tile, full⟩ := l
    rw [Load.mk.injEq]
    exact ⟨htile, hl⟩
  · rintro ⟨rfl, hfits⟩
    have hnonneg : 0 ≤ t.tile.volume o.dims * 4 := by omega
    exact ⟨⟨rfl, hfits.of_le hnonneg hle⟩, rfl, hfits⟩

/-- **Whether a tile in its layer fits the buffers** has an answer exactly when
the bytes of the layer are words, and the answer is the exact one. -/
theorem fits_eq_ok_iff (hfull : t.full.Valid) (ht : t.tile.LiesIn t.full) {b : Bool} :
    t.fits a = .ok b ↔
      (b = true ↔ t.Resident a) ∧ ∀ o, Signed.Fits (t.exactLoad o).full := by
  simp only [fits, bind_eq_ok_iff, pure_eq_ok_iff, loads_eq_ok_iff,
    load_eq_ok_iff_exact hfull ht]
  have hall : (∀ o ∈ Operand.all, (t.exactLoad o).Fits (a.buffers.get o))
      ↔ t.Resident a := ⟨fun h o => h o o.mem_all, fun h o _ => h o⟩
  constructor
  · rintro ⟨r, hr, rfl⟩
    refine ⟨?_, fun o => (hr o).2⟩
    rw [← hall, List.all_eq_true]
    simp only [decide_eq_true_eq, (hr _).1]
  · rintro ⟨hb, hfits⟩
    refine ⟨⟨t.exactLoad .input, t.exactLoad .weight, t.exactLoad .output⟩, ?_, ?_⟩
    · intro o
      exact ⟨by cases o <;> rfl, hfits o⟩
    · rw [← hall] at hb
      rw [Bool.eq_iff_iff, hb, List.all_eq_true]
      simp only [decide_eq_true_eq]
      exact forall₂_congr fun o _ => by cases o <;> rfl

/-- A tile in a moderate layer either fits the buffers or does not. -/
theorem answers_fits (hfull : t.full.Moderate) (ht : t.tile.LiesIn t.full) :
    Answers (t.fits a) := by
  classical
  refine ⟨decide (t.Resident a), (fits_eq_ok_iff hfull.valid ht).2 ⟨by simp, fun o => ?_⟩⟩
  obtain ⟨-, hfits⟩ := (Extents.bytes_eq_ok_iff hfull.valid.one_le_get).1
    (hfull.bytes_eq_ok hfull.valid.liesIn_self o)
  exact hfits

end Tiling

end ConvTiling
