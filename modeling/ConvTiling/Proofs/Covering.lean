import ConvTiling.Proofs.Products

/-!
# Covering a layer with tiles

Along one extent a layer is covered by a rounded-up quotient of tiles, and
along several by the product of those. The quotient is the *least* number of
tiles that reach over the whole length (`quotientUp_le_iff`), and everything
else about it follows: there is at least one tile, there are never more tiles
than the length itself, there is one exactly where the tile is the whole
length, and a larger tile never takes more.
-/

namespace ConvTiling

/-- **The quotient rounded up**, as an integer. -/
def quotientUp (full tile : Int) : Int := (full + tile - 1).tdiv tile

section Quotient

variable {full tile : Int}

/-- **The rounded-up quotient is the least number of tiles that cover the
length.** -/
theorem quotientUp_le_iff (hfull : 1 ≤ full) (htile : 1 ≤ tile) {k : Int} :
    quotientUp full tile ≤ k ↔ full ≤ k * tile := by
  rw [quotientUp, Int.tdiv_eq_ediv_of_nonneg (by omega), ← Int.lt_add_one_iff,
    Int.ediv_lt_iff_lt_mul (by omega), Int.add_mul, Int.one_mul]
  omega

/-- A length takes at least one tile. -/
theorem one_le_quotientUp (hfull : 1 ≤ full) (htile : 1 ≤ tile) :
    1 ≤ quotientUp full tile := by
  by_contra h
  have := (quotientUp_le_iff hfull htile (k := 0)).1 (by omega)
  omega

/-- A length takes no more tiles than it is long. -/
theorem quotientUp_le (hfull : 1 ≤ full) (htile : 1 ≤ tile) :
    quotientUp full tile ≤ full :=
  (quotientUp_le_iff hfull htile).2 (by nlinarith)

/-- **One tile covers a length** exactly when it is as long. -/
theorem quotientUp_eq_one_iff (hfull : 1 ≤ full) (htile : 1 ≤ tile) :
    quotientUp full tile = 1 ↔ full ≤ tile := by
  have hone := one_le_quotientUp hfull htile
  have hle := quotientUp_le_iff hfull htile (k := 1)
  rw [Int.one_mul] at hle
  rw [← hle]
  omega

/-- **A larger tile** takes no more tiles to cover a length. -/
theorem quotientUp_anti {tile' : Int} (hfull : 1 ≤ full) (htile : 1 ≤ tile)
    (hle : tile ≤ tile') : quotientUp full tile' ≤ quotientUp full tile := by
  have hone := one_le_quotientUp hfull htile
  refine (quotientUp_le_iff hfull (Int.le_trans htile hle)).2 ?_
  calc full ≤ quotientUp full tile * tile :=
        (quotientUp_le_iff hfull htile).1 (Int.le_refl _)
    _ ≤ quotientUp full tile * tile' :=
        Int.mul_le_mul_of_nonneg_left hle (by omega)

/-- The rounded-up quotient of two words is the exact one. -/
theorem eq_quotientUp_of_ceilDiv {q : Int} (run : Signed.ceilDiv full tile = .ok q) :
    q = quotientUp full tile :=
  (Signed.ceilDiv_eq_ok_iff.1 run).1

/-- The rounded-up quotient of two words has an answer if their sum is a
word. -/
theorem ceilDiv_eq_ok (hfull : 1 ≤ full) (htile : 1 ≤ tile)
    (hsum : Signed.Fits (full + tile)) :
    Signed.ceilDiv full tile = .ok (quotientUp full tile) := by
  have hone := one_le_quotientUp hfull htile
  have hle := quotientUp_le hfull htile
  unfold Signed.Fits at hsum
  refine Signed.ceilDiv_eq_ok_iff.2 ⟨rfl, by omega, hsum, ?_, ?_⟩
  · constructor <;> omega
  · constructor <;> omega

end Quotient

namespace Tiling

variable {t : Tiling} {dims : List Dim}

/-- **How many tiles cover the layer** along some extents, as an integer. -/
def tilesOver (t : Tiling) (dims : List Dim) : Int :=
  (dims.map fun d => quotientUp (t.full.get d) (t.tile.get d)).prod

/-- A count of tiles that has an answer is the exact one. -/
theorem eq_tilesOver_of_tileCount {c : Int} (run : t.tileCount dims = .ok c) :
    c = t.tilesOver dims :=
  (Signed.eq_prod_of_productBy (fun _ _ _ h => eq_quotientUp_of_ceilDiv h) run).1

theorem one_le_tilesOver (hfull : ∀ d, 1 ≤ t.full.get d) (htile : ∀ d, 1 ≤ t.tile.get d)
    (dims : List Dim) : 1 ≤ t.tilesOver dims :=
  one_le_prod_map fun d _ => one_le_quotientUp (hfull d) (htile d)

/-- A layer takes no more tiles along some extents than it has places
there. -/
theorem tilesOver_le_volume (hfull : ∀ d, 1 ≤ t.full.get d)
    (htile : ∀ d, 1 ≤ t.tile.get d) (dims : List Dim) :
    t.tilesOver dims ≤ t.full.volume dims :=
  prod_map_le_prod_map (fun d _ => one_le_quotientUp (hfull d) (htile d))
    fun d _ => quotientUp_le (hfull d) (htile d)

/-- A tile that is the whole layer along some extents covers it there
alone. -/
theorem tilesOver_eq_one (hfull : ∀ d, 1 ≤ t.full.get d)
    (h : ∀ d ∈ dims, t.tile.get d = t.full.get d) : t.tilesOver dims = 1 := by
  refine List.prod_eq_one fun q hq => ?_
  obtain ⟨d, hd, rfl⟩ := List.mem_map.1 hq
  rw [h d hd]
  exact (quotientUp_eq_one_iff (hfull d) (hfull d)).2 (Int.le_refl _)

/-- **A layer is covered by one tile** along some extents exactly if one tile covers each of
them. -/
theorem tilesOver_eq_one_iff (hfull : ∀ d ∈ dims, 1 ≤ t.full.get d)
    (htile : ∀ d ∈ dims, 1 ≤ t.tile.get d) :
    t.tilesOver dims = 1 ↔ ∀ d ∈ dims, quotientUp (t.full.get d) (t.tile.get d) = 1 :=
  prod_map_eq_one_iff fun d hd => one_le_quotientUp (hfull d hd) (htile d hd)

/-- **A larger tile** takes no more tiles to cover a layer along some extents. -/
theorem tilesOver_anti {t' : Tiling} (hsame : t'.full = t.full)
    (hfull : ∀ d, 1 ≤ t.full.get d) (htile : ∀ d, 1 ≤ t.tile.get d)
    (hle : ∀ d, t.tile.get d ≤ t'.tile.get d) (dims : List Dim) :
    t'.tilesOver dims ≤ t.tilesOver dims := by
  have htile' : ∀ d, 1 ≤ t'.tile.get d := fun d => Int.le_trans (htile d) (hle d)
  rw [tilesOver, tilesOver, hsame]
  exact prod_map_le_prod_map (fun d _ => one_le_quotientUp (hfull d) (htile' d))
    fun d _ => quotientUp_anti (hfull d) (htile d) (hle d)

/-- **A count of tiles has an answer** where it is a word, and so are the sums it rounds up
with. -/
theorem tileCount_eq_ok_of_fits (hfull : ∀ d, 1 ≤ t.full.get d)
    (htile : ∀ d, 1 ≤ t.tile.get d)
    (hsum : ∀ d, Signed.Fits (t.full.get d + t.tile.get d))
    (hfits : Signed.Fits (t.tilesOver dims)) : t.tileCount dims = .ok (t.tilesOver dims) :=
  Signed.productBy_eq_ok (fun d _ => ceilDiv_eq_ok (hfull d) (htile d) (hsum d))
    (fun d _ => one_le_quotientUp (hfull d) (htile d)) hfits

/-- A count of tiles has an answer where the sums it rounds up with and the
product of the whole extents are words. -/
theorem tileCount_eq_ok (hfull : ∀ d, 1 ≤ t.full.get d) (htile : ∀ d, 1 ≤ t.tile.get d)
    (hsum : ∀ d, Signed.Fits (t.full.get d + t.tile.get d))
    (hfits : Signed.Fits (t.full.volume dims)) :
    t.tileCount dims = .ok (t.tilesOver dims) := by
  have hone := one_le_tilesOver hfull htile dims
  have hle := tilesOver_le_volume hfull htile dims
  exact tileCount_eq_ok_of_fits hfull htile hsum (hfits.of_le (by omega) hle)

end Tiling

end ConvTiling
