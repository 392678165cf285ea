import ConvTiling.Proofs.TileSpace

/-!
# The numbering of the tiles

The tiles that a search can reach from a tiling are the points of a box: each of
six extents takes a value from that of the tile to that of the layer. Every point
of the box has exactly one number, and the numbers go through the box in order:
of two tiles that one comes first which is smaller at the slowest extent at which
they differ (`Tiling.Numbering`). So no tile is missed by going through the
numbers, and none is looked at twice.

Both come down to the digits of a number. The digit of an extent is what the
faster digits leave of the number, modulo the radix of the extent
(`TileSpace.digit`), and digits can be chosen freely (`TileSpace.exists_digit`),
tell two numbers apart (`TileSpace.eq_of_digit`) and compare them
(`TileSpace.lt_iff_digit`). All three are proved by induction on the extents, the
fastest first.

Nothing is asked of the tiling but that its numbers are words and that no extent
of the tile is beyond the layer. The box may then hold tiles of which the input
is not a word, and such a number is decoded up to its input and has no answer
(`TileSpace.tilingAt_eq_ok_iff`); and it may hold tiles without output, which
need a kernel of input rather than a window (`neededInput`).
-/

namespace ConvTiling

open Checked (Answers bind_eq_ok_iff pure_eq_ok_iff)

/-! ## The input that a tile needs -/

/-- **The input under some places of output** of a tile: their window, and a
kernel of it where there is no place. -/
def neededInput (output kernel stride : Int) : Int :=
  if output < 1 then kernel else window output kernel stride

/-- **The input of a tile can be computed**: where the tile has an output, the
steps between its places make a word, and so does its window. -/
def InputInWords (output kernel stride : Int) : Prop :=
  1 ≤ output → Signed.Fits ((output - 1) * stride) ∧ Signed.Fits (window output kernel stride)

instance (output kernel stride : Int) : Decidable (InputInWords output kernel stride) :=
  inferInstanceAs (Decidable (_ → _))

/-- **The input that a tile needs** is computed exactly where it can be, whether
or not the tile has an output. -/
theorem tileInputLength_eq_ok_iff_neededInput {output kernel stride n : Int}
    (hword : Signed.Fits output) : tileInputLength output kernel stride = .ok n ↔
      n = neededInput output kernel stride ∧ InputInWords output kernel stride := by
  by_cases ho : 1 ≤ output
  · have hsteps : Signed.Fits (output - 1) := hword.of_le (by omega) (by omega)
    rw [tileInputLength_eq_ok_iff ho, neededInput, if_neg (by omega), InputInWords]
    constructor
    · rintro ⟨rfl, -, hslack, hfits⟩
      exact ⟨rfl, fun _ => ⟨hslack, hfits⟩⟩
    · rintro ⟨rfl, hwords⟩
      exact ⟨rfl, hsteps, hwords ho⟩
  · rw [tileInputLength, neededInput, if_pos (by omega), if_pos (by omega), Except.ok.injEq,
      eq_comm]
    exact (and_iff_left fun h => absurd h ho).symm

namespace TileSpace

/-! ## Digits -/

/-- **The digit of an extent** in a number: what the digits before it leave of the
number, modulo its radix. -/
def digit (d : Dim) : List (Dim × Nat) → Nat → Nat
  | [], _ => 0
  | (c, radix) :: ps, n => if c = d then n % radix else digit d ps (n / radix)

section Digits

variable {ps : List (Dim × Nat)} {c d : Dim} {radix n m : Nat}

theorem digit_cons_self (c : Dim) (radix : Nat) (ps : List (Dim × Nat)) (n : Nat) :
    digit c ((c, radix) :: ps) n = n % radix :=
  if_pos rfl

theorem digit_cons_of_ne (h : c ≠ d) (radix : Nat) (ps : List (Dim × Nat)) (n : Nat) :
    digit d ((c, radix) :: ps) n = digit d ps (n / radix) :=
  if_neg h

/-- An extent without a radix has the digit `0`. -/
theorem digit_of_notMem (h : d ∉ ps.map Prod.fst) : digit d ps n = 0 := by
  induction ps generalizing n with
  | nil => rfl
  | cons p ps ih =>
    obtain ⟨hne, hnotin⟩ := not_or.1 (mt List.mem_cons.2 h)
    rw [digit_cons_of_ne (Ne.symm hne), ih hnotin]

/-- The digits after the first one are those of the quotient. -/
theorem digit_cons_of_mem (hc : c ∉ ps.map Prod.fst) (hd : d ∈ ps.map Prod.fst) :
    digit d ((c, radix) :: ps) n = digit d ps (n / radix) :=
  digit_cons_of_ne (by rintro rfl; exact hc hd) radix ps n

/-- A digit is less than its radix. -/
theorem digit_lt (hdistinct : (ps.map Prod.fst).Nodup) (hpos : ∀ p ∈ ps, 1 ≤ p.2)
    {p : Dim × Nat} (hp : p ∈ ps) : digit p.1 ps n < p.2 := by
  induction ps generalizing n with
  | nil => cases hp
  | cons q ps ih =>
    obtain ⟨hq, hdistinct⟩ := List.nodup_cons.1 hdistinct
    obtain rfl | hp := List.mem_cons.1 hp
    · rw [digit_cons_self]
      exact Nat.mod_lt _ (hpos p List.mem_cons_self)
    · rw [digit_cons_of_mem hq (List.mem_map_of_mem hp)]
      exact ih hdistinct (fun r hr => hpos r (List.mem_cons_of_mem q hr)) hp

/-- **The digits of a number in two parts**: what is below the first radix is its
digit, and the multiple of it has the others. -/
theorem digit_cons_add_mul {low : Nat} (hlow : low < radix) :
    digit d ((c, radix) :: ps) (low + radix * n) = if c = d then low else digit d ps n := by
  rw [digit, Nat.add_mul_mod_self_left, Nat.mod_eq_of_lt hlow,
    Nat.add_mul_div_left _ _ (Nat.zero_lt_of_lt hlow), Nat.div_eq_of_lt hlow, Nat.zero_add]

/-- Every digit of `0` is `0`. -/
theorem digit_zero (d : Dim) (ps : List (Dim × Nat)) : digit d ps 0 = 0 := by
  induction ps with
  | nil => rfl
  | cons p ps ih => rw [digit, Nat.zero_mod, Nat.zero_div, ih, ite_self]

/-- **The digits of the last number** are the largest ones. -/
theorem digit_last (hdistinct : (ps.map Prod.fst).Nodup) (hpos : ∀ p ∈ ps, 1 ≤ p.2)
    {p : Dim × Nat} (hp : p ∈ ps) :
    digit p.1 ps ((ps.map Prod.snd).prod - 1) = p.2 - 1 := by
  induction ps with
  | nil => cases hp
  | cons q ps ih =>
    obtain ⟨hq, hdistinct⟩ := List.nodup_cons.1 hdistinct
    have hrest := fun r hr => hpos r (List.mem_cons_of_mem q hr)
    have hradix : 1 ≤ q.2 := hpos q List.mem_cons_self
    have hprod : 1 ≤ (ps.map Prod.snd).prod :=
      List.prod_pos_iff_forall_pos_nat.2 (List.forall_mem_map.2 hrest)
    have hsplit : q.2 * (ps.map Prod.snd).prod - 1
        = (q.2 - 1) + q.2 * ((ps.map Prod.snd).prod - 1) := by
      rw [Nat.mul_sub_one]
      have := Nat.le_mul_of_pos_right q.2 hprod
      omega
    rw [List.map_cons, List.prod_cons, hsplit, digit_cons_add_mul (by omega)]
    obtain rfl | hp := List.mem_cons.1 hp
    · rw [if_pos rfl]
    · have hne : q.1 ≠ p.1 := fun h => hq (h ▸ List.mem_map_of_mem hp)
      rw [if_neg hne, ih hdistinct hrest hp]

/-- **Digits can be chosen freely**, each below its radix. -/
theorem exists_digit (chosen : Dim → Nat) (hdistinct : (ps.map Prod.fst).Nodup)
    (hchosen : ∀ p ∈ ps, chosen p.1 < p.2) :
    ∃ n < (ps.map Prod.snd).prod, ∀ d ∈ ps.map Prod.fst, digit d ps n = chosen d := by
  induction ps with
  | nil => exact ⟨0, Nat.one_pos, fun d hd => by cases hd⟩
  | cons p ps ih =>
    obtain ⟨hp, hdistinct⟩ := List.nodup_cons.1 hdistinct
    obtain ⟨n, hn, hdigits⟩ := ih hdistinct fun q hq => hchosen q (List.mem_cons_of_mem p hq)
    have hlow : chosen p.1 < p.2 := hchosen p List.mem_cons_self
    refine ⟨chosen p.1 + p.2 * n, ?_, fun d hd => ?_⟩
    · have hle := Nat.mul_le_mul_left p.2 hn
      rw [Nat.mul_succ] at hle
      rw [List.map_cons, List.prod_cons]
      omega
    · rw [digit_cons_add_mul hlow]
      obtain rfl | hd := List.mem_cons.1 hd
      · rw [if_pos rfl]
      · rw [if_neg (by rintro rfl; exact hp hd), hdigits d hd]

/-- **Digits tell numbers apart.** -/
theorem eq_of_digit (hdistinct : (ps.map Prod.fst).Nodup) (hn : n < (ps.map Prod.snd).prod)
    (hm : m < (ps.map Prod.snd).prod)
    (h : ∀ d ∈ ps.map Prod.fst, digit d ps n = digit d ps m) : n = m := by
  induction ps generalizing n m with
  | nil =>
    rw [List.map_nil, List.prod_nil] at hn hm
    omega
  | cons p ps ih =>
    obtain ⟨hp, hdistinct⟩ := List.nodup_cons.1 hdistinct
    have hmod := h p.1 List.mem_cons_self
    rw [digit_cons_self, digit_cons_self] at hmod
    have hdiv : n / p.2 = m / p.2 := by
      refine ih hdistinct (Nat.div_lt_of_lt_mul hn) (Nat.div_lt_of_lt_mul hm) fun d hd => ?_
      rw [← digit_cons_of_mem hp hd, ← digit_cons_of_mem hp hd]
      exact h d (List.mem_cons_of_mem p.1 hd)
    rw [← Nat.div_add_mod n p.2, hdiv, hmod, Nat.div_add_mod]

/-- Two numbers compare as their quotients, and where these are equal as their
remainders. -/
theorem lt_iff_div_mod (n m radix : Nat) :
    n < m ↔ n / radix < m / radix ∨ n / radix = m / radix ∧ n % radix < m % radix := by
  have hn := Nat.div_add_mod n radix
  have hm := Nat.div_add_mod m radix
  rcases Nat.lt_trichotomy (n / radix) (m / radix) with h | h | h
  · exact iff_of_true (Nat.lt_of_div_lt_div h) (.inl h)
  · rw [h] at hn
    rw [h]
    omega
  · have := Nat.lt_of_div_lt_div h
    exact iff_of_false (by omega) (by omega)

/-- **Digits compare numbers**, the slowest of those that differ first. -/
theorem lt_iff_digit (hdistinct : (ps.map Prod.fst).Nodup) (hn : n < (ps.map Prod.snd).prod)
    (hm : m < (ps.map Prod.snd).prod) :
    n < m ↔ ∃ faster d slower, ps.map Prod.fst = faster ++ d :: slower
      ∧ digit d ps n < digit d ps m ∧ ∀ c ∈ slower, digit c ps n = digit c ps m := by
  induction ps generalizing n m with
  | nil =>
    rw [List.map_nil, List.prod_nil] at hn hm
    refine iff_of_false (by omega) ?_
    rintro ⟨faster, d, slower, hkeys, -⟩
    cases faster <;> cases hkeys
  | cons p ps ih =>
    obtain ⟨hp, hdistinct⟩ := List.nodup_cons.1 hdistinct
    have hn' := Nat.div_lt_of_lt_mul hn
    have hm' := Nat.div_lt_of_lt_mul hm
    rw [lt_iff_div_mod n m p.2, ih hdistinct hn' hm']
    constructor
    · rintro (⟨faster, d, slower, hkeys, hlt, heq⟩ | ⟨hdiv, hmod⟩)
      · have hmem : ∀ c ∈ d :: slower, c ∈ ps.map Prod.fst := fun c hc => by
          rw [hkeys]
          exact List.mem_append_right faster hc
        refine ⟨p.1 :: faster, d, slower, by rw [List.map_cons, hkeys, List.cons_append], ?_,
          fun c hc => ?_⟩
        · rwa [digit_cons_of_mem hp (hmem d List.mem_cons_self),
            digit_cons_of_mem hp (hmem d List.mem_cons_self)]
        · rw [digit_cons_of_mem hp (hmem c (List.mem_cons_of_mem d hc)),
            digit_cons_of_mem hp (hmem c (List.mem_cons_of_mem d hc)), heq c hc]
      · refine ⟨[], p.1, ps.map Prod.fst, rfl, ?_, fun c hc => ?_⟩
        · rwa [digit_cons_self, digit_cons_self]
        · rw [digit_cons_of_mem hp hc, digit_cons_of_mem hp hc, hdiv]
    · rintro ⟨faster, d, slower, hkeys, hlt, heq⟩
      rw [List.map_cons] at hkeys
      cases faster with
      | nil =>
        -- the first digit decides, so all the others are equal
        obtain ⟨rfl, rfl⟩ := List.cons.inj hkeys
        refine .inr ⟨eq_of_digit hdistinct hn' hm' fun c hc => ?_, ?_⟩
        · rw [← digit_cons_of_mem hp hc, ← digit_cons_of_mem hp hc]
          exact heq c hc
        · rwa [digit_cons_self, digit_cons_self] at hlt
      | cons q faster =>
        obtain ⟨-, hkeys⟩ := List.cons.inj hkeys
        have hmem : ∀ c ∈ d :: slower, c ∈ ps.map Prod.fst := fun c hc => by
          rw [hkeys]
          exact List.mem_append_right faster hc
        refine .inl ⟨faster, d, slower, hkeys, ?_, fun c hc => ?_⟩
        · rwa [digit_cons_of_mem hp (hmem d List.mem_cons_self),
            digit_cons_of_mem hp (hmem d List.mem_cons_self)] at hlt
        · rw [← digit_cons_of_mem hp (hmem c (List.mem_cons_of_mem d hc)),
            ← digit_cons_of_mem hp (hmem c (List.mem_cons_of_mem d hc))]
          exact heq c hc

end Digits

/-! ## Enlarging by digits -/

variable {full tile e : Extents} {t t' : Tiling} {s : TileSpace} {d : Dim}

/-- **Extents enlarged by the digits of a number**, as integers. -/
def enlarged : List (Dim × Nat) → Nat → Extents → Extents
  | [], _, e => e
  | (d, radix) :: ps, n, e => enlarged ps (n / radix) (e.set d (e.get d + (n % radix : Nat)))

/-- **Each extent is enlarged by its digit.** -/
theorem get_enlarged {ps : List (Dim × Nat)} (hdistinct : (ps.map Prod.fst).Nodup) (n : Nat)
    (e : Extents) (d : Dim) : (enlarged ps n e).get d = e.get d + digit d ps n := by
  induction ps generalizing n e with
  | nil => exact (Int.add_zero _).symm
  | cons p ps ih =>
    obtain ⟨hp, hdistinct⟩ := List.nodup_cons.1 hdistinct
    rw [enlarged, ih hdistinct, Extents.get_set]
    by_cases hpd : p.1 = d
    · subst hpd
      rw [if_pos rfl, digit_cons_self, digit_of_notMem hp, Int.natCast_zero, Int.add_zero]
    · rw [if_neg hpd, digit_cons_of_ne hpd]

/-- Enlarging extents leaves the other numbers. -/
theorem field_enlarged {ps : List (Dim × Nat)} {f : Field} (hf : ∀ p ∈ ps, p.1.field ≠ f)
    (n : Nat) (e : Extents) : (enlarged ps n e).field f = e.field f := by
  induction ps generalizing n e with
  | nil => rfl
  | cons p ps ih =>
    rw [enlarged, ih fun q hq => hf q (List.mem_cons_of_mem p hq), Extents.set,
      Extents.field_setField, if_neg (hf p List.mem_cons_self)]

/-- **Enlarging extents has an answer** if the tile and the layer are in words and
each radix leaves room for its digits. -/
theorem enlarge_eq_ok {ps : List (Dim × Nat)} (hdistinct : (ps.map Prod.fst).Nodup)
    (hroom : ∀ p ∈ ps, 1 ≤ p.2 ∧ e.get p.1 + p.2 ≤ full.get p.1 + 1) (hfull : full.InWords)
    (he : e.InWords) (n : Nat) : enlarge ps n e = .ok (enlarged ps n e) := by
  induction ps generalizing n e with
  | nil => rfl
  | cons p ps ih =>
    obtain ⟨hp, hdistinct⟩ := List.nodup_cons.1 hdistinct
    obtain ⟨hradix, hle⟩ := hroom p List.mem_cons_self
    have hdigit : n % p.2 < p.2 := Nat.mod_lt _ hradix
    have hlow : Signed.Fits (e.get p.1) := he.fits p.1.field
    have hhigh : Signed.Fits (full.get p.1) := hfull.fits p.1.field
    have hword : Signed.Fits (e.get p.1 + (n % p.2 : Nat)) := by
      unfold Signed.Fits at hlow hhigh
      constructor <;> omega
    have hset : (e.set p.1 (e.get p.1 + (n % p.2 : Nat))).InWords := fun f _ => by
      rw [Extents.set, Extents.field_setField]
      split
      · exact hword
      · exact he.fits f
    have hrest := room_set (n := e.get p.1 + (n % p.2 : Nat)) hp fun q hq =>
      hroom q (List.mem_cons_of_mem p hq)
    exact bind_eq_ok_iff.2 ⟨_, Signed.add_eq_ok_iff.2 ⟨rfl, hword⟩, ih hdistinct hrest hset _⟩

/-! ## The tile of a number -/

/-- The extents that a search can enlarge, each with its room. -/
def rooms (t : Tiling) : List (Dim × Nat) := freeDims.map fun d => (d, room t d)

/-- **The tile of a number**, before its input is derived. -/
def tileOf (t : Tiling) (number : Nat) : Extents := enlarged (rooms t) (number - 1) t.tile

theorem nodup_rooms (t : Tiling) : ((rooms t).map Prod.fst).Nodup := by
  show (freeDims.map id).Nodup
  decide

theorem get_tileOf (t : Tiling) (number : Nat) (d : Dim) :
    (tileOf t number).get d = t.tile.get d + digit d (rooms t) (number - 1) :=
  get_enlarged (nodup_rooms t) (number - 1) t.tile d

/-- **A tile with the input that it needs**, within the layer, whether or not the
tile has an output. -/
def supplied (full tile : Extents) : Extents :=
  { tile with
    inputWidth :=
      min (neededInput tile.outputWidth tile.kernelWidth full.stride) full.inputWidth
    inputHeight :=
      min (neededInput tile.outputHeight tile.kernelHeight full.stride) full.inputHeight }

/-- The input of a tile is derived exactly where it can be computed. -/
theorem withInput_eq_ok_iff (hwidth : Signed.Fits tile.outputWidth)
    (hheight : Signed.Fits tile.outputHeight) : withInput full tile = .ok e ↔
      e = supplied full tile ∧ InputInWords tile.outputWidth tile.kernelWidth full.stride
        ∧ InputInWords tile.outputHeight tile.kernelHeight full.stride := by
  simp only [withInput, bind_eq_ok_iff, pure_eq_ok_iff,
    tileInputLength_eq_ok_iff_neededInput hwidth, tileInputLength_eq_ok_iff_neededInput hheight]
  constructor
  · rintro ⟨_, ⟨rfl, hw⟩, _, ⟨rfl, hh⟩, rfl⟩
    exact ⟨rfl, hw, hh⟩
  · rintro ⟨rfl, hw, hh⟩
    exact ⟨_, ⟨rfl, hw⟩, _, ⟨rfl, hh⟩, rfl⟩

/-- **The tiling of a number** is the seed with the tile of the number and the
input that this one needs, and has an answer exactly where that input can be
computed. -/
theorem tilingAt_eq_ok_iff (hfull : t.full.InWords) (htile : t.tile.InWords)
    (hle : ∀ d ∈ freeDims, t.tile.get d ≤ t.full.get d) (hspace : TileSpace.of t = .ok s)
    {number : Nat} (hnumber : 1 ≤ number) :
    s.tilingAt number = .ok t' ↔
      t' = { t with tile := supplied t.full (tileOf t number) }
        ∧ InputInWords (tileOf t number).outputWidth (tileOf t number).kernelWidth t.full.stride
        ∧ InputInWords (tileOf t number).outputHeight (tileOf t number).kernelHeight
          t.full.stride := by
  obtain ⟨rfl, -⟩ := of_eq_ok_iff.1 hspace
  have hroom : ∀ p ∈ rooms t, 1 ≤ p.2 ∧ t.tile.get p.1 + p.2 ≤ t.full.get p.1 + 1 := by
    intro p hp
    obtain ⟨d, hd, rfl⟩ := List.mem_map.1 hp
    exact ⟨one_le_room t d, Int.le_of_eq (get_add_room (hle d hd))⟩
  have henlarge : enlarge (freeDims.zip (freeDims.map (room t))) (number - 1) t.tile
      = .ok (tileOf t number) := by
    rw [zip_radices (s := ⟨t, freeDims.map (room t)⟩) rfl]
    exact enlarge_eq_ok (nodup_rooms t) hroom hfull htile _
  have hword : ∀ d ∈ freeDims, Signed.Fits ((tileOf t number).get d) := by
    intro d hd
    have hdigit : digit d (rooms t) (number - 1) < room t d :=
      digit_lt (nodup_rooms t) (fun p hp => (hroom p hp).1) (List.mem_map_of_mem hd)
    have hlow : Signed.Fits (t.tile.get d) := htile.fits d.field
    have hhigh : Signed.Fits (t.full.get d) := hfull.fits d.field
    have hsum := get_add_room (hle d hd)
    unfold Signed.Fits at hlow hhigh
    rw [get_tileOf]
    constructor <;> omega
  have hinput : ∀ e, withInput t.full (tileOf t number) = .ok e ↔
      e = supplied t.full (tileOf t number)
        ∧ InputInWords (tileOf t number).outputWidth (tileOf t number).kernelWidth t.full.stride
        ∧ InputInWords (tileOf t number).outputHeight (tileOf t number).kernelHeight
          t.full.stride := fun e =>
    withInput_eq_ok_iff (hword .outputWidth (by decide)) (hword .outputHeight (by decide))
  simp only [tilingAt, bind_eq_ok_iff, pure_eq_ok_iff, Count.sub_eq_ok_iff]
  constructor
  · rintro ⟨_, ⟨-, rfl⟩, tile, htile, tile', htile', rfl⟩
    obtain rfl := Except.ok.inj (henlarge.symm.trans htile)
    obtain ⟨rfl, hwords⟩ := (hinput tile').1 htile'
    exact ⟨rfl, hwords⟩
  · rintro ⟨rfl, hwords⟩
    exact ⟨_, ⟨hnumber, rfl⟩, _, henlarge, _, (hinput _).2 ⟨rfl, hwords⟩, rfl⟩

end TileSpace

/-! ## The numbering -/

namespace Tiling

/-- **The extents that a tile can be enlarged to**: each of the free ones is
between that of the tile and that of the layer. -/
def Reaches (t : Tiling) (p : Dim → Int) : Prop :=
  ∀ d ∈ freeDims, t.tile.get d ≤ p d ∧ p d ≤ t.full.get d

/-- **A numbering of the tiles that can be reached** from a tiling, from `1` to
their total. Every choice of extents that can be reached has exactly one number;
of two numbers the smaller one has the smaller extent at the slowest of the
extents in which the two differ; and only those extents change. -/
structure Numbering (t : Tiling) (total : Nat) (tileOf : Nat → Extents) : Prop where
  reaches : ∀ i, 1 ≤ i → i ≤ total → t.Reaches (tileOf i).get
  existsUnique : ∀ p, t.Reaches p →
    ∃! i, (1 ≤ i ∧ i ≤ total) ∧ ∀ d ∈ freeDims, (tileOf i).get d = p d
  lt_iff : ∀ i j, 1 ≤ i → i ≤ total → 1 ≤ j → j ≤ total →
    (i < j ↔ ∃ faster d slower, freeDims = faster ++ d :: slower
      ∧ (tileOf i).get d < (tileOf j).get d
      ∧ ∀ c ∈ slower, (tileOf i).get c = (tileOf j).get c)
  first : ∀ d ∈ freeDims, (tileOf 1).get d = t.tile.get d
  last : ∀ d ∈ freeDims, (tileOf total).get d = t.full.get d
  others : ∀ i f, (∀ d ∈ freeDims, d.field ≠ f) → (tileOf i).field f = t.tile.field f

end Tiling

namespace TileSpace

variable {t : Tiling}

/-- The number of tiles of a box is the product of its sides. -/
theorem cast_prod_room (hle : ∀ d ∈ freeDims, t.tile.get d ≤ t.full.get d) :
    ((freeDims.map (room t)).prod : Int)
      = (freeDims.map fun d => t.full.get d - t.tile.get d + 1).prod := by
  rw [Nat.cast_list_prod, List.map_map]
  refine congrArg List.prod (List.map_congr_left fun d hd => ?_)
  have := get_add_room (hle d hd)
  show (room t d : Int) = _
  omega

/-- **The tiles of the numbers are a numbering** of those that can be reached. -/
theorem numbering_tileOf (hle : ∀ d ∈ freeDims, t.tile.get d ≤ t.full.get d) :
    t.Numbering (freeDims.map (room t)).prod (tileOf t) := by
  have hpos : ∀ p ∈ rooms t, 1 ≤ p.2 := by
    intro p hp
    obtain ⟨d, -, rfl⟩ := List.mem_map.1 hp
    exact one_le_room t d
  have hmem : ∀ d ∈ freeDims, (d, room t d) ∈ rooms t := fun d hd => List.mem_map_of_mem hd
  have hbelow : ∀ {i}, 1 ≤ i → i ≤ (freeDims.map (room t)).prod →
      i - 1 < ((rooms t).map Prod.snd).prod := by
    intro i hi htotal
    show i - 1 < (freeDims.map (room t)).prod
    omega
  constructor
  case reaches =>
    intro i hi htotal d hd
    have hdigit : digit d (rooms t) (i - 1) < room t d :=
      digit_lt (nodup_rooms t) hpos (hmem d hd)
    have hsum := get_add_room (hle d hd)
    rw [get_tileOf]
    omega
  case existsUnique =>
    intro p hp
    have hchosen : ∀ q ∈ rooms t, (p q.1 - t.tile.get q.1).toNat < q.2 := by
      intro q hq
      obtain ⟨d, hd, rfl⟩ := List.mem_map.1 hq
      have hsum := get_add_room (hle d hd)
      obtain ⟨hlow, hhigh⟩ := hp d hd
      show (p d - t.tile.get d).toNat < room t d
      omega
    obtain ⟨n, hn, hdigits⟩ := exists_digit (fun d => (p d - t.tile.get d).toNat)
      (nodup_rooms t) hchosen
    refine ⟨n + 1, ⟨⟨Nat.le_add_left 1 n, hn⟩, fun d hd => ?_⟩, ?_⟩
    · rw [get_tileOf, Nat.add_sub_cancel, hdigits d hd]
      have := (hp d hd).1
      omega
    · rintro i ⟨⟨hi, htotal⟩, hget⟩
      have hsame : i - 1 = n := by
        refine eq_of_digit (nodup_rooms t) (hbelow hi htotal) hn fun d hd => ?_
        have hgetd := hget d hd
        rw [get_tileOf] at hgetd
        rw [hdigits d hd]
        omega
      omega
  case lt_iff =>
    intro i j hi hitotal hj hjtotal
    have hlt := lt_iff_digit (nodup_rooms t) (hbelow hi hitotal) (hbelow hj hjtotal)
    rw [show i < j ↔ i - 1 < j - 1 by omega, hlt]
    simp only [get_tileOf, add_lt_add_iff_left, add_right_inj, Nat.cast_lt, Nat.cast_inj]
    rfl
  case first =>
    intro d _
    rw [get_tileOf, Nat.sub_self, digit_zero, Int.natCast_zero, Int.add_zero]
  case last =>
    intro d hd
    have hdigit : digit d (rooms t) ((freeDims.map (room t)).prod - 1) = room t d - 1 :=
      digit_last (nodup_rooms t) hpos (hmem d hd)
    have hsum := get_add_room (hle d hd)
    have hone := one_le_room t d
    rw [get_tileOf, hdigit]
    omega
  case others =>
    intro i f hf
    refine field_enlarged (fun p hp => ?_) _ _
    obtain ⟨d, hd, rfl⟩ := List.mem_map.1 hp
    exact hf d hd

/-- **The tiles of a space are numbered exactly**, for every tiling in words of which
no free extent of the tile is beyond the layer. The space can be formed if the
number of values of each extent is a word, and its total is the product of these
numbers, if that is a count. Then the numbers from `1` to the total are a numbering
of the tiles that can be reached, and the tiling of a number is the seed with the
tile of the number and the input that it needs, as long as that can be computed. -/
theorem exact_numbering (t : Tiling) (hfull : t.full.InWords) (htile : t.tile.InWords)
    (hle : ∀ d ∈ freeDims, t.tile.get d ≤ t.full.get d) :
    (Answers (TileSpace.of t)
        ↔ ∀ d ∈ freeDims, Signed.Fits (t.full.get d - t.tile.get d + 1))
      ∧ ∀ s, TileSpace.of t = .ok s →
        (∀ total, s.total = .ok total ↔
          (total : Int) = (freeDims.map fun d => t.full.get d - t.tile.get d + 1).prod
            ∧ Count.Fits total)
        ∧ ∀ total, s.total = .ok total → t.Numbering total (tileOf t)
          ∧ ∀ i, 1 ≤ i → i ≤ total → ∀ t', s.tilingAt i = .ok t' ↔
            t' = { t with tile := supplied t.full (tileOf t i) }
              ∧ InputInWords (tileOf t i).outputWidth (tileOf t i).kernelWidth t.full.stride
              ∧ InputInWords (tileOf t i).outputHeight (tileOf t i).kernelHeight
                t.full.stride := by
  refine ⟨?_, fun s hs => ?_⟩
  · constructor
    · rintro ⟨s, hs⟩ d hd
      exact ((of_eq_ok_iff.1 hs).2 d hd).2
    · intro h
      refine ⟨_, of_eq_ok_iff.2 ⟨rfl, fun d hd => ⟨?_, h d hd⟩⟩⟩
      have hroom := h d hd
      have hnonneg := hle d hd
      unfold Signed.Fits at *
      omega
  · obtain ⟨rfl, -⟩ := of_eq_ok_iff.1 hs
    have htotal := fun n => TileSpace.total_eq_ok_iff (s := ⟨t, freeDims.map (room t)⟩)
      (n := n) rfl
    refine ⟨fun n => ?_, fun n hn => ?_⟩
    · rw [htotal, ← cast_prod_room hle, Int.natCast_inj]
    · obtain ⟨rfl, -⟩ := (htotal n).1 hn
      exact ⟨numbering_tileOf hle, fun i hi _ t' =>
        tilingAt_eq_ok_iff hfull htile hle hs hi⟩

/-- The space of a layer of six by six places from a tile of three by four places
of output under a kernel of two by one has `36` tiles, and the last one is the
layer. -/
theorem exact_numbering_sixBySix :
    let full : Extents := ⟨1, 0, 0, 6, 6, 4, 3, 3, 4, 4, 4⟩
    let t : Tiling := ⟨full, ⟨1, 0, 0, 6, 6, 4, 2, 1, 3, 4, 2⟩, full⟩
    (t.full.InWords ∧ t.tile.InWords ∧ ∀ d ∈ freeDims, t.tile.get d ≤ t.full.get d)
      ∧ ∃ s, TileSpace.of t = .ok s ∧ s.total = .ok 36 ∧ t.Numbering 36 (tileOf t)
        ∧ s.tilingAt 36 = .ok (.untiled full) := by
  intro full t
  have hfull : t.full.InWords := by decide
  have htile : t.tile.InWords := by decide
  have hle : ∀ d ∈ freeDims, t.tile.get d ≤ t.full.get d := by decide
  obtain ⟨hspace, hrest⟩ := exact_numbering t hfull htile hle
  obtain ⟨s, hs⟩ := hspace.2 (by decide)
  obtain ⟨htotal, htiles⟩ := hrest s hs
  have h36 : s.total = .ok 36 := (htotal 36).2 ⟨by decide, by decide⟩
  obtain ⟨hnumbering, hat⟩ := htiles 36 h36
  exact ⟨⟨hfull, htile, hle⟩, s, hs, h36, hnumbering,
    (hat 36 (by decide) (by decide) _).2 ⟨by decide, by decide, by decide⟩⟩

/-- **Where the input is no window, or a number no word.** A tile without output is
given the kernel of input, whereas the window under no place of output is shorter
by the stride. Under a large enough stride the input of a valid tile cannot be
computed, although it would be cut to the layer. And an extent that is `0` can have
more values than a word holds, although as a count they would fit. -/
theorem exact_numbering_limits :
    (let e : Extents := ⟨1, 0, 0, 1, 1, 1, 1, 1, 0, 1, 1⟩
      ∃ s t, TileSpace.of (.untiled e) = .ok s ∧ s.total = .ok 1 ∧ s.tilingAt 1 = .ok t
        ∧ t.tile.outputWidth = 0 ∧ t.tile.inputWidth = 1
        ∧ min (window t.tile.outputWidth t.tile.kernelWidth e.stride) e.inputWidth = 0)
      ∧ (let e : Extents := ⟨9223372036854775807, 0, 0, 1, 1, 1, 1, 1, 2, 1, 1⟩
        (Tiling.untiled e).Valid ∧ ∃ s, TileSpace.of (.untiled e) = .ok s ∧ s.total = .ok 1
          ∧ s.tilingAt 1 = .error .sumOverflow
          ∧ min (window e.outputWidth e.kernelWidth e.stride) e.inputWidth = 1)
      ∧ (let e : Extents := ⟨1, 0, 0, 1, 1, 9223372036854775807, 1, 1, 1, 1, 1⟩
        TileSpace.of ⟨e, { e with inputChannel := 0 }, e⟩ = .error .sumOverflow
          ∧ (e.inputChannel - 0 + 1 : Int) = 9223372036854775808
          ∧ Count.Fits 9223372036854775808) :=
  ⟨⟨_, _, rfl, rfl, rfl, rfl, rfl, rfl⟩, ⟨by decide, _, rfl, rfl, rfl, rfl⟩, rfl, rfl, by decide⟩

end TileSpace

end ConvTiling
