import ConvTiling.Arith.Checked

/-!
# Common divisors and rounded-up quotients

Two divisions shape a tiling. A length of the processing array is shared
out in *common divisors*, so that a share divides both the array and the
tile it works on; and a layer is covered by *rounded-up quotients*, the last
tile of a row being allowed to hang over the edge.
-/

namespace ConvTiling.Signed

/-- **Euclid's algorithm.** As long as the second number is not `0`, the
second one takes the place of the first, and the remainder that of the
second. -/
def euclid (m n : Nat) : Nat :=
  if n = 0 then m else euclid n (m % n)
termination_by n
decreasing_by
  rename_i h
  exact Nat.mod_lt m (Nat.pos_of_ne_zero h)

/-- **What divides both numbers** divides what is left at the end, and nothing
else does: a step keeps the divisors that the two numbers have in common. -/
theorem dvd_euclid_iff {m n c : Nat} : c ∣ euclid m n ↔ c ∣ m ∧ c ∣ n := by
  fun_induction euclid m n with
  | case1 m => exact (and_iff_left (Nat.dvd_zero c)).symm
  | case2 m n hn ih =>
    rw [ih, and_comm, and_congr_left_iff]
    exact fun hc => Nat.dvd_mod_iff hc

/-- What is left at the end is the greatest common divisor. -/
theorem euclid_eq_gcd (m n : Nat) : euclid m n = m.gcd n := by
  have hdvd := dvd_euclid_iff.1 (Nat.dvd_refl (euclid m n))
  refine Nat.dvd_antisymm (Nat.dvd_gcd hdvd.1 hdvd.2) (dvd_euclid_iff.2 ?_)
  exact ⟨Nat.gcd_dvd_left m n, Nat.gcd_dvd_right m n⟩

/-- What is left at the end is at most the larger of the two numbers. -/
theorem euclid_le_max (m n : Nat) : euclid m n ≤ max m n := by
  fun_induction euclid m n with
  | case1 m => exact Nat.le_max_left m 0
  | case2 m n hn ih =>
    have hrest := Nat.mod_lt m (Nat.pos_of_ne_zero hn)
    omega

/-- The greatest common divisor of two words, found on their magnitudes.
It is `0` only for two zeros. -/
def gcd (a b : Int) : Checked Nat := do
  let m ← magnitude a
  let n ← magnitude b
  return euclid m n

/-- **How many tiles of length `tile` cover `full`**: the quotient rounded
up, where both are positive. The sum that rounds it up is a word like any
other and can be too large to be one. -/
def ceilDiv (full tile : Int) : Checked Int := do
  let sum ← add full tile
  let last ← sub sum 1
  div last tile

/-- The common divisor, where both words have a magnitude. -/
theorem gcd_eq_ok_iff {a b : Int} {g : Nat} :
    gcd a b = .ok g ↔
      g = a.natAbs.gcd b.natAbs ∧ (a < 0 → Fits (-a)) ∧ (b < 0 → Fits (-b)) := by
  simp only [gcd, Checked.bind_eq_ok_iff, magnitude_eq_ok_iff, euclid_eq_gcd, pure,
    Except.pure, Except.ok.injEq]
  constructor
  · rintro ⟨m, ⟨rfl, ha⟩, n, ⟨rfl, hb⟩, rfl⟩
    exact ⟨rfl, ha, hb⟩
  · rintro ⟨rfl, ha, hb⟩
    exact ⟨_, ⟨rfl, ha⟩, _, ⟨rfl, hb⟩, rfl⟩

/-- The rounded-up quotient, where every step of it is a word. -/
theorem ceilDiv_eq_ok_iff {full tile q : Int} :
    ceilDiv full tile = .ok q ↔
      q = (full + tile - 1).tdiv tile ∧ tile ≠ 0 ∧ Fits (full + tile)
        ∧ Fits (full + tile - 1) ∧ Fits q := by
  simp only [ceilDiv, Checked.bind_eq_ok_iff, add_eq_ok_iff, sub_eq_ok_iff,
    div_eq_ok_iff]
  constructor
  · rintro ⟨s, ⟨rfl, hs⟩, l, ⟨rfl, hl⟩, ht, rfl, hq⟩
    exact ⟨rfl, ht, hs, hl, hq⟩
  · rintro ⟨rfl, ht, hs, hl, hq⟩
    exact ⟨_, ⟨rfl, hs⟩, _, ⟨rfl, hl⟩, ht, rfl, hq⟩

end ConvTiling.Signed
