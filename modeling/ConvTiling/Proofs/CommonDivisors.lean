import ConvTiling.Arith.Division
import ConvTiling.Proofs.Answers

/-!
# The greatest common divisor of two words

An extent takes the greatest share that divides both its tile and what is left of a side,
and it counts on both divisions being exact. That is what the common divisor of two words
is for, and what is stated of it here: it divides both, whatever divides both divides it,
and what two positive words are divided into by it has no divisor in common any more
(`Signed.gcd_quotients`).

The divisor is found on the magnitudes, so the signs do not matter, and neither does the
order of the words. The magnitudes are also the only thing that can be missing: the least
word has none, and every other word has one (`Signed.magnitude_eq_ok`). Euclid's algorithm
itself ends on all magnitudes, since the second number gets smaller in every step, and what
it keeps in every step is which numbers divide both (`Signed.dvd_euclid_iff`).
-/

namespace ConvTiling.Signed

variable {a b : Int} {g : Nat}

/-- Every word but the least one has a magnitude. -/
theorem magnitude_eq_ok (ha : Fits a) (hne : a ≠ -9223372036854775808) :
    magnitude a = .ok a.natAbs := by
  refine magnitude_eq_ok_iff.2 ⟨rfl, fun hneg => ?_⟩
  unfold Fits at *
  omega

/-- Two words have a common divisor if neither is the least one. -/
theorem gcd_eq_ok (ha : Fits a) (hb : Fits b) (hane : a ≠ -9223372036854775808)
    (hbne : b ≠ -9223372036854775808) : gcd a b = .ok (euclid a.natAbs b.natAbs) := by
  rw [gcd, magnitude_eq_ok ha hane, magnitude_eq_ok hb hbne]
  rfl

/-- **The least word has no common divisor** with anything. -/
theorem gcd_of_least (ha : Fits a) (h : a = -9223372036854775808 ∨ b = -9223372036854775808) :
    gcd a b = .error .negationOverflow := by
  have hleast : magnitude (-9223372036854775808) = .error .negationOverflow := rfl
  by_cases hane : a = -9223372036854775808
  · rw [gcd, hane, hleast]
    rfl
  · rw [gcd, magnitude_eq_ok ha hane, h.resolve_left hane, hleast]
    rfl

/-- What divides two integers is what divides the common divisor of their magnitudes. -/
theorem dvd_euclid_natAbs_iff {c : Int} :
    c ∣ (euclid a.natAbs b.natAbs : Int) ↔ c ∣ a ∧ c ∣ b := by
  rw [Int.ofNat_dvd_right, dvd_euclid_iff, Int.natAbs_dvd_natAbs, Int.natAbs_dvd_natAbs]

/-- The common divisor of two words is a word. -/
theorem fits_euclid_natAbs (ha : Fits a) (hb : Fits b) (hane : a ≠ -9223372036854775808)
    (hbne : b ≠ -9223372036854775808) : Fits (euclid a.natAbs b.natAbs) := by
  have hle := euclid_le_max a.natAbs b.natAbs
  unfold Fits at *
  omega

/-- A quotient of natural numbers is a word if what is divided is one. -/
theorem div_natCast_eq_ok {m d : Nat} (hm : Fits m) (hd : 0 < d) :
    div m d = .ok ((m / d : Nat) : Int) := by
  have hle : ((m / d : Nat) : Int) ≤ m := Int.ofNat_le.2 (Nat.div_le_self m d)
  refine div_eq_ok_iff.2 ⟨by omega, Int.ofNat_tdiv m d, ?_⟩
  exact hm.of_le (Int.natCast_nonneg _) hle

/-- **What two positive words are divided into** by their common divisor is coprime. -/
theorem gcd_quotients (ha : 1 ≤ a) (hb : 1 ≤ b) (hfa : Fits a) (hfb : Fits b)
    (run : gcd a b = .ok g) :
    1 ≤ g ∧ (g : Int) ≤ min a b
      ∧ ∃ x y, div a g = .ok x ∧ div b g = .ok y ∧ gcd x y = .ok 1 := by
  obtain ⟨rfl, -, -⟩ := gcd_eq_ok_iff.1 run
  obtain ⟨m, rfl⟩ := Int.eq_ofNat_of_zero_le (Int.le_trans (by decide) ha)
  obtain ⟨n, rfl⟩ := Int.eq_ofNat_of_zero_le (Int.le_trans (by decide) hb)
  rw [Int.natAbs_natCast, Int.natAbs_natCast]
  have hm : 0 < m := by omega
  have hn : 0 < n := by omega
  have hpos : 0 < m.gcd n := Nat.gcd_pos_of_pos_left n hm
  have hle : m.gcd n ≤ min m n := Nat.le_min.2 ⟨Nat.gcd_le_left n hm, Nat.gcd_le_right m hn⟩
  have hcoprime : (m / m.gcd n).gcd (n / m.gcd n) = 1 :=
    Nat.gcd_div_gcd_div_gcd_of_pos_left hm
  refine ⟨hpos, by omega, _, _, div_natCast_eq_ok hfa hpos, div_natCast_eq_ok hfb hpos, ?_⟩
  refine gcd_eq_ok_iff.2 ⟨hcoprime.symm, fun hneg => ?_, fun hneg => ?_⟩
  · exact absurd hneg (Int.not_lt.2 (Int.natCast_nonneg _))
  · exact absurd hneg (Int.not_lt.2 (Int.natCast_nonneg _))

/-- **The greatest common divisor of two words.** It does not depend on their order. The
least word has no magnitude, and so no common divisor with another one. Of any two other
words there is one, a word again: it divides both, whatever divides both divides it, and
it is `0` only for two zeros. Of two positive words it is at least `1` and at most each of
them, and the quotients by it have no divisor in common but `1`. -/
theorem gcd_exact (ha : Fits a) (hb : Fits b) :
    gcd a b = gcd b a
      ∧ (a = -9223372036854775808 ∨ b = -9223372036854775808 →
        gcd a b = .error .negationOverflow)
      ∧ (a ≠ -9223372036854775808 → b ≠ -9223372036854775808 →
        ∃ g : Nat, gcd a b = .ok g ∧ Fits g
          ∧ ((g : Int) ∣ a ∧ (g : Int) ∣ b) ∧ (∀ c : Int, c ∣ a → c ∣ b → c ∣ (g : Int))
          ∧ (g = 0 ↔ a = 0 ∧ b = 0)
          ∧ (1 ≤ a → 1 ≤ b → 1 ≤ g ∧ (g : Int) ≤ min a b
            ∧ ∃ x y, div a g = .ok x ∧ div b g = .ok y ∧ gcd x y = .ok 1)) := by
  refine ⟨?_, gcd_of_least ha, fun hane hbne => ?_⟩
  · by_cases hleast : a = -9223372036854775808 ∨ b = -9223372036854775808
    · rw [gcd_of_least ha hleast, gcd_of_least hb hleast.symm]
    · obtain ⟨hane, hbne⟩ := not_or.1 hleast
      rw [gcd_eq_ok ha hb hane hbne, gcd_eq_ok hb ha hbne hane, euclid_eq_gcd, euclid_eq_gcd,
        Nat.gcd_comm]
  · have run := gcd_eq_ok ha hb hane hbne
    refine ⟨_, run, fits_euclid_natAbs ha hb hane hbne,
      dvd_euclid_natAbs_iff.1 (Int.dvd_refl _),
      fun c hca hcb => dvd_euclid_natAbs_iff.2 ⟨hca, hcb⟩, ?_,
      fun hpa hpb => gcd_quotients hpa hpb ha hb run⟩
    -- `0` is what only `0` divides
    rw [← Int.natCast_eq_zero, ← Int.zero_dvd, dvd_euclid_natAbs_iff, Int.zero_dvd, Int.zero_dvd]

/-- The greatest word and one that is half as long: they have `7` in common, and nothing
is left in common of the quotients. -/
theorem gcd_exact_greatestWord :
    let a := 9223372036854775807
    let b := 1073741823
    Fits a ∧ Fits b ∧ gcd b a = .ok 7 ∧ (∀ c : Int, c ∣ a → c ∣ b → c ∣ 7)
      ∧ ∃ x y, div a 7 = .ok x ∧ div b 7 = .ok y ∧ gcd x y = .ok 1 := by
  intro a b
  have ha : Fits a := by decide
  have hb : Fits b := by decide
  obtain ⟨hsymm, -, hgcd⟩ := gcd_exact ha hb
  obtain ⟨g, run, -, -, hgreatest, -, hquotients⟩ := hgcd (by decide) (by decide)
  obtain rfl : g = 7 := (gcd_eq_ok_iff.1 run).1.trans (by decide)
  exact ⟨ha, hb, hsymm ▸ run, hgreatest, (hquotients (by decide) (by decide)).2.2⟩

end ConvTiling.Signed
