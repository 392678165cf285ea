import Mathlib.Data.List.Sort
import Mathlib.Data.Nat.Factors
import Mathlib.Tactic.NormNum.Prime
import ConvTiling.Proofs.PrimeFactors

/-!
# Which words are factored

Trial division squares every divisor before it compares it, and the square has to be a
word. The largest number with such a square is `3037000499`, so the search has no answer
once it gets beyond that divisor with something left to divide. A word below its square
never gets there. A larger one does exactly if no prime below `3037000499` divides it: the
divisors are then all passed over up to the last one (`trialDivision_eq_error`), while a
smaller divisor that goes leaves at most half of the word, which is below the square
(`answers_trialDivision_of_dvd`).

A word that is factored is given its prime factorization (`IsFactorization`), of which
there is only one. That is the main statement, `primeFactors_exact`.
-/

namespace ConvTiling

open Checked (Answers)

/-- **The prime factorization of a number**: primes in ascending order whose product is
the number. -/
structure IsFactorization (ps : List Nat) (n : Int) : Prop where
  prime : ∀ p ∈ ps, p.Prime
  ascending : ps.Pairwise (· ≤ ·)
  prod : (ps.prod : Int) = n

/-- **There is one prime factorization** of a number. -/
theorem IsFactorization.unique {ps qs : List Nat} {n : Int} (hps : IsFactorization ps n)
    (hqs : IsFactorization qs n) : ps = qs := by
  have hprod : ps.prod = qs.prod := Int.ofNat_inj.1 (hps.prod.trans hqs.prod.symm)
  have hperm : ps.Perm qs :=
    (Nat.primeFactorsList_unique hprod hps.prime).trans
      (Nat.primeFactorsList_unique rfl hqs.prime).symm
  exact hperm.eq_of_pairwise' hps.ascending hqs.ascending

/-- What is found of a positive word is its prime factorization. -/
theorem isFactorization_of_primeFactors {n : Int} {ps : List Nat} (hn : 1 ≤ n)
    (run : primeFactors n = .ok ps) : IsFactorization ps n where
  prime := prime_of_mem_primeFactors run
  ascending := pairwise_of_primeFactors run
  prod := prod_of_primeFactors hn run

/-! ## Where the square of a divisor is no word -/

/-- A divisor beyond `3037000499` cannot be tried. -/
theorem trialDivision_of_lt {d : Nat} (hd : 3037000499 < d) (n : Nat) (found : List Nat) :
    trialDivision d n found = .error .productOverflow := by
  have hsquare : 3037000500 * 3037000500 ≤ d * d := Nat.mul_le_mul hd hd
  rw [trialDivision, if_neg (by omega)]

/-- **Without a prime below `3037000499`** every divisor up to that one is tried, and after
it there is none that can be. -/
theorem trialDivision_eq_error {d n : Nat} {found : List Nat} (hd : 2 ≤ d)
    (hdle : d ≤ 3037000499) (hn : 3037000499 * 3037000499 ≤ n)
    (hleast : ∀ p : Nat, p.Prime → p ∣ n → 3037000499 ≤ p) :
    trialDivision d n found = .error .productOverflow := by
  fun_induction trialDivision d n found with
  | case1 d n found hword hle hgo left ih =>
    -- the least prime of a divisor that goes is at most the divisor
    have hmin := hleast d.minFac (Nat.minFac_prime (by omega))
      ((Nat.minFac_dvd d).trans (Nat.dvd_of_mod_eq_zero hgo))
    have hmin_le := Nat.minFac_le (n := d) (by omega)
    exact trialDivision_of_lt (by omega) _ _
  | case2 d n found hword hle hgo ih =>
    by_cases hlast : d + 1 ≤ 3037000499
    · exact ih (by omega) hlast hn hleast
    · exact trialDivision_of_lt (by omega) _ _
  | case3 d n found hword hlt => exact absurd ((Nat.mul_le_mul hdle hdle).trans hn) hlt
  | case4 d n found hword => rfl

/-- **With a divisor below `3037000499`** the trial divisions of a word have an answer. -/
theorem answers_trialDivision_of_dvd {d n p : Nat} {found : List Nat} (hd : 2 ≤ d)
    (hn : n ≤ 9223372036854775807) (hp : p ∣ n) (hdp : d ≤ p) (hple : p < 3037000499) :
    Answers (trialDivision d n found) := by
  fun_induction trialDivision d n found with
  | case1 d n found hword hle hgo left ih =>
    -- at most half of the word is left, which is below the square of `3037000499`
    have hhalf : left.1 ≤ n / 2 := by
      have hpos : 0 < n := Nat.lt_of_lt_of_le (Nat.mul_pos (by omega) (by omega)) hle
      show (takeOut d n found).1 ≤ n / 2
      rw [takeOut, if_pos ⟨hd, hpos, hgo⟩]
      exact (takeOut_fst_le d _ _).trans (Nat.div_le_div_left hd (by decide))
    exact answers_trialDivision (by omega) (by omega)
  | case2 d n found hword hle hgo ih =>
    have hne : d ≠ p := by
      rintro rfl
      exact hgo (Nat.mod_eq_zero_of_dvd hp)
    exact ih (by omega) hn hp (by omega)
  | case3 d n found hword hlt => exact Checked.answers_ok _
  | case4 d n found hword =>
    have hdle : d ≤ 3037000499 := by omega
    exact absurd (Nat.mul_le_mul hdle hdle) (by omega)

/-! ## Words that are factored, and words that are not -/

/-- **A word below `2`** has no prime factors. -/
theorem primeFactors_of_le_one {n : Int} (hn : n ≤ 1) : primeFactors n = .ok [] := by
  rw [primeFactors, trialDivision, if_pos (by decide), if_neg (by omega), if_neg (by omega)]
  rfl

/-- **A positive word that is factored** is given its one prime factorization. -/
theorem exists_factorization {n : Int} (hn : 1 ≤ n) (h : Answers (primeFactors n)) :
    ∃ ps, primeFactors n = .ok ps ∧ IsFactorization ps n
      ∧ ∀ qs, IsFactorization qs n → qs = ps := by
  obtain ⟨ps, run⟩ := h
  have hps := isFactorization_of_primeFactors hn run
  exact ⟨ps, run, hps, fun qs hqs => hqs.unique hps⟩

/-- A word that a prime below `3037000499` divides is factored. -/
theorem answers_primeFactors_of_dvd {n : Int} {p : Nat} (hword : Signed.Fits n) (hn : 1 ≤ n)
    (hp : p.Prime) (hdvd : (p : Int) ∣ n) (hlt : p < 3037000499) : Answers (primeFactors n) := by
  obtain ⟨m, rfl⟩ := Int.eq_ofNat_of_zero_le (Int.le_trans (by decide) hn)
  have hm : m ≤ 9223372036854775807 := Int.ofNat_le.1 hword.2
  exact answers_trialDivision_of_dvd (Nat.le_refl 2) hm (Int.natCast_dvd_natCast.1 hdvd)
    hp.two_le hlt

/-- **A word is not factored** exactly if it is at least the square of `3037000499` and no
prime below that number divides it. -/
theorem primeFactors_eq_error_iff {n : Int} (hword : Signed.Fits n) :
    primeFactors n = .error .productOverflow ↔
      3037000499 ^ 2 ≤ n ∧ ∀ p : Nat, p.Prime → (p : Int) ∣ n → 3037000499 ≤ p := by
  constructor
  · intro hfault
    have hno : ¬ Answers (primeFactors n) := by
      rintro ⟨ps, run⟩
      rw [hfault] at run
      cases run
    have hlarge : 3037000499 ^ 2 ≤ n :=
      Int.not_lt.1 fun hlt => hno (answers_primeFactors (by omega))
    refine ⟨hlarge, fun p hp hdvd => Nat.not_lt.1 fun hlt => hno ?_⟩
    exact answers_primeFactors_of_dvd hword (by omega) hp hdvd hlt
  · rintro ⟨hlarge, hleast⟩
    obtain ⟨m, rfl⟩ := Int.eq_ofNat_of_zero_le (Int.le_trans (by decide) hlarge)
    refine trialDivision_eq_error (Nat.le_refl 2) (by decide) (by omega) fun p hp hdvd => ?_
    exact hleast p hp (Int.natCast_dvd_natCast.2 hdvd)

/-- **Which words are factored, and into what.** A word below `2` has no prime factors. One
from there to below the square of `3037000499` is factored. A larger one meets a square that
is no word exactly if no prime below `3037000499` divides it, and is factored otherwise.
What a word is factored into is always its prime factorization, in ascending order, and the
only one. -/
theorem primeFactors_exact {n : Int} (hword : Signed.Fits n) :
    (n ≤ 1 → primeFactors n = .ok [])
      ∧ (2 ≤ n → n < 3037000499 ^ 2 →
        ∃ ps, primeFactors n = .ok ps ∧ IsFactorization ps n
          ∧ ∀ qs, IsFactorization qs n → qs = ps)
      ∧ (3037000499 ^ 2 ≤ n →
        (primeFactors n = .error .productOverflow ↔
          ∀ p : Nat, p.Prime → (p : Int) ∣ n → 3037000499 ≤ p)
        ∧ ((∃ p : Nat, p.Prime ∧ (p : Int) ∣ n ∧ p < 3037000499) →
          ∃ ps, primeFactors n = .ok ps ∧ IsFactorization ps n
            ∧ ∀ qs, IsFactorization qs n → qs = ps)) := by
  refine ⟨primeFactors_of_le_one, fun hn hlt => ?_, fun hlarge => ⟨?_, ?_⟩⟩
  · exact exists_factorization (by omega) (answers_primeFactors (by omega))
  · rw [primeFactors_eq_error_iff hword, and_iff_right hlarge]
  · rintro ⟨p, hp, hdvd, hlt⟩
    exact exists_factorization (by omega)
      (answers_primeFactors_of_dvd hword (by omega) hp hdvd hlt)

/-- The greatest word is beyond the square of `3037000499`, and `7` divides it. -/
theorem primeFactors_exact_greatestWord :
    let n := 9223372036854775807
    Signed.Fits n ∧ 3037000499 ^ 2 ≤ n
      ∧ primeFactors n = .ok [7, 7, 73, 127, 337, 92737, 649657]
      ∧ IsFactorization [7, 7, 73, 127, 337, 92737, 649657] n := by
  intro n
  have hword : Signed.Fits n := by decide
  have hlarge : 3037000499 ^ 2 ≤ n := by decide
  have hfactors : IsFactorization [7, 7, 73, 127, 337, 92737, 649657] n := by
    refine ⟨?_, by decide, by decide⟩
    simp only [List.forall_mem_cons, List.not_mem_nil, false_imp_iff, implies_true]
    norm_num
  obtain ⟨-, -, hbeyond⟩ := primeFactors_exact hword
  obtain ⟨ps, run, -, hunique⟩ := (hbeyond hlarge).2 ⟨7, by norm_num, by decide, by decide⟩
  exact ⟨hword, hlarge, hunique _ hfactors ▸ run, hfactors⟩

end ConvTiling
