import Mathlib.Data.Nat.Prime.Basic
import Mathlib.Tactic.Linarith
import ConvTiling.Arith.Primes
import ConvTiling.Proofs.Answers

/-!
# What trial division finds

Every factor that is found is prime (`prime_of_mem_primeFactors`): when a divisor is
tried, no smaller prime divides what is left (`Trial`), so that a divisor which goes is
prime, and so is what remains below the square of the last one. Spending a factor thus
enlarges an unrolling and never empties it. The factors ascend
(`pairwise_of_primeFactors`), so one that is too large to be spent hides no smaller one.
They have the number as their product (`prod_of_primeFactors`), so one after the other
they can be divided out of it. And the search has an answer for every word below the
square of `3037000499`, the largest number whose square is a word: a divisor is tried
only after the square of the one before was at most what is left, so a divisor beyond
that number is never tried.
-/

namespace ConvTiling

open Checked (Answers)

/-! ## What a trial division keeps -/

/-- A divisor is prime if no smaller prime divides the number. -/
theorem prime_of_dvd {d n : Nat} (hd : 2 ≤ d) (hdvd : d ∣ n)
    (hleast : ∀ q : Nat, q.Prime → q ∣ n → d ≤ q) : d.Prime := by
  have hle := hleast _ (Nat.minFac_prime (by omega)) ((Nat.minFac_dvd d).trans hdvd)
  exact Nat.prime_def_minFac.2 ⟨hd, Nat.le_antisymm (Nat.minFac_le (by omega)) hle⟩

/-- A number below the square of a divisor is prime if no prime below the divisor
divides it. -/
theorem prime_of_lt_mul_self {d n : Nat} (hn : 1 < n) (hlt : n < d * d)
    (hleast : ∀ q : Nat, q.Prime → q ∣ n → d ≤ q) : n.Prime := by
  by_contra hcomposite
  have hle := hleast _ (Nat.minFac_prime (by omega)) (Nat.minFac_dvd n)
  have hsquare := Nat.minFac_sq_le_self (by omega) hcomposite
  rw [Nat.pow_two] at hsquare
  exact absurd (Nat.mul_le_mul hle hle) (by omega)

/-- What is left is no multiple of the divisor. -/
theorem not_dvd_takeOut_fst {d n : Nat} {found : List Nat} (hd : 2 ≤ d) (hn : 0 < n) :
    ¬ d ∣ (takeOut d n found).1 := by
  fun_induction takeOut d n found with
  | case1 n found hgo ih =>
    have hdvd : d ∣ n := Nat.dvd_of_mod_eq_zero hgo.2.2
    exact ih (Nat.div_pos (Nat.le_of_dvd hn hdvd) (by omega))
  | case2 n found hstop => exact fun hdvd => hstop ⟨hd, hn, Nat.mod_eq_zero_of_dvd hdvd⟩

/-- **The trial divisions before a divisor is tried**: no smaller prime divides what is
left, and the numbers found are primes up to the divisor, the latest and largest of them
first. -/
structure Trial (d n : Nat) (found : List Nat) : Prop where
  two_le : 2 ≤ d
  least : ∀ q : Nat, q.Prime → q ∣ n → d ≤ q
  prime : ∀ p ∈ found, p.Prime
  le : ∀ p ∈ found, p ≤ d
  descending : found.Pairwise (· ≥ ·)

namespace Trial

variable {d n : Nat} {found : List Nat}

/-- The trial divisions of a number begin with `2`. -/
theorem start (n : Nat) : Trial 2 n [] where
  two_le := Nat.le_refl 2
  least _ hq _ := hq.two_le
  prime := List.forall_mem_nil _
  le := List.forall_mem_nil _
  descending := .nil

/-- **A divisor that goes** is found once more. -/
theorem push (h : Trial d n found) (hdvd : d ∣ n) : Trial d (n / d) (d :: found) where
  two_le := h.two_le
  least q hq hleft := h.least q hq (hleft.trans (Nat.div_dvd_of_dvd hdvd))
  prime := List.forall_mem_cons.2 ⟨prime_of_dvd h.two_le hdvd h.least, h.prime⟩
  le := List.forall_mem_cons.2 ⟨Nat.le_refl d, h.le⟩
  descending := List.pairwise_cons.2 ⟨h.le, h.descending⟩

/-- A divisor is taken out as often as it goes. -/
theorem of_takeOut (h : Trial d n found) :
    Trial d (takeOut d n found).1 (takeOut d n found).2 := by
  fun_induction takeOut d n found with
  | case1 n found hgo ih => exact ih (h.push (Nat.dvd_of_mod_eq_zero hgo.2.2))
  | case2 n found hstop => exact h

/-- **A divisor that does not go** is passed over. -/
theorem next (h : Trial d n found) (hndvd : ¬ d ∣ n) : Trial (d + 1) n found where
  two_le := Nat.le_succ_of_le h.two_le
  least q hq hdvd := by
    have hne : d ≠ q := by
      rintro rfl
      exact hndvd hdvd
    exact Nat.lt_of_le_of_ne (h.least q hq hdvd) hne
  prime := h.prime
  le p hp := Nat.le_succ_of_le (h.le p hp)
  descending := h.descending

/-- **What is left at the end** is one last prime, the largest of all, unless it is `1`. -/
theorem last (h : Trial d n found) (hn : 1 < n) (hlt : n < d * d) :
    n.Prime ∧ ∀ p ∈ found, p ≤ n := by
  have hprime := prime_of_lt_mul_self hn hlt h.least
  exact ⟨hprime, fun p hp => (h.le p hp).trans (h.least n hprime (Nat.dvd_refl n))⟩

/-- **The trial divisions find primes**, the smallest first. -/
theorem sound {ps : List Nat} (h : Trial d n found) (run : trialDivision d n found = .ok ps) :
    (∀ p ∈ ps, p.Prime) ∧ ps.Pairwise (· ≤ ·) := by
  fun_induction trialDivision d n found with
  | case1 d n found hword hle hgo left ih =>
    have hd : 0 < d := Nat.lt_of_lt_of_le Nat.zero_lt_two h.two_le
    have hpos : 0 < n := Nat.lt_of_lt_of_le (Nat.mul_pos hd hd) hle
    exact ih (h.of_takeOut.next (not_dvd_takeOut_fst h.two_le hpos)) run
  | case2 d n found hword hle hgo ih =>
    exact ih (h.next fun hdvd => hgo (Nat.mod_eq_zero_of_dvd hdvd)) run
  | case3 d n found hword hlt =>
    obtain rfl := Except.ok.inj run
    rw [List.pairwise_reverse]
    simp only [List.mem_reverse]
    by_cases hn : 1 < n
    · obtain ⟨hprime, hlargest⟩ := h.last hn (Nat.lt_of_not_le hlt)
      rw [if_pos hn]
      exact ⟨List.forall_mem_cons.2 ⟨hprime, h.prime⟩,
        List.pairwise_cons.2 ⟨hlargest, h.descending⟩⟩
    · rw [if_neg hn]
      exact ⟨h.prime, h.descending⟩
  | case4 d n found hword => cases run

end Trial

/-! ## The factors -/

/-- **A prime factor is prime.** -/
theorem prime_of_mem_primeFactors {n : Int} {ps : List Nat}
    (run : primeFactors n = .ok ps) : ∀ p ∈ ps, p.Prime :=
  ((Trial.start n.toNat).sound run).1

/-- **The prime factors ascend.** -/
theorem pairwise_of_primeFactors {n : Int} {ps : List Nat} (run : primeFactors n = .ok ps) :
    ps.Pairwise (· ≤ ·) :=
  ((Trial.start n.toNat).sound run).2

/-- A prime factor is at least `2`. -/
theorem two_le_of_mem_primeFactors {n : Int} {ps : List Nat}
    (run : primeFactors n = .ok ps) : ∀ p ∈ ps, 2 ≤ p :=
  fun p hp => (prime_of_mem_primeFactors run p hp).two_le

/-- Taking a divisor out moves it from the number to what was found. -/
theorem prod_takeOut {d n : Nat} {found : List Nat} (hn : 0 < n) :
    (takeOut d n found).1 * (takeOut d n found).2.prod = n * found.prod
      ∧ 0 < (takeOut d n found).1 := by
  fun_induction takeOut d n found with
  | case1 n found hgo ih =>
    have hmul : n / d * d = n := Nat.div_mul_cancel (Nat.dvd_of_mod_eq_zero hgo.2.2)
    have hpos : 0 < n / d :=
      Nat.div_pos (Nat.le_of_dvd hn (Nat.dvd_of_mod_eq_zero hgo.2.2)) (by omega)
    obtain ⟨hprod, hleft⟩ := ih hpos
    rw [List.prod_cons, ← Nat.mul_assoc, hmul] at hprod
    exact ⟨hprod, hleft⟩
  | case2 n found hstop => exact ⟨rfl, hn⟩

/-- The trial divisions keep the product of what is left and what was found. -/
theorem prod_trialDivision {d n : Nat} {found ps : List Nat} (hn : 0 < n)
    (run : trialDivision d n found = .ok ps) : ps.prod = n * found.prod := by
  fun_induction trialDivision d n found with
  | case1 d n found hword hle hgo left ih =>
    obtain ⟨hprod, hleft⟩ := prod_takeOut hn
    exact (ih hleft run).trans hprod
  | case2 d n found hword hle hgo ih => exact ih hn run
  | case3 d n found hword hlt =>
    obtain rfl := Except.ok.inj run
    rw [List.prod_reverse]
    by_cases hone : 1 < n
    · rw [if_pos hone, List.prod_cons]
    · rw [if_neg hone, show n = 1 by omega, Nat.one_mul]
  | case4 d n found hword => cases run

/-- **The prime factors of a positive word** have it as their product. -/
theorem prod_of_primeFactors {n : Int} {ps : List Nat} (hn : 1 ≤ n)
    (run : primeFactors n = .ok ps) : (ps.prod : Int) = n := by
  rw [prod_trialDivision (by omega) run, List.prod_nil, Nat.mul_one,
    Int.toNat_of_nonneg (by omega)]

/-- The trial divisions of a number below the square of a divisor that can be
tried have an answer. -/
theorem answers_trialDivision {d n : Nat} {found : List Nat} (hd : d ≤ 3037000499)
    (hn : n < 3037000499 * 3037000499) : Answers (trialDivision d n found) := by
  -- a divisor whose square is at most `n` is smaller than `3037000499`, so the
  -- next one can be tried
  have hnext : ∀ d, d * d ≤ n → d + 1 ≤ 3037000499 := fun d hle => by nlinarith
  fun_induction trialDivision d n found with
  | case1 d n found hword hle hgo left ih =>
    have hleft : left.1 ≤ n := takeOut_fst_le d n found
    exact ih (hnext d hle) (by omega) fun c hc => hnext c (Nat.le_trans hc hleft)
  | case2 d n found hword hle hgo ih => exact ih (hnext d hle) hn hnext
  | case3 d n found hword hlt => exact Checked.answers_ok _
  | case4 d n found hword => exact absurd (Nat.mul_le_mul hd hd) (by omega)

/-- **Every word below the square of `3037000499` is factored.** -/
theorem answers_primeFactors {n : Int} (h : n < 3037000499 * 3037000499) :
    Answers (primeFactors n) :=
  answers_trialDivision (by decide) (by omega)

end ConvTiling
