import ConvTiling.Arith.Checked

/-!
# Prime factors by trial division

What is left of a length of the processing array after the common divisors
are handed out is spent prime by prime, smallest first. The primes are found
by trial division: divisors are tried in increasing order while their square
does not exceed what is left, every divisor that goes is taken out as often
as it goes, and what remains at the end, if anything, is one last prime.

The square of the divisor is itself a word, so the search has an answer only
as long as that square is one: a word whose least prime factor is too large
for its square to be a word is not factored (`Fault.productOverflow`).
-/

namespace ConvTiling

/-- **Takes the divisor `d` out of `n`** as often as it goes: what is left,
and `found` with the copies of `d` in front. A divisor below `2`, or an `n`
of `0`, is left alone, since it would go forever. -/
def takeOut (d n : Nat) (found : List Nat) : Nat × List Nat :=
  if 2 ≤ d ∧ 0 < n ∧ n % d = 0 then takeOut d (n / d) (d :: found)
  else (n, found)
termination_by n
decreasing_by
  rename_i h
  exact Nat.div_lt_self h.2.1 h.1

/-- Taking a divisor out does not enlarge the number. -/
theorem takeOut_fst_le (d n : Nat) (found : List Nat) :
    (takeOut d n found).1 ≤ n := by
  fun_induction takeOut d n found with
  | case1 n found h ih => exact Nat.le_trans ih (Nat.div_le_self n d)
  | case2 n found h => exact Nat.le_refl n

/-- **The trial divisions from `d` on.** `n` is what is left to be factored
and `found` holds the primes taken out so far, the latest first. -/
def trialDivision (d n : Nat) (found : List Nat) : Checked (List Nat) :=
  if d * d ≤ 9223372036854775807 then
    if d * d ≤ n then
      if n % d = 0 then
        let left := takeOut d n found
        trialDivision (d + 1) left.1 left.2
      else
        trialDivision (d + 1) n found
    else
      .ok (if 1 < n then n :: found else found).reverse
  else
    .error .productOverflow
termination_by n + 1 - d
decreasing_by
  · have := takeOut_fst_le d n found
    have := Nat.le_mul_self d
    omega
  · have := Nat.le_mul_self d
    omega

/-- **The prime factors of a word**, in increasing order and with their
multiplicity. There are none below `2`. -/
def primeFactors (n : Int) : Checked (List Nat) :=
  trialDivision 2 n.toNat []

end ConvTiling
