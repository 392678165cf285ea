/-!
# Integers of bounded range

Every extent, size and count of a loop nest is an integer that a machine
word of 64 bits can hold. An operation whose exact result is not such an
integer has **no answer**: the computation it stands in stops there, and
which operation stopped it is part of what the computation says. So the
operations below are partial, and a computation built from them is a value
of `Checked`: a result, or the `Fault` of the first operation that had
none.

The words themselves are kept as `Int` (signed words: extents, bytes) and
as `Nat` (counts: numbers of candidates and of workers) rather than as a
type of fixed width. The bound is a *property* – `Signed.Fits` and
`Count.Fits` – that an operation checks of its exact result, so a fact
about the exact integers is a fact about every computation that succeeds,
and nothing below it wraps.

That is what the main statements say, one per operation: `Signed.add a b`
is `c` exactly when `c` is `a + b` and fits (`Signed.add_eq_ok_iff`), and
so for the others. With `Checked.bind_eq_ok_iff`, which opens a sequence of
steps, they are all a later proof needs; the operations are not unfolded
again.
-/

namespace ConvTiling

/-- **Why an operation has no answer**: its exact result is undefined, or
is not a word. -/
inductive Fault where
  /-- A sum is not a word. -/
  | sumOverflow
  /-- A difference is not a word. -/
  | differenceOverflow
  /-- A product is not a word. -/
  | productOverflow
  /-- A quotient by zero. -/
  | zeroDivisor
  /-- A quotient is not a word: the least word divided by `-1`. -/
  | quotientOverflow
  /-- A negated word is not a word: the least one has no opposite. -/
  | negationOverflow
  deriving DecidableEq, Repr

/-- The report of a fault. -/
def Fault.message : Fault → String
  | .sumOverflow => "attempt to add with overflow"
  | .differenceOverflow => "attempt to subtract with overflow"
  | .productOverflow => "attempt to multiply with overflow"
  | .zeroDivisor => "attempt to divide by zero"
  | .quotientOverflow => "attempt to divide with overflow"
  | .negationOverflow => "attempt to negate with overflow"

/-- **A computation on words**: its result, or the fault of the first
operation that has none. -/
abbrev Checked (α : Type) := Except Fault α

namespace Checked

variable {ε α β : Type}

/-- The exact result `a` where `p` holds, and the fault otherwise. -/
@[inline] def within (p : Prop) [Decidable p] (fault : Fault) (a : α) : Checked α :=
  if p then .ok a else .error fault

@[simp] theorem within_eq_ok_iff {p : Prop} [Decidable p] {fault : Fault}
    {a b : α} : within p fault a = .ok b ↔ p ∧ b = a := by
  unfold within
  split <;> simp [*, eq_comm]

@[simp] theorem within_eq_error_iff {p : Prop} [Decidable p]
    {fault other : Fault} {a : α} :
    within p fault a = .error other ↔ ¬ p ∧ other = fault := by
  unfold within
  split <;> simp [*, eq_comm]

/-- **A sequence of two steps succeeds** exactly when the first does and
the second does on its result. The statement does not depend on what the
errors are, so it opens every sequence of steps of this library. -/
theorem bind_eq_ok_iff {x : Except ε α} {f : α → Except ε β} {b : β} :
    (x >>= f) = .ok b ↔ ∃ a, x = .ok a ∧ f a = .ok b := by
  cases x <;> simp [bind, Except.bind]

/-- **A sequence of two steps fails** exactly when the first does, or the second does on
the result of the first. -/
theorem bind_eq_error_iff {x : Except ε α} {f : α → Except ε β} {e : ε} :
    (x >>= f) = .error e ↔ x = .error e ∨ ∃ a, x = .ok a ∧ f a = .error e := by
  cases x <;> simp [bind, Except.bind]

/-- A step that only returns succeeds with what it returns. -/
theorem pure_eq_ok_iff {a b : α} : (pure a : Except ε α) = .ok b ↔ b = a := by
  simp [pure, Except.pure, eq_comm]

end Checked

/-! ## Signed words -/

namespace Signed

/-- **The integers a signed word holds.** The bounds are written out so
that `omega` can read them. -/
def Fits (n : Int) : Prop :=
  -9223372036854775808 ≤ n ∧ n ≤ 9223372036854775807

instance : DecidablePred Fits := fun _ => inferInstanceAs (Decidable (_ ∧ _))

/-- The sum of two words. -/
def add (a b : Int) : Checked Int :=
  Checked.within (Fits (a + b)) .sumOverflow (a + b)

/-- The difference of two words. -/
def sub (a b : Int) : Checked Int :=
  Checked.within (Fits (a - b)) .differenceOverflow (a - b)

/-- The product of two words. -/
def mul (a b : Int) : Checked Int :=
  Checked.within (Fits (a * b)) .productOverflow (a * b)

/-- The quotient of two words, rounded toward zero. -/
def div (a b : Int) : Checked Int :=
  if b = 0 then .error .zeroDivisor
  else Checked.within (Fits (a.tdiv b)) .quotientOverflow (a.tdiv b)

/-- The magnitude of a word. That of a negative word is its opposite, and
the least word has none. -/
def magnitude (a : Int) : Checked Nat :=
  Checked.within (a < 0 → Fits (-a)) .negationOverflow a.natAbs

/-- A sum succeeds with the exact sum, where that fits. -/
theorem add_eq_ok_iff {a b c : Int} :
    add a b = .ok c ↔ c = a + b ∧ Fits c := by
  grind [add, Checked.within_eq_ok_iff]

/-- A difference succeeds with the exact difference, where that fits. -/
theorem sub_eq_ok_iff {a b c : Int} :
    sub a b = .ok c ↔ c = a - b ∧ Fits c := by
  grind [sub, Checked.within_eq_ok_iff]

/-- A product succeeds with the exact product, where that fits. -/
theorem mul_eq_ok_iff {a b c : Int} :
    mul a b = .ok c ↔ c = a * b ∧ Fits c := by
  grind [mul, Checked.within_eq_ok_iff]

/-- A quotient succeeds with the exact quotient, where there is one and it
fits. -/
theorem div_eq_ok_iff {a b c : Int} :
    div a b = .ok c ↔ b ≠ 0 ∧ c = a.tdiv b ∧ Fits c := by
  grind [div, Checked.within_eq_ok_iff]

/-- A magnitude succeeds with the exact one, except on the least word. -/
theorem magnitude_eq_ok_iff {a : Int} {n : Nat} :
    magnitude a = .ok n ↔ n = a.natAbs ∧ (a < 0 → Fits (-a)) := by
  grind [magnitude, Checked.within_eq_ok_iff]

/-- **A product over a list**, from `acc` and from left to right. Each
factor is computed just before it is multiplied in, so of a factor without
an answer and a product without one the earlier stops the computation. -/
def productFrom {α : Type} (factor : α → Checked Int) :
    Int → List α → Checked Int
  | acc, [] => .ok acc
  | acc, x :: xs => do
    let n ← factor x
    let acc ← mul acc n
    productFrom factor acc xs

/-- The product of `factor x` over the list, from `1`. -/
def productBy {α : Type} (factor : α → Checked Int) (xs : List α) :
    Checked Int :=
  productFrom factor 1 xs

/-- A product over a longer list goes on from the one over its first
factor. -/
theorem productFrom_cons_eq_ok_iff {α : Type} {factor : α → Checked Int}
    {acc p : Int} {x : α} {xs : List α} :
    productFrom factor acc (x :: xs) = .ok p ↔
      ∃ n, factor x = .ok n ∧ Fits (acc * n)
        ∧ productFrom factor (acc * n) xs = .ok p := by
  simp only [productFrom, Checked.bind_eq_ok_iff, mul_eq_ok_iff]
  constructor
  · rintro ⟨n, hn, m, ⟨rfl, hm⟩, hp⟩
    exact ⟨n, hn, hm, hp⟩
  · rintro ⟨n, hn, hm, hp⟩
    exact ⟨n, hn, _, ⟨rfl, hm⟩, hp⟩

end Signed

/-! ## Counts -/

namespace Count

/-- The counts an unsigned word holds. -/
def Fits (n : Nat) : Prop := n ≤ 18446744073709551615

instance : DecidablePred Fits := fun _ => inferInstanceAs (Decidable (_ ≤ _))

/-- The sum of two counts. -/
def add (a b : Nat) : Checked Nat :=
  Checked.within (Fits (a + b)) .sumOverflow (a + b)

/-- The difference of two counts, which a larger second one leaves without
an answer. -/
def sub (a b : Nat) : Checked Nat :=
  Checked.within (b ≤ a) .differenceOverflow (a - b)

/-- The product of two counts. -/
def mul (a b : Nat) : Checked Nat :=
  Checked.within (Fits (a * b)) .productOverflow (a * b)

/-- A sum succeeds with the exact sum, where that fits. -/
theorem add_eq_ok_iff {a b c : Nat} :
    add a b = .ok c ↔ c = a + b ∧ Fits c := by
  grind [add, Checked.within_eq_ok_iff]

/-- A difference succeeds with the exact difference, where it is a
count. -/
theorem sub_eq_ok_iff {a b c : Nat} :
    sub a b = .ok c ↔ b ≤ a ∧ c = a - b := by
  grind [sub, Checked.within_eq_ok_iff]

/-- A product succeeds with the exact product, where that fits. -/
theorem mul_eq_ok_iff {a b c : Nat} :
    mul a b = .ok c ↔ c = a * b ∧ Fits c := by
  grind [mul, Checked.within_eq_ok_iff]

end Count

end ConvTiling
