import Mathlib.Data.Prod.Lex

/-!
# The order of scores

Scores are binary floating-point numbers, and their comparison is that of the
real line except in two places: the two zeros are equal, and what is not a
number compares with nothing. So scores that are numbers are compared by a
**rank** in a linear order (`ScoreOrder.compare_eq_some`): first the part of the
line – below, at or above zero, or at one of its ends – then the exponent, then
the mantissa, the latter two reversed below zero.

What the search uses of the comparison follows from that alone: it is
transitive, any two scores that are numbers compare, and one is less exactly
when the other is not at most it.
-/

namespace ConvTiling.ScoreOrder

open Float.Model (UnpackedFloat)

/-! ## Ranks -/

/-- **The place of a number on the line**: its part, exponent and mantissa.
What is not a number has no place of its own. -/
def rank : UnpackedFloat → ℤ ×ₗ ℤ ×ₗ ℤ
  | .infinity .negative => toLex (-2, toLex (0, 0))
  | .finite .negative m e _ => toLex (-1, toLex (-e, -m))
  | .zero _ => toLex (0, toLex (0, 0))
  | .finite .positive m e _ => toLex (1, toLex (e, m))
  | .infinity .positive => toLex (2, toLex (0, 0))
  | .notANumber => toLex (0, toLex (0, 0))

/-- Pairs are compared by their first parts, and then by their second ones. -/
theorem compare_toLex {α β : Type} [LinearOrder α] [LinearOrder β] (a c : α) (b d : β) :
    compare (toLex (a, b)) (toLex (c, d)) = (compare a c).then (compare b d) := by
  rw [Prod.Lex.compare_def]
  rfl

/-- Opposite numbers compare the other way. -/
theorem compare_neg_neg (a b : ℤ) : compare (-a) (-b) = (compare a b).swap := by
  have hanti : StrictAnti fun n : ℤ => -n := fun _ _ h => Int.neg_lt_neg h
  rw [← cmp_eq_compare, ← cmp_eq_compare, cmp_swap]
  exact hanti.cmp_map_eq a b

/-- Natural numbers compare as integers do. -/
theorem compare_natCast (m n : ℕ) : compare (m : ℤ) (n : ℤ) = compare m n := by
  have hmono : StrictMono fun n : ℕ => (n : ℤ) := fun _ _ h => Int.ofNat_lt.2 h
  rw [← cmp_eq_compare, ← cmp_eq_compare]
  exact hmono.cmp_map_eq m n

/-- **Numbers are compared by their ranks.** -/
theorem compare_eq_some {a b : UnpackedFloat} (ha : a.isNaN = false) (hb : b.isNaN = false) :
    a.compare b = some (compare (rank a) (rank b)) := by
  rcases a with ⟨_ | _⟩ | _ | _ | ⟨_ | _, m, e, _⟩ <;>
    rcases b with ⟨_ | _⟩ | _ | _ | ⟨_ | _, n, f, _⟩ <;>
    first | cases ha; done | cases hb; done | rfl | skip
  -- two numbers on the same side of zero are left
  · show some ((compare e f).then (compare m n)).swap
      = some (compare (toLex (-1, toLex (-e, -(m : ℤ)))) (toLex (-1, toLex (-f, -(n : ℤ)))))
    rw [compare_toLex, compare_toLex, compare_neg_neg e, compare_neg_neg (m : ℤ),
      compare_natCast, Ordering.swap_then]
    rfl
  · show some ((compare e f).then (compare m n))
      = some (compare (toLex (1, toLex (e, (m : ℤ)))) (toLex (1, toLex (f, (n : ℤ)))))
    rw [compare_toLex, compare_toLex, compare_natCast]
    rfl

/-! ## Scores -/

variable {x y z : Float}

/-- The rank of a score. -/
def rankOf (x : Float) : ℤ ×ₗ ℤ ×ₗ ℤ := rank x.toModel.unpack

/-- **Scores that are numbers** are at most one another as their ranks are. -/
theorem le_iff (hx : x.isNaN = false) (hy : y.isNaN = false) :
    x ≤ y ↔ rankOf x ≤ rankOf y := by
  show decide ((x.toModel.unpack.compare y.toModel.unpack).any (·.isLE) = true) = true ↔ _
  rw [decide_eq_true_iff, compare_eq_some hx hy, Option.any_some, Ordering.isLE_iff_ne_gt,
    compare_gt_iff_gt, not_lt]
  rfl

/-- **Scores that are numbers** are less than one another as their ranks are. -/
theorem lt_iff (hx : x.isNaN = false) (hy : y.isNaN = false) :
    x < y ↔ rankOf x < rankOf y := by
  show decide ((x.toModel.unpack.compare y.toModel.unpack == some .lt) = true) = true ↔ _
  rw [decide_eq_true_iff, compare_eq_some hx hy, beq_iff_eq, Option.some.injEq,
    compare_lt_iff_lt]
  rfl

/-- A score that is a number is at most itself. -/
theorem le_self (hx : x.isNaN = false) : x ≤ x := by
  rw [le_iff hx hx]

/-- Being at most a score is transitive. -/
theorem le_trans (hx : x.isNaN = false) (hy : y.isNaN = false) (hz : z.isNaN = false)
    (hxy : x ≤ y) (hyz : y ≤ z) : x ≤ z := by
  rw [le_iff hx hy] at hxy
  rw [le_iff hy hz] at hyz
  rw [le_iff hx hz]
  exact hxy.trans hyz

/-- **One score is less than another** exactly when the other is not at most
it. -/
theorem lt_iff_not_le (hx : x.isNaN = false) (hy : y.isNaN = false) : x < y ↔ ¬ y ≤ x := by
  rw [lt_iff hx hy, le_iff hy hx, not_le]

/-- A smaller score is at most the other. -/
theorem le_of_lt (hx : x.isNaN = false) (hy : y.isNaN = false) (h : x < y) : x ≤ y := by
  rw [le_iff hx hy]
  exact ((lt_iff hx hy).1 h).le

end ConvTiling.ScoreOrder
