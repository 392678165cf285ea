import ConvTiling.Proofs.Answers
import ConvTiling.Proofs.ScoreOrder
import ConvTiling.Schedule.Candidates

/-!
# The best of a stretch

A sweep is said to **find** the best of some numbers when what it holds is the
candidate of one of them, with a score at most that of every other, and of those
with the same score the one with the smallest number – or nothing, when the
candidate of none of them fits the buffers (`Sweep.Finds`). There is at most one
such thing to hold (`Sweep.Finds.unique`), so two sweeps that find the best of
the same numbers agree, however they went about it.

One lemma carries the induction: of what was found in earlier numbers and what
was found in later ones, the better of the two is what there is to find in all of
them (`Sweep.Finds.append`). It is stated with the comparison of two stretches,
which prefers the earlier one of equal scores. Inside a stretch the comparison
is the other one, that a later candidate has to be strictly less; for scores
that are numbers it comes to the same (`Sweep.best_offer`), so a single visit is a
case of the same lemma.
-/

namespace ConvTiling

open Checked (Answers bind_eq_ok_iff pure_eq_ok_iff)

/-- The candidate that a scored tiling is, with the orders of a seed. -/
def Scored.candidate (seed : LoopNest) (x : Scored) : Candidate where
  nest := { seed with tiling := x.tiling }
  score := x.score
  number := x.number

/-- **The better of two finds**: the earlier one, unless its score fails to be
at most that of the later one. -/
def Scored.pick : Option Scored → Option Scored → Option Scored
  | none, b => b
  | some x, none => some x
  | some x, some y => if x.score ≤ y.score then some x else some y

namespace Sweep

variable {w : Sweep} {ks ls : List Nat} {a b : Option Scored} {x y : Scored} {k : Nat}

/-- A candidate fits the buffers. -/
def Fitting (w : Sweep) (k : Nat) : Prop :=
  ∃ t, w.space.tilingAt k = .ok t ∧ t.fits w.machine = .ok true

/-- **Every score among some numbers is a number.** -/
def Numeric (w : Sweep) (ks : List Nat) : Prop :=
  ∀ k ∈ ks, ∀ x, w.score? k = .ok (some x) → x.score.isNaN = false

/-- **A candidate meets no fault**, and its score is a number if it fits the
buffers. -/
def WellScored (w : Sweep) (k : Nat) : Prop :=
  ∃ r, w.score? k = .ok r ∧ ∀ x, r = some x → x.score.isNaN = false

instance (w : Sweep) (k : Nat) : Decidable (w.WellScored k) :=
  match h : w.score? k with
  | .ok (some x) =>
    decidable_of_iff (x.score.isNaN = false) (by simp [WellScored, h])
  | .ok none => .isTrue ⟨none, h, fun _ hx => by cases hx⟩
  | .error _ => .isFalse fun ⟨_, hr, _⟩ => by rw [h] at hr; cases hr

/-- **The best candidate of some numbers.** -/
structure IsBest (w : Sweep) (ks : List Nat) (x : Scored) : Prop where
  mem : x.number ∈ ks
  scored : w.score? x.number = .ok (some x)
  le : ∀ k ∈ ks, ∀ y, w.score? k = .ok (some y) → x.score ≤ y.score
  first : ∀ k ∈ ks, ∀ y, w.score? k = .ok (some y) → y.score ≤ x.score → x.number ≤ k

/-- **What there is to find in some numbers**: the best candidate, or nothing
where the candidate of none of them is scored. -/
def Finds (w : Sweep) (ks : List Nat) : Option Scored → Prop
  | none => ∀ k ∈ ks, w.score? k = .ok none
  | some x => w.IsBest ks x

/-! ## Scoring one candidate -/

/-- **A candidate is scored** when its tiling fits the buffers, and then as the
tiling with an unrolling of its own. -/
theorem score?_eq_ok_some_iff :
    w.score? k = .ok (some x) ↔ ∃ t unroll, w.space.tilingAt k = .ok t
      ∧ t.fits w.machine = .ok true ∧ unrollTile t.tile w.machine = .ok unroll
      ∧ x.tiling = { t with unroll } ∧ x.tiling.score w.machine w.dataflow = .ok x.score
      ∧ x.number = k := by
  simp only [score?, bind_eq_ok_iff]
  constructor
  · rintro ⟨t, ht, b, hb, run⟩
    cases b with
    | false => cases pure_eq_ok_iff.1 run
    | true =>
      obtain ⟨unroll, hunroll, run⟩ := bind_eq_ok_iff.1 run
      obtain ⟨score, hscore, run⟩ := bind_eq_ok_iff.1 run
      cases pure_eq_ok_iff.1 run
      exact ⟨t, unroll, ht, hb, hunroll, rfl, hscore, rfl⟩
  · rintro ⟨t, unroll, ht, hb, hunroll, htiling, hscore, hnumber⟩
    refine ⟨t, ht, true, hb, ?_⟩
    obtain ⟨tiling, score, number⟩ := x
    obtain rfl : tiling = { t with unroll } := htiling
    obtain rfl : number = k := hnumber
    exact bind_eq_ok_iff.2 ⟨unroll, hunroll, bind_eq_ok_iff.2 ⟨score, hscore, rfl⟩⟩

/-- A candidate is passed over when its tiling does not fit the buffers. -/
theorem score?_eq_ok_none_iff :
    w.score? k = .ok none ↔
      ∃ t, w.space.tilingAt k = .ok t ∧ t.fits w.machine = .ok false := by
  simp only [score?, bind_eq_ok_iff]
  constructor
  · rintro ⟨t, ht, b, hb, run⟩
    cases b with
    | false => exact ⟨t, ht, hb⟩
    | true =>
      obtain ⟨unroll, hunroll, run⟩ := bind_eq_ok_iff.1 run
      obtain ⟨score, hscore, run⟩ := bind_eq_ok_iff.1 run
      cases pure_eq_ok_iff.1 run
  · rintro ⟨t, ht, hb⟩
    exact ⟨t, ht, false, hb, rfl⟩

/-- The number of a scored candidate is the one it was scored for. -/
theorem number_of_score? (h : w.score? k = .ok (some x)) : x.number = k := by
  obtain ⟨-, -, -, -, -, -, -, hnumber⟩ := score?_eq_ok_some_iff.1 h
  exact hnumber

/-- **A candidate that is passed over does not fit the buffers.** -/
theorem not_fitting_of_score? (h : w.score? k = .ok none) : ¬ w.Fitting k := by
  obtain ⟨t, ht, hb⟩ := score?_eq_ok_none_iff.1 h
  rintro ⟨t', ht', hb'⟩
  rw [ht] at ht'
  obtain rfl := Except.ok.inj ht'
  rw [hb] at hb'
  cases hb'

/-- A scored candidate fits the buffers. -/
theorem fitting_of_score? (h : w.score? k = .ok (some x)) : w.Fitting k := by
  obtain ⟨t, -, ht, hb, -⟩ := score?_eq_ok_some_iff.1 h
  exact ⟨t, ht, hb⟩

/-- Candidates that meet no fault have an answer. -/
theorem answers_of_wellScored (h : ∀ k ∈ ks, w.WellScored k) :
    ∀ k ∈ ks, Answers (w.score? k) := by
  intro k hk
  obtain ⟨r, hr, -⟩ := h k hk
  exact ⟨r, hr⟩

/-- The scores of candidates that are well scored are numbers. -/
theorem numeric_of_wellScored (h : ∀ k ∈ ks, w.WellScored k) : w.Numeric ks := by
  intro k hk x hx
  obtain ⟨r, hr, hnumber⟩ := h k hk
  rw [hr] at hx
  exact hnumber x (Except.ok.inj hx)

/-- **A well scored candidate that fits the buffers is scored.** -/
theorem WellScored.fitting_iff (h : w.WellScored k) :
    w.Fitting k ↔ ∃ x, w.score? k = .ok (some x) := by
  obtain ⟨r, hr, -⟩ := h
  cases r with
  | none =>
    refine ⟨fun hfit => absurd hfit (not_fitting_of_score? hr), ?_⟩
    rintro ⟨x, hx⟩
    rw [hr] at hx
    cases hx
  | some x => exact ⟨fun _ => ⟨x, hr⟩, fun _ => fitting_of_score? hr⟩

/-! ## Finding -/

/-- Where there is nothing to find, no candidate is scored. -/
theorem Finds.ne_some (h : w.Finds ks none) (hk : k ∈ ks) : w.score? k ≠ .ok (some x) := by
  intro hx
  rw [h k hk] at hx
  cases hx

/-- **There is one thing to find.** -/
theorem Finds.unique (ha : w.Finds ks a) (hb : w.Finds ks b) : a = b := by
  cases a with
  | none =>
    cases b with
    | none => rfl
    | some y => exact absurd hb.scored (ha.ne_some hb.mem)
  | some x =>
    cases b with
    | none => exact absurd ha.scored (hb.ne_some ha.mem)
    | some y =>
      -- each is at most the other, so each number is at most the other
      have hxy := ha.first y.number hb.mem y hb.scored (hb.le x.number ha.mem x ha.scored)
      have hyx := hb.first x.number ha.mem x ha.scored (ha.le y.number hb.mem y hb.scored)
      have hnumber := Nat.le_antisymm hxy hyx
      have hsame := ha.scored
      rw [hnumber, hb.scored] at hsame
      exact (Except.ok.inj hsame).symm

/-- In no numbers there is nothing to find. -/
theorem finds_nil (w : Sweep) : w.Finds [] none := fun _ hk => by cases hk

/-- In one number there is its candidate to find, if it has one. -/
theorem finds_singleton (hnumeric : w.Numeric [k]) (h : w.score? k = .ok a) :
    w.Finds [k] a := by
  cases a with
  | none =>
    intro j hj
    obtain rfl := List.mem_singleton.1 hj
    exact h
  | some x =>
    have hx := hnumeric k List.mem_cons_self x h
    obtain rfl := number_of_score? h
    refine ⟨List.mem_cons_self, h, fun j hj y hy => ?_, fun j hj _ _ _ => ?_⟩
    · obtain rfl := List.mem_singleton.1 hj
      rw [h] at hy
      obtain rfl : x = y := Option.some.inj (Except.ok.inj hy)
      exact ScoreOrder.le_self hx
    · rw [List.mem_singleton.1 hj]

/-- **The best candidate of more numbers** is the one of some of them, if it is
at most as large as each new one, and the earlier one where it is as large. -/
theorem IsBest.of_subset (h : w.IsBest ks x) (hsub : ks ⊆ ls)
    (hnew : ∀ k ∈ ls, k ∉ ks → ∀ y, w.score? k = .ok (some y) →
      x.score ≤ y.score ∧ (y.score ≤ x.score → x.number ≤ k)) : w.IsBest ls x where
  mem := hsub h.mem
  scored := h.scored
  le k hk y hy := by
    by_cases hold : k ∈ ks
    · exact h.le k hold y hy
    · exact (hnew k hk hold y hy).1
  first k hk y hy := by
    by_cases hold : k ∈ ks
    · exact h.first k hold y hy
    · exact (hnew k hk hold y hy).2

/-- A best candidate is a scored one, so its score is a number. -/
theorem IsBest.isNaN (h : w.IsBest ks x) (hnumeric : w.Numeric ks) :
    x.score.isNaN = false :=
  hnumeric x.number h.mem x h.scored

/-- **The better of two finds is the find of both**, if the numbers of the
second come after those of the first. -/
theorem Finds.append (ha : w.Finds ks a) (hb : w.Finds ls b) (hks : w.Numeric ks)
    (hls : w.Numeric ls) (horder : ∀ j ∈ ks, ∀ k ∈ ls, j < k) :
    w.Finds (ks ++ ls) (Scored.pick a b) := by
  cases a with
  | none =>
    cases b with
    | none =>
      intro k hk
      exact (List.mem_append.1 hk).elim (ha k) (hb k)
    | some y =>
      refine hb.of_subset (List.subset_append_right ks ls) fun k hk hnew z hz => ?_
      have hk := (List.mem_append.1 hk).resolve_right hnew
      exact absurd hz (ha.ne_some hk)
  | some x =>
    cases b with
    | none =>
      refine ha.of_subset (List.subset_append_left ks ls) fun k hk hnew z hz => ?_
      have hk := (List.mem_append.1 hk).resolve_left hnew
      exact absurd hz (hb.ne_some hk)
    | some y =>
      have hx := ha.isNaN hks
      have hy := hb.isNaN hls
      by_cases hxy : x.score ≤ y.score
      · rw [Scored.pick, if_pos hxy]
        refine ha.of_subset (List.subset_append_left ks ls) fun k hk hnew z hz => ?_
        have hk := (List.mem_append.1 hk).resolve_left hnew
        have hz' := hls k hk z hz
        exact ⟨ScoreOrder.le_trans hx hy hz' hxy (hb.le k hk z hz),
          fun _ => Nat.le_of_lt (horder x.number ha.mem k hk)⟩
      · rw [Scored.pick, if_neg hxy]
        have hyx := ScoreOrder.le_of_lt hy hx ((ScoreOrder.lt_iff_not_le hy hx).2 hxy)
        refine hb.of_subset (List.subset_append_right ks ls) fun k hk hnew z hz => ?_
        have hk := (List.mem_append.1 hk).resolve_right hnew
        have hz' := hks k hk z hz
        have hxz := ha.le k hk z hz
        -- an earlier score at most the later best one would put the earlier best
        -- one at most the later one, which it is not
        exact ⟨ScoreOrder.le_trans hy hx hz' hyx hxz,
          fun hzy => absurd (ScoreOrder.le_trans hx hz' hy hxz hzy) hxy⟩

/-! ## Sweeping a stretch -/

/-- Counting a candidate does not touch the best one. -/
theorem best_count (s : Scan) : s.count.best = s.best := by
  unfold Scan.count
  split <;> rfl

/-- **Inside a stretch the comparison is the same** as between stretches, as
long as the scores are numbers. -/
theorem best_offer {s : Scan} (hx : x.score.isNaN = false)
    (hbest : ∀ y, s.best = some y → y.score.isNaN = false) :
    (s.offer x).best = Scored.pick s.best (some x) := by
  unfold Scan.offer
  cases hs : s.best with
  | none => rfl
  | some y =>
    have hlt := ScoreOrder.lt_iff_not_le hx (hbest y hs)
    show (if x.score < y.score then { s with best := some x } else s).best
      = if y.score ≤ x.score then some y else some x
    by_cases hyx : y.score ≤ x.score
    · rw [if_neg fun h => hlt.1 h hyx, if_pos hyx, hs]
    · rw [if_pos (hlt.2 hyx), if_neg hyx]

/-- **One visit** finds the best of one number more. -/
theorem Finds.visit {s s' : Scan} (hs : w.Finds ks s.best) (hks : w.Numeric ks)
    (hk : w.Numeric [k]) (horder : ∀ j ∈ ks, j < k) (run : w.visit s k = .ok s') :
    w.Finds (ks ++ [k]) s'.best := by
  have hlt : ∀ j ∈ ks, ∀ i ∈ [k], j < i := by
    intro j hj i hi
    rw [List.mem_singleton.1 hi]
    exact horder j hj
  obtain ⟨r, hr, run⟩ := bind_eq_ok_iff.1 run
  have hfind := hs.append (finds_singleton hk hr) hks hk hlt
  cases r with
  | none =>
    obtain rfl := pure_eq_ok_iff.1 run
    rw [best_count]
    cases hbest : s.best <;> rw [hbest] at hfind <;> exact hfind
  | some x =>
    obtain rfl := pure_eq_ok_iff.1 run
    rw [best_offer (hk k List.mem_cons_self x hr) fun y hy => ?_, best_count]
    · exact hfind
    · rw [best_count] at hy
      rw [hy] at hs
      exact hs.isNaN hks

/-- **A run of visits** in increasing order finds the best of all numbers
visited. -/
theorem Finds.foldlM_visit {s s' : Scan} (hs : w.Finds ks s.best)
    (hnumeric : w.Numeric (ks ++ ls)) (horder : (ks ++ ls).Pairwise (· < ·))
    (run : ls.foldlM w.visit s = .ok s') : w.Finds (ks ++ ls) s'.best := by
  induction ls generalizing ks s with
  | nil =>
    obtain rfl : s' = s := pure_eq_ok_iff.1 run
    rwa [List.append_nil]
  | cons k ls ih =>
    obtain ⟨t, hstep, hrest⟩ := Checked.foldlM_cons_eq_ok_iff.1 run
    have hks : w.Numeric ks := fun j hj => hnumeric j (List.mem_append_left _ hj)
    have hk : w.Numeric [k] := by
      intro j hj
      rw [List.mem_singleton.1 hj]
      exact hnumeric k (List.mem_append_right _ List.mem_cons_self)
    have hlt : ∀ j ∈ ks, j < k := fun j hj =>
      (List.pairwise_append.1 horder).2.2 j hj k List.mem_cons_self
    rw [List.append_cons] at hnumeric horder ⊢
    exact ih (hs.visit hks hk hlt hstep) hnumeric horder hrest

/-- **A sweep of a stretch finds the best of it**, as a candidate. -/
theorem finds_of_run {seed : LoopNest} {span : Span} {p p' : Progress}
    {found : Option Candidate} (hnumeric : w.Numeric span.numbers)
    (run : w.run seed span p = .ok (found, p')) :
    ∃ best, w.Finds span.numbers best ∧ found = best.map (Scored.candidate seed) := by
  obtain ⟨s, hs, run⟩ := bind_eq_ok_iff.1 run
  cases pure_eq_ok_iff.1 run
  have hsorted : ([] ++ span.numbers).Pairwise (· < ·) := List.pairwise_lt_range'
  have hfind : w.Finds ([] ++ span.numbers) s.best :=
    Finds.foldlM_visit (finds_nil w) hnumeric hsorted hs
  exact ⟨s.best, hfind, rfl⟩

/-- A stretch is swept if each of its candidates has an answer. -/
theorem answers_run (seed : LoopNest) (span : Span) (p : Progress)
    (h : ∀ k ∈ span.numbers, Answers (w.score? k)) : Answers (w.run seed span p) := by
  refine Answers.bind ?_ fun _ _ => Checked.answers_pure _
  refine Checked.answers_foldlM_of_forall fun k hk s => ?_
  refine (h k hk).bind fun r _ => ?_
  cases r <;> exact Checked.answers_pure _

end Sweep

end ConvTiling
