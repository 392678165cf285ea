import Mathlib.Data.List.Forall2
import ConvTiling.Proofs.Best
import ConvTiling.Proofs.TileSpace

/-!
# How the candidates are shared out does not matter

The candidates of a search are shared out among workers, each sweeps a stretch,
and the best of what they found is kept. That is the candidate which one sweep
over all the numbers finds.

The stretches are made by a division: every worker gets the quotient, and the
last one what is left over as well. Whatever the number of workers – none at all
and more than there are candidates included – the numbers of the stretches, one
stretch after the other, are the numbers from `1` to the last one, each once and
in order (`Span.shareOut_eq_ok`), and no stretch is longer than the others but the
last (`Span.length_numbers_exactShare`). And since every stretch finds the best of its
numbers, keeping the better of two finds what there is to find in all the
numbers (`Sweep.finds_of_runAll`). There is only one such candidate.
-/

namespace ConvTiling

open Checked (Answers bind_eq_ok_iff pure_eq_ok_iff)

namespace Span

/-! ## The stretches -/

/-- **The stretch of one of several workers**, as natural numbers. -/
def exactShare (total count worker : Nat) : Span where
  first := worker * (total / count) + 1
  last := if worker + 1 = count then total else (worker + 1) * (total / count)

/-- **A stretch has an answer** where its ends are counts, and then is the exact
one. -/
theorem share_eq_ok_iff {total count worker : Nat} {s : Span} :
    share total count (total / count) worker = .ok s ↔
      s = exactShare total count worker ∧ Count.Fits (worker * (total / count))
        ∧ Count.Fits (worker * (total / count) + 1) ∧ Count.Fits (worker + 1)
        ∧ (worker + 1 ≠ count → Count.Fits ((worker + 1) * (total / count))) := by
  unfold share exactShare
  simp only [bind_eq_ok_iff, Count.mul_eq_ok_iff, Count.add_eq_ok_iff]
  constructor
  · rintro ⟨_, ⟨rfl, hbefore⟩, _, ⟨rfl, hfirst⟩, _, ⟨rfl, hnext⟩, run⟩
    by_cases h : worker + 1 = count
    · rw [if_pos h] at run
      obtain rfl := pure_eq_ok_iff.1 run
      exact ⟨by rw [if_pos h], hbefore, hfirst, hnext, fun hne => absurd h hne⟩
    · rw [if_neg h] at run
      obtain ⟨last, hlast, run⟩ := bind_eq_ok_iff.1 run
      obtain ⟨rfl, hfits⟩ := Count.mul_eq_ok_iff.1 hlast
      obtain rfl := pure_eq_ok_iff.1 run
      exact ⟨by rw [if_neg h], hbefore, hfirst, hnext, fun _ => hfits⟩
  · rintro ⟨rfl, hbefore, hfirst, hnext, hlast⟩
    refine ⟨_, ⟨rfl, hbefore⟩, _, ⟨rfl, hfirst⟩, _, ⟨rfl, hnext⟩, ?_⟩
    by_cases h : worker + 1 = count
    · rw [if_pos h, if_pos h]
      rfl
    · rw [if_neg h, if_neg h]
      exact bind_eq_ok_iff.2 ⟨_, Count.mul_eq_ok_iff.2 ⟨rfl, hlast h⟩, rfl⟩

/-- Every worker has a stretch: its ends are at most the last number. -/
theorem answers_share {total count worker : Nat} (htotal : Count.Fits total)
    (hcount : count ≤ total) (hworker : worker < count) :
    Answers (share total count (total / count) worker) := by
  have hquotient : 1 ≤ total / count := (Nat.one_le_div_iff (by omega)).2 hcount
  have hnext : (worker + 1) * (total / count) ≤ total :=
    Nat.le_trans (Nat.mul_le_mul_right _ hworker) (Nat.mul_div_le total count)
  have hfirst : worker * (total / count) + 1 ≤ (worker + 1) * (total / count) := by
    rw [Nat.add_mul, Nat.one_mul]
    omega
  have hfits : ∀ n, n ≤ total → Count.Fits n := fun n hn => Nat.le_trans hn htotal
  exact ⟨_, share_eq_ok_iff.2 ⟨rfl, hfits _ (by omega), hfits _ (by omega),
    hfits _ (by omega), fun _ => hfits _ hnext⟩⟩

/-- The stretches of the first workers hold the first numbers, as long as the
last worker is not among them. -/
theorem flatMap_exactShare_of_lt (total : Nat) {count j : Nat} (hj : j < count) :
    (List.range j).flatMap (fun i => (exactShare total count i).numbers)
      = List.range' 1 (j * (total / count)) := by
  induction j with
  | zero =>
    rw [Nat.zero_mul]
    rfl
  | succ j ih =>
    have hlast : (exactShare total count j).numbers
        = List.range' (1 + j * (total / count)) (total / count) := by
      rw [numbers, exactShare, if_neg (by omega), Nat.add_mul, Nat.one_mul]
      generalize total / count = q
      show List.range' (j * q + 1) (j * q + q + 1 - (j * q + 1)) = _
      congr 1 <;> omega
    rw [List.range_succ, List.flatMap_append, ih (by omega), List.flatMap_singleton, hlast,
      Nat.add_mul, Nat.one_mul, List.range'_append_1]

/-- **The stretches hold every number once and in order.** -/
theorem flatMap_exactShare {total count : Nat} (hcount : 1 ≤ count) (hle : count ≤ total) :
    (List.range count).flatMap (fun i => (exactShare total count i).numbers)
      = List.range' 1 total := by
  obtain ⟨j, rfl⟩ : ∃ j, count = j + 1 := ⟨count - 1, by omega⟩
  have hle' : j * (total / (j + 1)) ≤ total :=
    Nat.le_trans (Nat.mul_le_mul_right _ (Nat.le_succ j)) (Nat.mul_div_le total (j + 1))
  have hlast : (exactShare total (j + 1) j).numbers
      = List.range' (1 + j * (total / (j + 1))) (total - j * (total / (j + 1))) := by
    rw [numbers, exactShare, if_pos rfl]
    show List.range' (j * (total / (j + 1)) + 1)
      (total + 1 - (j * (total / (j + 1)) + 1)) = _
    congr 1 <;> omega
  rw [List.range_succ, List.flatMap_append, flatMap_exactShare_of_lt total (by omega),
    List.flatMap_singleton, hlast, List.range'_append_1]
  congr 1
  omega

/-- **Every number of candidates is shared out**, whatever the number of workers: there
is a stretch for each of them, or for each candidate where there are fewer. -/
theorem shareOut_eq_map {total : Nat} (htotal : Count.Fits total) (workers : Nat) :
    shareOut total workers = .ok ((List.range (min (max workers 1) total)).map
      (exactShare total (min (max workers 1) total))) :=
  (Checked.mapM_eq_ok_iff fun _ _ _ h => (share_eq_ok_iff.1 h).1).2
    ⟨rfl, fun _ hi => answers_share htotal (Nat.min_le_right _ _) (List.mem_range.1 hi)⟩

/-- **The stretches that are shared out** hold every number once and in order. -/
theorem shareOut_eq_ok {total : Nat} (htotal : Count.Fits total) (workers : Nat) :
    ∃ spans, shareOut total workers = .ok spans
      ∧ spans.flatMap numbers = List.range' 1 total := by
  refine ⟨_, shareOut_eq_map htotal workers, ?_⟩
  rw [List.flatMap_map]
  obtain rfl | hpos := Nat.eq_zero_or_pos total
  · rw [Nat.min_zero]
    rfl
  · exact flatMap_exactShare (by omega) (Nat.min_le_right _ _)

/-- In whatever order the stretches that are shared out are taken, they hold every number
once. -/
theorem perm_numbers_of_shareOut {total workers : Nat} {spans order : List Span}
    (htotal : Count.Fits total) (run : shareOut total workers = .ok spans)
    (horder : order.Perm spans) : (order.flatMap numbers).Perm (numbers ⟨1, total⟩) := by
  obtain ⟨spans', run', hflat⟩ := shareOut_eq_ok htotal workers
  obtain rfl := Except.ok.inj (run.symm.trans run')
  have hwhole : spans.flatMap numbers = numbers ⟨1, total⟩ := hflat
  exact hwhole ▸ horder.flatMap_right numbers

/-- **How long a stretch is**: the quotient, and for the last one what is left over as
well. -/
theorem length_numbers_exactShare (total count worker : Nat) :
    (exactShare total count worker).numbers.length
      = total / count + if worker + 1 = count then total % count else 0 := by
  have hdivide := Nat.div_add_mod total count
  rw [numbers, List.length_range', exactShare]
  generalize total / count = q at *
  by_cases hlast : worker + 1 = count
  · rw [if_pos hlast, if_pos hlast]
    rw [← hlast, Nat.add_mul, Nat.one_mul, hlast] at hdivide
    show total + 1 - (worker * q + 1) = q + total % count
    omega
  · rw [if_neg hlast, if_neg hlast, Nat.add_mul, Nat.one_mul]
    show worker * q + q + 1 - (worker * q + 1) = q + 0
    omega

/-- **The candidates are shared out evenly and without a gap.** Every number of
candidates is shared out among any number of workers, none at all included. There is a
stretch for each worker, or for each candidate where there are fewer, and so none only
where there is no candidate. No stretch is empty, and one after the other they are the
numbers from `1` to the last one, each once and in order. All have the length of the
quotient, but for the last one, which takes what is left over as well. -/
theorem shareOut_evenly {total : Nat} (htotal : Count.Fits total) (workers : Nat) :
    ∃ spans, shareOut total workers = .ok spans
      ∧ spans.length = min (max workers 1) total
      ∧ (spans = [] ↔ total = 0)
      ∧ (∀ s ∈ spans, s.first ≤ s.last)
      ∧ spans.flatMap numbers = List.range' 1 total
      ∧ ∀ i (hi : i < spans.length), spans[i].numbers.length
        = total / spans.length + if i + 1 = spans.length then total % spans.length else 0 := by
  obtain ⟨spans, run, hflat⟩ := shareOut_eq_ok htotal workers
  have hmap := Except.ok.inj (run.symm.trans (shareOut_eq_map htotal workers))
  generalize hcount : min (max workers 1) total = count at hmap ⊢
  have hlength : spans.length = count := by
    rw [hmap, List.length_map, List.length_range]
  have hstretch : ∀ i (hi : i < spans.length), spans[i].numbers.length
      = total / count + if i + 1 = count then total % count else 0 := by
    intro i hi
    have hget : spans[i] = exactShare total count i := by
      simp only [hmap, List.getElem_map, List.getElem_range]
    rw [hget, length_numbers_exactShare]
  refine ⟨spans, run, hlength, ?_, fun s hs => ?_, hflat, hlength ▸ hstretch⟩
  · rw [← List.length_eq_zero_iff, hlength]
    omega
  · obtain ⟨i, hi, rfl⟩ := List.getElem_of_mem hs
    have hquotient : 1 ≤ total / count := (Nat.one_le_div_iff (by omega)).2 (by omega)
    have hnonempty := hstretch i hi
    rw [numbers, List.length_range'] at hnonempty
    omega

/-- As many candidates as a count can hold, among four workers: the last stretch is longer
by three. -/
theorem shareOut_evenly_mostCandidates :
    let total := 18446744073709551615
    Count.Fits total ∧ ∃ spans, shareOut total 4 = .ok spans ∧ spans.length = 4
      ∧ spans.flatMap numbers = List.range' 1 total
      ∧ ∀ i (hi : i < spans.length), spans[i].numbers.length
        = 4611686018427387903 + if i + 1 = 4 then 3 else 0 := by
  intro total
  have htotal : Count.Fits total := by decide
  obtain ⟨spans, run, hcount, -, -, hflat, hlength⟩ := shareOut_evenly htotal 4
  have hfour : spans.length = 4 := hcount.trans (by decide)
  refine ⟨htotal, spans, run, hfour, hflat, fun i hi => ?_⟩
  have hquotient : total / 4 = 4611686018427387903 := by decide
  have hrest : total % 4 = 3 := by decide
  have hstretch := hlength i hi
  rwa [hfour, hquotient, hrest] at hstretch

end Span

/-! ## The best of all stretches -/

/-- **The best of all stretches** is what is left of their finds when the better
of two is kept. -/
theorem Candidate.bestOf_map (seed : LoopNest) (finds : List (Option Scored)) :
    bestOf (finds.map (Option.map (Scored.candidate seed)))
      = (finds.foldl Scored.pick none).map (Scored.candidate seed) := by
  have hfold : ∀ acc : Option Scored,
      ((finds.map (Option.map (Scored.candidate seed))).filterMap id).foldl
          (fun best c => some (better best c)) (acc.map (Scored.candidate seed))
        = (finds.foldl Scored.pick acc).map (Scored.candidate seed) := by
    induction finds with
    | nil => exact fun _ => rfl
    | cons a finds ih =>
      intro acc
      rw [List.foldl_cons, ← ih]
      cases a with
      | none =>
        rw [List.map_cons, Option.map_none, List.filterMap_cons_none (f := id) rfl]
        cases acc <;> rfl
      | some y =>
        rw [List.map_cons, Option.map_some, List.filterMap_cons_some (f := id) rfl,
          List.foldl_cons]
        cases acc with
        | none => rfl
        | some x =>
          -- the candidates have the scores of the finds
          have hbetter : some (better (some (x.candidate seed)) (y.candidate seed))
              = (Scored.pick (some x) (some y)).map (Scored.candidate seed) := by
            show some (if x.score ≤ y.score then x.candidate seed else y.candidate seed)
              = (if x.score ≤ y.score then some x else some y).map (Scored.candidate seed)
            split <;> rfl
          rw [Option.map_some, hbetter]
  exact hfold none

namespace Sweep

variable {w : Sweep} {seed : LoopNest} {ks : List Nat} {spans : List Span} {p p' : Progress}

/-- Every stretch finds the best of it. -/
theorem forall₂_finds_of_runAll {found : List (Option Candidate)}
    (hnumeric : w.Numeric (spans.flatMap Span.numbers))
    (run : w.runAll seed spans p = .ok (found, p')) :
    ∃ finds, List.Forall₂ (fun span b => w.Finds span.numbers b) spans finds
      ∧ found = finds.map (Option.map (Scored.candidate seed)) := by
  induction spans generalizing p found with
  | nil =>
    cases Except.ok.inj run
    exact ⟨[], .nil, rfl⟩
  | cons span spans ih =>
    obtain ⟨⟨c, q⟩, hspan, run⟩ := bind_eq_ok_iff.1 run
    obtain ⟨⟨rest, q'⟩, hrest, run⟩ := bind_eq_ok_iff.1 run
    cases pure_eq_ok_iff.1 run
    rw [List.flatMap_cons] at hnumeric
    obtain ⟨b, hb, rfl⟩ :=
      finds_of_run (fun k hk => hnumeric k (List.mem_append_left _ hk)) hspan
    obtain ⟨finds, hfinds, rfl⟩ := ih (fun k hk => hnumeric k (List.mem_append_right _ hk))
      hrest
    exact ⟨b :: finds, .cons hb hfinds, rfl⟩

/-- **Keeping the better of two finds** finds the best of all stretches, if they
are in order. -/
theorem Finds.foldl_pick {a : Option Scored} {finds : List (Option Scored)}
    (ha : w.Finds ks a)
    (hfinds : List.Forall₂ (fun span b => w.Finds span.numbers b) spans finds)
    (hnumeric : w.Numeric (ks ++ spans.flatMap Span.numbers))
    (horder : (ks ++ spans.flatMap Span.numbers).Pairwise (· < ·)) :
    w.Finds (ks ++ spans.flatMap Span.numbers) (finds.foldl Scored.pick a) := by
  induction hfinds generalizing ks a with
  | nil =>
    rw [List.flatMap_nil, List.append_nil]
    exact ha
  | @cons span b spans finds hb _ ih =>
    rw [List.flatMap_cons, ← List.append_assoc] at hnumeric horder ⊢
    have hleft : w.Numeric (ks ++ span.numbers) := fun k hk =>
      hnumeric k (List.mem_append_left _ hk)
    have horder' := (List.pairwise_append.1 horder).1
    refine ih (ha.append hb ?_ ?_ ?_) hnumeric horder
    · exact fun k hk => hleft k (List.mem_append_left _ hk)
    · exact fun k hk => hleft k (List.mem_append_right _ hk)
    · exact (List.pairwise_append.1 horder').2.2

/-- **Sweeping the stretches finds the best of all of them.** -/
theorem finds_of_runAll {found : List (Option Candidate)}
    (hnumeric : w.Numeric (spans.flatMap Span.numbers))
    (horder : (spans.flatMap Span.numbers).Pairwise (· < ·))
    (run : w.runAll seed spans p = .ok (found, p')) :
    ∃ best, w.Finds (spans.flatMap Span.numbers) best
      ∧ Candidate.bestOf found = best.map (Scored.candidate seed) := by
  obtain ⟨finds, hfinds, rfl⟩ := forall₂_finds_of_runAll hnumeric run
  have hfind := (finds_nil w).foldl_pick hfinds hnumeric horder
  exact ⟨_, hfind, Candidate.bestOf_map seed finds⟩

/-- The stretches are swept if each candidate has an answer. -/
theorem answers_runAll (seed : LoopNest) (spans : List Span) (p : Progress)
    (h : ∀ k ∈ spans.flatMap Span.numbers, Answers (w.score? k)) :
    Answers (w.runAll seed spans p) := by
  induction spans generalizing p with
  | nil => exact Checked.answers_ok _
  | cons span spans ih =>
    rw [List.flatMap_cons] at h
    refine (answers_run seed span p fun k hk =>
      h k (List.mem_append_left _ hk)).bind fun r _ => ?_
    refine (ih r.2 fun k hk => h k (List.mem_append_right _ hk)).bind fun _ _ => ?_
    exact Checked.answers_pure _

/-- **How the candidates are shared out does not show in what is found.** For
every number of workers the stretches are made and swept, and the best of what
they find is what one sweep over all the numbers finds. That is nothing exactly
when no candidate fits the buffers; otherwise it is a candidate whose score is at
most that of every other one, and the one with the smallest number of those whose
score is no larger. -/
theorem bestOf_runAll_shareOut (w : Sweep) (seed : LoopNest) {total : Nat} (workers : Nat)
    (p q : Progress) (htotal : w.space.total = .ok total)
    (h : ∀ k, 1 ≤ k → k ≤ total → w.WellScored k) :
    ∃ spans found p' best q', Span.shareOut total workers = .ok spans
      ∧ w.runAll seed spans p = .ok (found, p')
      ∧ w.run seed ⟨1, total⟩ q = .ok (best, q')
      ∧ Candidate.bestOf found = best
      ∧ (best = none ↔ ∀ k, 1 ≤ k → k ≤ total → ¬ w.Fitting k)
      ∧ ∀ c, best = some c → (1 ≤ c.number ∧ c.number ≤ total)
        ∧ (∃ x, w.score? c.number = .ok (some x) ∧ c = x.candidate seed)
        ∧ ∀ k x, 1 ≤ k → k ≤ total → w.score? k = .ok (some x) →
          c.score ≤ x.score ∧ (x.score ≤ c.score → c.number ≤ k) := by
  obtain ⟨spans, hspans, hflat⟩ :=
    Span.shareOut_eq_ok (TileSpace.fits_of_total htotal) workers
  have hmem : ∀ k, k ∈ spans.flatMap Span.numbers ↔ 1 ≤ k ∧ k ≤ total := by
    intro k
    rw [hflat, List.mem_range'_1]
    omega
  have hscored : ∀ k ∈ spans.flatMap Span.numbers, w.WellScored k := fun k hk =>
    h k ((hmem k).1 hk).1 ((hmem k).1 hk).2
  have hnumeric := numeric_of_wellScored hscored
  have horder : (spans.flatMap Span.numbers).Pairwise (· < ·) :=
    hflat ▸ List.pairwise_lt_range'
  -- what the stretches find and what the whole sweep finds is the same thing
  obtain ⟨⟨found, p'⟩, hfound⟩ := answers_runAll seed spans p
    (answers_of_wellScored hscored)
  obtain ⟨b, hb, hbestOf⟩ := finds_of_runAll hnumeric horder hfound
  have hwhole : (⟨1, total⟩ : Span).numbers = spans.flatMap Span.numbers := hflat.symm
  obtain ⟨⟨best, q'⟩, hrun⟩ := answers_run seed ⟨1, total⟩ q
    (hwhole ▸ answers_of_wellScored hscored)
  obtain ⟨b', hb', rfl⟩ := finds_of_run (hwhole ▸ hnumeric) hrun
  rw [hwhole] at hb'
  obtain rfl := hb.unique hb'
  refine ⟨spans, found, p', _, q', hspans, hfound, hrun, hbestOf, ?_, ?_⟩
  · constructor
    · intro hnone k hone hle
      rw [(h k hone hle).fitting_iff]
      rintro ⟨x, hx⟩
      obtain rfl := Option.map_eq_none_iff.1 hnone
      rw [hb k ((hmem k).2 ⟨hone, hle⟩)] at hx
      cases hx
    · intro hnone
      cases b with
      | none => rfl
      | some x =>
        obtain ⟨hone, hle⟩ := (hmem _).1 hb.mem
        exact absurd (fitting_of_score? hb.scored) (hnone x.number hone hle)
  · rintro c hc
    obtain ⟨x, rfl, rfl⟩ := Option.map_eq_some_iff.1 hc
    refine ⟨(hmem _).1 hb.mem, ⟨x, hb.scored, rfl⟩, fun k y hone hle hy => ?_⟩
    have hk := (hmem k).2 ⟨hone, hle⟩
    exact ⟨hb.le k hk y hy, hb.first k hk y hy⟩

/-- A layer of two output channels on a tile of one of them. -/
def twoChannels : Tiling where
  full := { Extents.unit 1 0 0 with outputChannel := 2 }
  tile := Extents.unit 1 0 0
  unroll := Extents.unit 1 0 0

/-- Two candidates shared out among five workers. -/
theorem bestOf_runAll_shareOut_twoChannels :
    let w : Sweep := ⟨⟨twoChannels, [1, 1, 1, 1, 1, 2]⟩, .simd8x8, .output⟩
    ∃ spans found p' best q', Span.shareOut 2 5 = .ok spans
      ∧ w.runAll { tiling := twoChannels } spans (.start 1) = .ok (found, p')
      ∧ w.run { tiling := twoChannels } ⟨1, 2⟩ (.start 1) = .ok (best, q')
      ∧ Candidate.bestOf found = best
      ∧ (best = none ↔ ∀ k, 1 ≤ k → k ≤ 2 → ¬ w.Fitting k)
      ∧ ∀ c, best = some c → (1 ≤ c.number ∧ c.number ≤ 2)
        ∧ (∃ x, w.score? c.number = .ok (some x)
          ∧ c = x.candidate { tiling := twoChannels })
        ∧ ∀ k x, 1 ≤ k → k ≤ 2 → w.score? k = .ok (some x) →
          c.score ≤ x.score ∧ (x.score ≤ c.score → c.number ≤ k) := by
  intro w
  have hscored : ∀ k ∈ List.range' 1 2, w.WellScored k := by decide +kernel
  exact bestOf_runAll_shareOut w { tiling := twoChannels } 5 (.start 1) (.start 1)
    (by decide) fun k hone hle => hscored k (List.mem_range'_1.2 ⟨hone, by omega⟩)

end Sweep

end ConvTiling
