import ConvTiling.Proofs.Endings

/-!
# The reports of a sweep add up

A sweep counts a candidate as visited before it scores it, and reports the count
in batches. What was reported and what is still to be reported make up what was
visited (`Scan.visited`); a visit adds one to it, whatever becomes of the candidate,
and what is still to be reported is always less than a batch (`Scan.CountedFrom`). The
report at the end of a stretch leaves nothing unreported. So the reports of a stretch add
up to its length (`Sweep.progress_of_run`), and those of several stretches to the length
of all of them, in whatever order they are swept (`Sweep.progress_of_runAll`). Nothing
checks what is added to the count, and nothing has to: at no time are more candidates
visited than there are in all, and how many those are is a count
(`Sweep.visited_le_of_shareOut`).

The length of a batch only decides when a count is reported. Two sweeps that differ in
their progress visit the same candidates side by side and hold the same one after each of
them, so they find the same (`Sweep.alike_run_progress`).
-/

namespace ConvTiling

open Checked (Answers bind_eq_ok_iff pure_eq_ok_iff)

namespace Scan

variable {p : Progress} {n : Nat} {s : Scan}

/-- **How many candidates were visited**: those reported, and those still to be
reported. -/
def visited (s : Scan) : Nat := s.progress.evaluated + s.pending

/-- **So many candidates were counted** since the progress was `p`: all of them are
reported or still to be reported, and less than a batch is still to be. -/
structure CountedFrom (p : Progress) (n : Nat) (s : Scan) : Prop where
  visited : s.visited = p.evaluated + n
  interval : s.progress.interval = p.interval
  pending_lt : 1 ≤ p.interval → s.pending < p.interval

/-- A stretch begins with no candidate counted. -/
theorem countedFrom_start (p : Progress) : CountedFrom p 0 { progress := p } where
  visited := rfl
  interval := rfl
  pending_lt h := h

/-- **Counting a candidate** adds one, and reports the batch as soon as it is full. -/
theorem CountedFrom.count (h : s.CountedFrom p n) : s.count.CountedFrom p (n + 1) := by
  have hvisited : s.progress.evaluated + s.pending = p.evaluated + n := h.visited
  have hinterval := h.interval
  unfold Scan.count
  split
  · refine ⟨?_, hinterval, id⟩
    show s.progress.evaluated + (s.pending + 1) + 0 = p.evaluated + (n + 1)
    omega
  · next hfull =>
    refine ⟨?_, hinterval, fun hone => ?_⟩
    · show s.progress.evaluated + (s.pending + 1) = p.evaluated + (n + 1)
      omega
    · have hlt := h.pending_lt hone
      show s.pending + 1 < p.interval
      omega

/-- Taking a candidate into account leaves the count. -/
theorem CountedFrom.offer (h : s.CountedFrom p n) (x : Scored) :
    (s.offer x).CountedFrom p n := by
  unfold Scan.offer
  split
  · exact ⟨h.visited, h.interval, h.pending_lt⟩
  · split
    · exact ⟨h.visited, h.interval, h.pending_lt⟩
    · exact h

/-- **At the end everything counted is reported.** -/
theorem CountedFrom.progress_finish (h : s.CountedFrom p n) :
    s.finish.progress = { p with evaluated := p.evaluated + n } := by
  have hvisited : s.progress.evaluated + s.pending = p.evaluated + n := h.visited
  have hprogress : s.finish.progress
      = ⟨s.progress.evaluated + s.pending, s.progress.interval⟩ := by
    unfold Scan.finish
    split
    · rfl
    · next hnone =>
      rw [show s.pending = 0 by omega]
      rfl
  rw [hprogress, hvisited, h.interval]

end Scan

namespace Sweep

variable {w : Sweep} {seed : LoopNest} {p p' : Progress} {n : Nat}

/-! ## What is reported -/

/-- **A visit** adds one to the candidates counted, whether the candidate is scored or
passed over. -/
theorem countedFrom_of_visit {s t : Scan} {k : Nat} (h : s.CountedFrom p n)
    (run : w.visit s k = .ok t) : t.CountedFrom p (n + 1) := by
  obtain ⟨r, -, run⟩ := bind_eq_ok_iff.1 run
  cases r with
  | none =>
    obtain rfl := pure_eq_ok_iff.1 run
    exact h.count
  | some x =>
    obtain rfl := pure_eq_ok_iff.1 run
    exact h.count.offer x

/-- A run of visits adds as many as there are numbers. -/
theorem countedFrom_of_foldlM {s t : Scan} {ks : List Nat} (h : s.CountedFrom p n)
    (run : ks.foldlM w.visit s = .ok t) : t.CountedFrom p (n + ks.length) := by
  induction ks generalizing s n with
  | nil =>
    obtain rfl := pure_eq_ok_iff.1 run
    exact h
  | cons k ks ih =>
    obtain ⟨u, hstep, hrest⟩ := Checked.foldlM_cons_eq_ok_iff.1 run
    rw [List.length_cons, Nat.add_comm ks.length, ← Nat.add_assoc]
    exact ih (countedFrom_of_visit h hstep) hrest

/-- **The reports of a stretch add up to its length.** -/
theorem progress_of_run {span : Span} {found : Option Candidate}
    (run : w.run seed span p = .ok (found, p')) :
    p' = { p with evaluated := p.evaluated + span.numbers.length } := by
  obtain ⟨s, hs, run⟩ := bind_eq_ok_iff.1 run
  cases pure_eq_ok_iff.1 run
  rw [(countedFrom_of_foldlM (Scan.countedFrom_start p) hs).progress_finish, Nat.zero_add]

/-- **The reports of several stretches** add up to the length of all of them. -/
theorem progress_of_runAll {spans : List Span} {found : List (Option Candidate)}
    (run : w.runAll seed spans p = .ok (found, p')) :
    p' = { p with evaluated := p.evaluated + (spans.flatMap Span.numbers).length } := by
  induction spans generalizing p found with
  | nil =>
    cases Except.ok.inj run
    rfl
  | cons span spans ih =>
    obtain ⟨⟨c, q⟩, hspan, run⟩ := bind_eq_ok_iff.1 run
    obtain ⟨⟨rest, q'⟩, hrest, run⟩ := bind_eq_ok_iff.1 run
    cases pure_eq_ok_iff.1 run
    rw [ih hrest, progress_of_run hspan, List.flatMap_cons, List.length_append, Nat.add_assoc]

/-- **The count of a sweep is bounded by the candidates in all**, and so stays a count:
however far the stretches that were shared out have been swept, and in whatever order, no
more candidates are reported or still to be reported. -/
theorem visited_le_of_shareOut {total workers interval : Nat} {spans done rest : List Span}
    {span : Span} {before after : List Nat} {found : List (Option Candidate)} {s : Scan}
    (htotal : Count.Fits total) (hspans : Span.shareOut total workers = .ok spans)
    (horder : (done ++ span :: rest).Perm spans) (hspan : span.numbers = before ++ after)
    (hdone : w.runAll seed done (.start interval) = .ok (found, p))
    (hbefore : before.foldlM w.visit { progress := p } = .ok s) :
    s.visited ≤ total ∧ Count.Fits s.visited := by
  have hreported : p.evaluated = 0 + (done.flatMap Span.numbers).length :=
    congrArg Progress.evaluated (progress_of_runAll hdone)
  have hvisited := (countedFrom_of_foldlM (Scan.countedFrom_start p) hbefore).visited
  have hall := (Span.perm_numbers_of_shareOut htotal hspans horder).length_eq
  rw [List.flatMap_append, List.flatMap_cons, hspan, Span.numbers, List.length_range',
    Nat.add_sub_cancel] at hall
  simp only [List.length_append] at hall
  have hle : s.visited ≤ total := by omega
  exact ⟨hle, Nat.le_trans hle htotal⟩

/-! ## What is found does not depend on the reports -/

/-- Two scans that hold the same candidate hold the same one after an offer. -/
theorem best_offer_congr {s t : Scan} (h : s.best = t.best) (x : Scored) :
    (s.offer x).best = (t.offer x).best := by
  unfold Scan.offer
  rw [h]
  cases hbest : t.best with
  | none => rfl
  | some y =>
    by_cases hlt : x.score < y.score
    · simp only [if_pos hlt]
    · simp only [if_neg hlt]
      exact h

/-- **A visit** holds the same candidate, whatever was reported. -/
theorem alike_visit (w : Sweep) (k : Nat) {s t : Scan} (h : s.best = t.best) :
    Alike (fun s t : Scan => s.best = t.best) (w.visit s k) (w.visit t k) := by
  have hcount : s.count.best = t.count.best := by rw [best_count, best_count, h]
  refine .bind_same _ fun r => ?_
  cases r with
  | none => exact .answer hcount
  | some x => exact .answer (best_offer_congr hcount x)

/-- **A stretch** finds the same, whatever the progress it begins with. -/
theorem alike_run_progress (w : Sweep) (seed : LoopNest) (span : Span) (p q : Progress) :
    Alike (fun r r' : Option Candidate × Progress => r.1 = r'.1) (w.run seed span p)
      (w.run seed span q) := by
  refine .bind (.foldlM (fun k _ _ h => alike_visit w k h) span.numbers rfl) fun s t h => ?_
  refine .answer ?_
  rw [h]

/-- All stretches find the same, whatever the progress they begin with. -/
theorem alike_runAll_progress (w : Sweep) (seed : LoopNest) (spans : List Span)
    (p q : Progress) :
    Alike (fun r r' : List (Option Candidate) × Progress => r.1 = r'.1)
      (w.runAll seed spans p) (w.runAll seed spans q) := by
  induction spans generalizing p q with
  | nil => exact .answer rfl
  | cons span spans ih =>
    refine .bind (alike_run_progress w seed span p q) fun r r' hr => ?_
    refine .bind (ih r.2 r'.2) fun rest rest' hrest => ?_
    refine .answer ?_
    rw [hr, hrest]

/-! ## The progress of a sweep -/

/-- A stretch is swept exactly if each of its candidates has an answer. -/
theorem answers_run_iff (seed : LoopNest) (span : Span) (p : Progress) :
    Answers (w.run seed span p) ↔ ∀ k ∈ span.numbers, Answers (w.score? k) :=
  ⟨fun ⟨_, run⟩ => (visited_of_run run).answers, answers_run seed span p⟩

/-- Several stretches are swept exactly if each of their candidates has an answer. -/
theorem answers_runAll_iff (seed : LoopNest) (spans : List Span) (p : Progress) :
    Answers (w.runAll seed spans p)
      ↔ ∀ k ∈ spans.flatMap Span.numbers, Answers (w.score? k) :=
  ⟨fun ⟨_, run⟩ => (visited_of_runAll run).answers, answers_runAll seed spans p⟩

/-- **The progress of a sweep is exact.** A stretch is swept if each of its candidates has
an answer, and then as many are reported as it is long, whether they were scored or passed
over. On the way all that were visited are reported or still to be reported, less than a
batch of them still to be, so no report goes beyond the last one. What is found does not
depend on the progress, and so not on the length of a batch. And whatever the number of
workers, their stretches report all the candidates, in whatever order they are swept. -/
theorem progress_exact (w : Sweep) (seed : LoopNest) {p : Progress} (hp : 1 ≤ p.interval) :
    (∀ span : Span,
      (Answers (w.run seed span p) ↔ ∀ k ∈ span.numbers, Answers (w.score? k))
      ∧ (∀ found p', w.run seed span p = .ok (found, p') →
        p' = { p with evaluated := p.evaluated + (span.last + 1 - span.first) })
      ∧ (∀ before after s, span.numbers = before ++ after →
        before.foldlM w.visit { progress := p } = .ok s →
        s.progress.evaluated + s.pending = p.evaluated + before.length
          ∧ s.pending < p.interval)
      ∧ ∀ q, (w.run seed span q).map Prod.fst = (w.run seed span p).map Prod.fst)
    ∧ ∀ total workers, Count.Fits total →
      ∃ spans, Span.shareOut total workers = .ok spans
        ∧ ∀ order : List Span, order.Perm spans →
          (Answers (w.runAll seed order p) ↔ ∀ k, 1 ≤ k → k ≤ total → Answers (w.score? k))
          ∧ (∀ found p', w.runAll seed order p = .ok (found, p') →
            p' = { p with evaluated := p.evaluated + total })
          ∧ ∀ q, (w.runAll seed order q).map Prod.fst = (w.runAll seed order p).map Prod.fst := by
  refine ⟨fun span => ⟨answers_run_iff seed span p, fun found p' run => ?_,
    fun before after s _ run => ?_, fun q => (alike_run_progress w seed span q p).map_eq⟩,
    fun total workers htotal => ?_⟩
  · rw [progress_of_run run, Span.numbers, List.length_range']
  · have h := countedFrom_of_foldlM (Scan.countedFrom_start p) run
    rw [Nat.zero_add] at h
    exact ⟨h.visited, h.pending_lt hp⟩
  · obtain ⟨spans, hspans, -⟩ := Span.shareOut_eq_ok htotal workers
    refine ⟨spans, hspans, fun order horder => ?_⟩
    have hperm := Span.perm_numbers_of_shareOut htotal hspans horder
    refine ⟨?_, fun found p' run => ?_, fun q => (alike_runAll_progress w seed order q p).map_eq⟩
    · rw [answers_runAll_iff]
      refine forall_congr' fun k => ?_
      rw [hperm.mem_iff, Span.mem_numbers, and_imp]
    · rw [progress_of_runAll run, hperm.length_eq, Span.numbers, List.length_range',
        Nat.add_sub_cancel]

/-- Two candidates swept with seven reported before and three to a batch: by one worker,
and by five whose stretches are swept last one first. -/
theorem progress_exact_twoChannels :
    let w : Sweep := ⟨⟨twoChannels, [1, 1, 1, 1, 1, 2]⟩, .simd8x8, .output⟩
    1 ≤ (⟨7, 3⟩ : Progress).interval
      ∧ (∃ found, w.run { tiling := twoChannels } ⟨1, 2⟩ ⟨7, 3⟩ = .ok (found, ⟨9, 3⟩))
      ∧ Count.Fits 2
      ∧ ∃ spans, Span.shareOut 2 5 = .ok spans
        ∧ ∃ found, w.runAll { tiling := twoChannels } spans.reverse ⟨7, 3⟩
            = .ok (found, ⟨9, 3⟩) := by
  intro w
  have hscored : ∀ k ∈ Span.numbers ⟨1, 2⟩, w.WellScored k := by decide +kernel
  have hanswers := answers_of_wellScored hscored
  obtain ⟨hstretch, hshared⟩ :=
    progress_exact w { tiling := twoChannels } (p := ⟨7, 3⟩) (by decide)
  obtain ⟨hrun, hreported, -, -⟩ := hstretch ⟨1, 2⟩
  obtain ⟨spans, hspans, hall⟩ := hshared 2 5 (by decide)
  obtain ⟨hrunAll, hallReported, -⟩ := hall spans.reverse spans.reverse_perm
  obtain ⟨⟨found, p'⟩, run⟩ := hrun.2 hanswers
  obtain ⟨⟨founds, q'⟩, runs⟩ := hrunAll.2 fun k hone hle =>
    hanswers k (Span.mem_numbers.2 ⟨hone, hle⟩)
  obtain rfl : p' = ⟨9, 3⟩ := hreported found p' run
  obtain rfl : q' = ⟨9, 3⟩ := hallReported founds q' runs
  exact ⟨by decide, ⟨found, run⟩, by decide, spans, hspans, founds, runs⟩

end Sweep

end ConvTiling
