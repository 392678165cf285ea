import ConvTiling.Proofs.Stages

/-!
# How a search ends

A search that stops at no fault ends in one of three ways: it is refused because no
two axes could be fully tiled and it was asked to be strict, it is refused because
the sweep found nothing, or it has a result. The first is decided by what the removal
of loops leaves, and the other two by the sweep.

A sweep goes over all the numbers of a space, and what it finds says something of
each of them. If it ends, then every candidate was scored or passed over, and if it
ends with nothing, then every candidate was passed over. So a sweep that ends finds
nothing exactly when no candidate fits the buffers (`Scheduler.Steps.sweep_eq_none_iff`).
The same two facts are followed from one visit to a run of visits, from a stretch to
all stretches, and to the best of what they found (`Sweep.Visited`). What is known at
each stage is whether something is held.

Nothing is assumed of the scores. Which candidate is found depends on how they
compare; *that* one is found does not, as the first one that is scored is kept until
another one takes its place. A score that is not a number is kept like any other.
-/

namespace ConvTiling

open Checked (Answers bind_eq_ok_iff pure_eq_ok_iff)

namespace Sweep

variable {w : Sweep} {ks ls : List Nat} {k : Nat} {empty empty' : Prop}

/-- **A candidate that has an answer** fits the buffers exactly when it is
scored. -/
theorem fitting_iff_of_score? {r : Option Scored} (h : w.score? k = .ok r) :
    w.Fitting k ↔ r ≠ none := by
  cases r with
  | none => exact iff_of_false (not_fitting_of_score? h) (fun hne => hne rfl)
  | some x => exact iff_of_true (fitting_of_score? h) (Option.some_ne_none x)

/-- **Some numbers were visited**: each of their candidates has an answer, and
nothing is held exactly when none of them fits the buffers. -/
structure Visited (w : Sweep) (ks : List Nat) (empty : Prop) : Prop where
  answers : ∀ k ∈ ks, Answers (w.score? k)
  empty_iff : empty ↔ ∀ k ∈ ks, ¬ w.Fitting k

/-- Where no number was visited nothing is held. -/
theorem Visited.nil (w : Sweep) (h : empty) : w.Visited [] empty where
  answers _ hk := absurd hk List.not_mem_nil
  empty_iff := iff_of_true h fun _ hk => absurd hk List.not_mem_nil

/-- One number was visited if its candidate has an answer. -/
theorem Visited.singleton {r : Option Scored} (h : w.score? k = .ok r) :
    w.Visited [k] (r = none) where
  answers j hj := by
    obtain rfl := List.mem_singleton.1 hj
    exact ⟨r, h⟩
  empty_iff := by
    rw [List.forall_mem_singleton, fitting_iff_of_score? h, not_not]

/-- **More numbers were visited**: nothing is held of all of them where nothing is
held of either part. -/
theorem Visited.append (h : w.Visited ks empty) (h' : w.Visited ls empty') :
    w.Visited (ks ++ ls) (empty ∧ empty') where
  answers := List.forall_mem_append.2 ⟨h.answers, h'.answers⟩
  empty_iff := by rw [List.forall_mem_append, h.empty_iff, h'.empty_iff]

/-- What is held may be said in another way. -/
theorem Visited.congr (h : w.Visited ks empty) (hiff : empty' ↔ empty) :
    w.Visited ks empty' :=
  ⟨h.answers, hiff.trans h.empty_iff⟩

/-! ## From one visit to all stretches -/

/-- A scan that is offered a candidate holds one. -/
theorem best_offer_ne_none (s : Scan) (x : Scored) : (s.offer x).best ≠ none := by
  unfold Scan.offer
  split
  · exact Option.some_ne_none x
  · next y hy =>
    split
    · exact Option.some_ne_none x
    · rw [hy]
      exact Option.some_ne_none y

/-- **One visit** holds nothing exactly when nothing was held before and the
candidate is passed over. -/
theorem Visited.visit {s t : Scan} (h : w.Visited ks (s.best = none))
    (run : w.visit s k = .ok t) : w.Visited (ks ++ [k]) (t.best = none) := by
  obtain ⟨r, hr, run⟩ := bind_eq_ok_iff.1 run
  refine (h.append (.singleton hr)).congr ?_
  cases r with
  | none =>
    obtain rfl := pure_eq_ok_iff.1 run
    rw [best_count, and_iff_left rfl]
  | some x =>
    obtain rfl := pure_eq_ok_iff.1 run
    exact iff_of_false (best_offer_ne_none s.count x) fun h => Option.some_ne_none x h.2

/-- **A run of visits.** -/
theorem Visited.foldlM_visit {s t : Scan} (h : w.Visited ks (s.best = none))
    (run : ls.foldlM w.visit s = .ok t) : w.Visited (ks ++ ls) (t.best = none) := by
  induction ls generalizing ks s with
  | nil =>
    obtain rfl : t = s := pure_eq_ok_iff.1 run
    rwa [List.append_nil]
  | cons k ls ih =>
    obtain ⟨s', hstep, hrest⟩ := Checked.foldlM_cons_eq_ok_iff.1 run
    rw [List.append_cons]
    exact ih (h.visit hstep) hrest

variable {seed : LoopNest} {p p' : Progress}

/-- A stretch that was swept was visited. -/
theorem visited_of_run {span : Span} {found : Option Candidate}
    (run : w.run seed span p = .ok (found, p')) : w.Visited span.numbers (found = none) := by
  obtain ⟨s, hs, run⟩ := bind_eq_ok_iff.1 run
  cases pure_eq_ok_iff.1 run
  exact ((Visited.nil w rfl).foldlM_visit hs).congr Option.map_eq_none_iff

/-- All the stretches that were swept were visited. -/
theorem visited_of_runAll {spans : List Span} {found : List (Option Candidate)}
    (run : w.runAll seed spans p = .ok (found, p')) :
    w.Visited (spans.flatMap Span.numbers) (∀ c ∈ found, c = none) := by
  induction spans generalizing p found with
  | nil =>
    cases Except.ok.inj run
    exact .nil w fun _ hc => absurd hc List.not_mem_nil
  | cons span spans ih =>
    obtain ⟨⟨c, q⟩, hspan, run⟩ := bind_eq_ok_iff.1 run
    obtain ⟨⟨rest, q'⟩, hrest, run⟩ := bind_eq_ok_iff.1 run
    cases pure_eq_ok_iff.1 run
    rw [List.flatMap_cons]
    exact ((visited_of_run hspan).append (ih hrest)).congr List.forall_mem_cons

end Sweep

/-! ## The sweep -/

namespace Candidate

/-- Keeping the better one never loses what is kept. -/
theorem foldl_better_ne_none (cs : List Candidate) (c : Candidate) :
    cs.foldl (fun best c => some (better best c)) (some c) ≠ none := by
  induction cs generalizing c with
  | nil => exact Option.some_ne_none c
  | cons d cs ih => exact ih (better (some c) d)

/-- **There is no best of what was found** exactly when nothing was found. -/
theorem bestOf_eq_none_iff {found : List (Option Candidate)} :
    bestOf found = none ↔ ∀ c ∈ found, c = none := by
  have hnil : found.filterMap id = [] ↔ ∀ c ∈ found, c = none := List.filterMap_eq_nil_iff
  rw [← hnil]
  unfold bestOf
  cases found.filterMap id with
  | nil => exact iff_of_true rfl rfl
  | cons c cs =>
    exact iff_of_false (foldl_better_ne_none cs (better none c)) (List.cons_ne_nil c cs)

end Candidate

namespace Scheduler

variable {s : Scheduler} {n m : LoopNest} {removal : LoopRemoval} {d : Operand}
  {space : TileSpace} {total : Nat} {best : Option Candidate}

/-- **A sweep that ends visits every candidate** of the space. -/
theorem visited_of_sweep (run : s.sweep m d = .ok (total, best)) :
    ∃ space, TileSpace.of m.tiling = .ok space ∧ space.total = .ok total
      ∧ Sweep.Visited ⟨space, s.accelerator, d⟩ (List.range' 1 total) (best = none) := by
  obtain ⟨space, spans, found, p, hspace, htotal, hspans, hfound, rfl⟩ :=
    sweep_eq_ok_iff.1 run
  obtain ⟨spans', hspans', hflat⟩ :=
    Span.shareOut_eq_ok (TileSpace.fits_of_total htotal) s.options.workerCount
  rw [hspans] at hspans'
  obtain rfl := Except.ok.inj hspans'
  have hvisited := Sweep.visited_of_runAll hfound
  rw [hflat] at hvisited
  exact ⟨space, hspace, htotal, hvisited.congr Candidate.bestOf_eq_none_iff⟩

/-! ## The steps of a search -/

/-- **What a search has computed** when it begins to sweep: what the removal of loops
leaves, the nest that has taken on a dataflow, and the space of its candidates with
their number. -/
structure Steps (s : Scheduler) (n : LoopNest) (removal : LoopRemoval) (m : LoopNest)
    (d : Operand) (space : TileSpace) (total : Nat) : Prop where
  prepared : s.prepare n = .ok removal
  adopted : removal.nest.adoptDataflow = .ok (m, d)
  spanned : TileSpace.of m.tiling = .ok space
  counted : space.total = .ok total

/-- The nest that a valid nest is swept as is derived from it. -/
theorem Steps.derived (h : s.Steps n removal m d space total) (hn : n.Valid) :
    m.DerivedFrom n :=
  (derived_of_prepare hn h.prepared).adoptDataflow h.adopted

/-- The space of a valid nest is sound, and starts from the nest that is swept. -/
theorem Steps.sound (h : s.Steps n removal m d space total) (hn : n.Valid) :
    space.Sound ∧ space.seed = m.tiling :=
  TileSpace.sound_of_of (h.derived hn).nested h.spanned

/-- A sweep counts the candidates of the space. -/
theorem Steps.visited (h : s.Steps n removal m d space total) {count : Nat}
    (run : s.sweep m d = .ok (count, best)) : count = total
      ∧ Sweep.Visited ⟨space, s.accelerator, d⟩ (List.range' 1 total) (best = none) := by
  obtain ⟨space', hspace, htotal, hvisited⟩ := visited_of_sweep run
  obtain rfl := Except.ok.inj (h.spanned.symm.trans hspace)
  obtain rfl := Except.ok.inj (h.counted.symm.trans htotal)
  exact ⟨rfl, hvisited⟩

/-- **A sweep that ends finds nothing** exactly when no candidate fits the
buffers. -/
theorem Steps.sweep_eq_none_iff (h : s.Steps n removal m d space total)
    (run : s.sweep m d = .ok (total, best)) :
    best = none ↔ ∀ k, 1 ≤ k → k ≤ total →
      ¬ Sweep.Fitting ⟨space, s.accelerator, d⟩ k := by
  obtain ⟨-, hvisited⟩ := h.visited run
  rw [hvisited.empty_iff]
  refine forall_congr' fun k => ?_
  rw [List.mem_range'_1, Nat.add_comm, Nat.lt_succ_iff, and_imp]

/-! ## The three endings -/

/-- A strict search is refused where no two axes could be fully tiled. -/
theorem search_eq_memoryOverflow (hn : n.Valid) (hprepare : s.prepare n = .ok removal)
    (hrefused : ¬ (removal.isFeasible ∨ ¬ s.options.strictMemory)) :
    s.search n = .error (.refused .memoryOverflow) := by
  have hcheck : n.checkValid = .ok () := LoopNest.checkValid_eq_ok_iff.2 hn
  have hrequire : require (ε := ScheduleError)
      (removal.isFeasible ∨ ¬ s.options.strictMemory) .memoryOverflow
        = .error .memoryOverflow := if_neg hrefused
  simp only [search, hcheck, hprepare, hrequire, Attempt.accept, Attempt.compute, bind,
    Except.bind, id]

/-- **A search that finds nothing** is refused for that. -/
theorem search_eq_noFeasibleTiling (hn : n.Valid) (hprepare : s.prepare n = .ok removal)
    (hadmitted : removal.isFeasible ∨ ¬ s.options.strictMemory)
    (hadopt : removal.nest.adoptDataflow = .ok (m, d))
    (hsweep : s.sweep m d = .ok (total, none)) :
    s.search n = .error (.refused (.noFeasibleTiling total)) := by
  have hcheck : n.checkValid = .ok () := LoopNest.checkValid_eq_ok_iff.2 hn
  have hrequire : require (ε := ScheduleError)
      (removal.isFeasible ∨ ¬ s.options.strictMemory) .memoryOverflow = .ok () :=
    require_eq_ok_iff.2 hadmitted
  simp only [search, hcheck, hprepare, hrequire, hadopt, hsweep, Attempt.accept,
    Attempt.compute, bind, Except.bind]
  rfl

/-- **The steps of a search that stops at no fault.** Loops of the nest are removed; and
unless the search is refused for what is left then, a space is swept, and what is
found there can be turned. -/
theorem steps_of_faultFree (hn : n.Valid) (hrun : Attempt.FaultFree (s.search n)) :
    ∃ removal, s.prepare n = .ok removal
      ∧ ((removal.isFeasible ∨ ¬ s.options.strictMemory) →
        ∃ m d space total best, s.Steps n removal m d space total
          ∧ s.sweep m d = .ok (total, best)
          ∧ ∀ c, best = some c → Answers (s.orient d c)) := by
  have hrun := Attempt.faultFree_accept_bind_iff.1 hrun ()
    (LoopNest.checkValid_eq_ok_iff.2 hn)
  obtain ⟨removal, hprepare, hrun⟩ := Attempt.faultFree_compute_bind_iff.1 hrun
  refine ⟨removal, hprepare, fun hadmitted => ?_⟩
  have hrun := Attempt.faultFree_accept_bind_iff.1 hrun () (require_eq_ok_iff.2 hadmitted)
  obtain ⟨⟨m, d⟩, hadopt, hrun⟩ := Attempt.faultFree_compute_bind_iff.1 hrun
  obtain ⟨⟨total, best⟩, hsweep, hrun⟩ := Attempt.faultFree_compute_bind_iff.1 hrun
  obtain ⟨space, hspace, htotal, -⟩ := visited_of_sweep hsweep
  refine ⟨m, d, space, total, best, ⟨hprepare, hadopt, hspace, htotal⟩, hsweep, ?_⟩
  rintro c rfl
  obtain ⟨oriented, horient, -⟩ := Attempt.faultFree_compute_bind_iff.1 hrun
  exact ⟨oriented, horient⟩

end Scheduler

end ConvTiling
