import ConvTiling.Proofs.Costs
import ConvTiling.Proofs.Removal
import ConvTiling.Proofs.Seeding
import ConvTiling.Proofs.Sharing
import ConvTiling.Proofs.TileSpace
import ConvTiling.Proofs.Turning
import ConvTiling.Schedule.Search

/-!
# Every stage of a search gives a valid nest

A search writes the tile and the unrolling in five places: the seed, the removal
of loops, the decoding of a number, the unrolling of a candidate, and the last
quarter turn. A nest that any of them leaves behind is **derived** from the nest
that was given (`LoopNest.DerivedFrom`): each level lies in the one above, the
layer and the order on the chip are those given, and the directions of the order
off the chip agree. A nest derived from a valid one is valid, so the check that
the search makes of its input holds of everything it makes of it.

The statements are about runs that end. A stage that stops at a fault leaves no
nest behind.
-/

namespace ConvTiling

open Checked (Answers bind_eq_ok_iff pure_eq_ok_iff)

/-- **A nest derived from another one** for the same layer. -/
structure LoopNest.DerivedFrom (m n : LoopNest) : Prop where
  nested : m.tiling.Nested
  full : m.tiling.full = n.tiling.full
  offChip : m.offChip.Bijective
  onChip : m.onChip = n.onChip

/-- **A nest derived from a valid one is valid.** -/
theorem LoopNest.DerivedFrom.valid {m n : LoopNest} (h : m.DerivedFrom n) (hn : n.Valid) :
    m.Valid := by
  refine ⟨h.nested.valid, h.offChip, ?_⟩
  rw [h.onChip]
  exact hn.2.2

/-- The untiled nest of a valid layer is valid. -/
theorem LoopNest.valid_untiled {full : Extents} (h : full.Valid) :
    LoopNest.Valid { tiling := .untiled full } := by
  have hstart : LoopOrder.Bijective {} := by decide
  exact ⟨(Tiling.nested_untiled h).valid, hstart, hstart⟩

/-- Every side of a valid array has an element. -/
theorem Accelerator.Valid.one_le_length {a : Accelerator} (ha : a.Valid) (s : Side) :
    1 ≤ a.length s := by
  obtain ⟨⟨hrows, hcolumns⟩, -⟩ := ha
  cases s with
  | row => exact hrows
  | column => exact hcolumns

/-- **No extent of the input map is mapped onto the array.** -/
def Accelerator.MapsNoInput (a : Accelerator) : Prop :=
  .inputWidth ∉ a.mappedDims ∧ .inputHeight ∉ a.mappedDims

instance (a : Accelerator) : Decidable a.MapsNoInput :=
  inferInstanceAs (Decidable (_ ∧ _))

/-- What is mapped onto a side is mapped onto the array. -/
theorem Accelerator.mem_mappedDims {a : Accelerator} {s : Side} {d : Dim}
    (hd : d ∈ a.mapped s) : d ∈ a.mappedDims := by
  cases s with
  | row => exact List.mem_append_left _ hd
  | column => exact List.mem_append_right _ hd

/-- What is mapped onto a side of such an array is none of the input. -/
theorem Accelerator.MapsNoInput.ne_of_mem {a : Accelerator} (h : a.MapsNoInput) {s : Side}
    {d : Dim} (hd : d ∈ a.mapped s) : d ≠ .inputWidth ∧ d ≠ .inputHeight := by
  have hmem := Accelerator.mem_mappedDims hd
  exact ⟨fun hw => h.1 (hw ▸ hmem), fun hh => h.2 (hh ▸ hmem)⟩

/-! ## What a sweep finds was scored -/

namespace Sweep

variable {w : Sweep} {seed : LoopNest} {c : Candidate} {x : Scored} {k : Nat}

/-- **A scored candidate of a sound space is nested**, has the layer of the
seed, and fits the buffers. -/
theorem nested_of_score? (hspace : w.space.Sound) (ha : w.machine.Valid)
    (h : w.score? k = .ok (some x)) :
    x.tiling.Nested ∧ x.tiling.full = w.space.seed.full
      ∧ x.tiling.fits w.machine = .ok true := by
  obtain ⟨t, unroll, ht, hfits, hunroll, htiling, -⟩ := score?_eq_ok_some_iff.1 h
  obtain ⟨hin, _, -, -, rfl⟩ := hspace.tilingAt ht
  have hlies := liesIn_unrollTile hin.one_le
    (fun s => Int.le_of_lt (ha.one_le_length s)) hunroll
  rw [htiling]
  exact ⟨⟨hspace.full, hin, hlies⟩, rfl, hfits⟩

/-- **What a scan holds was scored**, as the candidate of one of some numbers. -/
def Holds (w : Sweep) (ks : List Nat) (s : Scan) : Prop :=
  ∀ x, s.best = some x → x.number ∈ ks ∧ w.score? x.number = .ok (some x)

/-- After a candidate was offered, the best one is that or the one before. -/
theorem eq_of_best_offer {s : Scan} {y : Scored} (hx : (s.offer y).best = some x) :
    x = y ∨ s.best = some x := by
  unfold Scan.offer at hx
  split at hx
  · exact .inl (Option.some.inj hx).symm
  · split at hx
    · exact .inl (Option.some.inj hx).symm
    · exact .inr hx

/-- A visit keeps what a scan holds one of the candidates. -/
theorem Holds.visit {ks : List Nat} {s t : Scan} (h : w.Holds ks s) (hk : k ∈ ks)
    (run : w.visit s k = .ok t) : w.Holds ks t := by
  intro x hx
  obtain ⟨r, hr, run⟩ := bind_eq_ok_iff.1 run
  cases r with
  | none =>
    obtain rfl := pure_eq_ok_iff.1 run
    rw [best_count] at hx
    exact h x hx
  | some y =>
    obtain rfl := pure_eq_ok_iff.1 run
    obtain rfl | hold := eq_of_best_offer hx
    · obtain rfl := number_of_score? hr
      exact ⟨hk, hr⟩
    · rw [best_count] at hold
      exact h x hold

/-- What a stretch finds is one of its candidates, as it was scored. -/
theorem scored_of_run {span : Span} {p p' : Progress}
    (run : w.run seed span p = .ok (some c, p')) :
    ∃ x, x.number ∈ span.numbers ∧ w.score? x.number = .ok (some x)
      ∧ c = x.candidate seed := by
  obtain ⟨s, hs, run⟩ := bind_eq_ok_iff.1 run
  have hbest : w.Holds span.numbers s :=
    Checked.foldlM_keeps (fun _ hk _ _ h hstep => h.visit hk hstep) (by rintro _ ⟨⟩) hs
  obtain ⟨x, hx, rfl⟩ := Option.map_eq_some_iff.1 (congrArg Prod.fst (pure_eq_ok_iff.1 run)).symm
  obtain ⟨hmem, hscored⟩ := hbest x hx
  exact ⟨x, hmem, hscored, rfl⟩

/-- What the stretches find are candidates of them, as they were scored. -/
theorem scored_of_runAll {spans : List Span} {p p' : Progress}
    {found : List (Option Candidate)} (run : w.runAll seed spans p = .ok (found, p'))
    (hc : some c ∈ found) :
    ∃ x, x.number ∈ spans.flatMap Span.numbers ∧ w.score? x.number = .ok (some x)
      ∧ c = x.candidate seed := by
  induction spans generalizing p found with
  | nil =>
    cases Except.ok.inj run
    cases hc
  | cons span spans ih =>
    obtain ⟨⟨d, q⟩, hspan, run⟩ := bind_eq_ok_iff.1 run
    obtain ⟨⟨rest, q'⟩, hrest, run⟩ := bind_eq_ok_iff.1 run
    cases pure_eq_ok_iff.1 run
    rw [List.flatMap_cons]
    obtain rfl | hc := List.mem_cons.1 hc
    · obtain ⟨x, hx, hscored⟩ := scored_of_run hspan
      exact ⟨x, List.mem_append_left _ hx, hscored⟩
    · obtain ⟨x, hx, hscored⟩ := ih hrest hc
      exact ⟨x, List.mem_append_right _ hx, hscored⟩

end Sweep

namespace Candidate

variable {best : Option Candidate} {c d : Candidate}

/-- The better of two candidates is one of them. -/
theorem better_cases (best : Option Candidate) (d : Candidate) :
    better best d = d ∨ best = some (better best d) := by
  unfold better
  split
  · split
    · exact .inr rfl
    · exact .inl rfl
  · exact .inl rfl

/-- Keeping the better one keeps one of the candidates, or the one it started
with. -/
theorem mem_of_foldl_better {cs : List Candidate}
    (h : cs.foldl (fun best c => some (better best c)) best = some c) :
    c ∈ cs ∨ best = some c := by
  induction cs generalizing best with
  | nil => exact .inr h
  | cons d cs ih =>
    obtain hmem | hbetter := ih h
    · exact .inl (List.mem_cons_of_mem d hmem)
    · obtain rfl := Option.some.inj hbetter
      obtain hd | hold := better_cases best d
      · rw [hd]
        exact .inl List.mem_cons_self
      · exact .inr hold

/-- **The best of what was found is one of what was found.** -/
theorem mem_of_bestOf {found : List (Option Candidate)} (h : bestOf found = some c) :
    some c ∈ found := by
  have hmem := (mem_of_foldl_better h).resolve_right (by rintro ⟨⟩)
  obtain ⟨a, ha, hac⟩ := List.mem_filterMap.1 hmem
  obtain rfl : a = some c := hac
  exact ha

end Candidate

/-! ## The stages -/

namespace LoopNest

variable {n m m' : LoopNest} {a : Accelerator} {d : Operand}

/-- **The seed** is derived from the nest it was made for. -/
theorem derived_of_seed (hn : n.Valid) (ha : a.Valid) (run : n.seed a = .ok m) :
    m.DerivedFrom n := by
  obtain ⟨tiling, htiling, run⟩ := bind_eq_ok_iff.1 run
  obtain rfl := pure_eq_ok_iff.1 run
  obtain ⟨hnested, hfull⟩ := Tiling.nested_of_seed hn.1.1 ha.one_le_length htiling
  exact ⟨hnested, hfull, hn.2.1, rfl⟩

/-- **Removing loops**, whether or not any are removed, gives a derived nest. -/
theorem DerivedFrom.removeLoops {r : LoopRemoval} (hm : m.DerivedFrom n)
    (run : m.removeLoops a = .ok r) : r.nest.DerivedFrom n := by
  obtain ⟨hnested, hfull, honChip⟩ := nested_of_removeLoops hm.nested run
  exact ⟨hnested, hfull.trans hm.full, bijective_of_removeLoops hm.offChip run,
    honChip.trans hm.onChip⟩

/-- **Taking on a dataflow** gives a derived nest. -/
theorem DerivedFrom.adoptDataflow (hm : m.DerivedFrom n)
    (run : m.adoptDataflow = .ok (m', d)) : m'.DerivedFrom n := by
  obtain ⟨-, rfl⟩ := adoptDataflow_eq_ok_iff.1 run
  exact ⟨hm.nested, hm.full, LoopOrder.bijective_setDataflow _ _, hm.onChip⟩

/-- **Every scored candidate** of a derived nest is derived, and fits the
buffers. -/
theorem DerivedFrom.candidate {space : TileSpace} {x : Scored} {k : Nat}
    (hm : m.DerivedFrom n) (ha : a.Valid) (hspace : TileSpace.of m.tiling = .ok space)
    (hx : Sweep.score? ⟨space, a, d⟩ k = .ok (some x)) :
    (x.candidate m).nest.DerivedFrom n ∧ x.tiling.fits a = .ok true := by
  obtain ⟨hsound, hseed⟩ := TileSpace.sound_of_of hm.nested hspace
  obtain ⟨hnested, hfull, hfits⟩ := Sweep.nested_of_score? hsound ha hx
  refine ⟨⟨hnested, ?_, hm.offChip, hm.onChip⟩, hfits⟩
  show x.tiling.full = n.tiling.full
  rw [hfull, hseed, hm.full]

end LoopNest

namespace Scheduler

variable {s : Scheduler} {n m : LoopNest} {d : Operand}

/-- **The nest before the dataflow is chosen** is derived from the one given. -/
theorem derived_of_prepare {removal : LoopRemoval} (hn : n.Valid)
    (run : s.prepare n = .ok removal) : removal.nest.DerivedFrom n := by
  obtain ⟨seeded, hseed, hremove⟩ := bind_eq_ok_iff.1 run
  exact (LoopNest.derived_of_seed hn s.valid hseed).removeLoops hremove

/-- **The steps of a sweep of all candidates.** -/
theorem sweep_eq_ok_iff {total : Nat} {best : Option Candidate} :
    s.sweep n d = .ok (total, best) ↔ ∃ space spans found p,
      TileSpace.of n.tiling = .ok space ∧ space.total = .ok total
      ∧ Span.shareOut total s.options.workerCount = .ok spans
      ∧ Sweep.runAll ⟨space, s.accelerator, d⟩ n spans (.start s.options.progressInterval)
          = .ok (found, p)
      ∧ Candidate.bestOf found = best := by
  simp only [sweep, bind_eq_ok_iff, pure_eq_ok_iff, Prod.mk.injEq]
  constructor
  · rintro ⟨space, hspace, _, htotal, spans, hspans, ⟨found, p⟩, hfound, rfl, rfl⟩
    exact ⟨space, spans, found, p, hspace, htotal, hspans, hfound, rfl⟩
  · rintro ⟨space, spans, found, p, hspace, htotal, hspans, hfound, rfl⟩
    exact ⟨space, hspace, total, htotal, spans, hspans, (found, p), hfound, rfl, rfl⟩

/-- **What a sweep of all candidates gives**: how many there are, and of those
that were scored the best one. -/
theorem scored_of_sweep {total : Nat} {c : Candidate}
    (run : s.sweep n d = .ok (total, some c)) :
    ∃ space x, TileSpace.of n.tiling = .ok space ∧ space.total = .ok total
      ∧ (1 ≤ x.number ∧ x.number ≤ total)
      ∧ Sweep.score? ⟨space, s.accelerator, d⟩ x.number = .ok (some x)
      ∧ c = x.candidate n := by
  obtain ⟨space, spans, found, p, hspace, hcount, hspans, hfound, hbest⟩ :=
    sweep_eq_ok_iff.1 run
  obtain ⟨x, hx, hscored, rfl⟩ :=
    Sweep.scored_of_runAll hfound (Candidate.mem_of_bestOf hbest)
  obtain ⟨spans', hspans', hflat⟩ :=
    Span.shareOut_eq_ok (TileSpace.fits_of_total hcount) s.options.workerCount
  rw [hspans] at hspans'
  obtain rfl := Except.ok.inj hspans'
  rw [hflat, List.mem_range'_1] at hx
  exact ⟨space, x, hspace, hcount, by omega, hscored, rfl⟩

/-- **The last step** keeps the best candidate, or turns one that is higher than
wide and scores it again. -/
theorem orient_cases {c : Candidate} {score : Float} (run : s.orient d c = .ok (m, score)) :
    (m = c.nest ∧ score = c.score)
      ∨ c.nest.tiling.tile.outputWidth < c.nest.tiling.tile.outputHeight
        ∧ ∃ tiling, c.nest.tiling.turn? = some tiling
          ∧ tiling.score s.accelerator d = .ok score ∧ m = { c.nest with tiling } := by
  simp only [orient] at run
  by_cases hhigh : c.nest.tiling.tile.outputWidth < c.nest.tiling.tile.outputHeight
  · rw [if_pos hhigh] at run
    cases hturn : c.nest.tiling.turn? with
    | none =>
      rw [hturn] at run
      cases pure_eq_ok_iff.1 run
      exact .inl ⟨rfl, rfl⟩
    | some tiling =>
      rw [hturn] at run
      obtain ⟨score', hscore, run⟩ := bind_eq_ok_iff.1 run
      cases pure_eq_ok_iff.1 run
      exact .inr ⟨hhigh, tiling, rfl, hscore, rfl⟩
  · rw [if_neg hhigh] at run
    cases pure_eq_ok_iff.1 run
    exact .inl ⟨rfl, rfl⟩

/-- **Turning the best candidate** keeps a nest derived, and what fits the
buffers fits them turned. -/
theorem derived_of_orient {c : Candidate} {score : Float} (hc : c.nest.DerivedFrom n)
    (hfits : c.nest.tiling.fits s.accelerator = .ok true)
    (run : s.orient d c = .ok (m, score)) :
    m.DerivedFrom n ∧ m.tiling.fits s.accelerator = .ok true := by
  obtain ⟨rfl, -⟩ | ⟨-, tiling, hturn, -, rfl⟩ := orient_cases run
  · exact ⟨hc, hfits⟩
  · obtain ⟨hnested, hfull⟩ := hc.nested.turn hturn
    exact ⟨⟨hnested, hfull.trans hc.full, hc.offChip, hc.onChip⟩,
      Tiling.fits_of_turn hc.nested hturn hfits⟩

/-- **The steps of a search that ends with a result.** -/
theorem search_eq_ok_iff {r : SearchResult} :
    s.search n = .ok r ↔ n.Valid ∧ ∃ removal, s.prepare n = .ok removal
      ∧ (removal.isFeasible ∨ ¬ s.options.strictMemory)
      ∧ ∃ m d, removal.nest.adoptDataflow = .ok (m, d)
      ∧ ∃ total c, s.sweep m d = .ok (total, some c)
      ∧ ∃ nest score, s.orient d c = .ok (nest, score)
      ∧ r = ⟨nest, d, score, total, removal.isFeasible⟩ := by
  simp only [search, bind_eq_ok_iff, Attempt.accept_eq_ok_iff, Attempt.compute_eq_ok_iff,
    LoopNest.checkValid_eq_ok_iff, require_eq_ok_iff, exists_const]
  refine and_congr_right fun _ => exists_congr fun removal => and_congr_right fun _ =>
    and_congr_right fun _ => ?_
  constructor
  · rintro ⟨⟨m, d⟩, hadopt, ⟨total, best⟩, hsweep, run⟩
    cases best with
    | none => cases run
    | some c =>
      obtain ⟨⟨nest, score⟩, horient, run⟩ := bind_eq_ok_iff.1 run
      exact ⟨m, d, hadopt, total, c, hsweep, nest, score, Attempt.compute_eq_ok_iff.1 horient,
        pure_eq_ok_iff.1 run⟩
  · rintro ⟨m, d, hadopt, total, c, hsweep, nest, score, horient, rfl⟩
    exact ⟨(m, d), hadopt, (total, some c), hsweep,
      bind_eq_ok_iff.2 ⟨(nest, score), Attempt.compute_eq_ok_iff.2 horient, rfl⟩⟩

/-- **Every stage of a search gives a valid nest.** Of a valid nest and a valid
accelerator, with any options: the seed, the nest that is left when loops are
removed or none can be, the nest that has taken on a dataflow, every candidate
that is scored, and the nest that is found. What is found moreover fits the
buffers, and has the layer and the order on the chip of the nest given. -/
theorem stages_valid (s : Scheduler) (n : LoopNest) (hn : n.Valid) :
    (∀ seeded, n.seed s.accelerator = .ok seeded → seeded.Valid)
      ∧ (∀ removal, s.prepare n = .ok removal → removal.nest.Valid
        ∧ ∀ m d, removal.nest.adoptDataflow = .ok (m, d) → m.Valid
          ∧ ∀ space, TileSpace.of m.tiling = .ok space → ∀ k x,
            Sweep.score? ⟨space, s.accelerator, d⟩ k = .ok (some x) →
              (x.candidate m).nest.Valid)
      ∧ ∀ r, s.search n = .ok r → r.nest.Valid
        ∧ r.nest.tiling.fits s.accelerator = .ok true
        ∧ r.nest.tiling.full = n.tiling.full ∧ r.nest.onChip = n.onChip := by
  refine ⟨fun seeded hseed => ?_, fun removal hprepare => ?_, fun r hsearch => ?_⟩
  · exact (LoopNest.derived_of_seed hn s.valid hseed).valid hn
  · have hremoved := derived_of_prepare hn hprepare
    refine ⟨hremoved.valid hn, fun m d hadopt => ?_⟩
    have hadopted := hremoved.adoptDataflow hadopt
    refine ⟨hadopted.valid hn, fun space hspace k x hx => ?_⟩
    obtain ⟨hcandidate, -⟩ := hadopted.candidate s.valid hspace hx
    exact hcandidate.valid hn
  · obtain ⟨-, removal, hprepare, -, m, d, hadopt, total, c, hsweep, nest, score, horient,
      rfl⟩ := search_eq_ok_iff.1 hsearch
    have hadopted := (derived_of_prepare hn hprepare).adoptDataflow hadopt
    obtain ⟨space, x, hspace, -, -, hx, rfl⟩ := scored_of_sweep hsweep
    obtain ⟨hcandidate, hfits⟩ := hadopted.candidate s.valid hspace hx
    obtain ⟨hnest, hfits'⟩ := derived_of_orient hcandidate hfits horient
    exact ⟨hnest.valid hn, hfits', hnest.full, hnest.onChip⟩

/-- A layer with three output channels and twelve candidates. The fourth of them does not
fit the buffers. The fifth does, with two of the channels in its tile, and is the one that is
found: it is turned, since it is higher than it is wide. Every nest on the way is valid. -/
theorem stages_valid_fiveByFour :
    let a : Accelerator :=
      ⟨1, 1.0, 1.0, ⟨64, 64, 64⟩, 1, 3, [.outputWidth], [.outputHeight]⟩
    let s : Scheduler := ⟨a, {}, by decide⟩
    let n : LoopNest := { tiling := .untiled ⟨1, 0, 0, 5, 4, 1, 2, 2, 4, 3, 3⟩ }
    n.Valid ∧ (∃ seeded, n.seed a = .ok seeded ∧ seeded.Valid)
      ∧ (∃ removal m d space x, s.prepare n = .ok removal ∧ removal.nest.Valid
        ∧ removal.nest.adoptDataflow = .ok (m, d) ∧ m.Valid
        ∧ TileSpace.of m.tiling = .ok space ∧ space.total = .ok 12
        ∧ Sweep.score? ⟨space, a, d⟩ 4 = .ok none
        ∧ Sweep.score? ⟨space, a, d⟩ 5 = .ok (some x)
        ∧ x.tiling.tile = ⟨1, 0, 0, 2, 4, 1, 2, 2, 1, 3, 2⟩ ∧ (x.candidate m).nest.Valid)
      ∧ ∃ r, s.search n = .ok r ∧ r.candidates = 12
        ∧ r.nest.tiling.tile = ⟨1, 0, 0, 4, 2, 1, 2, 2, 3, 1, 2⟩ ∧ r.nest.Valid
        ∧ r.nest.tiling.fits a = .ok true
        ∧ r.nest.tiling.full = n.tiling.full ∧ r.nest.onChip = n.onChip := by
  intro a s n
  have hn : n.Valid := by decide
  obtain ⟨hseeded, hprepared, hfound⟩ := stages_valid s n hn
  obtain ⟨seeded, hseed⟩ : Answers (n.seed a) := Checked.answers_of_isOk (by decide +kernel)
  have hstages : (do
      let removal ← s.prepare n
      let adopted ← removal.nest.adoptDataflow
      let space ← TileSpace.of adopted.1.tiling
      let total ← space.total
      let fourth ← Sweep.score? ⟨space, a, adopted.2⟩ 4
      let fifth ← Sweep.score? ⟨space, a, adopted.2⟩ 5
      return (total, fourth.isNone, fifth.map fun x : Scored => x.tiling.tile))
        = .ok (12, true, some ⟨1, 0, 0, 2, 4, 1, 2, 2, 1, 3, 2⟩) := by decide +kernel
  have hend : (do
      let r ← s.search n
      return (r.candidates, r.nest.tiling.tile))
        = .ok (12, ⟨1, 0, 0, 4, 2, 1, 2, 2, 3, 1, 2⟩) := by decide +kernel
  simp only [bind_eq_ok_iff, pure_eq_ok_iff, Prod.mk.injEq] at hstages hend
  obtain ⟨removal, hprepare, ⟨m, d⟩, hadopt, space, hspace, _, htotal, _, hfourth, _, hfifth,
    rfl, hnone, hsome⟩ := hstages
  obtain ⟨r, hsearch, hcandidates, htile⟩ := hend
  obtain rfl := Option.isNone_iff_eq_none.1 hnone.symm
  obtain ⟨x, rfl, hx⟩ := Option.map_eq_some_iff.1 hsome.symm
  obtain ⟨hremoved, hadopts⟩ := hprepared removal hprepare
  obtain ⟨hadopted, hscored⟩ := hadopts m d hadopt
  exact ⟨hn, ⟨seeded, hseed, hseeded seeded hseed⟩,
    ⟨removal, m, d, space, x, hprepare, hremoved, hadopt, hadopted, hspace, htotal, hfourth,
      hfifth, hx, hscored space hspace 5 x hfifth⟩,
    r, hsearch, hcandidates.symm, htile.symm, hfound r hsearch⟩

end Scheduler

end ConvTiling
