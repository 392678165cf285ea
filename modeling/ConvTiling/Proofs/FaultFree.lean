import ConvTiling.Proofs.Reports
import ConvTiling.Proofs.Stages

/-!
# The search of a moderate layer meets no fault

Every operation on words that a search carries out has an answer, for every
layer of moderate size and every array whose elements can be counted in half of a
word: the seed, the removal of loops, the choice of the dataflow, the space, each
of its candidates, and the last quarter turn. A search can be refused, and it
cannot stop at a fault (`Scheduler.search_faultFree`).

Each stage has an answer where the one before it left a nested tiling in a
moderate layer, and that is what the stages leave behind. So the proof is a walk
along the stages, with the answers from one side and what they are like from the
other.
-/

namespace ConvTiling

open Checked (Answers)

namespace Accelerator

/-- **An array whose elements can be counted** in half of a word. -/
def Countable (a : Accelerator) : Prop := a.rows * a.columns ≤ 4611686018427387904

variable {a : Accelerator}

instance : Decidable a.Countable := inferInstanceAs (Decidable (_ ≤ _))

/-- The number of elements of a countable array is a word. -/
theorem Countable.fits_elements (hc : a.Countable) (ha : a.Valid) :
    Signed.Fits (a.rows * a.columns) := by
  obtain ⟨⟨hrows, hcolumns⟩, -⟩ := ha
  have hpos := Int.mul_pos hrows hcolumns
  unfold Countable at hc
  constructor <;> omega

/-- A side of a countable array can be factored. -/
theorem Countable.length_lt (hc : a.Countable) (ha : a.Valid) (s : Side) :
    a.length s < 3037000499 * 3037000499 := by
  have hrow := ha.one_le_length .row
  have hcolumn := ha.one_le_length .column
  unfold Countable at hc
  cases s with
  | row =>
    have : a.rows ≤ a.rows * a.columns := le_mul_of_one_le_right (by
      show 0 ≤ a.length .row
      omega) hcolumn
    show a.rows < _
    omega
  | column =>
    have : a.columns ≤ a.rows * a.columns := le_mul_of_one_le_left (by
      show 0 ≤ a.length .column
      omega) hrow
    show a.columns < _
    omega

end Accelerator

/-! ## Candidates -/

namespace Sweep

variable {w : Sweep} {k : Nat} {x : Scored}

/-- **Every number from `1` on is scored or passed over** in a moderate layer. -/
theorem answers_score? (hspace : w.space.Sound) (hfull : w.space.seed.full.Moderate)
    (ha : w.machine.Valid) (hc : w.machine.Countable) (hk : 1 ≤ k) :
    Answers (w.score? k) := by
  refine (hspace.answers_tilingAt hfull hk).bind fun t ht => ?_
  obtain ⟨hin, _, -, -, htiling⟩ := hspace.tilingAt ht
  have hlayer : t.full = w.space.seed.full := by rw [htiling]
  rw [← hlayer] at hfull hin
  refine (Tiling.answers_fits hfull hin).bind fun b _ => ?_
  cases b with
  | false => exact Checked.answers_pure _
  | true =>
    have hone := ha.one_le_length
    have hnonneg : ∀ s, 0 ≤ w.machine.length s := fun s => Int.le_of_lt (hone s)
    refine (answers_unrollTile hin.one_le (fun d => hfull.fits_get hin d) hnonneg
      (hc.length_lt ha)).bind fun unroll hunroll => ?_
    have hlies := liesIn_unrollTile hin.one_le hnonneg hunroll
    refine Answers.bind ?_ fun _ _ => Checked.answers_pure _
    exact Tiling.answers_score (t := { t with unroll }) hfull hin hlies hone
      (hc.fits_elements ha) w.dataflow

/-- **Something is moved for every scored candidate.** -/
theorem traffic_pos_of_score? (hspace : w.space.Sound) (ha : w.machine.Valid)
    (h : w.score? k = .ok (some x)) :
    ∃ bytes, x.tiling.traffic w.dataflow = .ok bytes ∧ 0 < bytes := by
  obtain ⟨hnested, -, -⟩ := nested_of_score? hspace ha h
  obtain ⟨-, -, -, -, -, -, hscore, -⟩ := score?_eq_ok_some_iff.1 h
  exact ⟨_, Tiling.answers_traffic_of_score hscore,
    Tiling.movedBytes_pos hnested.full.one_le_get hnested.tile.one_le w.dataflow⟩

end Sweep

/-! ## The stages -/

namespace LoopNest

variable {n m : LoopNest} {a : Accelerator} {d : Operand}

/-- A moderate layer is seeded. -/
theorem answers_seed (hfull : n.tiling.full.Moderate) (ha : a.Valid) (hc : a.Countable) :
    Answers (n.seed a) :=
  (Tiling.answers_seed hfull ha.one_le_length (hc.length_lt ha)).bind
    fun _ _ => Checked.answers_pure _

/-- A moderate layer is seeded and loops of it are removed. -/
theorem answers_seed_removeLoops (hn : n.Valid) (hfull : n.tiling.full.Moderate)
    (ha : a.Valid) (hc : a.Countable) :
    Answers (do let seeded ← n.seed a; seeded.removeLoops a) := by
  refine (answers_seed hfull ha hc).bind fun seeded hseeded => ?_
  have hderived := derived_of_seed hn ha hseeded
  exact answers_removeLoops (hderived.full ▸ hfull) hderived.nested

/-- A dataflow is chosen for a moderate layer. -/
theorem DerivedFrom.answers_adoptDataflow (hm : m.DerivedFrom n)
    (hfull : n.tiling.full.Moderate) : Answers m.adoptDataflow :=
  (Tiling.answers_chooseDataflow (hm.full ▸ hfull) hm.nested.tile).bind
    fun _ _ => Checked.answers_pure _

/-- **The space of a nest derived from a moderate one** has a number of tiles. -/
theorem DerivedFrom.answers_space (hm : m.DerivedFrom n) (hfull : n.tiling.full.Moderate) :
    ∃ space total, TileSpace.of m.tiling = .ok space ∧ space.total = .ok total := by
  obtain ⟨space, hspace⟩ := TileSpace.answers_of (hm.full ▸ hfull) hm.nested.tile
  obtain ⟨hsound, hseed⟩ := TileSpace.sound_of_of hm.nested hspace
  obtain ⟨total, htotal⟩ := hsound.answers_total (by rw [hseed, hm.full]; exact hfull)
  exact ⟨space, total, hspace, htotal⟩

/-- Every candidate of a nest derived from a moderate one has an answer. -/
theorem DerivedFrom.answers_score? {space : TileSpace} {k : Nat} (hm : m.DerivedFrom n)
    (hfull : n.tiling.full.Moderate) (ha : a.Valid) (hc : a.Countable)
    (hspace : TileSpace.of m.tiling = .ok space) (hk : 1 ≤ k) :
    Answers (Sweep.score? ⟨space, a, d⟩ k) := by
  obtain ⟨hsound, hseed⟩ := TileSpace.sound_of_of hm.nested hspace
  refine Sweep.answers_score? hsound ?_ ha hc hk
  show space.seed.full.Moderate
  rw [hseed, hm.full]
  exact hfull

/-- A turned nest derived from a moderate one has a score, and something is
moved for it. -/
theorem DerivedFrom.turned_answers {t : Tiling} (hm : m.DerivedFrom n)
    (hfull : n.tiling.full.Moderate) (ha : a.Valid) (hc : a.Countable)
    (hturn : m.tiling.turn? = some t) (d : Operand) :
    Answers (t.score a d) ∧ ∃ bytes, t.traffic d = .ok bytes ∧ 0 < bytes := by
  obtain ⟨hnested, hlayer⟩ := hm.nested.turn hturn
  have hmoderate : t.full.Moderate := by
    rw [hlayer, hm.full]
    exact hfull
  refine ⟨Tiling.answers_score hmoderate hnested.tile hnested.unroll ha.one_le_length
    (hc.fits_elements ha) d, _, Tiling.traffic_eq_ok hmoderate hnested.tile d, ?_⟩
  exact Tiling.movedBytes_pos hnested.full.one_le_get hnested.tile.one_le d

end LoopNest

namespace Scheduler

variable {s : Scheduler} {n m : LoopNest} {d : Operand}

/-- The steps before the dataflow is chosen have an answer. -/
theorem answers_prepare (hn : n.Valid) (hfull : n.tiling.full.Moderate)
    (hc : s.accelerator.Countable) : Answers (s.prepare n) :=
  LoopNest.answers_seed_removeLoops hn hfull s.valid hc

/-- **All candidates of a derived nest are swept**, and as many are reported as
there are. -/
theorem answers_stretches {space : TileSpace} {total : Nat} (hm : m.DerivedFrom n)
    (hfull : n.tiling.full.Moderate) (hc : s.accelerator.Countable)
    (hspace : TileSpace.of m.tiling = .ok space) (htotal : space.total = .ok total) :
    ∃ spans found p, Span.shareOut total s.options.workerCount = .ok spans
      ∧ Sweep.runAll ⟨space, s.accelerator, d⟩ m spans (.start s.options.progressInterval)
          = .ok (found, p)
      ∧ p.evaluated = total := by
  obtain ⟨spans, hspans, hflat⟩ :=
    Span.shareOut_eq_ok (TileSpace.fits_of_total htotal) s.options.workerCount
  have hanswers : ∀ k ∈ spans.flatMap Span.numbers,
      Answers (Sweep.score? ⟨space, s.accelerator, d⟩ k) := by
    intro k hk
    rw [hflat, List.mem_range'_1] at hk
    exact hm.answers_score? hfull s.valid hc hspace hk.1
  obtain ⟨⟨found, p⟩, hrun⟩ := Sweep.answers_runAll m spans
    (.start s.options.progressInterval) hanswers
  refine ⟨spans, found, p, hspans, hrun, ?_⟩
  rw [Sweep.progress_of_runAll hrun, hflat, List.length_range']
  exact Nat.zero_add total

/-- The sweep of a derived nest has an answer. -/
theorem answers_sweep (hm : m.DerivedFrom n) (hfull : n.tiling.full.Moderate)
    (hc : s.accelerator.Countable) : Answers (s.sweep m d) := by
  obtain ⟨space, total, hspace, htotal⟩ := hm.answers_space hfull
  obtain ⟨spans, found, p, hspans, hrun, -⟩ :=
    answers_stretches (d := d) hm hfull hc hspace htotal
  exact ⟨_, sweep_eq_ok_iff.2 ⟨space, spans, found, p, hspace, htotal, hspans, hrun, rfl⟩⟩

/-- The last step has an answer for a candidate in a moderate layer. -/
theorem answers_orient {c : Candidate} (hm : c.nest.DerivedFrom n)
    (hfull : n.tiling.full.Moderate) (hc : s.accelerator.Countable) :
    Answers (s.orient d c) := by
  simp only [orient]
  split
  · cases hturn : c.nest.tiling.turn? with
    | none => exact Checked.answers_pure _
    | some t =>
      obtain ⟨hscore, -⟩ := hm.turned_answers hfull s.valid hc hturn d
      exact hscore.bind fun _ _ => Checked.answers_pure _
  · exact Checked.answers_pure _

/-- **The search of a moderate layer meets no fault**: it ends with a result, or
is refused. -/
theorem search_faultFree (hn : n.Valid) (hfull : n.tiling.full.Moderate)
    (hc : s.accelerator.Countable) : Attempt.FaultFree (s.search n) := by
  refine Attempt.faultFree_accept_bind_iff.2 fun _ _ => ?_
  obtain ⟨removal, hprepare⟩ := answers_prepare hn hfull hc
  refine Attempt.faultFree_compute_bind_iff.2 ⟨removal, hprepare, ?_⟩
  refine Attempt.faultFree_accept_bind_iff.2 fun _ _ => ?_
  have hremoved := derived_of_prepare hn hprepare
  obtain ⟨⟨m, d⟩, hadopt⟩ := hremoved.answers_adoptDataflow hfull
  refine Attempt.faultFree_compute_bind_iff.2 ⟨(m, d), hadopt, ?_⟩
  have hadopted := hremoved.adoptDataflow hadopt
  obtain ⟨⟨total, best⟩, hsweep⟩ := answers_sweep (s := s) (d := d) hadopted hfull hc
  refine Attempt.faultFree_compute_bind_iff.2 ⟨(total, best), hsweep, ?_⟩
  cases best with
  | none => exact Attempt.faultFree_refuse _
  | some c =>
    obtain ⟨space, x, hspace, -, -, hx, rfl⟩ := scored_of_sweep hsweep
    obtain ⟨hcandidate, -⟩ := hadopted.candidate s.valid hspace hx
    obtain ⟨⟨nest, score⟩, horient⟩ := answers_orient (d := d) hcandidate hfull hc
    exact Attempt.faultFree_compute_bind_iff.2 ⟨(nest, score), horient,
      Attempt.faultFree_pure _⟩

/-- **A search that is safe**: no operation on words in it is without an answer,
and something is moved for every candidate that it scores. -/
structure Safe (s : Scheduler) (n : LoopNest) : Prop where
  /-- The search stops at no fault. -/
  faultFree : Attempt.FaultFree (s.search n)
  /-- Every stage has an answer, every candidate that fits the buffers a positive
  traffic, turned or not, and the reports of progress add up to a count. -/
  sweeps : ∃ removal m d space total spans found p,
    s.prepare n = .ok removal ∧ removal.nest.adoptDataflow = .ok (m, d)
      ∧ TileSpace.of m.tiling = .ok space ∧ space.total = .ok total
      ∧ Span.shareOut total s.options.workerCount = .ok spans
      ∧ Sweep.runAll ⟨space, s.accelerator, d⟩ m spans (.start s.options.progressInterval)
          = .ok (found, p)
      ∧ (p.evaluated = total ∧ Count.Fits total)
      ∧ ∀ k, 1 ≤ k → k ≤ total → ∃ r, Sweep.score? ⟨space, s.accelerator, d⟩ k = .ok r
        ∧ ∀ x, r = some x → (∃ bytes, x.tiling.traffic d = .ok bytes ∧ 0 < bytes)
          ∧ ∀ t, x.tiling.turn? = some t → Answers (t.score s.accelerator d)
            ∧ ∃ bytes, t.traffic d = .ok bytes ∧ 0 < bytes

/-- **The search of a layer is safe** if sixteen times the product of its kernel,
its channels and the larger of its maps is a signed word, whatever its stride and
padding, for every valid accelerator of at most `2 ^ 62` processing elements, and
with any options. -/
theorem safe_of_size_le (s : Scheduler) {l : Layer} {e : Extents} (hl : l.extents = .ok e)
    (hsize : 16 * e.kernelWidth * e.kernelHeight * e.inputChannel * e.outputChannel
      * max (e.inputWidth * e.inputHeight) (e.outputWidth * e.outputHeight) ≤ 2 ^ 63 - 1)
    (helements : s.accelerator.rows * s.accelerator.columns ≤ 2 ^ 62) :
    s.Safe { tiling := .untiled e } := by
  have hfull : e.Moderate := Layer.moderate_of_extents hl (by norm_num at hsize; exact hsize)
  have hc : s.accelerator.Countable := by
    norm_num at helements
    exact helements
  have hn := LoopNest.valid_untiled hfull.valid
  refine ⟨search_faultFree hn hfull hc, ?_⟩
  obtain ⟨removal, hprepare⟩ := answers_prepare hn hfull hc
  have hremoved := derived_of_prepare hn hprepare
  obtain ⟨⟨m, d⟩, hadopt⟩ := hremoved.answers_adoptDataflow hfull
  have hadopted := hremoved.adoptDataflow hadopt
  obtain ⟨space, total, hspace, htotal⟩ := hadopted.answers_space hfull
  obtain ⟨spans, found, p, hspans, hrun, hreported⟩ :=
    answers_stretches (d := d) hadopted hfull hc hspace htotal
  refine ⟨removal, m, d, space, total, spans, found, p, hprepare, hadopt, hspace, htotal,
    hspans, hrun, ⟨hreported, TileSpace.fits_of_total htotal⟩, fun k hone _ => ?_⟩
  obtain ⟨r, hr⟩ := hadopted.answers_score? (d := d) hfull s.valid hc hspace hone
  refine ⟨r, hr, ?_⟩
  rintro x rfl
  obtain ⟨hsound, -⟩ := TileSpace.sound_of_of hadopted.nested hspace
  obtain ⟨hcandidate, -⟩ := hadopted.candidate s.valid hspace hr
  exact ⟨Sweep.traffic_pos_of_score? hsound s.valid hr,
    fun t hturn => hcandidate.turned_answers hfull s.valid hc hturn d⟩

/-- The search of a layer with a stride of three and a padding of two is safe. -/
theorem safe_of_size_le_strided :
    let l : Layer := ⟨9, 7, 3, 3, 2, 4, 3, 2, 2⟩
    let e : Extents := ⟨3, 2, 2, 9, 7, 3, 3, 2, 4, 4, 4⟩
    let s : Scheduler := ⟨.simd8x8, {}, by decide⟩
    l.extents = .ok e ∧ s.Safe { tiling := .untiled e } := by
  intro l e s
  have hl : l.extents = .ok e := by decide
  exact ⟨hl, safe_of_size_le s hl (by decide) (by decide)⟩

end Scheduler

end ConvTiling
