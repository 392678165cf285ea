import ConvTiling.Proofs.Endings
import ConvTiling.Proofs.FaultFree

/-!
# Layers that the buffers hold whole

Buffers that hold a whole layer let every loop off the chip be removed, and one
candidate is left to score. That candidate is not the tile the removal left
behind, though. Its input is derived anew from the whole output, and where the
stride or the padding lets the last window end before the input does, the derived
input is smaller than the whole one. Then it is a tile like any other: the next
one would have to be in the buffer with it, and it may fill half of the buffer
only.

So a layer that the buffers hold whole is found exactly when its output reads the
whole input, or when the part that it reads fills at most half of the buffer
(`Extents.KeptWhole`). In the first case every operand passes once; otherwise the
search ends without a tiling, although the one it had before was the whole layer
(`Scheduler.search_of_held`).
-/

namespace ConvTiling

open Checked (Answers bind_eq_ok_iff pure_eq_ok_iff)

/-- **The whole output reads the whole input**, or what it reads of it fills at
most half of the buffer. -/
def Extents.KeptWhole (e : Extents) (a : Accelerator) : Prop :=
  (e.inputWidth ≤ window e.outputWidth e.kernelWidth e.stride
      ∧ e.inputHeight ≤ window e.outputHeight e.kernelHeight e.stride)
    ∨ 2 * ((TileSpace.derived e e).volume Operand.input.dims * 4) ≤ a.buffers.input

instance (e : Extents) (a : Accelerator) : Decidable (e.KeptWhole a) :=
  inferInstanceAs (Decidable (_ ∨ _))

/-- **The buffers hold a whole layer.** -/
def Extents.Held (e : Extents) (a : Accelerator) : Prop :=
  ∀ o b, e.bytes o = .ok b → b ≤ a.buffers.get o

namespace Extents

variable {e lower upper : Extents} {a : Accelerator}

/-- A level that lies in another one and has its extents is that level. -/
theorem LiesIn.eq_of_get (h : lower.LiesIn upper) (hget : ∀ d, lower.get d = upper.get d) :
    lower = upper := by
  refine ext_field fun f => ?_
  cases f
  case stride => exact h.stride
  case paddingWidth => exact h.paddingWidth
  case paddingHeight => exact h.paddingHeight
  case inputWidth => exact hget .inputWidth
  case inputHeight => exact hget .inputHeight
  case inputChannel => exact hget .inputChannel
  case kernelWidth => exact hget .kernelWidth
  case kernelHeight => exact hget .kernelHeight
  case outputWidth => exact hget .outputWidth
  case outputHeight => exact hget .outputHeight
  case outputChannel => exact hget .outputChannel

/-- A derived input is the whole one exactly when the output reads all of it. -/
theorem volume_derived_eq_iff (he : e.Valid) :
    (TileSpace.derived e e).volume Operand.input.dims = e.volume Operand.input.dims
      ↔ e.inputWidth ≤ window e.outputWidth e.kernelWidth e.stride
        ∧ e.inputHeight ≤ window e.outputHeight e.kernelHeight e.stride := by
  have hin := TileSpace.liesIn_derived he he.liesIn_self
  have hw := hin.one_le .inputWidth
  have hh := hin.one_le .inputHeight
  have hone := he.one_le_get
  have hc := hone .inputChannel
  have hchannel : (TileSpace.derived e e).get .inputChannel = e.get .inputChannel := rfl
  simp only [Operand.dims, volume_cons, volume_nil, Int.mul_one, hchannel]
  rw [mul_eq_mul_iff_eq_and_eq_of_pos (hin.le .inputWidth)
      (Int.mul_le_mul_of_nonneg_right (hin.le .inputHeight) (by omega)) (by omega)
      (Int.mul_pos (hone .inputHeight) hc)]
  show min _ e.inputWidth = e.inputWidth
    ∧ min _ e.inputHeight * e.get .inputChannel = e.inputHeight * e.get .inputChannel ↔ _
  rw [min_eq_right_iff, mul_left_inj' (by omega), min_eq_right_iff]

/-- **A derived input fits its buffer** exactly when the layer is kept whole, if
the buffer holds all of the input. -/
theorem fits_derived_iff (he : e.Valid)
    (hheld : e.volume Operand.input.dims * 4 ≤ a.buffers.input) :
    (⟨(TileSpace.derived e e).volume Operand.input.dims * 4,
        e.volume Operand.input.dims * 4⟩ : Load).Fits a.buffers.input
      ↔ e.KeptWhole a := by
  have hin := TileSpace.liesIn_derived he he.liesIn_self
  have hle := volume_le_volume hin.one_le hin.le Operand.input.dims
  have hone := one_le_volume hin.one_le Operand.input.dims
  have hhalf := Int.tdiv_eq_ediv_of_nonneg (a := a.buffers.input) (b := 2) (by omega)
  rw [KeptWhole, ← volume_derived_eq_iff he]
  unfold Load.Fits Load.capacity
  show (TileSpace.derived e e).volume Operand.input.dims * 4
    ≤ (if (TileSpace.derived e e).volume Operand.input.dims * 4
      < e.volume Operand.input.dims * 4 then a.buffers.input.tdiv 2 else a.buffers.input) ↔ _
  split <;> omega

end Extents

/-! ## The stages before the sweep -/

namespace Tiling

variable {t : Tiling} {a : Accelerator} {s : Operand}

/-- **A tile that takes over every axis is the whole layer.** -/
theorem tile_foldl_tileFully_all (ht : t.Nested) :
    (Axis.all.foldl Tiling.tileFully t).tile = t.full := by
  have hnested := ht.foldl_tileFully Axis.all
  have hin := hnested.tile
  rw [full_foldl_tileFully] at hin
  refine hin.eq_of_get fun d => ?_
  rw [get_tile_foldl_tileFully, if_pos]
  cases d <;> decide

/-- A whole layer fits buffers that hold it. -/
theorem eq_true_of_fits_whole {b : Bool} (hfull : t.full.Valid) (ht : t.tile = t.full)
    (hheld : t.full.Held a) (run : t.fits a = .ok b) : b = true := by
  have hin : t.tile.LiesIn t.full := by
    rw [ht]
    exact hfull.liesIn_self
  obtain ⟨hb, hfits⟩ := (fits_eq_ok_iff hfull hin).1 run
  rw [hb]
  intro o
  have hload : t.exactLoad o = ⟨t.full.volume o.dims * 4, t.full.volume o.dims * 4⟩ := by
    rw [exactLoad, ht]
  rw [hload, Load.Fits, Load.capacity, if_neg (Int.lt_irrefl _)]
  exact hheld o _ ((Extents.bytes_eq_ok_iff hfull.one_le_get).2 ⟨rfl, hfits o⟩)

/-- **A whole layer with the input that it reads** fits buffers that hold the
layer exactly when it is kept whole. -/
theorem fits_derived_iff_keptWhole {b : Bool} (hfull : t.full.Valid)
    (ht : t.tile = TileSpace.derived t.full t.full) (hheld : t.full.Held a)
    (run : t.fits a = .ok b) : b = true ↔ t.full.KeptWhole a := by
  have hin : t.tile.LiesIn t.full := by
    rw [ht]
    exact TileSpace.liesIn_derived hfull hfull.liesIn_self
  obtain ⟨hb, hfits⟩ := (fits_eq_ok_iff hfull hin).1 run
  have hbytes : ∀ o, t.full.volume o.dims * 4 ≤ a.buffers.get o := fun o =>
    hheld o _ ((Extents.bytes_eq_ok_iff hfull.one_le_get).2 ⟨rfl, hfits o⟩)
  have hload : ∀ o, t.exactLoad o
      = ⟨(TileSpace.derived t.full t.full).volume o.dims * 4, t.full.volume o.dims * 4⟩ := by
    intro o
    rw [exactLoad, ht]
  -- the weights and the output of the tile are whole
  have hwhole : ∀ o, o ≠ .input → (t.exactLoad o).Fits (a.buffers.get o) := by
    intro o ho
    have hsame : (TileSpace.derived t.full t.full).volume o.dims = t.full.volume o.dims := by
      cases o with
      | input => exact absurd rfl ho
      | weight => rfl
      | output => rfl
    rw [hload, hsame, Load.Fits, Load.capacity, if_neg (Int.lt_irrefl _)]
    exact hbytes o
  rw [hb, ← Extents.fits_derived_iff hfull (hbytes .input)]
  constructor
  · intro hresident
    have hinput := hresident .input
    rwa [hload] at hinput
  · intro hinput o
    by_cases ho : o = .input
    · rw [ho, hload]
      exact hinput
    · exact hwhole o ho

/-- A whole layer keeps its output, as no loop is left that dominates. -/
theorem eq_output_of_chooseDataflow (hfull : t.full.Valid) (ht : t.tile = t.full)
    (run : t.chooseDataflow = .ok s) : s = .output := by
  obtain ⟨counts, hcounts, run⟩ := bind_eq_ok_iff.1 run
  obtain rfl := pure_eq_ok_iff.1 run
  have hone : ∀ a, counts.get a = 1 := by
    intro a
    rw [eq_tilesOver_of_tileCount (axisIterations_eq_ok_iff.1 hcounts a)]
    exact tilesOver_eq_one hfull.one_le_get fun d _ => by rw [ht]
  rw [hone, if_neg (Int.lt_irrefl 1)]

end Tiling

/-! ## The only candidate -/

/-- One candidate is one stretch, whatever the number of workers. -/
theorem Span.shareOut_one (workers : Nat) : shareOut 1 workers = .ok [⟨1, 1⟩] := by
  have hcount : min (max workers 1) 1 = 1 := by omega
  unfold shareOut
  rw [hcount]
  rfl

/-- **A space of one tile** holds the whole layer with the input that it
reads. -/
theorem TileSpace.Sound.tilingAt_one {space : TileSpace} {t : Tiling} (hs : space.Sound)
    (hwhole : space.seed.tile = space.seed.full) (run : space.tilingAt 1 = .ok t) :
    t.full = space.seed.full ∧ t.tile = derived t.full t.full := by
  obtain ⟨-, tile, htile, -, rfl⟩ := hs.tilingAt run
  rw [eq_of_enlarge_zero htile, hwhole]
  exact ⟨rfl, rfl⟩

/-- A space that starts from the whole layer has one tile. -/
theorem TileSpace.Sound.total_eq_one {space : TileSpace} {total : Nat} (hs : space.Sound)
    (hwhole : space.seed.tile = space.seed.full) (run : space.total = .ok total) :
    total = 1 := by
  obtain ⟨rfl, -⟩ := hs.total_eq_ok_iff.1 run
  refine List.prod_eq_one fun r hr => ?_
  obtain ⟨d, -, rfl⟩ := List.mem_map.1 hr
  rw [room, hwhole]
  omega

/-- **The only candidate is scored** exactly when the layer is kept whole, and
then as the whole layer with the input that it reads. -/
theorem Sweep.score?_one_of_whole {w : Sweep} {r : Option Scored} (hs : w.space.Sound)
    (hwhole : w.space.seed.tile = w.space.seed.full)
    (hheld : w.space.seed.full.Held w.machine) (hr : w.score? 1 = .ok r) :
    (r.isSome = true ↔ w.space.seed.full.KeptWhole w.machine) ∧ ∀ x, r = some x →
      x.tiling.full = w.space.seed.full
        ∧ x.tiling.tile = TileSpace.derived w.space.seed.full w.space.seed.full := by
  -- the exact answer of the check, for the one tiling of the space
  have hkept : ∀ t b, w.space.tilingAt 1 = .ok t → t.fits w.machine = .ok b →
      t.full = w.space.seed.full
        ∧ t.tile = TileSpace.derived w.space.seed.full w.space.seed.full
        ∧ (b = true ↔ w.space.seed.full.KeptWhole w.machine) := by
    intro t b ht hb
    obtain ⟨hlayer, htile⟩ := hs.tilingAt_one hwhole ht
    have hiff := Tiling.fits_derived_iff_keptWhole (hlayer ▸ hs.full) htile
      (hlayer ▸ hheld) hb
    rw [hlayer] at htile hiff
    exact ⟨hlayer, htile, hiff⟩
  cases r with
  | none =>
    obtain ⟨t, ht, hb⟩ := score?_eq_ok_none_iff.1 hr
    obtain ⟨-, -, hiff⟩ := hkept t false ht hb
    exact ⟨hiff, by rintro _ ⟨⟩⟩
  | some x =>
    obtain ⟨t, unroll, ht, hb, -, htiling, -⟩ := score?_eq_ok_some_iff.1 hr
    obtain ⟨hlayer, htile, hiff⟩ := hkept t true ht hb
    refine ⟨hiff, ?_⟩
    rintro _ ⟨⟩
    rw [htiling]
    exact ⟨hlayer, htile⟩

namespace Scheduler

variable {s : Scheduler} {n m : LoopNest} {d : Operand}

/-- **A sweep of one candidate** finds that candidate, if it is scored. -/
theorem best_of_sweep_one {space : TileSpace} {best : Option Candidate}
    (hspace : TileSpace.of m.tiling = .ok space) (run : s.sweep m d = .ok (1, best)) :
    ∃ r, Sweep.score? ⟨space, s.accelerator, d⟩ 1 = .ok r
      ∧ best = r.map (Scored.candidate m) := by
  obtain ⟨space', spans, found, p, hspace', -, hspans, hfound, rfl⟩ :=
    sweep_eq_ok_iff.1 run
  rw [hspace] at hspace'
  obtain rfl := Except.ok.inj hspace'
  rw [Span.shareOut_one] at hspans
  obtain rfl := Except.ok.inj hspans
  obtain ⟨⟨c, q⟩, hrun, hfound⟩ := bind_eq_ok_iff.1 hfound
  cases hfound
  obtain ⟨scan, hscan, hrun⟩ := bind_eq_ok_iff.1 hrun
  cases pure_eq_ok_iff.1 hrun
  obtain ⟨scan', hvisit, hscan⟩ := Checked.foldlM_cons_eq_ok_iff.1 hscan
  obtain rfl := pure_eq_ok_iff.1 hscan
  obtain ⟨r, hr, hvisit⟩ := bind_eq_ok_iff.1 hvisit
  refine ⟨r, hr, ?_⟩
  cases r with
  | none =>
    obtain rfl := pure_eq_ok_iff.1 hvisit
    rw [Sweep.best_count]
    rfl
  | some x =>
    obtain rfl := pure_eq_ok_iff.1 hvisit
    have hbest : ∀ p, (Scan.offer (Scan.count { progress := p }) x).best = some x := by
      intro p
      unfold Scan.offer
      rw [Sweep.best_count]
    rw [hbest]
    rfl

/-! ## The search -/

/-- **Before the sweep** a layer that the buffers hold whole is one tile. -/
theorem whole_of_prepare {removal : LoopRemoval} (hn : n.Valid)
    (hheld : n.tiling.full.Held s.accelerator) (run : s.prepare n = .ok removal) :
    removal.isFeasible = true ∧ removal.nest.tiling.tile = n.tiling.full := by
  obtain ⟨seeded, hseed, run⟩ := bind_eq_ok_iff.1 run
  have hseeded := LoopNest.derived_of_seed hn s.valid hseed
  have hwhole : (seeded.tileFully Axis.all).tiling.tile = n.tiling.full := by
    rw [← hseeded.full]
    exact Tiling.tile_foldl_tileFully_all hseeded.nested
  have hlayer : (seeded.tileFully Axis.all).tiling.full = n.tiling.full := by
    rw [← hseeded.full]
    exact Tiling.full_foldl_tileFully _ _
  obtain ⟨found, hfound, run⟩ := bind_eq_ok_iff.1 run
  obtain ⟨b, hb, hfound⟩ := bind_eq_ok_iff.1 hfound
  -- all four axes are tried first, and they fit
  obtain rfl : b = true := by
    refine Tiling.eq_true_of_fits_whole ?_ (hwhole.trans hlayer.symm) ?_ hb
    · exact hlayer ▸ hn.1.1
    · exact hlayer ▸ hheld
  obtain rfl := Except.ok.inj hfound
  obtain rfl := pure_eq_ok_iff.1 run
  exact ⟨rfl, hwhole⟩

/-- A nest that is as wide and high as its layer is not turned. -/
theorem eq_of_orient_whole {c : Candidate} {score : Float}
    (hwidth : c.nest.tiling.tile.outputWidth = c.nest.tiling.full.outputWidth)
    (hheight : c.nest.tiling.tile.outputHeight = c.nest.tiling.full.outputHeight)
    (run : s.orient d c = .ok (m, score)) : m = c.nest := by
  obtain ⟨hsame, -⟩ | ⟨hhigh, tiling, hturn, -⟩ := orient_cases run
  · exact hsame
  · obtain ⟨⟨hturned, -⟩, -⟩ := Tiling.turn?_eq_some_iff.1 hturn
    omega

/-- **The sweep of a layer that the buffers hold whole**, in a search that stops at
no fault: there is one candidate, and it is found exactly when the layer is kept
whole. -/
theorem sweep_of_held (hn : n.Valid) (hheld : n.tiling.full.Held s.accelerator)
    (hrun : Attempt.FaultFree (s.search n)) :
    ∃ removal m best, s.prepare n = .ok removal ∧ removal.isFeasible = true
      ∧ removal.nest.adoptDataflow = .ok (m, .output)
      ∧ s.sweep m .output = .ok (1, best)
      ∧ (best.isSome = true ↔ n.tiling.full.KeptWhole s.accelerator)
      ∧ ∀ c, best = some c → c.nest.DerivedFrom n
        ∧ c.nest.tiling.tile = TileSpace.derived n.tiling.full n.tiling.full
        ∧ c.nest.tiling.fits s.accelerator = .ok true
        ∧ c.nest.tiling.traffic .output = .ok (c.nest.tiling.movedBytes .output)
        ∧ Answers (s.orient .output c) := by
  obtain ⟨removal, hprepare, hswept⟩ := steps_of_faultFree hn hrun
  obtain ⟨hfeasible, hwhole⟩ := whole_of_prepare hn hheld hprepare
  obtain ⟨m, d, space, total, best, hsteps, hsweep, horient⟩ := hswept (.inl hfeasible)
  have hadopt := hsteps.adopted
  have hremoved := derived_of_prepare hn hprepare
  have hadopted := hremoved.adoptDataflow hadopt
  obtain ⟨hchoose, rfl⟩ := LoopNest.adoptDataflow_eq_ok_iff.1 hadopt
  rw [← hremoved.full] at hwhole
  obtain rfl := Tiling.eq_output_of_chooseDataflow hremoved.nested.full hwhole hchoose
  obtain ⟨hsound, hseed⟩ := TileSpace.sound_of_of hadopted.nested hsteps.spanned
  have hseedWhole : space.seed.tile = space.seed.full := by
    rw [hseed]
    exact hwhole
  have hlayer : space.seed.full = n.tiling.full := by
    rw [hseed]
    exact hadopted.full
  obtain rfl := hsound.total_eq_one hseedWhole hsteps.counted
  obtain ⟨r, hr, rfl⟩ := best_of_sweep_one hsteps.spanned hsweep
  obtain ⟨hsome, hx⟩ := Sweep.score?_one_of_whole hsound hseedWhole (hlayer ▸ hheld) hr
  refine ⟨removal, _, _, hprepare, hfeasible, hadopt, hsweep, ?_, ?_⟩
  · rw [Option.isSome_map, hsome, hlayer]
  · rintro c hc
    obtain ⟨x, rfl, rfl⟩ := Option.map_eq_some_iff.1 hc
    obtain ⟨-, -, -, -, -, -, hscore, -⟩ := Sweep.score?_eq_ok_some_iff.1 hr
    obtain ⟨hcandidate, hfits⟩ := hadopted.candidate s.valid hsteps.spanned hr
    obtain ⟨-, htile⟩ := hx x rfl
    exact ⟨hcandidate, hlayer ▸ htile, hfits, Tiling.answers_traffic_of_score hscore,
      horient _ hc⟩

/-- **The search of a layer that the buffers hold whole.** If the output reads
all of the input, or what it reads fills at most half of the buffer, the search
finds a tiling: some axes could be fully tiled, there is one candidate, its output
stays, and every operand passes once. Otherwise there is no tiling to find. The
options of the search play no part. -/
theorem search_of_held (s : Scheduler) {l : Layer} {e : Extents} (hl : l.extents = .ok e)
    (hheld : e.Held s.accelerator)
    (hrun : Attempt.FaultFree (s.search { tiling := .untiled e })) :
    (e.KeptWhole s.accelerator → ∃ r input weight output,
      s.search { tiling := .untiled e } = .ok r ∧ r.feasible = true ∧ r.candidates = 1
        ∧ r.dataflow = .output
        ∧ e.bytes .input = .ok input ∧ e.bytes .weight = .ok weight
        ∧ e.bytes .output = .ok output
        ∧ r.nest.tiling.traffic r.dataflow = .ok (input + weight + output))
      ∧ (¬ e.KeptWhole s.accelerator →
        s.search { tiling := .untiled e } = .error (.refused (.noFeasibleTiling 1))) := by
  obtain ⟨-, -, -, -, -, -, hvalid⟩ := Layer.extents_eq_ok_iff.1 hl
  have hn := LoopNest.valid_untiled hvalid
  obtain ⟨removal, m, best, hprepare, hfeasible, hadopt, hsweep, hsome, hbest⟩ :=
    sweep_of_held hn hheld hrun
  constructor
  · intro hkept
    obtain ⟨c, rfl⟩ := Option.isSome_iff_exists.1 (hsome.2 hkept)
    obtain ⟨hcandidate, htile, hfits, htraffic, ⟨nest, score⟩, horient⟩ := hbest c rfl
    have hlayer := hcandidate.full
    have hin := hcandidate.nested.tile
    -- the tile has the whole output, so it is not turned
    obtain rfl : nest = c.nest := by
      refine eq_of_orient_whole ?_ ?_ horient
      · rw [htile, hlayer]
        rfl
      · rw [htile, hlayer]
        rfl
    have hmoved := Tiling.movedBytes_output_of_whole hcandidate.nested.full.one_le_get
      (fun o d hd => by
        rw [htile, hlayer]
        cases o <;> cases d <;> first | rfl | exact absurd hd (by decide))
    have hword : ∀ o, e.bytes o = .ok (e.volume o.dims * 4) := by
      intro o
      refine (Extents.bytes_eq_ok_iff hvalid.one_le_get).2 ⟨rfl, ?_⟩
      have := ((Tiling.fits_eq_ok_iff hcandidate.nested.full hin).1 hfits).2 o
      rwa [Tiling.exactLoad, hlayer] at this
    rw [hmoved, hlayer] at htraffic
    exact ⟨_, _, _, _, search_eq_ok_iff.2 ⟨hn, removal, hprepare, .inl hfeasible, m, .output,
      hadopt, 1, c, hsweep, c.nest, score, horient, rfl⟩, hfeasible, rfl, rfl, hword .input,
      hword .weight, hword .output, htraffic⟩
  · intro hkept
    cases best with
    | none => exact search_eq_noFeasibleTiling hn hprepare (.inl hfeasible) hadopt hsweep
    | some c => exact absurd (hsome.1 rfl) hkept

/-- **A layer of stride two**, whose windows of three by three end one place before
an input of six by six does. A buffer of exactly the input is too small for it, and
one of twice the five by five places that are read is not. -/
theorem search_of_held_strided :
    let l : Layer := ⟨6, 6, 1, 3, 3, 1, 2, 0, 0⟩
    let e : Extents := ⟨2, 0, 0, 6, 6, 1, 3, 3, 2, 2, 1⟩
    let tight : Scheduler := ⟨⟨1, 1.0, 1.0, ⟨144, 36, 16⟩, 2, 2, [], []⟩, {}, by decide⟩
    let spare : Scheduler := ⟨⟨1, 1.0, 1.0, ⟨200, 36, 16⟩, 2, 2, [], []⟩, {}, by decide⟩
    l.extents = .ok e ∧ e.Held tight.accelerator ∧ e.Held spare.accelerator
      ∧ tight.search { tiling := .untiled e } = .error (.refused (.noFeasibleTiling 1))
      ∧ ∃ r, spare.search { tiling := .untiled e } = .ok r ∧ r.candidates = 1
        ∧ r.nest.tiling.traffic r.dataflow = .ok (144 + 36 + 16) := by
  intro l e tight spare
  have hl : l.extents = .ok e := by decide
  have hfull : e.Moderate := Layer.moderate_of_extents hl (by decide)
  have hn := LoopNest.valid_untiled hfull.valid
  have hbytes : e.bytes .input = .ok 144 ∧ e.bytes .weight = .ok 36
      ∧ e.bytes .output = .ok 16 := by decide
  obtain ⟨hinput, hweight, houtput⟩ := hbytes
  have htight : e.Held tight.accelerator := by
    rintro (_ | _ | _) b hb
    · obtain rfl := Except.ok.inj (hinput.symm.trans hb)
      decide
    · obtain rfl := Except.ok.inj (hweight.symm.trans hb)
      decide
    · obtain rfl := Except.ok.inj (houtput.symm.trans hb)
      decide
  have hspare : e.Held spare.accelerator := by
    intro o b hb
    refine le_trans (htight o b hb) ?_
    cases o <;> decide
  have hrefused := (search_of_held tight hl htight
    (search_faultFree hn hfull (by decide))).2 (by decide)
  obtain ⟨r, input, weight, output, hr, -, hone, -, hi, hw, ho, htraffic⟩ :=
    (search_of_held spare hl hspare (search_faultFree hn hfull (by decide))).1 (by decide)
  obtain rfl := Except.ok.inj (hinput.symm.trans hi)
  obtain rfl := Except.ok.inj (hweight.symm.trans hw)
  obtain rfl := Except.ok.inj (houtput.symm.trans ho)
  exact ⟨hl, htight, hspare, hrefused, r, hr, hone, htraffic⟩

/-- **Not every layer is found that the buffers hold whole.** The bytes of each
operand are those of its buffer here, the search stops at no fault, and it ends
without a tiling. -/
theorem noFeasibleTiling_of_held_strided :
    let l : Layer := ⟨6, 6, 1, 3, 3, 1, 2, 0, 0⟩
    let e : Extents := ⟨2, 0, 0, 6, 6, 1, 3, 3, 2, 2, 1⟩
    let s : Scheduler :=
      ⟨⟨1, 1.0, 1.0, ⟨144, 36, 16⟩, 2, 2, [.outputChannel], [.inputChannel]⟩, {}, by decide⟩
    l.extents = .ok e
      ∧ (∀ o, e.bytes o = .ok (s.accelerator.buffers.get o))
      ∧ Attempt.FaultFree (s.search { tiling := .untiled e })
      ∧ s.search { tiling := .untiled e } = .error (.refused (.noFeasibleTiling 1)) := by
  intro l e s
  have hl : l.extents = .ok e := by decide
  have hbytes : ∀ o, e.bytes o = .ok (s.accelerator.buffers.get o) := by
    intro o
    cases o <;> decide
  have hanswer : (match s.search { tiling := .untiled e } with
      | .ok _ => none
      | .error f => some f) = some (.refused (.noFeasibleTiling 1)) := by decide +kernel
  cases hsearch : s.search { tiling := .untiled e } with
  | ok r =>
    rw [hsearch] at hanswer
    cases hanswer
  | error f =>
    rw [hsearch] at hanswer
    obtain rfl := Option.some.inj hanswer
    exact ⟨hl, hbytes, Attempt.faultFree_refuse _, rfl⟩

end Scheduler

end ConvTiling
