import ConvTiling.Proofs.WholeKernel

/-!
# The input of a turned tile

The input of a selected tile follows from its output: in each direction it is the
window of the output, or the whole input if that is shorter. Turning a tile by a
quarter exchanges the two inputs as they are. Under a kernel that is as wide as it
is high the windows are exchanged with them, but what they were cut to is not:
the width of the turned input was cut to the *height* of the layer's input, and
its height to the width (`Tiling.input_turn`).

So the input of a turned tile still follows from its output where the input map
is square, or where nothing was cut (`Tiling.inputFollows_turn_iff`), as in a
layer without padding, in which every window lies in the input. Elsewhere a
turned tile can have less input than its output needs
(`Scheduler.input_short_of_turned_fourByThree`).
-/

namespace ConvTiling

/-- **The windows of a layer without padding** lie in its input, if its kernel
does. -/
theorem Layer.window_le_of_unpadded {l : Layer} {e : Extents} (run : l.extents = .ok e)
    (hpadding : l.paddingWidth = 0 ∧ l.paddingHeight = 0)
    (hinside : l.kernelWidth ≤ l.inputWidth ∧ l.kernelHeight ≤ l.inputHeight) :
    window e.outputWidth e.kernelWidth e.stride ≤ e.inputWidth
      ∧ window e.outputHeight e.kernelHeight e.stride ≤ e.inputHeight := by
  obtain ⟨hs, w, h, hw, hh, rfl, -⟩ := Layer.extents_eq_ok_iff.1 run
  obtain ⟨hpw, hph⟩ := hpadding
  have hwidth := window_le_of_outputLength hinside.1 hs (Int.le_of_eq hpw.symm) hw
  have hheight := window_le_of_outputLength hinside.2 hs (Int.le_of_eq hph.symm) hh
  rw [hpw, Int.mul_zero, Int.add_zero] at hwidth
  rw [hph, Int.mul_zero, Int.add_zero] at hheight
  exact ⟨hwidth, hheight⟩

/-- A length cut to one bound is the same length cut to another bound, which it
is within, exactly if the bounds are equal or it was not cut. -/
theorem min_eq_min_iff_of_le {bound other length : Int} (hle : min other length ≤ bound) :
    min other length = min bound length ↔ bound = other ∨ length ≤ other := by
  omega

namespace Tiling

variable {t t' : Tiling}

/-- **The input of the tile follows from its output**: in each direction it is
the window of the output under the kernel of the layer, or the whole input if
that is shorter. -/
def InputFollows (t : Tiling) : Prop :=
  t.tile.inputWidth
      = min t.full.inputWidth (window t.tile.outputWidth t.full.kernelWidth t.full.stride)
    ∧ t.tile.inputHeight
      = min t.full.inputHeight (window t.tile.outputHeight t.full.kernelHeight t.full.stride)

instance (t : Tiling) : Decidable t.InputFollows := inferInstanceAs (Decidable (_ ∧ _))

/-- **The input of a turned tile** under a square kernel is the window of its
output, or the whole input *in the other direction* if that is shorter. -/
theorem input_turn (h : t.turn? = some t') (ht : t.InputFollows)
    (hsquare : t.full.kernelWidth = t.full.kernelHeight) :
    t'.tile.inputWidth = min t'.full.inputHeight
        (window t'.tile.outputWidth t'.full.kernelWidth t'.full.stride)
      ∧ t'.tile.inputHeight = min t'.full.inputWidth
        (window t'.tile.outputHeight t'.full.kernelHeight t'.full.stride) := by
  obtain ⟨-, rfl⟩ := turn?_eq_some_iff.1 h
  obtain ⟨hwidth, hheight⟩ := ht
  rw [← hsquare] at hheight
  rw [hsquare] at hwidth
  exact ⟨hheight, hwidth⟩

/-- **Turning keeps the input following from the output** under a square kernel
exactly if the input map is square, or neither window of the turned tile is
longer than the input that it was cut to. -/
theorem inputFollows_turn_iff (h : t.turn? = some t') (ht : t.InputFollows)
    (hsquare : t.full.kernelWidth = t.full.kernelHeight) :
    t'.InputFollows ↔ t'.full.inputWidth = t'.full.inputHeight
      ∨ window t'.tile.outputWidth t'.full.kernelWidth t'.full.stride ≤ t'.full.inputHeight
        ∧ window t'.tile.outputHeight t'.full.kernelHeight t'.full.stride
          ≤ t'.full.inputWidth := by
  obtain ⟨hwidth, hheight⟩ := input_turn h ht hsquare
  -- the turned tile lies in the layer, so neither of its inputs is beyond it
  have hin : t'.tile.inputWidth ≤ t'.full.inputWidth
      ∧ t'.tile.inputHeight ≤ t'.full.inputHeight := by
    obtain ⟨⟨-, -, hinWidth, hinHeight⟩, rfl⟩ := turn?_eq_some_iff.1 h
    exact ⟨hinWidth, hinHeight⟩
  rw [hwidth, hheight] at hin
  rw [InputFollows, hwidth, hheight, min_eq_min_iff_of_le hin.1, min_eq_min_iff_of_le hin.2]
  constructor
  · rintro ⟨heq | hw, heq' | hh⟩
    · exact .inl heq
    · exact .inl heq
    · exact .inl heq'.symm
    · exact .inr ⟨hw, hh⟩
  · rintro (heq | ⟨hw, hh⟩)
    · exact ⟨.inl heq, .inl heq.symm⟩
    · exact ⟨.inr hw, .inr hh⟩

end Tiling

/-- An array of one row and three columns, the output map mapped onto it, with a
buffer for the input of some bytes and small ones for the rest. -/
def Accelerator.threeColumns (inputBytes : Int) : Accelerator where
  frequency := 1.0
  bandwidth := 1.0
  buffers := ⟨inputBytes, 36, 24⟩
  rows := 1
  columns := 3
  rowDims := [.outputWidth]
  columnDims := [.outputHeight]

namespace Scheduler

variable {s : Scheduler} {n : LoopNest} {d : Operand} {c : Candidate}

/-- **The input of a selected tile follows from its output.** -/
theorem Selects.inputFollows (h : s.Selects n d c) (hn : n.Valid) :
    c.nest.tiling.InputFollows := by
  have hc := h.selected hn
  obtain ⟨hwidth, hheight⟩ := h.sameKernel hn
  rw [← hc.derived.full] at hwidth hheight
  rw [Tiling.InputFollows, ← hwidth, ← hheight]
  constructor
  · exact (congrArg Extents.inputWidth hc.input).trans (Int.min_comm _ _)
  · exact (congrArg Extents.inputHeight hc.input).trans (Int.min_comm _ _)

/-- **When the input of what a search finds follows from its output**, for a layer
with a square kernel. It does for the tile that was selected; it does for the one
that is found if that was not turned; and for one that was turned it does exactly
if the input map is square, or neither window of the turned tile is longer than
the input in the other direction, to which it was cut. The input is never longer
than the output needs, and it always follows in a layer without padding whose
kernel lies in the input. -/
theorem inputFollows_search_iff (s : Scheduler) {l : Layer} {e : Extents}
    (hl : l.extents = .ok e) (hsquare : l.kernelWidth = l.kernelHeight) {r : SearchResult}
    (run : s.search { tiling := .untiled e } = .ok r) :
    ∃ c, s.Selects { tiling := .untiled e } r.dataflow c ∧ c.nest.tiling.InputFollows
      ∧ r.nest.tiling.full = e
      ∧ (r.nest.tiling.InputFollows ↔ r.nest.tiling = c.nest.tiling
        ∨ e.inputWidth = e.inputHeight
        ∨ window r.nest.tiling.tile.outputWidth e.kernelWidth e.stride ≤ e.inputHeight
          ∧ window r.nest.tiling.tile.outputHeight e.kernelHeight e.stride ≤ e.inputWidth)
      ∧ (r.nest.tiling.tile.inputWidth
          ≤ min e.inputWidth (window r.nest.tiling.tile.outputWidth e.kernelWidth e.stride)
        ∧ r.nest.tiling.tile.inputHeight
          ≤ min e.inputHeight (window r.nest.tiling.tile.outputHeight e.kernelHeight e.stride))
      ∧ (l.paddingWidth = 0 ∧ l.paddingHeight = 0 →
          l.kernelWidth ≤ l.inputWidth ∧ l.kernelHeight ≤ l.inputHeight →
          r.nest.tiling.InputFollows) := by
  obtain ⟨hn, c, hselects, horient⟩ := selects_of_search run
  have hc := hselects.selected hn
  have hfollows := hselects.inputFollows hn
  have hfull : c.nest.tiling.full = e := hc.derived.full
  obtain ⟨hnest, -⟩ | ⟨hhigh, tiling, hturn, -, hnest⟩ := orient_cases horient
  · rw [hnest]
    refine ⟨c, hselects, hfollows, hfull, iff_of_true hfollows (.inl rfl), ?_,
      fun _ _ => hfollows⟩
    obtain ⟨hwidth, hheight⟩ := hfollows
    rw [hfull] at hwidth hheight
    exact ⟨Int.le_of_eq hwidth, Int.le_of_eq hheight⟩
  · have hkernel : c.nest.tiling.full.kernelWidth = c.nest.tiling.full.kernelHeight := by
      obtain ⟨-, w, h, -, -, rfl, -⟩ := Layer.extents_eq_ok_iff.1 hl
      rw [hfull]
      exact hsquare
    obtain ⟨hnested, hfull'⟩ := hc.derived.nested.turn hturn
    rw [hfull] at hfull'
    obtain ⟨hwidth, hheight⟩ := Tiling.input_turn hturn hfollows hkernel
    have hiff := Tiling.inputFollows_turn_iff hturn hfollows hkernel
    rw [hfull'] at hwidth hheight hiff
    rw [hnest]
    refine ⟨c, hselects, hfollows, hfull',
      hiff.trans (or_iff_right (Tiling.ne_of_turn hhigh hturn)).symm, ⟨?_, ?_⟩, ?_⟩
    · refine le_min ?_ (hwidth ▸ Int.min_le_right _ _)
      rw [← hfull']
      exact hnested.tile.le .inputWidth
    · refine le_min ?_ (hheight ▸ Int.min_le_right _ _)
      rw [← hfull']
      exact hnested.tile.le .inputHeight
    · intro hpadding hinside
      refine hiff.2 (.inr ?_)
      -- a window of the turned tile is one of the selected tile, in the other direction
      obtain ⟨hwindowWidth, hwindowHeight⟩ := Layer.window_le_of_unpadded hl hpadding hinside
      have hs := hc.derived.nested.full.stride_nonneg
      have houtWidth := hc.derived.nested.tile.le .outputWidth
      have houtHeight := hc.derived.nested.tile.le .outputHeight
      rw [hfull] at hs houtWidth houtHeight hkernel
      obtain ⟨-, rfl⟩ := Tiling.turn?_eq_some_iff.1 hturn
      constructor
      · exact Int.le_trans (window_le_window hs houtHeight (Int.le_of_eq hkernel))
          hwindowHeight
      · exact Int.le_trans (window_le_window hs houtWidth (Int.le_of_eq hkernel.symm))
          hwindowWidth

/-- The tile of a layer without padding of six by five places of input is turned,
and its input follows from its output. -/
theorem inputFollows_search_iff_sixByFive :
    let s : Scheduler := ⟨.threeColumns 120, {}, by decide⟩
    let l : Layer := ⟨6, 5, 1, 3, 3, 1, 1, 0, 0⟩
    let e : Extents := ⟨1, 0, 0, 6, 5, 1, 3, 3, 4, 3, 1⟩
    l.extents = .ok e ∧ l.kernelWidth = l.kernelHeight
      ∧ ∃ r, s.search { tiling := .untiled e } = .ok r ∧ r.nest.tiling.InputFollows := by
  intro s l e
  have hl : l.extents = .ok e := by decide
  have hok : (s.search { tiling := .untiled e }).isOk = true := by decide +kernel
  cases hsearch : s.search { tiling := .untiled e } with
  | ok r =>
    obtain ⟨c, -, -, -, -, -, hunpadded⟩ := inputFollows_search_iff s hl rfl hsearch
    exact ⟨hl, rfl, r, rfl, hunpadded ⟨rfl, rfl⟩ ⟨by decide, by decide⟩⟩
  | error cause =>
    rw [hsearch] at hok
    cases hok

/-- **A turned tile can be short of input.** For a padded layer of four by three
places the search finds a tile of three places of output in a row, which needs the
whole width of the input, and has three places of it: those of the tile it was
turned from, cut to the height of the input. -/
theorem input_short_of_turned_fourByThree :
    let s : Scheduler := ⟨.threeColumns 72, {}, by decide⟩
    let l : Layer := ⟨4, 3, 1, 3, 3, 1, 1, 1, 1⟩
    let e : Extents := ⟨1, 1, 1, 4, 3, 1, 3, 3, 4, 3, 1⟩
    l.extents = .ok e ∧ l.kernelWidth = l.kernelHeight
      ∧ ∃ r, s.search { tiling := .untiled e } = .ok r
        ∧ r.nest.tiling.tile.inputWidth = 3
        ∧ min e.inputWidth (window r.nest.tiling.tile.outputWidth e.kernelWidth e.stride) = 4 := by
  intro s l e
  have hfound : (s.search { tiling := .untiled e }).toOption.map
      (fun r => (r.nest.tiling.tile.inputWidth, r.nest.tiling.tile.outputWidth))
        = some (3, 3) := by decide +kernel
  refine ⟨by decide, rfl, ?_⟩
  cases hsearch : s.search { tiling := .untiled e } with
  | error cause =>
    rw [hsearch] at hfound
    cases hfound
  | ok r =>
    rw [hsearch] at hfound
    obtain ⟨hinput, houtput⟩ := Prod.mk.inj (Option.some.inj hfound)
    refine ⟨r, rfl, hinput, ?_⟩
    rw [houtput]
    rfl

end Scheduler

end ConvTiling
