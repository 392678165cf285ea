import ConvTiling.Proofs.Selection

/-!
# What turning the selected tile costs

The last step of a search turns a tile that is higher than it is wide, where it
still lies in the layer then, and does not compare what it moves with what it
moved before. Turning exchanges the extents of two maps, and of the loops that
fetch an operand again only those of the weights run over a map. So the inputs
and the output are moved as before, and the weights once for every tile that
covers the output map (`Tiling.movedBytes_turn`).

That is the same number of tiles where the map is square. Where it is not, it can
be more: three rows of two are covered by three columns of height two, but it
takes four rows of width two. What is moved after the last step is therefore at
most what was moved before it under the condition that
`Scheduler.traffic_turn_le_iff` gives, and not always
(`Scheduler.traffic_lt_of_turned_threeByTwo`).
-/

namespace ConvTiling

namespace Tiling

variable {t t' : Tiling} {s o : Operand}

/-- **The tiles of a turned tiling** cover the layer along extents that a turn
leaves alone as those of the tiling did. -/
theorem tilesOver_turn (h : t.turn? = some t') {dims : List Dim}
    (hdims : ∀ d ∈ dims, d.turned = d) : t'.tilesOver dims = t.tilesOver dims := by
  obtain ⟨-, rfl⟩ := turn?_eq_some_iff.1 h
  refine congrArg List.prod (List.map_congr_left fun d hd => ?_)
  show quotientUp (t.full.get d) (t.tile.turned.get d) = _
  rw [Extents.get_turned, hdims d hd]

/-- **An operand other than the weights passes as often turned as not.** -/
theorem passes_turn (h : t.turn? = some t') (ho : o ≠ .weight) :
    t'.passes s o = t.passes s o := by
  have hdims : ∀ d ∈ Traffic.reloadDims o, d.turned = d := by
    cases o with
    | input => decide
    | weight => exact absurd rfl ho
    | output => decide
  have htiles := tilesOver_turn h hdims
  cases o with
  | input => rw [passes, passes, exchanges, exchanges, htiles]
  | weight => exact absurd rfl ho
  | output => rw [passes, passes, exchanges, exchanges, htiles]

/-- **Turning moves more or less of the weights** alone: the bytes of the weights
for each pass more or less. -/
theorem movedBytes_turn (h : t.turn? = some t') (s : Operand) :
    t'.movedBytes s = t.movedBytes s
      + (t'.passes s .weight - t.passes s .weight)
        * (t.full.volume Operand.weight.dims * 4) := by
  have hinput := passes_turn (s := s) h (o := .input) (by decide)
  have houtput := passes_turn (s := s) h (o := .output) (by decide)
  have hfull : t'.full = t.full := by
    obtain ⟨-, rfl⟩ := turn?_eq_some_iff.1 h
    rfl
  rw [movedBytes, movedBytes, hinput, houtput, hfull]
  ring

/-- **Turning moves no more** exactly if the weights stay in their buffer, or the
turned tiles that cover the output map are no more. -/
theorem movedBytes_turn_le_iff (hfull : ∀ d, 1 ≤ t.full.get d) (h : t.turn? = some t') :
    t'.movedBytes s ≤ t.movedBytes s ↔
      s = .weight ∨ t'.tilesOver [.outputWidth, .outputHeight]
        ≤ t.tilesOver [.outputWidth, .outputHeight] := by
  have hbytes : 0 < t.full.volume Operand.weight.dims * 4 := by
    have := Extents.one_le_volume hfull Operand.weight.dims
    omega
  have hpasses : t'.movedBytes s ≤ t.movedBytes s ↔
      t'.passes s .weight ≤ t.passes s .weight := by
    rw [movedBytes_turn h s, add_le_iff_nonpos_right, Int.sub_mul, sub_nonpos,
      mul_le_mul_iff_of_pos_right hbytes]
  rw [hpasses, passes, passes]
  by_cases hs : Operand.weight = s
  · rw [if_pos hs, if_pos hs]
    exact iff_of_true (Int.le_refl 1) (.inl hs.symm)
  · rw [if_neg hs, if_neg hs]
    exact (or_iff_right (Ne.symm hs)).symm

/-- The tiles that cover the output map. -/
theorem tilesOver_outputMap (t : Tiling) :
    t.tilesOver [.outputWidth, .outputHeight]
      = quotientUp t.full.outputWidth t.tile.outputWidth
        * quotientUp t.full.outputHeight t.tile.outputHeight := by
  show quotientUp _ _ * (quotientUp _ _ * 1) = _
  rw [Int.mul_one]
  rfl

/-- The turned tiles that cover the output map. -/
theorem tilesOver_outputMap_turn (h : t.turn? = some t') :
    t'.tilesOver [.outputWidth, .outputHeight]
      = quotientUp t.full.outputWidth t.tile.outputHeight
        * quotientUp t.full.outputHeight t.tile.outputWidth := by
  obtain ⟨-, rfl⟩ := turn?_eq_some_iff.1 h
  exact tilesOver_outputMap _

/-- **A square output map** takes as many tiles turned as not. -/
theorem movedBytes_turn_of_square (h : t.turn? = some t')
    (hsquare : t.full.outputWidth = t.full.outputHeight) :
    t'.movedBytes s = t.movedBytes s := by
  have htiles : t'.tilesOver (Traffic.reloadDims .weight)
      = t.tilesOver (Traffic.reloadDims .weight) := by
    rw [show Traffic.reloadDims .weight = [.outputWidth, .outputHeight] from rfl,
      tilesOver_outputMap_turn h, tilesOver_outputMap, hsquare, Int.mul_comm]
  rw [movedBytes_turn h, passes, passes, exchanges, exchanges, htiles, Int.sub_self,
    Int.zero_mul, Int.add_zero]

end Tiling

/-- An array of one row and two columns, the output map mapped onto it, with
buffers of a few bytes. -/
def Accelerator.narrow : Accelerator where
  frequency := 1.0
  bandwidth := 1.0
  buffers := ⟨16, 12, 16⟩
  rows := 1
  columns := 2
  rowDims := [.outputWidth]
  columnDims := [.outputHeight]

namespace Scheduler

variable {s : Scheduler} {n : LoopNest}

/-- **What the last step of a search does to the traffic.** The selected tiling
and the one that is found both have a traffic under the dataflow that was chosen.
The second is at most the first exactly if the tile was not turned, the weights
stay in their buffer, or it takes no more turned tiles than tiles to cover the
output map; and of a square output map they are equal. -/
theorem traffic_turn_le_iff {r : SearchResult} (run : s.search n = .ok r) :
    ∃ c before after, s.Selects n r.dataflow c
      ∧ c.nest.tiling.traffic r.dataflow = .ok before
      ∧ r.nest.tiling.traffic r.dataflow = .ok after
      ∧ (after ≤ before ↔ r.nest.tiling = c.nest.tiling ∨ r.dataflow = .weight
        ∨ quotientUp n.tiling.full.outputWidth c.nest.tiling.tile.outputHeight
            * quotientUp n.tiling.full.outputHeight c.nest.tiling.tile.outputWidth
          ≤ quotientUp n.tiling.full.outputWidth c.nest.tiling.tile.outputWidth
            * quotientUp n.tiling.full.outputHeight c.nest.tiling.tile.outputHeight)
      ∧ (n.tiling.full.outputWidth = n.tiling.full.outputHeight → after = before) := by
  obtain ⟨hn, c, hselects, horient⟩ := selects_of_search run
  have hc := hselects.selected hn
  obtain ⟨hnest, -⟩ | ⟨hhigh, tiling, hturn, hscore, hnest⟩ := orient_cases horient
  · rw [hnest]
    exact ⟨c, _, _, hselects, hc.traffic, hc.traffic,
      iff_of_true (Int.le_refl _) (.inl rfl), fun _ => rfl⟩
  · have hone := hc.derived.nested.full.one_le_get
    rw [hnest]
    refine ⟨c, _, _, hselects, hc.traffic, Tiling.answers_traffic_of_score hscore, ?_,
      fun hsquare => ?_⟩
    · rw [Tiling.movedBytes_turn_le_iff hone hturn, Tiling.tilesOver_outputMap_turn hturn,
        Tiling.tilesOver_outputMap, hc.derived.full]
      exact (or_iff_right (Tiling.ne_of_turn hhigh hturn)).symm
    · rw [← hc.derived.full] at hsquare
      exact Tiling.movedBytes_turn_of_square hturn hsquare

/-- The tile of a layer of two by two places is turned, and moves as much. -/
theorem traffic_turn_le_iff_twoByTwo :
    let s : Scheduler := ⟨.narrow, {}, by decide⟩
    let n : LoopNest := { tiling := .untiled ⟨1, 0, 0, 2, 2, 3, 1, 1, 2, 2, 1⟩ }
    ∃ r, s.search n = .ok r ∧ ∃ c bytes, s.Selects n r.dataflow c
      ∧ c.nest.tiling.traffic r.dataflow = .ok bytes
      ∧ r.nest.tiling.traffic r.dataflow = .ok bytes := by
  intro s n
  have hok : (s.search n).isOk = true := by decide +kernel
  cases hsearch : s.search n with
  | ok r =>
    obtain ⟨c, before, after, hselects, hbefore, hafter, -, hsquare⟩ :=
      traffic_turn_le_iff hsearch
    obtain rfl := hsquare rfl
    exact ⟨r, rfl, c, after, hselects, hbefore, hafter⟩
  | error e =>
    rw [hsearch] at hok
    cases hok

/-- **Turning can move more.** For a layer of three by two places and three
channels of input the search selects a tile of one by two places, of which three
cover the output map, and turns it into one of two by one, of which four do. -/
theorem traffic_lt_of_turned_threeByTwo :
    let s : Scheduler := ⟨.narrow, {}, by decide⟩
    let e : Extents := ⟨1, 0, 0, 3, 2, 3, 1, 1, 3, 2, 1⟩
    Layer.extents ⟨3, 2, 3, 1, 1, 1, 1, 0, 0⟩ = .ok e ∧
      ∃ r c, s.search { tiling := .untiled e } = .ok r
        ∧ s.Selects { tiling := .untiled e } r.dataflow c
        ∧ c.nest.tiling.traffic r.dataflow = .ok 132
        ∧ r.nest.tiling.traffic r.dataflow = .ok 144 := by
  intro s e
  have hsearch : (s.search { tiling := .untiled e }).toOption.map
      (fun r => r.nest.tiling.traffic r.dataflow) = some (.ok 144) := by decide +kernel
  have hselect : (s.select { tiling := .untiled e }).toOption.map
      (fun found => found.2.map fun c => c.nest.tiling.traffic found.1)
        = some (some (.ok 132)) := by decide +kernel
  refine ⟨by decide, ?_⟩
  cases hrun : s.search { tiling := .untiled e } with
  | error cause =>
    rw [hrun] at hsearch
    cases hsearch
  | ok r =>
    obtain ⟨-, c, hselects, -⟩ := selects_of_search hrun
    rw [hrun] at hsearch
    rw [show s.select _ = _ from hselects] at hselect
    exact ⟨r, c, rfl, hselects, Option.some.inj (Option.some.inj hselect),
      Option.some.inj hsearch⟩

end Scheduler

end ConvTiling
