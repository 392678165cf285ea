import ConvTiling.Proofs.Finishing
import ConvTiling.Proofs.Selection
import ConvTiling.Proofs.TextRoundTrip
import ConvTiling.Schedule.Archive

/-!
# A schedule survives being kept

What is written of a schedule is the tile, the unrolling and the two orders. A
layer whose numbers are words makes every number that is written a word of at
least `0`, since the tile lies in the layer and the unrolling in the tile
(`Extents.LiesIn.storable`); so both texts read back.

The flags of the order off the chip are not written. They are derived anew when
the schedule is loaded, from the order as it was written, and that is the order
*after* the fully tiled axes were gathered, whereas the schedule derived them
before. The two agree: which axes are fully tiled is read off the levels, and
gathering changes nothing that is implied (`LoopOrder.Gathered.rederived`). Only
the flag of the chosen dataflow itself may be lost, where it is not implied.
-/

namespace ConvTiling

open Checked (bind_eq_ok_iff pure_eq_ok_iff)

/-! ## Numbers that can be kept -/

/-- **Every number of a layer is a word.** -/
def Layer.InWords (l : Layer) : Prop :=
  ∀ n ∈ [l.inputWidth, l.inputHeight, l.inputChannel, l.kernelWidth, l.kernelHeight,
    l.outputChannel, l.stride, l.paddingWidth, l.paddingHeight], Signed.Fits n

instance (l : Layer) : Decidable l.InWords := inferInstanceAs (Decidable (∀ n ∈ _, _))

/-- The length of the output of a layer is a word. -/
theorem fits_of_outputLength {input kernel stride padding n : Int}
    (run : outputLength input kernel stride padding = .ok n) : Signed.Fits n := by
  rw [outputLength] at run
  by_cases hshort : input < kernel
  · rw [if_pos hshort] at run
    obtain rfl := Except.ok.inj run
    decide
  · rw [if_neg hshort] at run
    simp only [bind_eq_ok_iff, Signed.add_eq_ok_iff] at run
    obtain ⟨_, -, _, -, _, -, _, -, -, hfits⟩ := run
    exact hfits

/-- **The level of a layer can be kept**, if its numbers are words. -/
theorem Layer.storable_of_extents {l : Layer} {e : Extents} (hl : l.InWords)
    (run : l.extents = .ok e) : e.Storable := by
  obtain ⟨-, w, h, hw, hh, rfl, hvalid⟩ := Layer.extents_eq_ok_iff.1 run
  have hleast : ∀ f : Field, 0 ≤ f.least := fun f => by cases f <;> decide
  refine fun f => ⟨Int.le_trans (hleast f) (Extents.valid_iff.1 hvalid f), ?_⟩
  cases f
  case outputWidth => exact fits_of_outputLength hw
  case outputHeight => exact fits_of_outputLength hh
  all_goals exact hl _ (by simp [Layer.level, Extents.field])

/-- **A level that lies in one that can be kept** can be kept. -/
theorem Extents.LiesIn.storable {lower upper : Extents} (h : lower.LiesIn upper)
    (hupper : upper.Storable) : lower.Storable := by
  have hdim : ∀ d : Dim, 0 ≤ lower.field d.field ∧ Signed.Fits (lower.field d.field) :=
    fun d => ⟨Int.le_trans (by decide) (h.one_le d),
      (hupper d.field).2.of_le (Int.le_trans (by decide) (h.one_le d)) (h.le d)⟩
  intro f
  cases f
  case stride =>
    rw [show lower.field .stride = upper.field .stride from h.stride]
    exact hupper .stride
  case paddingWidth =>
    rw [show lower.field .paddingWidth = upper.field .paddingWidth from h.paddingWidth]
    exact hupper .paddingWidth
  case paddingHeight =>
    rw [show lower.field .paddingHeight = upper.field .paddingHeight from h.paddingHeight]
    exact hupper .paddingHeight
  case inputWidth => exact hdim .inputWidth
  case inputHeight => exact hdim .inputHeight
  case inputChannel => exact hdim .inputChannel
  case kernelWidth => exact hdim .kernelWidth
  case kernelHeight => exact hdim .kernelHeight
  case outputWidth => exact hdim .outputWidth
  case outputHeight => exact hdim .outputHeight
  case outputChannel => exact hdim .outputChannel

/-! ## Flags that are derived anew -/

/-- **The flags of a gathered order that are derived anew** from its bindings
are those that it has, except for operands that were flagged before the flags
were derived and are not implied. -/
theorem LoopOrder.Gathered.rederived {t : Tiling} {o g : LoopOrder} (ho : o.Bijective)
    (hsums : [.kernelMap, .inputChannel] <:+: o.axes)
    (hnone : o.fullyTiled = .uniform false)
    (h : Gathered t (o.deriveFlags t.full t.tile) g) :
    (g.unflagged.deriveFlags t.full t.tile).fullyTiled = g.fullyTiled
      ∧ (g.unflagged.deriveFlags t.full t.tile).stationary
        = (o.unflagged.deriveFlags t.full t.tile).stationary
      ∧ ∀ s, g.stationary.get s
        = (o.stationary.get s
          || (g.unflagged.deriveFlags t.full t.tile).stationary.get s) := by
  have hd := derived_deriveFlags o t.full t.tile
  have hm := derived_deriveFlags g.unflagged t.full t.tile
  have he := derived_deriveFlags o.unflagged t.full t.tile
  -- after each derivation exactly the fully tiled axes are flagged
  have hdflags := fullyTiled_deriveFlags t hnone
  have hmg : (g.unflagged.deriveFlags t.full t.tile).fullyTiled = g.fullyTiled :=
    PerAxis.ext_get fun a => by
      rw [fullyTiled_deriveFlags t rfl, h.fullyTiled, hdflags, Bool.or_self]
  have hed : (o.unflagged.deriveFlags t.full t.tile).fullyTiled
      = (o.deriveFlags t.full t.tile).fullyTiled :=
    PerAxis.ext_get fun a => by rw [fullyTiled_deriveFlags t rfl, hdflags]
  -- so each of them implies the same
  have hgimplied : (g.unflagged.deriveFlags t.full t.tile).implied = g.implied :=
    implied_congr hm.positionOf hm.axisAt hmg
  have hoimplied : (o.unflagged.deriveFlags t.full t.tile).implied
      = (o.deriveFlags t.full t.tile).implied :=
    implied_congr (he.positionOf.trans hd.positionOf.symm)
      (he.axisAt.trans hd.axisAt.symm) hed
  have hmstationary : ∀ s, (g.unflagged.deriveFlags t.full t.tile).stationary.get s
      = (o.deriveFlags t.full t.tile).implied.get s := fun s => by
    rw [hm.stationary, stationary_unflagged, Bool.false_or, hgimplied,
      h.implied_eq (hd.bijective ho) (hd.axes ▸ hsums) hd.flagged]
  refine ⟨hmg, PerOperand.ext_get fun s => ?_, fun s => ?_⟩
  · rw [hmstationary, he.stationary, stationary_unflagged, Bool.false_or, hoimplied]
  · rw [h.stationary, hd.stationary, hmstationary]

/-! ## Restored nests -/

namespace LoopNest

variable {n m : LoopNest}

/-- **A valid nest is restored** from its levels and the bindings of its orders,
for a layer that it is of. -/
theorem restore_eq_ok {l : Layer} (hl : l.extents = .ok n.tiling.full) (hn : n.Valid) :
    restore l (.ofNest n) ⟨n.offChip.unflagged, n.onChip.unflagged⟩
      = .ok { tiling := n.tiling
              offChip := n.offChip.unflagged.deriveFlags n.tiling.full n.tiling.tile
              onChip := n.onChip.unflagged } := by
  have hd := LoopOrder.derived_deriveFlags n.offChip.unflagged n.tiling.full n.tiling.tile
  have hoff := hd.bijective hn.2.1.unflagged
  have hvalid : checkValid { tiling := n.tiling
                             offChip := n.offChip.unflagged.deriveFlags n.tiling.full
                               n.tiling.tile
                             onChip := n.onChip.unflagged } = .ok () :=
    checkValid_eq_ok_iff.2 ⟨hn.1, hoff, hn.2.2⟩
  refine bind_eq_ok_iff.2 ⟨n.tiling.full, Attempt.embed_eq_ok_iff.2 hl, ?_⟩
  exact bind_eq_ok_iff.2 ⟨(), Attempt.accept_eq_ok_iff.2 hvalid, rfl⟩

end LoopNest

/-- **A nest that was reloaded for another one**: it has its levels and both its
orders, off the chip it flags the same axes as fully tiled, and no operand that
the other one does not flag. -/
structure LoopNest.ReloadOf (m n : LoopNest) : Prop where
  tiling : m.tiling = n.tiling
  axisAt_offChip : m.offChip.axisAt = n.offChip.axisAt
  positionOf_offChip : m.offChip.positionOf = n.offChip.positionOf
  axisAt_onChip : m.onChip.axisAt = n.onChip.axisAt
  positionOf_onChip : m.onChip.positionOf = n.onChip.positionOf
  fullyTiled : m.offChip.fullyTiled = n.offChip.fullyTiled
  stationary : ∀ o, m.offChip.stationary.get o = true → n.offChip.stationary.get o = true

/-- What was saved of a text is that text. -/
theorem Archive.text_toUTF8 (file : ScheduleFile) (text : String) :
    Archive.text file (some text.toUTF8) = .ok text := by
  have hread : String.fromUTF8? text.toUTF8 = some text := dif_pos text.isValidUTF8
  rw [Archive.text, Option.bind_some, hread]

namespace Scheduler

variable {s : Scheduler} {l : Layer} {r : LayerSchedule}

/-- **A schedule is a finished result of the search** for the untiled nest of its
layer. -/
theorem schedule_eq_ok_iff :
    s.schedule l = .ok r ↔ ∃ e found, l.extents = .ok e
      ∧ s.search { tiling := .untiled e } = .ok found ∧ found.nest.finish = .ok r.nest
      ∧ r.dataflow = found.dataflow ∧ r.score = found.score := by
  simp only [schedule, bind_eq_ok_iff, Attempt.embed_eq_ok_iff, Attempt.accept_eq_ok_iff,
    LoopNest.ofLayer_eq_ok_iff, pure_eq_ok_iff]
  constructor
  · rintro ⟨_, ⟨e, he, rfl⟩, found, hfound, nest, hnest, rfl⟩
    exact ⟨e, found, he, hfound, hnest, rfl, rfl⟩
  · rintro ⟨e, found, he, hfound, hnest, hdataflow, hscore⟩
    refine ⟨_, ⟨e, he, rfl⟩, found, hfound, r.nest, hnest, ?_⟩
    cases r
    cases hdataflow
    cases hscore
    rfl

/-- **A schedule that is kept reloads**, if the numbers of its layer are words:
both texts read back, the nest that is restored of them for the layer is the one
that was kept, and so is the nest that is loaded from the files. It flags exactly
the operands that the derivation of the flags implied before the fully tiled axes
were gathered, and those together with what the search had flagged are the ones
that the schedule flags. -/
theorem reload_schedule (s : Scheduler) {l : Layer} (hl : l.InWords) {r : LayerSchedule}
    (run : s.schedule l = .ok r) :
    ∃ levels orders m,
      TileLevels.ofText (TileLevels.ofNest r.nest).write = .ok levels
      ∧ LoopOrders.ofText (LoopOrders.ofNest r.nest).write = .ok orders
      ∧ LoopNest.restore l levels orders = .ok m
      ∧ (∃ archive, Archive.save r.nest {} = .ok archive ∧ archive.load l = .ok m)
      ∧ m.ReloadOf r.nest
      ∧ ∃ n found, LoopNest.ofLayer l = .ok n ∧ s.search n = .ok found
        ∧ found.nest.finish = .ok r.nest
        ∧ m.offChip.stationary = (found.nest.offChip.unflagged.deriveFlags
            found.nest.tiling.full found.nest.tiling.tile).stationary
        ∧ ∀ o, r.nest.offChip.stationary.get o
          = (found.nest.offChip.stationary.get o || m.offChip.stationary.get o) := by
  obtain ⟨e, found, he, hfound, hfinish, -, -⟩ := schedule_eq_ok_iff.1 run
  obtain ⟨hderived, o, hoffChip, hflags⟩ := derived_of_search hfound
  obtain ⟨hvalid, htiling, -, hgathered⟩ := LoopNest.finish_eq_ok hderived.offChip hfinish
  have hfull : r.nest.tiling.full = e := by
    rw [htiling, hderived.full]
    rfl
  -- both texts read back
  have hstored : e.Storable := Layer.storable_of_extents hl he
  have htile : r.nest.tiling.tile.Storable := by
    rw [htiling]
    exact hderived.nested.tile.storable (hderived.full ▸ hstored)
  have hunroll : r.nest.tiling.unroll.Storable := by
    rw [htiling] at htile ⊢
    exact hderived.nested.unroll.storable htile
  have hlevels : TileLevels.ofText (TileLevels.ofNest r.nest).write = .ok (.ofNest r.nest) :=
    TileLevels.ofText_write htile hunroll
  have horders : LoopOrders.ofText (LoopOrders.ofNest r.nest).write
      = .ok ⟨r.nest.offChip.unflagged, r.nest.onChip.unflagged⟩ :=
    LoopOrders.ofText_write hvalid.2.1 hvalid.2.2
  have hrestore := LoopNest.restore_eq_ok (hfull ▸ he) hvalid
  -- the flags that are derived anew are those derived before gathering
  have hsums : [.kernelMap, .inputChannel] <:+: found.nest.offChip.axes := by
    rw [hoffChip, LoopOrder.axes_setDataflow]
    exact Operand.sums_isInfix_loopOrder _
  have hnone : found.nest.offChip.fullyTiled = .uniform false := by
    rw [hoffChip, LoopOrder.fullyTiled_setDataflow, hflags]
  obtain ⟨htiled, hstationary, hboth⟩ := hgathered.rederived hderived.offChip hsums hnone
  rw [← htiling] at htiled hboth
  have hm := LoopOrder.derived_deriveFlags r.nest.offChip.unflagged r.nest.tiling.full
    r.nest.tiling.tile
  refine ⟨_, _, _, hlevels, horders, hrestore, ⟨_, rfl, ?_⟩, ?_, _, found,
    LoopNest.ofLayer_eq_ok_iff.2 ⟨e, he, rfl⟩, hfound, hfinish, ?_, hboth⟩
  · refine bind_eq_ok_iff.2 ⟨_, Attempt.accept_eq_ok_iff.2 (Archive.text_toUTF8 _ _), ?_⟩
    refine bind_eq_ok_iff.2 ⟨_, Attempt.accept_eq_ok_iff.2 hlevels, ?_⟩
    refine bind_eq_ok_iff.2 ⟨_, Attempt.accept_eq_ok_iff.2 (Archive.text_toUTF8 _ _), ?_⟩
    exact bind_eq_ok_iff.2 ⟨_, Attempt.accept_eq_ok_iff.2 horders, hrestore⟩
  · refine ⟨rfl, hm.axisAt, hm.positionOf, rfl, rfl, htiled, fun o ho => ?_⟩
    rw [hboth, Bool.or_eq_true]
    exact .inr ho
  · rw [← hstationary, htiling]

/-- The schedule of a layer of which two axes are left over reloads, the two others being
gathered innermost. It flags two dataflows. The one that was chosen is not implied, so the
nest that is loaded flags the other one alone. -/
theorem reload_schedule_fiveByFour :
    let a : Accelerator :=
      ⟨1, 1.0, 1.0, ⟨64, 64, 64⟩, 1, 3, [.outputWidth], [.outputHeight]⟩
    let s : Scheduler := ⟨a, {}, by decide⟩
    let l : Layer := ⟨5, 4, 1, 2, 2, 3, 1, 0, 0⟩
    l.InWords ∧ ∃ r, s.schedule l = .ok r ∧ r.dataflow = .weight
      ∧ r.nest.tiling.tile = ⟨1, 0, 0, 4, 2, 1, 2, 2, 3, 1, 2⟩
      ∧ r.nest.offChip.axes = [.kernelMap, .inputChannel, .outputMap, .outputChannel]
      ∧ r.nest.offChip.stationary = ⟨false, true, true⟩
      ∧ ∃ levels orders m,
        TileLevels.ofText (TileLevels.ofNest r.nest).write = .ok levels
        ∧ LoopOrders.ofText (LoopOrders.ofNest r.nest).write = .ok orders
        ∧ LoopNest.restore l levels orders = .ok m
        ∧ (∃ archive, Archive.save r.nest {} = .ok archive ∧ archive.load l = .ok m)
        ∧ m.ReloadOf r.nest ∧ m.offChip.stationary = ⟨false, false, true⟩ := by
  intro a s l
  have hl : l.InWords := by decide
  have hrun : (do
      let found ← s.search { tiling := .untiled ⟨1, 0, 0, 5, 4, 1, 2, 2, 4, 3, 3⟩ }
      let nest ← Attempt.accept .invalidNest found.nest.finish
      return (found.dataflow, nest.tiling.tile, nest.offChip.axes, nest.offChip.stationary,
        (found.nest.offChip.unflagged.deriveFlags found.nest.tiling.full
          found.nest.tiling.tile).stationary))
        = .ok (.weight, ⟨1, 0, 0, 4, 2, 1, 2, 2, 3, 1, 2⟩,
          [.kernelMap, .inputChannel, .outputMap, .outputChannel], ⟨false, true, true⟩,
          ⟨false, false, true⟩) := by decide +kernel
  simp only [bind_eq_ok_iff, Attempt.accept_eq_ok_iff, pure_eq_ok_iff, Prod.mk.injEq] at hrun
  obtain ⟨found, hsearch, nest, hfinish, hdataflow, htile, haxes, hflags, himplied⟩ := hrun
  have hextents : l.extents = .ok ⟨1, 0, 0, 5, 4, 1, 2, 2, 4, 3, 3⟩ := by decide
  have hschedule : s.schedule l = .ok ⟨nest, found.dataflow, found.score⟩ :=
    schedule_eq_ok_iff.2 ⟨_, found, hextents, hsearch, hfinish, rfl, rfl⟩
  obtain ⟨levels, orders, m, hlevels, horders, hrestore, harchive, hreload, n, found', hlayer,
    hsearch', -, hstationary, -⟩ := reload_schedule s hl hschedule
  obtain ⟨e, he, rfl⟩ := LoopNest.ofLayer_eq_ok_iff.1 hlayer
  obtain rfl := Except.ok.inj (hextents.symm.trans he)
  obtain rfl := Except.ok.inj (hsearch.symm.trans hsearch')
  exact ⟨hl, _, hschedule, hdataflow.symm, htile.symm, haxes.symm, hflags.symm, levels, orders,
    m, hlevels, horders, hrestore, harchive, hreload, hstationary.trans himplied.symm⟩

end Scheduler

end ConvTiling
