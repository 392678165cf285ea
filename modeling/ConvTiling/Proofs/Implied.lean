import ConvTiling.Proofs.Gathering

/-!
# The dataflows that an order implies

What an order says about the operands is read off three things: which axes are
flagged, which is the innermost loop that is left, and – for the two axes that
are summed over – whether they are neighbours (`LoopOrder.implied`). Deriving
the flags of an order adds the operands it implies to those that are flagged
already (`LoopOrder.derived_deriveFlags`).

The last of the three is a matter of positions, and gathering the fully tiled
axes changes positions. It does not change what is implied
(`LoopOrder.Gathered.implied_eq`), because the kernel map lies directly inside
the input channel in every canonical order: either one of the two is fully
tiled, which is all that the other one needs, or neither is, and then gathering
leaves them neighbours and the kernel map the inner one. So the operand of the
innermost loop left is always implied, whether or not the axes were gathered
(`LoopOrder.stationaryByOrder_eq`).
-/

namespace ConvTiling

/-- **The operand that the loop over an axis does not touch.** -/
def Axis.untouched : Axis → Operand
  | .kernelMap | .inputChannel => .output
  | .outputMap => .weight
  | .outputChannel => .input

/-- In every canonical order the kernel map is directly inside the input
channel. -/
theorem Operand.sums_isInfix_loopOrder (s : Operand) :
    [Axis.kernelMap, .inputChannel] <:+: s.loopOrder.toList := by
  cases s <;> decide

namespace LoopOrder

variable {o o' : LoopOrder} {a b : Axis} {t : Tiling}

/-! ## Flagging -/

/-- **Flagging the entries of a property**, one after the other: flagged are those
that were, and those of the property. -/
theorem flagged_foldl {σ α : Type} [DecidableEq α] {flag : σ → α → σ}
    (flagged : σ → α → Bool)
    (hflag : ∀ s a b, flagged (flag s a) b = if a = b then true else flagged s b)
    (P : α → Prop) [DecidablePred P] (as : List α) (s : σ) (b : α) :
    flagged (as.foldl (fun s a => if P a then flag s a else s) s) b
      = (flagged s b || decide (b ∈ as ∧ P b)) := by
  induction as generalizing s with
  | nil => simp
  | cons a as ih =>
    rw [List.foldl_cons, ih]
    by_cases hab : a = b
    · subst hab
      by_cases ha : P a <;> simp [ha, hflag]
    · by_cases ha : P a <;> simp [ha, hflag, hab, Ne.symm hab]

/-- Flagging axes changes which axes are flagged, and nothing else. -/
theorem foldl_flagFullyTiled (P : Axis → Prop) [DecidablePred P] (as : List Axis)
    (o : LoopOrder) :
    ∃ fullyTiled, as.foldl (fun o a => if P a then o.flagFullyTiled a else o) o
        = { o with fullyTiled }
      ∧ ∀ a, fullyTiled.get a = (o.fullyTiled.get a || decide (a ∈ as ∧ P a)) := by
  have hsame : as.foldl (fun o a => if P a then o.flagFullyTiled a else o) o
      = { o with fullyTiled :=
          (as.foldl (fun o a => if P a then o.flagFullyTiled a else o) o).fullyTiled } := by
    induction as generalizing o with
    | nil => rfl
    | cons a as ih =>
      rw [List.foldl_cons]
      split <;> exact ih _
  exact ⟨_, hsame, flagged_foldl (fun o a => o.fullyTiled.get a)
    (fun o a b => PerAxis.get_set o.fullyTiled a b true) P as o⟩

/-- Flagging operands changes which operands are flagged, and nothing else. -/
theorem foldl_flagStationary (P : Operand → Prop) [DecidablePred P] (ss : List Operand)
    (o : LoopOrder) :
    ∃ stationary, ss.foldl (fun o s => if P s then o.flagStationary s else o) o
        = { o with stationary }
      ∧ ∀ s, stationary.get s = (o.stationary.get s || decide (s ∈ ss ∧ P s)) := by
  have hsame : ss.foldl (fun o s => if P s then o.flagStationary s else o) o
      = { o with stationary :=
          (ss.foldl (fun o s => if P s then o.flagStationary s else o) o).stationary } := by
    induction ss generalizing o with
    | nil => rfl
    | cons s ss ih =>
      rw [List.foldl_cons]
      split <;> exact ih _
  exact ⟨_, hsame, flagged_foldl (fun o s => o.stationary.get s)
    (fun o a b => PerOperand.get_set o.stationary a b true) P ss o⟩

/-- **Flagging the axes along which two levels are equal** changes which axes are
flagged, and nothing else. -/
theorem flagEqual_eq (o : LoopOrder) (upper lower : Extents) :
    ∃ fullyTiled, o.flagEqual upper lower = { o with fullyTiled }
      ∧ ∀ a, fullyTiled.get a
        = (o.fullyTiled.get a || decide (∀ d ∈ a.dims, upper.get d = lower.get d)) := by
  obtain ⟨f, hf, hget⟩ := foldl_flagFullyTiled
    (fun a => ∀ d ∈ a.dims, upper.get d = lower.get d) Axis.all o
  refine ⟨f, hf, fun a => ?_⟩
  simpa only [a.mem_all, true_and] using hget a

/-- **The operands that an order implies**: those that the tiling keeps, and
where it keeps none the one that the order keeps. -/
def implied (o : LoopOrder) : PerOperand Bool :=
  if o.stationaryByTiling = .uniform false then
    match o.stationaryByOrder with
    | some s => (PerOperand.uniform false).set s true
    | none => .uniform false
  else o.stationaryByTiling

/-- **Flagging the dataflows** adds the operands that an order implies, and
changes nothing else. -/
theorem flagDataflows_eq (o : LoopOrder) :
    ∃ stationary, o.flagDataflows = { o with stationary }
      ∧ ∀ s, stationary.get s = (o.stationary.get s || o.implied.get s) := by
  rw [flagDataflows, implied]
  by_cases hnone : o.stationaryByTiling = .uniform false
  · rw [if_pos hnone, if_pos hnone]
    cases o.stationaryByOrder with
    | none => exact ⟨o.stationary, rfl, fun s => by simp⟩
    | some c =>
      refine ⟨o.stationary.set c true, rfl, fun s => ?_⟩
      by_cases hcs : c = s <;> simp [hcs]
  · rw [if_neg hnone, if_neg hnone]
    obtain ⟨f, hf, hget⟩ := foldl_flagStationary
      (fun s => o.stationaryByTiling.get s = true) Operand.all o
    refine ⟨f, hf, fun s => ?_⟩
    rw [hget]
    simp [s.mem_all]

/-- What is implied is read off the bindings and the flagged axes. -/
theorem implied_congr (hposition : o'.positionOf = o.positionOf)
    (haxis : o'.axisAt = o.axisAt) (hflags : o'.fullyTiled = o.fullyTiled) :
    o'.implied = o.implied := by
  cases o
  cases o'
  cases hposition
  cases haxis
  cases hflags
  rfl

/-- **Deriving the flags of an order** leaves its bindings, flags the axes along
which the levels are equal, and flags the operands that are implied then. -/
structure Derived (o : LoopOrder) (upper lower : Extents) (o' : LoopOrder) : Prop where
  positionOf : o'.positionOf = o.positionOf
  axisAt : o'.axisAt = o.axisAt
  fullyTiled : ∀ a, o'.fullyTiled.get a
    = (o.fullyTiled.get a || decide (∀ d ∈ a.dims, upper.get d = lower.get d))
  stationary : ∀ s, o'.stationary.get s = (o.stationary.get s || o'.implied.get s)

/-- Deriving the flags leaves the axes where they are. -/
theorem Derived.axes {upper lower : Extents} (h : o.Derived upper lower o') :
    o'.axes = o.axes :=
  congrArg PerPosition.toList h.axisAt

/-- Deriving the flags leaves the directions in agreement. -/
theorem Derived.bijective {upper lower : Extents} (h : o.Derived upper lower o')
    (ho : o.Bijective) : o'.Bijective := by
  rw [Bijective, h.positionOf, h.axisAt]
  exact ho

/-- Deriving the flags from the levels of a tiling flags the fully tiled axes. -/
theorem Derived.flagged (h : o.Derived t.full t.tile o') (a : Axis) (ha : t.IsFullyTiled a) :
    o'.fullyTiled.get a = true := by
  rw [h.fullyTiled, Bool.or_eq_true, decide_eq_true_iff]
  exact .inr ha

theorem derived_deriveFlags (o : LoopOrder) (upper lower : Extents) :
    o.Derived upper lower (o.deriveFlags upper lower) := by
  obtain ⟨f, hf, hfget⟩ := flagEqual_eq o upper lower
  obtain ⟨s, hs, hsget⟩ := flagDataflows_eq { o with fullyTiled := f }
  rw [deriveFlags, hf, hs]
  exact ⟨rfl, rfl, hfget, hsget⟩

/-- Of an order in which no axis is flagged, deriving the flags flags exactly the
fully tiled ones. -/
theorem fullyTiled_deriveFlags (t : Tiling) (hnone : o.fullyTiled = .uniform false) (a : Axis) :
    (o.deriveFlags t.full t.tile).fullyTiled.get a = decide (t.IsFullyTiled a) := by
  rw [(derived_deriveFlags o t.full t.tile).fullyTiled, hnone, PerAxis.get_uniform,
    Bool.false_or]
  rfl

/-! ## The innermost loop left -/

/-- **The innermost loop left** is the first one found, as soon as an axis is not
flagged. -/
theorem Bijective.find?_axes (h : o.Bijective) (ha : o.fullyTiled.get a = false) :
    o.axes.find? (fun a => !o.fullyTiled.get a) = some o.innermostLoop := by
  rw [innermostLoop]
  cases hfind : o.axes.find? fun a => !o.fullyTiled.get a with
  | some b => rfl
  | none =>
    have hnone := List.find?_eq_none.1 hfind a (h.mem_axes a)
    rw [ha] at hnone
    exact absurd rfl hnone

/-- Axes that follow each other sit at neighbouring positions. -/
theorem Bijective.sitsDirectlyOutside (h : o.Bijective) (hab : [a, b] <:+: o.axes) :
    o.SitsDirectlyOutside a b := by
  obtain ⟨before, after, haxes⟩ := hab
  have hget : o.axes = [o.axisAt.get .innermost, o.axisAt.get .secondInnermost,
    o.axisAt.get .thirdInnermost, o.axisAt.get .outermost] := rfl
  rw [hget] at haxes
  have hneighbours : ∀ p q : Position, p.ordinal + 1 = q.ordinal → a = o.axisAt.get p →
      b = o.axisAt.get q → o.SitsDirectlyOutside a b := by
    rintro p q hpq rfl rfl
    rwa [SitsDirectlyOutside, h.1 p p.mem_all, h.1 q q.mem_all]
  match before, haxes with
  | [], haxes =>
    simp only [List.nil_append, List.cons_append, List.cons.injEq] at haxes
    exact hneighbours .innermost .secondInnermost rfl haxes.1 haxes.2.1
  | [_], haxes =>
    simp only [List.nil_append, List.cons_append, List.cons.injEq] at haxes
    exact hneighbours .secondInnermost .thirdInnermost rfl haxes.2.1 haxes.2.2.1
  | [_, _], haxes =>
    simp only [List.nil_append, List.cons_append, List.cons.injEq] at haxes
    exact hneighbours .thirdInnermost .outermost rfl haxes.2.2.1 haxes.2.2.2.1
  | _ :: _ :: _ :: before, haxes =>
    have hlength := congrArg List.length haxes
    simp only [List.length_cons, List.length_append, List.length_nil] at hlength
    omega

/-- **The operand of the innermost loop left is the one that the order keeps**,
if the two axes that are summed over follow each other, the kernel map first, or
one of them is fully tiled. -/
theorem stationaryByOrder_eq (h : o.Bijective)
    (hsums : o.fullyTiled.get .kernelMap = false → o.fullyTiled.get .inputChannel = false →
      [.kernelMap, .inputChannel] <:+: o.axes) :
    o.stationaryByOrder = some o.innermostLoop.untouched := by
  rw [stationaryByOrder]
  cases hloop : o.innermostLoop with
  | outputChannel => rfl
  | outputMap => rfl
  | kernelMap =>
    refine if_pos ?_
    cases hchannel : o.fullyTiled.get .inputChannel with
    | true => exact .inl hchannel
    | false =>
      have hkernel := List.find?_some (h.find?_axes hchannel)
      rw [hloop] at hkernel
      exact .inr (h.sitsDirectlyOutside (hsums (by simpa using hkernel) hchannel))
  | inputChannel =>
    refine if_pos (.inl ?_)
    show o.fullyTiled.get .kernelMap = true
    by_contra hkernel
    rw [Bool.not_eq_true] at hkernel
    have hfind := h.find?_axes hkernel
    rw [hloop] at hfind
    have hchannel := List.find?_some hfind
    -- the kernel map comes first and is left, so the search stops at it or before
    obtain ⟨before, after, haxes⟩ := hsums hkernel (by simpa using hchannel)
    have hnodup := h.nodup_axes
    rw [← haxes, List.append_assoc] at hfind hnodup
    rw [List.find?_append] at hfind
    cases hbefore : before.find? fun a => !o.fullyTiled.get a with
    | none =>
      rw [hbefore, Option.none_or, List.cons_append,
        List.find?_cons_of_pos (by simpa using hkernel)] at hfind
      cases hfind
    | some a =>
      rw [hbefore, Option.some_or] at hfind
      obtain rfl := Option.some.inj hfind
      have hmem := List.mem_of_find?_eq_some hbefore
      exact (List.nodup_append.1 hnodup).2.2 _ hmem _ (by simp) rfl

/-! ## Gathering changes nothing that is implied -/

/-- An axis that is not flagged is not fully tiled, if the fully tiled ones are flagged. -/
theorem not_isFullyTiled (hflags : ∀ a, t.IsFullyTiled a → o.fullyTiled.get a = true)
    (ha : o.fullyTiled.get a = false) : ¬ t.IsFullyTiled a :=
  mt (hflags a) (by rw [ha]; exact Bool.false_ne_true)

namespace Gathered

/-- Gathering flags no axis that was not flagged, if the fully tiled ones were. -/
theorem fullyTiled_eq (h : Gathered t o o')
    (hflags : ∀ a, t.IsFullyTiled a → o.fullyTiled.get a = true) :
    o'.fullyTiled = o.fullyTiled :=
  PerAxis.ext_get fun a => by
    rw [h.fullyTiled]
    by_cases ha : t.IsFullyTiled a
    · rw [hflags a ha, Bool.true_or]
    · rw [decide_eq_false ha, Bool.or_false]

/-- The axes that are left follow the gathered ones in the order they had, so
the first of them is the same. -/
theorem find?_axes (h : Gathered t o o')
    (hflags : ∀ a, t.IsFullyTiled a → o.fullyTiled.get a = true) :
    o'.axes.find? (fun a => !o'.fullyTiled.get a)
      = o.axes.find? fun a => !o.fullyTiled.get a := by
  rw [h.fullyTiled_eq hflags, h.axes, List.find?_append, List.find?_eq_none.2,
    Option.none_or, List.find?_filter]
  · congr 1
    funext a
    cases hflag : o.fullyTiled.get a with
    | true => simp
    | false => simp [not_isFullyTiled hflags hflag]
  · intro a ha
    simpa using hflags a (of_decide_eq_true (List.mem_filter.1 ha).2)

/-- **Gathering the fully tiled axes changes nothing that is implied**, if the
input channel is next outward of the kernel map, and the fully tiled axes are
flagged already. -/
theorem implied_eq (h : Gathered t o o') (ho : o.Bijective)
    (hsums : [.kernelMap, .inputChannel] <:+: o.axes)
    (hflags : ∀ a, t.IsFullyTiled a → o.fullyTiled.get a = true) :
    o'.implied = o.implied := by
  have hsame := h.fullyTiled_eq hflags
  have hgathered : o'.fullyTiled.get .kernelMap = false →
      o'.fullyTiled.get .inputChannel = false →
      [.kernelMap, .inputChannel] <:+: o'.axes := by
    rw [hsame, h.axes]
    intro hkernel hchannel
    have hk := not_isFullyTiled hflags hkernel
    have hc := not_isFullyTiled hflags hchannel
    have hleft := hsums.filter fun a => decide ¬ t.IsFullyTiled a
    rw [List.filter_cons_of_pos (by simpa using hk),
      List.filter_cons_of_pos (by simpa using hc), List.filter_nil] at hleft
    exact hleft.trans (List.suffix_append _ _).isInfix
  have htiling : o'.stationaryByTiling = o.stationaryByTiling := by
    rw [stationaryByTiling, stationaryByTiling, hsame]
  rw [implied, implied, htiling]
  by_cases hnone : o.stationaryByTiling = .uniform false
  · rw [if_pos hnone, if_pos hnone, stationaryByOrder_eq ho fun _ _ => hsums,
      stationaryByOrder_eq h.bijective hgathered]
    -- the output map is left, so there is an innermost loop to compare
    have hmap : o.fullyTiled.get .outputMap = false := congrArg PerOperand.weight hnone
    have hloop := h.find?_axes hflags
    rw [ho.find?_axes hmap, h.bijective.find?_axes (hsame ▸ hmap)] at hloop
    rw [Option.some.inj hloop]
  · rw [if_neg hnone, if_neg hnone]

end Gathered

end LoopOrder

end ConvTiling
