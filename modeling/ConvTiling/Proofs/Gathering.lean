import Mathlib.Data.List.Nodup
import ConvTiling.Nest.Basic

/-!
# Gathering the fully tiled axes

Moving an axis innermost is a walk: one exchange of neighbours after the other,
of which each takes the axis one position inward. An exchange keeps the two
directions of an order in agreement, and it keeps the order of all the *other*
axes (`LoopOrder.Moves.step`). Both are what the walk as a whole keeps
(`LoopOrder.moveInnermost_run`), so none of its checks can fail, and gathering
several axes puts them in front of what is left of the order
(`LoopOrder.gatherFullyTiled_run`).

The flags follow an axis, not a position. So what gathering can change of the
dataflows that an order implies is only what is read off the positions, and that
is the innermost loop that is left and whether the two axes that are summed over
are neighbours. Gathering moves fully tiled axes alone: the others keep their
order, and two neighbours of which neither is fully tiled stay neighbours
(`LoopOrder.Gathered.implied_eq`).
-/

namespace ConvTiling

namespace LoopOrder

variable {o o' : LoopOrder} {a b : Axis} {p q : Position}

/-! ## Orders whose directions agree -/

/-- Two directions that determine each other agree. -/
theorem bijective_of_axisAt_eq_iff
    (h : ∀ p a, o.axisAt.get p = a ↔ p = o.positionOf.get a) : o.Bijective :=
  ⟨fun p _ => ((h p _).1 rfl).symm, fun a _ => (h _ a).2 rfl⟩

/-- No two positions hold one axis. -/
theorem Bijective.nodup_axes (h : o.Bijective) : o.axes.Nodup := by
  show (Position.all.map o.axisAt.get).Nodup
  refine List.Nodup.map_on (fun p _ q _ hpq => ?_) (by decide : Position.all.Nodup)
  exact ((h.axisAt_eq_iff p _).1 hpq).trans ((h.axisAt_eq_iff q _).1 rfl).symm

/-- Every axis is held by a position. -/
theorem Bijective.mem_axes (h : o.Bijective) (a : Axis) : a ∈ o.axes :=
  List.mem_map.2 ⟨o.positionOf.get a, Position.mem_all _, h.2 a a.mem_all⟩

/-! ## Moving one axis -/

theorem get_axisAt_exchange (o : LoopOrder) (p q r : Position) :
    (o.exchange p q).axisAt.get r
      = if p = r then o.axisAt.get q else if q = r then o.axisAt.get p else o.axisAt.get r := by
  simp only [exchange, LoopOrder.bind, PerPosition.get_set]

theorem get_positionOf_exchange (o : LoopOrder) (p q : Position) (a : Axis) :
    (o.exchange p q).positionOf.get a
      = if o.axisAt.get q = a then p
        else if o.axisAt.get p = a then q else o.positionOf.get a := by
  simp only [exchange, LoopOrder.bind, PerAxis.get_set]

/-- **An exchange keeps the directions in agreement.** -/
theorem Bijective.exchange (h : o.Bijective) (p q : Position) :
    (o.exchange p q).Bijective := by
  have hposition : ∀ r, o.positionOf.get (o.axisAt.get r) = r := fun r => h.1 r r.mem_all
  have haxis : ∀ b, o.axisAt.get (o.positionOf.get b) = b := fun b => h.2 b b.mem_all
  refine bijective_of_axisAt_eq_iff fun r a => ?_
  rw [get_axisAt_exchange, get_positionOf_exchange]
  grind

/-- **What moving an axis keeps**: the agreement of the directions, the order of
the other axes, and the flags. -/
structure Moves (a : Axis) (o o' : LoopOrder) : Prop where
  bijective : o'.Bijective
  others : o'.axes.filter (· ≠ a) = o.axes.filter (· ≠ a)
  fullyTiled : o'.fullyTiled = o.fullyTiled
  stationary : o'.stationary = o.stationary

theorem Moves.trans {o'' : LoopOrder} (h : Moves a o o') (h' : Moves a o' o'') :
    Moves a o o'' where
  bijective := h'.bijective
  others := h'.others.trans h.others
  fullyTiled := h'.fullyTiled.trans h.fullyTiled
  stationary := h'.stationary.trans h.stationary

/-- **An exchange with the next axis inward** moves an axis by one position. -/
theorem Moves.step (h : o.Bijective) (ha : o.positionOf.get a = p)
    (hq : p.inward? = some q) :
    Moves a o (o.exchange p q) ∧ (o.exchange p q).positionOf.get a = q := by
  have hat : o.axisAt.get p = a := (h.axisAt_eq_iff p a).2 ha.symm
  refine ⟨⟨h.exchange p q, ?_, rfl, rfl⟩, ?_⟩
  · rw [axes, axes, PerPosition.toList_eq_map_get, PerPosition.toList_eq_map_get]
    -- the two neighbours are `b, a` before and `a, b` after, which leaves `b` of both
    cases p <;> cases hq <;>
      simp [Position.all, get_axisAt_exchange, List.filter_cons, hat]
  · have hne : o.axisAt.get q ≠ a := by
      intro hqa
      have hpq : q = p := ((h.axisAt_eq_iff q a).1 hqa).trans ha
      cases p <;> cases hq <;> cases hpq
    rw [get_positionOf_exchange, if_neg hne, if_pos hat]

/-- An exchange of an order whose directions agree passes its check. -/
theorem swap_run (h : o.Bijective) (p q : Position) :
    swap p q o = .ok () (o.exchange p q) := by
  show verify (o.exchange p q) = _
  rw [verify, checkValid_eq_ok_iff.2 (h.exchange p q)]
  exact PUnit.unit

/-- An edit that succeeds is followed by the next one. -/
theorem bind_run {x : Edit} {f : Unit → Edit} (h : x o = .ok () o') :
    (x >>= f) o = f () o' := by
  show EStateM.bind x f o = _
  rw [EStateM.bind, h]

/-- **The walk inward** ends with the axis at the innermost position. -/
theorem walk_run (way : List (Position × Position)) (hway : p.wayInward = way)
    (h : o.Bijective) (ha : o.positionOf.get a = p) :
    ∃ o', (way.forM fun pq => swap pq.1 pq.2) o = .ok () o' ∧ Moves a o o'
      ∧ o'.positionOf.get a = .innermost := by
  induction way generalizing o p with
  | nil =>
    refine ⟨o, rfl, ⟨h, rfl, rfl, rfl⟩, ?_⟩
    cases p <;> first | exact ha | cases hway
  | cons pq way ih =>
    obtain ⟨q, hq⟩ : ∃ q, p.inward? = some q := by
      cases p <;> first | exact ⟨_, rfl⟩ | cases hway
    rw [Position.wayInward_eq_cons hq] at hway
    obtain ⟨rfl, hrest⟩ := List.cons.inj hway
    obtain ⟨hmoves, hat⟩ := Moves.step h ha hq
    obtain ⟨o', hrun, hmoves', hat'⟩ := ih hrest hmoves.bijective hat
    exact ⟨o', (bind_run (swap_run h p q)).trans hrun, hmoves.trans hmoves', hat'⟩

/-- **Moving an axis innermost** puts it in front of the others. -/
theorem moveInnermost_run (h : o.Bijective) (a : Axis) :
    ∃ o', moveInnermost a o = .ok () o' ∧ Moves a o o'
      ∧ o'.axes = a :: o.axes.filter (· ≠ a) := by
  obtain ⟨o', hrun, hmoves, hat⟩ := walk_run _ rfl h rfl
  refine ⟨o', hrun, hmoves, ?_⟩
  have hfirst : o'.axisAt.innermost = a := (hmoves.bijective.axisAt_eq_iff .innermost a).2 hat.symm
  have hnodup := hmoves.bijective.nodup_axes
  have haxes : o'.axes = a :: o'.axes.tail := by
    rw [← hfirst]
    rfl
  rw [haxes, List.nodup_cons] at hnodup
  have hrest : o'.axes.tail.filter (· ≠ a) = o'.axes.tail := by
    refine List.filter_eq_self.2 fun b hb => decide_eq_true ?_
    rintro rfl
    exact hnodup.1 hb
  have hothers := hmoves.others
  rw [haxes, List.filter_cons_of_neg (by simp), hrest] at hothers
  rw [haxes, hothers]

/-! ## Gathering several axes -/

variable {t : Tiling} {as : List Axis}

/-- What is done to one axis when the fully tiled ones are gathered. -/
def gatherAxis (t : Tiling) (a : Axis) : Edit := do
  if t.IsFullyTiled a then
    moveInnermost a
    modify (·.flagFullyTiled a)

/-- **The fully tiled of some axes were gathered**: they are in front, the last
one first, the others follow in the order they had, and they are flagged. -/
structure GatheredOf (t : Tiling) (as : List Axis) (o o' : LoopOrder) : Prop where
  bijective : o'.Bijective
  axes : o'.axes = (as.filter (t.IsFullyTiled ·)).reverse
    ++ o.axes.filter fun b => ¬ (b ∈ as ∧ t.IsFullyTiled b)
  fullyTiled : ∀ b, o'.fullyTiled.get b
    = (o.fullyTiled.get b || decide (b ∈ as ∧ t.IsFullyTiled b))
  stationary : o'.stationary = o.stationary

/-- Gathering no axis changes nothing. -/
theorem GatheredOf.nil (h : o.Bijective) : GatheredOf t [] o o where
  bijective := h
  axes := by simp
  fullyTiled b := by simp
  stationary := rfl

/-- **Gathering one axis more**, before the others. -/
theorem GatheredOf.cons {o₁ : LoopOrder} (ha : t.IsFullyTiled a) (hnot : a ∉ as)
    (hmoves : Moves a o o₁) (haxes : o₁.axes = a :: o.axes.filter (· ≠ a))
    (h : GatheredOf t as (o₁.flagFullyTiled a) o') : GatheredOf t (a :: as) o o' where
  bijective := h.bijective
  axes := by
    have hfront : (o₁.flagFullyTiled a).axes = a :: o.axes.filter (· ≠ a) := haxes
    have hkept : ∀ b, (decide ¬ (b ∈ as ∧ t.IsFullyTiled b) && decide (b ≠ a))
        = decide ¬ (b ∈ a :: as ∧ t.IsFullyTiled b) := fun b => by
      by_cases hb : b = a <;> simp [hb, ha]
    rw [h.axes, hfront, List.filter_cons_of_pos (by simp [hnot]), List.filter_filter,
      List.filter_cons_of_pos (by simpa using ha), List.reverse_cons, List.append_assoc]
    simp only [hkept, List.cons_append, List.nil_append]
  fullyTiled b := by
    rw [h.fullyTiled, flagFullyTiled, PerAxis.get_set, hmoves.fullyTiled]
    by_cases hb : a = b
    · subst hb
      simp [ha]
    · simp [hb, Ne.symm hb]
  stationary := h.stationary.trans hmoves.stationary

/-- An axis that is not fully tiled is left where it is. -/
theorem GatheredOf.skip (ha : ¬ t.IsFullyTiled a) (h : GatheredOf t as o o') :
    GatheredOf t (a :: as) o o' where
  bijective := h.bijective
  axes := by
    rw [h.axes, List.filter_cons_of_neg (by simpa using ha)]
    congr 2
    funext b
    by_cases hb : b = a <;> simp [hb, ha]
  fullyTiled b := by
    rw [h.fullyTiled]
    by_cases hb : b = a <;> simp [hb, ha]
  stationary := h.stationary

/-- **Gathering axes**, one after the other, cannot fail where the directions
agree. -/
theorem forM_gatherAxis_run (has : as.Nodup) (h : o.Bijective) :
    ∃ o', as.forM (gatherAxis t) o = .ok () o' ∧ GatheredOf t as o o' := by
  induction as generalizing o with
  | nil => exact ⟨o, rfl, .nil h⟩
  | cons a as ih =>
    obtain ⟨hnot, has⟩ := List.nodup_cons.1 has
    by_cases ha : t.IsFullyTiled a
    · obtain ⟨o₁, hmove, hmoves, haxes⟩ := moveInnermost_run h a
      have hflagged : (o₁.flagFullyTiled a).Bijective := hmoves.bijective
      have hstep : gatherAxis t a o = .ok () (o₁.flagFullyTiled a) := by
        rw [gatherAxis, if_pos ha, bind_run hmove]
        rfl
      obtain ⟨o', hrun, hgathered⟩ := ih has hflagged
      exact ⟨o', (bind_run hstep).trans hrun, hgathered.cons ha hnot hmoves haxes⟩
    · have hstep : gatherAxis t a o = .ok () o := by
        rw [gatherAxis, if_neg ha]
        rfl
      obtain ⟨o', hrun, hgathered⟩ := ih has h
      exact ⟨o', (bind_run hstep).trans hrun, hgathered.skip ha⟩

/-- **The order with its fully tiled axes gathered**: they are in front, from the
kernel map outward, and flagged, and the others follow in the order they had. -/
structure Gathered (t : Tiling) (o o' : LoopOrder) : Prop where
  bijective : o'.Bijective
  axes : o'.axes
    = ([.kernelMap, .outputMap, .inputChannel, .outputChannel].filter (t.IsFullyTiled ·))
      ++ o.axes.filter fun a => ¬ t.IsFullyTiled a
  fullyTiled : ∀ a, o'.fullyTiled.get a = (o.fullyTiled.get a || decide (t.IsFullyTiled a))
  stationary : o'.stationary = o.stationary

/-- **Gathering the fully tiled axes** cannot fail where the directions agree. -/
theorem gatherFullyTiled_run (t : Tiling) (h : o.Bijective) :
    ∃ o', gatherFullyTiled t o = .ok () o' ∧ Gathered t o o' := by
  have hnodup : [Axis.outputChannel, .inputChannel, .outputMap, .kernelMap].Nodup := by decide
  have hall : ∀ a : Axis, a ∈ [Axis.outputChannel, .inputChannel, .outputMap, .kernelMap] :=
    fun a => by cases a <;> decide
  obtain ⟨o', hrun, hgathered⟩ := forM_gatherAxis_run (t := t) hnodup h
  refine ⟨o', hrun, hgathered.bijective, ?_, fun a => ?_, hgathered.stationary⟩
  · rw [hgathered.axes, ← List.filter_reverse]
    simp only [hall, true_and]
    rfl
  · rw [hgathered.fullyTiled]
    simp only [hall, true_and]

end LoopOrder

end ConvTiling
