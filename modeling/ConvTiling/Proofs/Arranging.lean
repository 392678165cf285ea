import Mathlib.Data.List.Perm.Subperm
import Mathlib.Data.List.Nodup
import ConvTiling.Nest.Order

/-!
# Arranging any order

An order can be arranged from any four axes, also from some of which one repeats. All
positions are bound then, so which bindings there were before does not matter; and an axis
that is bound more than once ends up at the outermost of its positions
(`LoopOrder.outermost_arrange`).

So whether the two directions agree is a matter of the four axes alone. They do if these
are all four axes there are (`LoopOrder.bijective_arrange`). If they are not, one of them
repeats, and then the check of the positions refuses the order, with the innermost position
whose axis comes again further out (`LoopOrder.checkValid_arrange_eq_error`).
-/

namespace ConvTiling

variable {order : PerPosition Axis} {p back : Position}

/-! ## Positions from the innermost outward -/

/-- Positions are as far from the innermost one only if they are the same. -/
theorem Position.ordinal_injective {q : Position} (h : p.ordinal = q.ordinal) : p = q := by
  rw [← Option.some.injEq, ← ofOrdinal?_ordinal p, h, ofOrdinal?_ordinal]

/-- No position further inward than the first one of a property has it. -/
theorem Position.not_of_find?_all {P : Position → Prop} [DecidablePred P] {q : Position}
    (h : all.find? (fun p => P p) = some p) (hq : q.ordinal < p.ordinal) : ¬ P q := by
  obtain ⟨-, before, after, hall, hbefore⟩ := List.find?_eq_some_iff_append.1 h
  have hinward : Position.all.Pairwise fun p q => p.ordinal < q.ordinal := by decide
  have hmem := q.mem_all
  rw [hall] at hinward hmem
  have hp := (List.pairwise_cons.1 (List.pairwise_append.1 hinward).2.1).1
  obtain hq' | hq' := List.mem_append.1 hmem
  · simpa using hbefore q hq'
  · obtain rfl | hq' := List.mem_cons.1 hq'
    · exact absurd hq (Nat.lt_irrefl _)
    · exact absurd hq (Nat.lt_asymm (hp q hq'))

/-! ## Axes that repeat -/

/-- **The outermost of the positions that hold an axis.** -/
structure PerPosition.Outermost (order : PerPosition Axis) (a : Axis) (back : Position) :
    Prop where
  holds : order.get back = a
  outermost : ∀ q, order.get q = a → q.ordinal ≤ back.ordinal

/-- **An axis repeats**: `p` is the innermost position whose axis comes again further
out, and `back` is the outermost one that holds this axis. -/
structure PerPosition.Repeats (order : PerPosition Axis) (p back : Position) : Prop where
  again : p.ordinal < back.ordinal
  outermost : order.Outermost (order.get p) back
  innermost : ∀ q r, order.get q = order.get r → q.ordinal < r.ordinal → p.ordinal ≤ q.ordinal

/-- There is only one such pair of positions. -/
theorem PerPosition.Repeats.unique {q back' : Position} (h : order.Repeats p back)
    (h' : order.Repeats q back') : p = q ∧ back = back' := by
  have hle := h.innermost q back' h'.outermost.holds.symm h'.again
  have hge := h'.innermost p back h.outermost.holds.symm h.again
  obtain rfl := Position.ordinal_injective (Nat.le_antisymm hle hge)
  have hback := h'.outermost.outermost back h.outermost.holds
  have hback' := h.outermost.outermost back' h'.outermost.holds
  exact ⟨rfl, Position.ordinal_injective (Nat.le_antisymm hback hback')⟩

namespace PerPosition

/-- Each of four positions holds an axis of its own exactly if together they hold all
four. -/
theorem perm_all_iff_nodup : order.toList.Perm Axis.all ↔ order.toList.Nodup := by
  constructor
  · exact fun h => h.nodup_iff.2 (by decide)
  · intro h
    have hsub : order.toList.Subperm Axis.all := List.subperm_of_subset h fun a _ => a.mem_all
    exact hsub.perm_of_length_le (Nat.le_refl 4)

/-- Each position holds an axis of its own if no two of them hold the same. -/
theorem nodup_toList_iff :
    order.toList.Nodup ↔ ∀ p q, order.get p = order.get q → p = q := by
  rw [toList_eq_map_get]
  constructor
  · exact fun h p q => List.inj_on_of_nodup_map h p.mem_all q.mem_all
  · exact fun h => List.Nodup.map (fun p q => h p q) (by decide : Position.all.Nodup)

end PerPosition

/-! ## Arranging -/

namespace LoopOrder

/-- **Where an axis is bound** once all positions are: the last of them that it was bound
to counts. -/
theorem get_positionOf_arrange (o : LoopOrder) (order : PerPosition Axis) (a : Axis) :
    (o.arrange order).positionOf.get a
      = if order.get .outermost = a then .outermost
        else if order.get .thirdInnermost = a then .thirdInnermost
        else if order.get .secondInnermost = a then .secondInnermost
        else if order.get .innermost = a then .innermost else o.positionOf.get a := by
  simp only [arrange, Position.all, List.foldl_cons, List.foldl_nil, LoopOrder.bind,
    PerAxis.get_set]

/-- **An axis that is held** is bound to the outermost position that holds it. -/
theorem outermost_arrange (o : LoopOrder) (order : PerPosition Axis) (p : Position) :
    order.Outermost (order.get p) ((o.arrange order).positionOf.get (order.get p)) := by
  rw [get_positionOf_arrange]
  generalize ha : order.get p = a
  split_ifs with h3 h2 h1 h0
  · exact ⟨h3, fun q _ => by cases q <;> decide⟩
  · exact ⟨h2, fun q hq => by cases q <;> first | decide | exact absurd hq h3⟩
  · exact ⟨h1, fun q hq => by cases q <;> first | decide | contradiction⟩
  · exact ⟨h0, fun q hq => by cases q <;> first | decide | contradiction⟩
  · cases p <;> contradiction

/-- **An order that goes through all four axes** has two directions that agree, once it is
arranged. -/
theorem bijective_arrange (o : LoopOrder) (h : order.toList.Perm Axis.all) :
    (o.arrange order).Bijective := by
  have hinj := PerPosition.nodup_toList_iff.1 (PerPosition.perm_all_iff_nodup.1 h)
  rw [Bijective, axisAt_arrange]
  refine ⟨fun p _ => hinj _ _ (o.outermost_arrange order p).holds, fun a ha => ?_⟩
  have hmem : a ∈ Position.all.map order.get := h.mem_iff.2 ha
  obtain ⟨p, -, rfl⟩ := List.mem_map.1 hmem
  exact (o.outermost_arrange order p).holds

/-- **Any other order** is refused, for the innermost position whose axis comes again
further out. -/
theorem checkValid_arrange_eq_error (o : LoopOrder) (h : ¬ order.toList.Perm Axis.all) :
    ∃ p back, order.Repeats p back
      ∧ (o.arrange order).checkValid = .error (.positionConflict p (order.get p) back) := by
  have hback := o.outermost_arrange order
  cases hfind : Position.all.find? fun p =>
      (o.arrange order).positionOf.get ((o.arrange order).axisAt.get p) ≠ p with
  | none =>
    have hnone : ∀ p, (o.arrange order).positionOf.get (order.get p) = p := fun p => by
      simpa using List.find?_eq_none.1 hfind p p.mem_all
    refine absurd ?_ h
    refine PerPosition.perm_all_iff_nodup.2 (PerPosition.nodup_toList_iff.2 fun p q hpq => ?_)
    rw [← hnone p, hpq, hnone q]
  | some p =>
    have hbound : (o.arrange order).positionOf.get (order.get p) ≠ p := by
      simpa using List.find?_some hfind
    refine ⟨p, (o.arrange order).positionOf.get (order.get p), ⟨?_, hback p, ?_⟩, ?_⟩
    · have hle := (hback p).outermost p rfl
      have hne : p.ordinal ≠ ((o.arrange order).positionOf.get (order.get p)).ordinal :=
        fun heq => hbound (Position.ordinal_injective heq).symm
      omega
    · intro q r hqr hlt
      by_contra hqp
      have hq := Position.not_of_find?_all hfind (Nat.not_le.1 hqp)
      rw [axisAt_arrange, not_not] at hq
      have hle := (hback q).outermost r hqr.symm
      rw [hq] at hle
      omega
    · rw [checkValid, checkPositions, hfind, axisAt_arrange]
      rfl

/-- The check accepts an order that is arranged if it goes through all four axes. -/
theorem checkValid_arrange_eq_ok_iff (o : LoopOrder) {u : Unit} :
    (o.arrange order).checkValid = .ok u ↔ order.toList.Perm Axis.all := by
  constructor
  · intro hvalid
    by_contra hperm
    obtain ⟨p, back, -, hconflict⟩ := o.checkValid_arrange_eq_error hperm
    rw [hconflict] at hvalid
    cases hvalid
  · exact fun hperm => checkValid_eq_ok_iff.2 (o.bijective_arrange hperm)

end LoopOrder

end ConvTiling
