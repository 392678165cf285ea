import ConvTiling.Nest.Tiling

/-!
# Loop orders

The loops of one level of the nest are ordered by giving each axis a
position. The order is stored in both directions – the position of each axis
and the axis at each position – and a binding writes both. Binding an axis
to a position that another one holds leaves that one pointing at a position
it no longer has, until it is bound somewhere else itself; between the two
bindings the directions disagree, and that can be seen. So the agreement of
the two directions is a condition on an order, `LoopOrder.Bijective`, and not
part of its type. The check of it names the first disagreement
(`LoopOrder.checkValid_eq_ok_iff`).

An order also carries what the scheduler has found out about the loops:
which axes are fully tiled, and which operands stay in their buffers. These
flags are only ever added.

An edit that fails leaves what it has changed so far: exchanging two
positions of an order whose directions disagree does exchange them, and then
reports the disagreement. Edits that can fail are therefore state
transformations that keep the state when they fail (`LoopOrder.Edit`).
-/

namespace ConvTiling

/-- **The order of the loops of one level**, with what is known of them. -/
structure LoopOrder where
  /-- The position that each axis is bound to. -/
  positionOf : PerAxis Position :=
    ⟨.innermost, .secondInnermost, .thirdInnermost, .outermost⟩
  /-- The axis that each position holds. -/
  axisAt : PerPosition Axis :=
    ⟨.kernelMap, .inputChannel, .outputMap, .outputChannel⟩
  /-- Which axes are known to be fully tiled. -/
  fullyTiled : PerAxis Bool := .uniform false
  /-- Which operands are known to stay in their buffers. -/
  stationary : PerOperand Bool := .uniform false
  deriving DecidableEq, Repr

/-- **The canonical order of a dataflow**, from the innermost loop outward:
the loops that do not touch the operand in its buffer come first. -/
def Operand.loopOrder : Operand → PerPosition Axis
  | .weight => ⟨.outputMap, .kernelMap, .inputChannel, .outputChannel⟩
  | .output => ⟨.kernelMap, .inputChannel, .outputMap, .outputChannel⟩
  | .input => ⟨.outputChannel, .kernelMap, .inputChannel, .outputMap⟩

namespace LoopOrder

/-- The axes from the innermost position outward. -/
def axes (o : LoopOrder) : List Axis := o.axisAt.toList

/-- **Binds an axis to a position**, in both directions. -/
def bind (o : LoopOrder) (a : Axis) (p : Position) : LoopOrder :=
  { o with positionOf := o.positionOf.set a p, axisAt := o.axisAt.set p a }

/-- Binds the axis of one ordinal to the position of another, if there are
such an axis and such a position. -/
def bindOrdinal (o : LoopOrder) (axis position : Nat) :
    Except NestError LoopOrder := do
  let a ← Axis.ofOrdinal axis
  let p ← Position.ofOrdinal position
  return o.bind a p

/-- Flags an axis as fully tiled. -/
def flagFullyTiled (o : LoopOrder) (a : Axis) : LoopOrder :=
  { o with fullyTiled := o.fullyTiled.set a true }

/-- Flags an operand as staying in its buffer. -/
def flagStationary (o : LoopOrder) (s : Operand) : LoopOrder :=
  { o with stationary := o.stationary.set s true }

/-- Binds every position, from the innermost outward, to the axis that a
given order has there. -/
def arrange (o : LoopOrder) (order : PerPosition Axis) : LoopOrder :=
  Position.all.foldl (fun o p => o.bind (order.get p) p) o

/-- An order that is arranged has the axes it was given. -/
@[simp] theorem axisAt_arrange (o : LoopOrder) (order : PerPosition Axis) :
    (o.arrange order).axisAt = order :=
  PerPosition.ext_get fun p => by cases p <;> rfl

/-- **Takes on a dataflow**: its canonical order, and its flag. The flags
that were there stay. -/
def setDataflow (o : LoopOrder) (s : Operand) : LoopOrder :=
  (o.arrange s.loopOrder).flagStationary s

/-- The canonical order of a dataflow, with no other flag. -/
def canonical (s : Operand) : LoopOrder := setDataflow {} s

/-! ## Agreement of the two directions -/

/-- **The two directions agree**: every position holds an axis that is bound
to it, and every axis is bound to a position that holds it. -/
def Bijective (o : LoopOrder) : Prop :=
  (∀ p ∈ Position.all, o.positionOf.get (o.axisAt.get p) = p)
    ∧ ∀ a ∈ Axis.all, o.axisAt.get (o.positionOf.get a) = a

instance (o : LoopOrder) : Decidable o.Bijective :=
  inferInstanceAs (Decidable (_ ∧ _))

/-- In an order whose directions agree, an axis is at a position exactly if it
is bound there. -/
theorem Bijective.axisAt_eq_iff {o : LoopOrder} (h : o.Bijective) (p : Position)
    (a : Axis) : o.axisAt.get p = a ↔ p = o.positionOf.get a := by
  constructor
  · rintro rfl
    exact (h.1 p p.mem_all).symm
  · rintro rfl
    exact h.2 a a.mem_all

/-- Reports the innermost position that holds an axis bound elsewhere. -/
def checkPositions (o : LoopOrder) : Except NestError Unit :=
  match Position.all.find? fun p => o.positionOf.get (o.axisAt.get p) ≠ p with
  | some p =>
    let a := o.axisAt.get p
    .error (.positionConflict p a (o.positionOf.get a))
  | none => .ok ()

/-- Reports the first axis that is bound to a position holding another
one. -/
def checkAxes (o : LoopOrder) : Except NestError Unit :=
  match Axis.all.find? fun a => o.axisAt.get (o.positionOf.get a) ≠ a with
  | some a =>
    let p := o.positionOf.get a
    .error (.axisConflict a p (o.axisAt.get p))
  | none => .ok ()

/-- Reports a disagreement of the two directions, on the positions first. -/
def checkValid (o : LoopOrder) : Except NestError Unit := do
  o.checkPositions
  o.checkAxes

/-- The check of the positions accepts the orders in which every position
holds an axis bound to it. -/
theorem checkPositions_eq_ok_iff {o : LoopOrder} {u : Unit} :
    o.checkPositions = .ok u ↔
      ∀ p ∈ Position.all, o.positionOf.get (o.axisAt.get p) = p := by
  unfold checkPositions
  split
  · next p hp =>
    have hm := List.mem_of_find?_eq_some hp
    have hn := List.find?_some hp
    simp only [decide_eq_true_eq] at hn
    simp only [reduceCtorEq, false_iff]
    exact fun h => hn (h p hm)
  · next hp => simpa using hp

/-- The check of the axes accepts the orders in which every axis is bound to
a position that holds it. -/
theorem checkAxes_eq_ok_iff {o : LoopOrder} {u : Unit} :
    o.checkAxes = .ok u ↔
      ∀ a ∈ Axis.all, o.axisAt.get (o.positionOf.get a) = a := by
  unfold checkAxes
  split
  · next a ha =>
    have hm := List.mem_of_find?_eq_some ha
    have hn := List.find?_some ha
    simp only [decide_eq_true_eq] at hn
    simp only [reduceCtorEq, false_iff]
    exact fun h => hn (h a hm)
  · next ha => simpa using ha

/-- **The check accepts exactly the orders whose directions agree.** -/
theorem checkValid_eq_ok_iff {o : LoopOrder} {u : Unit} :
    o.checkValid = .ok u ↔ o.Bijective := by
  simp [checkValid, Checked.bind_eq_ok_iff, checkPositions_eq_ok_iff,
    checkAxes_eq_ok_iff, Bijective]

/-- **Arranging sets every binding**, whatever they were before, so that a
canonical order has two directions that agree. -/
theorem bijective_setDataflow (o : LoopOrder) (s : Operand) :
    (o.setDataflow s).Bijective := by
  cases s <;> simp [setDataflow, arrange, flagStationary, Bijective, Position.all,
    Axis.all, LoopOrder.bind, Operand.loopOrder, PerPosition.get, PerAxis.get,
    PerPosition.set, PerAxis.set]

/-! ## Edits that can fail -/

/-- **An edit of an order** that may report a disagreement, and then keeps
the order as it left it. -/
abbrev Edit := EStateM NestError LoopOrder Unit

/-- Reports a disagreement of the two directions. -/
def verify : Edit := fun o =>
  match o.checkValid with
  | .ok _ => .ok () o
  | .error e => .error e o

/-- The order with the axes at two positions exchanged. -/
def exchange (o : LoopOrder) (p q : Position) : LoopOrder :=
  (o.bind (o.axisAt.get p) q).bind (o.axisAt.get q) p

/-- **Exchanges the axes at two positions**, and verifies the order. -/
def swap (p q : Position) : Edit := do
  modify (·.exchange p q)
  verify

/-- **Moves an axis to the innermost position**, one exchange of neighbours
after the other. The axes it passes move outward by one position. -/
def moveInnermost (a : Axis) : Edit := do
  let o ← get
  (o.positionOf.get a).wayInward.forM fun (p, q) => swap p q

/-- **Moves every fully tiled axis innermost and flags it.** The axes are
moved in the order output channel, input channel, output map, kernel map, so
that of several the kernel map ends up innermost. -/
def gatherFullyTiled (t : Tiling) : Edit :=
  [Axis.outputChannel, .inputChannel, .outputMap, .kernelMap].forM fun a => do
    if t.IsFullyTiled a then
      moveInnermost a
      modify (·.flagFullyTiled a)

/-! ## What the tiles say about the dataflow -/

/-- Flags the axes along which two levels are equal. -/
def flagEqual (o : LoopOrder) (upper lower : Extents) : LoopOrder :=
  Axis.all.foldl (fun o a =>
    if ∀ d ∈ a.dims, upper.get d = lower.get d then o.flagFullyTiled a else o) o

/-- **The operands that stay because axes are fully tiled**: an operand stays
when none of the loops that would fetch it again is left. -/
def stationaryByTiling (o : LoopOrder) : PerOperand Bool where
  input := o.fullyTiled.kernelMap && o.fullyTiled.outputChannel
  weight := o.fullyTiled.outputMap
  output := o.fullyTiled.kernelMap && o.fullyTiled.inputChannel

/-- The innermost axis that is not flagged as fully tiled, or the outermost
one of all if every axis is. -/
def innermostLoop (o : LoopOrder) : Axis :=
  (o.axes.find? fun a => !o.fullyTiled.get a).getD o.axisAt.outermost

/-- Whether the second axis sits at the next position outward of the
first. -/
def SitsDirectlyOutside (o : LoopOrder) (inner outer : Axis) : Prop :=
  (o.positionOf.get inner).ordinal + 1 = (o.positionOf.get outer).ordinal

instance (o : LoopOrder) (inner outer : Axis) :
    Decidable (o.SitsDirectlyOutside inner outer) :=
  inferInstanceAs (Decidable (_ = _))

/-- **The operand that stays because of the order**, if any: the one that the
innermost loop does not touch. The kernel map and the input channel are both
summed over, so one of them keeps the output only with the other one fully
tiled or directly outside it. -/
def stationaryByOrder (o : LoopOrder) : Option Operand :=
  match o.innermostLoop with
  | .outputChannel => some .input
  | .outputMap => some .weight
  | .kernelMap =>
    if o.fullyTiled.inputChannel ∨ o.SitsDirectlyOutside .kernelMap .inputChannel
    then some .output else none
  | .inputChannel =>
    if o.fullyTiled.kernelMap ∨ o.SitsDirectlyOutside .inputChannel .kernelMap
    then some .output else none

/-- Flags the operands that stay in their buffers. The order decides only
where the tiling does not. -/
def flagDataflows (o : LoopOrder) : LoopOrder :=
  if o.stationaryByTiling = .uniform false then
    match o.stationaryByOrder with
    | some s => o.flagStationary s
    | none => o
  else
    Operand.all.foldl (fun o' s =>
      if o.stationaryByTiling.get s then o'.flagStationary s else o') o

/-- **Derives the flags of an order from two neighbouring levels.** -/
def deriveFlags (o : LoopOrder) (upper lower : Extents) : LoopOrder :=
  (o.flagEqual upper lower).flagDataflows

end LoopOrder

end ConvTiling
