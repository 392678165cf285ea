import ConvTiling.Proofs.Implied
import ConvTiling.Proofs.OrderText

/-!
# Runs of edits

An order is edited in five ways: it takes on a dataflow, two of its positions are
exchanged, an axis is moved innermost, an axis is flagged as fully tiled, and its flags
are derived from two levels (`LoopOrder.Operation`). What one operation makes of the axes
can be computed from the axes alone, without looking at the positions they are bound to
(`LoopOrder.Operation.axesAfter`) – as long as the two directions of the order agree.

That they agree is what every operation keeps, and it is also why none of them fails
(`LoopOrder.Operation.run_step`). So a run of any length succeeds, if it begins with an
order whose directions agree (`LoopOrder.runAll_run`), and every operation of it does to
the axes what it should (`LoopOrder.edits_valid`). Orders begin that way: the one that an
order is made with, and those that are read (`LoopOrder.Start.bijective`).

Taking on a dataflow needs no such beginning. It binds every position, so whatever
disagreement there was is gone (`LoopOrder.setDataflow_restores`).
-/

namespace ConvTiling

open Checked (bind_eq_ok_iff)

namespace LoopOrder

variable {o o' : LoopOrder}

/-! ## Operations -/

/-- **An operation on an order.** -/
inductive Operation where
  | setDataflow (s : Operand)
  | swap (p q : Position)
  | moveInnermost (a : Axis)
  | flagFullyTiled (a : Axis)
  | deriveFlags (upper lower : Extents)

/-- The edit of an operation. Only two of them can report a disagreement. -/
def Operation.run : Operation → Edit
  | .setDataflow s => modify (·.setDataflow s)
  | .swap p q => LoopOrder.swap p q
  | .moveInnermost a => LoopOrder.moveInnermost a
  | .flagFullyTiled a => modify (·.flagFullyTiled a)
  | .deriveFlags upper lower => modify (·.deriveFlags upper lower)

/-- **The axes after an operation**, from the innermost position outward: flags leave them
as they are, and an axis that is moved innermost leaves the others in their order. -/
def Operation.axesAfter (o : LoopOrder) : Operation → List Axis
  | .setDataflow s => s.loopOrder.toList
  | .swap p q => ((o.axisAt.set q (o.axisAt.get p)).set p (o.axisAt.get q)).toList
  | .moveInnermost a => a :: o.axes.filter (· ≠ a)
  | .flagFullyTiled _ => o.axes
  | .deriveFlags _ _ => o.axes

/-- **No flag was taken away** between two orders. -/
structure KeepsFlags (o o' : LoopOrder) : Prop where
  fullyTiled : ∀ a, o.fullyTiled.get a = true → o'.fullyTiled.get a = true
  stationary : ∀ s, o.stationary.get s = true → o'.stationary.get s = true

theorem KeepsFlags.refl (o : LoopOrder) : o.KeepsFlags o := ⟨fun _ => id, fun _ => id⟩

theorem KeepsFlags.trans {o'' : LoopOrder} (h : o.KeepsFlags o') (h' : o'.KeepsFlags o'') :
    o.KeepsFlags o'' :=
  ⟨fun a ha => h'.fullyTiled a (h.fullyTiled a ha),
    fun s hs => h'.stationary s (h.stationary s hs)⟩

/-- **What an operation makes of an order**: the two directions agree, the axes are those
that the operation should give, and no flag is taken away. -/
structure Operation.Step (op : Operation) (o o' : LoopOrder) : Prop where
  bijective : o'.Bijective
  axes : o'.axes = op.axesAfter o
  keepsFlags : o.KeepsFlags o'

/-! ## One operation -/

/-- **Taking on a dataflow** restores its order, whatever was bound to what. -/
theorem setDataflow_restores (o : LoopOrder) (s : Operand) :
    (o.arrange s.loopOrder).checkValid = .ok ()
      ∧ (o.setDataflow s).Bijective ∧ (o.setDataflow s).axisAt = s.loopOrder := by
  have hbijective := bijective_setDataflow o s
  -- the flag that is added last is not looked at by the check
  have hvalid : (o.arrange s.loopOrder).Bijective := hbijective
  exact ⟨checkValid_eq_ok_iff.2 hvalid, hbijective, axisAt_arrange o s.loopOrder⟩

theorem keepsFlags_setDataflow (o : LoopOrder) (s : Operand) : o.KeepsFlags (o.setDataflow s) where
  fullyTiled _ := id
  stationary c hc := by
    show (o.stationary.set s true).get c = true
    rw [PerOperand.get_set, hc, ite_self]

theorem keepsFlags_flagFullyTiled (o : LoopOrder) (a : Axis) :
    o.KeepsFlags (o.flagFullyTiled a) where
  fullyTiled b hb := by rw [flagFullyTiled, PerAxis.get_set, hb, ite_self]
  stationary _ := id

theorem Derived.keepsFlags {upper lower : Extents} (h : o.Derived upper lower o') :
    o.KeepsFlags o' where
  fullyTiled a ha := by rw [h.fullyTiled, ha, Bool.true_or]
  stationary s hs := by rw [h.stationary, hs, Bool.true_or]

theorem Derived.unflagged {upper lower : Extents} (h : o.Derived upper lower o') :
    o'.unflagged = o.unflagged := by
  rw [LoopOrder.unflagged, h.positionOf, h.axisAt]
  rfl

theorem keepsFlags_exchange (o : LoopOrder) (p q : Position) : o.KeepsFlags (o.exchange p q) where
  fullyTiled _ := id
  stationary _ := id

theorem Moves.keepsFlags {a : Axis} (h : Moves a o o') : o.KeepsFlags o' where
  fullyTiled b hb := by rw [h.fullyTiled, hb]
  stationary s hs := by rw [h.stationary, hs]

/-- **Every operation succeeds** on an order whose directions agree, and does what it
should. -/
theorem Operation.run_step (op : Operation) (h : o.Bijective) :
    ∃ o', op.run o = .ok () o' ∧ op.Step o o' := by
  cases op with
  | setDataflow s =>
    obtain ⟨-, hbijective, haxes⟩ := setDataflow_restores o s
    exact ⟨_, rfl, hbijective, congrArg PerPosition.toList haxes, keepsFlags_setDataflow o s⟩
  | swap p q => exact ⟨_, swap_run h p q, h.exchange p q, rfl, keepsFlags_exchange o p q⟩
  | moveInnermost a =>
    obtain ⟨o', hrun, hmoves, haxes⟩ := moveInnermost_run h a
    exact ⟨o', hrun, hmoves.bijective, haxes, hmoves.keepsFlags⟩
  | flagFullyTiled a => exact ⟨_, rfl, h, rfl, keepsFlags_flagFullyTiled o a⟩
  | deriveFlags upper lower =>
    have hderived := derived_deriveFlags o upper lower
    exact ⟨_, rfl, hderived.bijective h, hderived.axes, hderived.keepsFlags⟩

/-! ## A run of operations -/

/-- **A run**: operations one after the other, until one of them fails. -/
def runAll (ops : List Operation) : Edit := ops.forM Operation.run

/-- **A run succeeds** on an order whose directions agree; they still do at its end, and no
flag is taken away. -/
theorem runAll_run (ops : List Operation) (h : o.Bijective) :
    ∃ o', runAll ops o = .ok () o' ∧ o'.Bijective ∧ o.KeepsFlags o' := by
  induction ops generalizing o with
  | nil => exact ⟨o, rfl, h, .refl o⟩
  | cons op ops ih =>
    obtain ⟨o₁, hfirst, hstep⟩ := op.run_step h
    obtain ⟨o', hrest, hbijective, hflags⟩ := ih hstep.bijective
    exact ⟨o', (bind_run hfirst).trans hrest, hbijective, hstep.keepsFlags.trans hflags⟩

/-- **Where a run begins**: with the order that an order is made with, or with one that was
read. -/
inductive Start : LoopOrder → Prop where
  | initial : Start {}
  | ofWords {words rest : List String} {o : LoopOrder} (run : readOrder words = .ok (o, rest)) :
    Start o
  | ofText {text : String} {o : LoopOrder} (run : ofText text = .ok o) : Start o
  | offChip {text : String} {os : LoopOrders} (run : LoopOrders.ofText text = .ok os) :
    Start os.offChip
  | onChip {text : String} {os : LoopOrders} (run : LoopOrders.ofText text = .ok os) :
    Start os.onChip

theorem Start.bijective (h : Start o) : o.Bijective := by
  cases h with
  | initial => decide
  | ofWords run => exact bijective_of_readOrder run
  | ofText run =>
    obtain ⟨⟨o', rest⟩, hread, run⟩ := bind_eq_ok_iff.1 run
    obtain ⟨u, -, hreturn⟩ := bind_eq_ok_iff.1 run
    obtain rfl := Checked.pure_eq_ok_iff.1 hreturn
    exact bijective_of_readOrder hread
  | offChip run =>
    obtain ⟨off, on, -, hoff, -, rfl⟩ := LoopOrders.ofText_eq_ok_iff.1 run
    exact bijective_arrange {} hoff
  | onChip run =>
    obtain ⟨off, on, -, -, hon, rfl⟩ := LoopOrders.ofText_eq_ok_iff.1 run
    exact bijective_arrange {} hon

/-- **Edits never go wrong.** Whatever was done to an order before, from the order that an
order is made with or from one that was read, nothing of it failed, the two directions agree
and no flag was taken away; and whatever is done next succeeds, with the axes that it should
give. Flagging leaves the bindings of any order as they are, and taking on a dataflow
restores its order from any order whatever. -/
theorem edits_valid :
    (∀ start, Start start → ∀ (before : List Operation) (op : Operation), ∃ o o',
        runAll before start = .ok () o ∧ o.Bijective ∧ start.KeepsFlags o
          ∧ op.run o = .ok () o' ∧ op.Step o o')
      ∧ (∀ o : LoopOrder, (∀ a, (o.flagFullyTiled a).unflagged = o.unflagged)
        ∧ ∀ upper lower, (o.deriveFlags upper lower).unflagged = o.unflagged)
      ∧ ∀ (o : LoopOrder) s, (o.arrange s.loopOrder).checkValid = .ok ()
        ∧ (o.setDataflow s).Bijective ∧ (o.setDataflow s).axisAt = s.loopOrder := by
  refine ⟨fun start hstart before op => ?_, fun o => ⟨fun a => rfl, fun upper lower => ?_⟩,
    setDataflow_restores⟩
  · obtain ⟨o, hbefore, hbijective, hflags⟩ := runAll_run before hstart.bijective
    obtain ⟨o', hrun, hstep⟩ := op.run_step hbijective
    exact ⟨o, o', hbefore, hbijective, hflags, hrun, hstep⟩
  · exact (derived_deriveFlags o upper lower).unflagged

/-- An order that was read, and then had two positions exchanged: the axis that is moved
innermost comes from the third position, and the others keep their order. -/
theorem edits_valid_afterReading :
    ∃ o o', runAll [.swap .innermost .outermost] (canonical .input).unflagged = .ok () o
      ∧ o.axes = [.outputMap, .kernelMap, .inputChannel, .outputChannel]
      ∧ (Operation.moveInnermost .inputChannel).run o = .ok () o'
      ∧ o'.axes = [.inputChannel, .outputMap, .kernelMap, .outputChannel] := by
  have hread : ofText (canonical .input).write = .ok (canonical .input).unflagged :=
    ofText_write (by decide)
  obtain ⟨o, o', hbefore, -, -, hrun, hstep⟩ := edits_valid.1 _ (.ofText hread)
    [.swap .innermost .outermost] (.moveInnermost .inputChannel)
  have haxes : o.axes = [.outputMap, .kernelMap, .inputChannel, .outputChannel] := by
    cases hbefore
    rfl
  refine ⟨o, o', hbefore, haxes, hrun, ?_⟩
  rw [hstep.axes, Operation.axesAfter, haxes]
  rfl

end LoopOrder

end ConvTiling
