import Mathlib.Data.Option.Basic
import ConvTiling.Proofs.Selection

/-!
# A search depends on the layer alone

What a search is given is a nest, and it writes over almost all of it. The seed takes
the whole layer and no more, so the tile and the unrolling do not matter. The order of
the loops off the chip is kept by the removal of loops where two axes are fully tiled
or none are, but the dataflow that is chosen afterwards binds every axis anew, so it
does not matter either. What is left of a nest in the result are the flags of its order
off the chip, to which others are added, and its order on the chip.

So the search of a nest is the search of the untiled nest of its layer, *marked* with
the flags and the order on the chip of the nest (`Scheduler.search_eq_map_marked`). The
two searches are followed side by side: at each step either both stop for the same
reason, or both go on with nests of one tiling (`Alike`, `LoopNest.Mirrors`).

The result of a search carries the flags that the search added. To search it once more
adds them again, which changes nothing.
-/

namespace ConvTiling

open Checked (bind_eq_ok_iff pure_eq_ok_iff)

/-! ## Flags -/

/-- What is flagged for an axis in one of two records. -/
def PerAxis.or (r s : PerAxis Bool) : PerAxis Bool :=
  ⟨r.kernelMap || s.kernelMap, r.inputChannel || s.inputChannel,
    r.outputMap || s.outputMap, r.outputChannel || s.outputChannel⟩

@[simp] theorem PerAxis.get_or (r s : PerAxis Bool) (a : Axis) :
    (r.or s).get a = (r.get a || s.get a) := by
  cases a <;> rfl

/-- What is flagged for an operand in one of two records. -/
def PerOperand.or (r s : PerOperand Bool) : PerOperand Bool :=
  ⟨r.input || s.input, r.weight || s.weight, r.output || s.output⟩

@[simp] theorem PerOperand.get_or (r s : PerOperand Bool) (o : Operand) :
    (r.or s).get o = (r.get o || s.get o) := by
  cases o <;> rfl

namespace LoopOrder

variable {f o o' : LoopOrder}

/-- **Adds the flags of another order.** -/
def addFlags (o f : LoopOrder) : LoopOrder :=
  { o with
    fullyTiled := o.fullyTiled.or f.fullyTiled
    stationary := o.stationary.or f.stationary }

/-- **An order has the flags of two others**, whatever its bindings are. -/
def Flagged (f o o' : LoopOrder) : Prop :=
  o'.fullyTiled = o.fullyTiled.or f.fullyTiled ∧ o'.stationary = o.stationary.or f.stationary

/-- The order that a nest starts with has no flags of its own. -/
theorem flagged_start (f : LoopOrder) : Flagged f {} f :=
  ⟨PerAxis.ext_get fun a => by cases a <;> rfl, PerOperand.ext_get fun o => by cases o <;> rfl⟩

/-- What is left of an order that takes on a dataflow are its flags. -/
theorem stationary_setDataflow (o : LoopOrder) (s : Operand) :
    (o.setDataflow s).stationary = o.stationary.set s true := rfl

/-- **An order that takes on a dataflow** is bound by the dataflow alone, whatever its
bindings were. -/
theorem bindings_setDataflow (o o' : LoopOrder) (s : Operand) :
    (o'.setDataflow s).positionOf = (o.setDataflow s).positionOf
      ∧ (o'.setDataflow s).axisAt = (o.setDataflow s).axisAt := by
  cases s <;> exact ⟨rfl, rfl⟩

/-- To flag an operand and to add flags are independent of one another. -/
theorem or_set (r f : PerOperand Bool) (s : Operand) :
    (r.or f).set s true = (r.set s true).or f := by
  refine PerOperand.ext_get fun q => ?_
  rw [PerOperand.get_or, PerOperand.get_set, PerOperand.get_set, PerOperand.get_or]
  by_cases hq : s = q
  · rw [if_pos hq, if_pos hq, Bool.true_or]
  · rw [if_neg hq, if_neg hq]

/-- **Of two orders that take on a dataflow** one is the other with flags added, if it
had those flags before. -/
theorem Flagged.setDataflow (h : Flagged f o o') (s : Operand) :
    o'.setDataflow s = (o.setDataflow s).addFlags f := by
  obtain ⟨hposition, haxis⟩ := bindings_setDataflow o o' s
  have hstationary : (o'.setDataflow s).stationary
      = (o.setDataflow s).stationary.or f.stationary := by
    rw [stationary_setDataflow, stationary_setDataflow, h.2, or_set]
  show LoopOrder.mk _ _ _ _ = LoopOrder.mk _ _ _ _
  rw [LoopOrder.mk.injEq]
  exact ⟨hposition, haxis, h.1, hstationary⟩

/-- **To add flags once more** changes nothing. -/
theorem addFlags_addFlags (o f : LoopOrder) : o.addFlags (o.addFlags f) = o.addFlags f := by
  have hfull : o.fullyTiled.or (o.fullyTiled.or f.fullyTiled)
      = o.fullyTiled.or f.fullyTiled :=
    PerAxis.ext_get fun a => by
      rw [PerAxis.get_or, PerAxis.get_or, ← Bool.or_assoc, Bool.or_self]
  have hstationary : o.stationary.or (o.stationary.or f.stationary)
      = o.stationary.or f.stationary :=
    PerOperand.ext_get fun q => by
      rw [PerOperand.get_or, PerOperand.get_or, ← Bool.or_assoc, Bool.or_self]
  show { o with fullyTiled := _, stationary := _ } = _
  rw [addFlags, hfull, hstationary]

end LoopOrder

/-! ## Marked nests -/

/-- **A nest marked with another one**: it takes over the order on the chip, and the
flags of the order off the chip are added to its own. -/
def LoopNest.marked (m n : LoopNest) : LoopNest :=
  { m with offChip := m.offChip.addFlags n.offChip, onChip := n.onChip }

/-- A candidate whose nest is marked. -/
def Candidate.marked (c : Candidate) (n : LoopNest) : Candidate :=
  { c with nest := c.nest.marked n }

/-- A result whose nest is marked. -/
def SearchResult.marked (r : SearchResult) (n : LoopNest) : SearchResult :=
  { r with nest := r.nest.marked n }

/-- **To mark with what was marked** is to mark once. -/
theorem LoopNest.marked_marked (m n : LoopNest) : m.marked (m.marked n) = m.marked n := by
  show { m with offChip := m.offChip.addFlags (m.offChip.addFlags n.offChip), onChip := _ } = _
  rw [LoopOrder.addFlags_addFlags]
  rfl

namespace LoopNest

variable {n m m' : LoopNest} {a : Accelerator}

/-- **A nest mirrors another one**, marked with `n`: it has its tiling, and the flags and
the order on the chip that it would have marked. Its axes may be bound otherwise. -/
structure Mirrors (n m m' : LoopNest) : Prop where
  tiling : m'.tiling = m.tiling
  flagged : LoopOrder.Flagged n.offChip m.offChip m'.offChip
  onChip : m'.onChip = n.onChip

/-- A marked nest mirrors the unmarked one. -/
theorem mirrors_marked (n m : LoopNest) : Mirrors n m (m.marked n) :=
  ⟨rfl, ⟨rfl, rfl⟩, rfl⟩

/-- **The seeds of a nest and of the untiled one** are alike, and mirror one another. -/
theorem alike_seed (n : LoopNest) (a : Accelerator) :
    Alike (Mirrors n) (LoopNest.seed { tiling := .untiled n.tiling.full } a) (n.seed a) := by
  -- the seed takes the whole layer of a tiling and no more
  show Alike _ (n.tiling.seed a >>= fun tiling => pure ({ tiling := tiling } : LoopNest))
    (n.tiling.seed a >>= fun tiling => pure { n with tiling })
  exact .bind_same _ fun tiling =>
    .answer ⟨rfl, LoopOrder.flagged_start n.offChip, rfl⟩

/-- Axes made fully tiled keep a nest mirrored. -/
theorem Mirrors.tileFully (h : Mirrors n m m') (axes : List Axis) :
    Mirrors n (m.tileFully axes) (m'.tileFully axes) := by
  refine ⟨?_, h.flagged, h.onChip⟩
  show axes.foldl Tiling.tileFully m'.tiling = axes.foldl Tiling.tileFully m.tiling
  rw [h.tiling]

/-- **A mirrored nest that takes on a dataflow** is the other one marked. -/
theorem Mirrors.setDataflow (h : Mirrors n m m') (s : Operand) :
    m'.setDataflow s = (m.setDataflow s).marked n := by
  show LoopNest.mk m'.tiling (m'.offChip.setDataflow s) m'.onChip
    = LoopNest.mk m.tiling ((m.offChip.setDataflow s).addFlags n.offChip) n.onChip
  rw [h.tiling, h.flagged.setDataflow, h.onChip]

/-! ## Removing loops -/

/-- The first set of axes that fits is the same one for mirrored nests. -/
theorem Mirrors.firstFitting? (h : Mirrors n m m') (sets : List (List Axis)) :
    Alike (Option.Rel (Mirrors n)) (m.firstFitting? a sets) (m'.firstFitting? a sets) := by
  induction sets with
  | nil => exact .answer .none
  | cons axes sets ih =>
    have haxes := h.tileFully axes
    rw [LoopNest.firstFitting?, LoopNest.firstFitting?]
    show Alike _ ((m.tileFully axes).tiling.fits a >>= _)
      ((m'.tileFully axes).tiling.fits a >>= _)
    rw [haxes.tiling]
    refine .bind_same _ fun b => ?_
    cases b with
    | true => exact .answer (.some haxes)
    | false => exact ih

/-- The best pair so far, of mirrored nests: as many iterations removed, and the nests
mirrored. -/
abbrev PairMirrors (n : LoopNest) : Option (Int × LoopNest) → Option (Int × LoopNest) → Prop :=
  Option.Rel fun p p' => p'.1 = p.1 ∧ Mirrors n p.2 p'.2

/-- A pair is better for both of two mirrored nests or for neither. -/
theorem Mirrors.betterPair (h : Mirrors n m m') (axes : List Axis)
    {best best' : Option (Int × LoopNest)} (hbest : PairMirrors n best best') :
    Alike (PairMirrors n) (m.betterPair a best axes) (m'.betterPair a best' axes) := by
  have haxes := h.tileFully axes
  have hcount : m'.iterationsRemoved axes = m.iterationsRemoved axes := by
    rw [iterationsRemoved, iterationsRemoved, h.tiling]
  unfold LoopNest.betterPair
  show Alike _ ((m.tileFully axes).tiling.fits a >>= _)
    ((m'.tileFully axes).tiling.fits a >>= _)
  rw [haxes.tiling, hcount]
  refine .bind_same _ fun b => ?_
  cases b with
  | false => exact .answer hbest
  | true =>
    refine .bind_same _ fun count => ?_
    cases hbest with
    | none => exact .answer (.some ⟨rfl, haxes⟩)
    | @some pair pair' hpair =>
      obtain ⟨most, found⟩ := pair
      obtain ⟨most', found'⟩ := pair'
      obtain ⟨rfl, hfound⟩ : most' = most ∧ Mirrors n found found' := hpair
      show Alike _ (.ok (if most' < count then _ else _)) (.ok (if most' < count then _ else _))
      split
      · exact .answer (.some ⟨rfl, haxes⟩)
      · exact .answer (.some ⟨rfl, hfound⟩)

/-- **Loops of two mirrored nests are removed alike**, and what is left of them is
mirrored. -/
theorem Mirrors.removeLoops (h : Mirrors n m m') :
    Alike (fun r r' : LoopRemoval => r'.isFeasible = r.isFeasible ∧ Mirrors n r.nest r'.nest)
      (m.removeLoops a) (m'.removeLoops a) := by
  refine .bind (h.firstFitting? _) fun found found' hfound => ?_
  cases hfound with
  | some hfound =>
    refine .answer ⟨rfl, ?_⟩
    rw [LoopRemoval.nest_fits, LoopRemoval.nest_fits, hfound.setDataflow]
    exact mirrors_marked n _
  | none =>
    refine .bind (.foldlM (fun axes _ _ hbest => h.betterPair axes hbest) _ .none)
      fun best best' hbest => ?_
    cases hbest with
    | none => exact .answer ⟨rfl, h⟩
    | some hpair => exact .answer ⟨rfl, hpair.2⟩

/-- **Mirrored nests choose one dataflow**, and one that has taken it on is the other
one marked. -/
theorem Mirrors.adoptDataflow (h : Mirrors n m m') :
    Alike (fun r r' : LoopNest × Operand => r' = (r.1.marked n, r.2))
      m.adoptDataflow m'.adoptDataflow := by
  show Alike _ (m.tiling.chooseDataflow >>= fun d => pure (m.setDataflow d, d))
    (m'.tiling.chooseDataflow >>= fun d => pure (m'.setDataflow d, d))
  rw [h.tiling]
  refine .bind_same _ fun d => .answer ?_
  exact congrArg (·, d) (h.setDataflow d)

end LoopNest

/-! ## The sweep of a marked nest -/

namespace Sweep

variable {w : Sweep}

/-- A stretch is swept from a marked nest as from the unmarked one. -/
theorem alike_run (w : Sweep) (m n : LoopNest) (span : Span) (p : Progress) :
    Alike (fun r r' => r' = (r.1.map (·.marked n), r.2)) (w.run m span p)
      (w.run (m.marked n) span p) := by
  refine .bind_same _ fun s => .answer ?_
  cases s.best <;> rfl

/-- All stretches are swept from a marked nest as from the unmarked one. -/
theorem alike_runAll (w : Sweep) (m n : LoopNest) (spans : List Span) (p : Progress) :
    Alike (fun r r' => r' = (r.1.map (Option.map (·.marked n)), r.2)) (w.runAll m spans p)
      (w.runAll (m.marked n) spans p) := by
  induction spans generalizing p with
  | nil => exact .answer rfl
  | cons span spans ih =>
    refine .bind (alike_run w m n span p) ?_
    rintro r _ rfl
    refine .bind (ih r.2) ?_
    rintro r' _ rfl
    exact .answer rfl

end Sweep

namespace Candidate

/-- The better of two marked candidates is the better one marked, as marking leaves the
scores. -/
theorem better_marked (n : LoopNest) (best : Option Candidate) (c : Candidate) :
    better (best.map (·.marked n)) (c.marked n) = (better best c).marked n := by
  cases best with
  | none => rfl
  | some b =>
    show (if b.score ≤ c.score then b.marked n else c.marked n)
      = (if b.score ≤ c.score then b else c).marked n
    split <;> rfl

/-- **The best of marked candidates** is the best one marked. -/
theorem bestOf_marked (n : LoopNest) (found : List (Option Candidate)) :
    bestOf (found.map (Option.map (·.marked n))) = (bestOf found).map (·.marked n) := by
  have hfold : ∀ (cs : List Candidate) (best : Option Candidate),
      (cs.map (·.marked n)).foldl (fun best c => some (better best c)) (best.map (·.marked n))
        = (cs.foldl (fun best c => some (better best c)) best).map (·.marked n) := by
    intro cs
    induction cs with
    | nil => exact fun _ => rfl
    | cons c cs ih =>
      intro best
      rw [List.map_cons, List.foldl_cons, List.foldl_cons, better_marked]
      exact ih (some (better best c))
  unfold bestOf
  rw [List.filterMap_map, ← hfold _ none, List.map_filterMap]
  rfl

end Candidate

namespace Scheduler

variable {s : Scheduler} {n m : LoopNest} {d : Operand}

/-- **The sweep of a marked nest** finds what that of the unmarked one finds, marked. -/
theorem alike_sweep (s : Scheduler) (m n : LoopNest) (d : Operand) :
    Alike (fun r r' => r' = (r.1, r.2.map (·.marked n))) (s.sweep m d)
      (s.sweep (m.marked n) d) := by
  refine .bind_same _ fun space => .bind_same _ fun total => .bind_same _ fun spans => ?_
  refine .bind (Sweep.alike_runAll _ m n spans _) ?_
  rintro r _ rfl
  refine .answer ?_
  rw [Candidate.bestOf_marked]

/-- The last step of a marked candidate gives the marked nest. -/
theorem alike_orient (s : Scheduler) (d : Operand) (c : Candidate) (n : LoopNest) :
    Alike (fun r r' => r' = (r.1.marked n, r.2)) (s.orient d c) (s.orient d (c.marked n)) := by
  have htiling : (c.marked n).nest.tiling = c.nest.tiling := rfl
  unfold orient
  rw [htiling]
  by_cases hhigh : c.nest.tiling.tile.outputWidth < c.nest.tiling.tile.outputHeight
  · rw [if_pos hhigh, if_pos hhigh]
    cases c.nest.tiling.turn? with
    | none => exact .answer rfl
    | some tiling => exact .bind_same _ fun score => .answer rfl
  · rw [if_neg hhigh, if_neg hhigh]
    exact .answer rfl

/-! ## The search -/

/-- What is left of a nest when its loops are removed mirrors what is left of the
untiled one. -/
theorem alike_prepare (s : Scheduler) (n : LoopNest) :
    Alike (fun r r' : LoopRemoval => r'.isFeasible = r.isFeasible
        ∧ LoopNest.Mirrors n r.nest r'.nest)
      (s.prepare { tiling := .untiled n.tiling.full }) (s.prepare n) :=
  .bind (LoopNest.alike_seed n s.accelerator) fun _ _ h => h.removeLoops

/-- **The search of a nest is that of the untiled nest of its layer**, marked with its
flags and its order on the chip: the same refusal or fault, or the result marked. -/
theorem search_eq_map_marked (s : Scheduler) (hn : n.Valid) :
    s.search n = (s.search { tiling := .untiled n.tiling.full }).map (·.marked n) := by
  have hcheck : n.checkValid = .ok () := LoopNest.checkValid_eq_ok_iff.2 hn
  have hcheck' : LoopNest.checkValid { tiling := .untiled n.tiling.full } = .ok () :=
    LoopNest.checkValid_eq_ok_iff.2 (LoopNest.valid_untiled hn.1.1)
  refine Alike.eq_map ?_
  unfold search
  rw [hcheck, hcheck']
  refine .bind_same _ fun _ => .bind (alike_prepare s n).compute ?_
  rintro r r' ⟨hfeasible, hmirrors⟩
  rw [hfeasible]
  refine .bind_same _ fun _ => .bind hmirrors.adoptDataflow.compute ?_
  rintro ⟨m, d⟩ _ rfl
  refine .bind (alike_sweep s m n d).compute ?_
  rintro ⟨total, best⟩ _ rfl
  cases best with
  | none => exact .stop _
  | some c =>
    refine .bind (alike_orient s d c n).compute ?_
    rintro r _ rfl
    exact .answer rfl

/-- **A search depends on the layer alone**, but for the flags of the order off the chip
and the order on the chip, which the result takes over. Two valid nests that agree in
these have one answer, be it a result, a refusal or a fault, whatever their tiles,
their unrollings and the orders of their loops off the chip. So to search what a search
has found gives the same result once more. -/
theorem search_eq_of_full_eq (s : Scheduler) (hn : n.Valid) :
    (∀ n' : LoopNest, n'.Valid → n'.tiling.full = n.tiling.full →
        n'.offChip.fullyTiled = n.offChip.fullyTiled →
        n'.offChip.stationary = n.offChip.stationary → n'.onChip = n.onChip →
        s.search n' = s.search n)
      ∧ ∀ r, s.search n = .ok r → s.search r.nest = .ok r := by
  constructor
  · intro n' hn' hfull htiled hstationary honChip
    have hmarked : ∀ r : SearchResult, r.marked n' = r.marked n := by
      intro r
      unfold SearchResult.marked LoopNest.marked LoopOrder.addFlags
      rw [htiled, hstationary, honChip]
    rw [search_eq_map_marked s hn', search_eq_map_marked s hn, hfull]
    exact congrArg (Except.map · _) (funext hmarked)
  · intro r run
    obtain ⟨hderived, -⟩ := derived_of_search run
    rw [search_eq_map_marked s (hderived.valid hn), hderived.full]
    rw [search_eq_map_marked s hn] at run
    cases hbare : s.search { tiling := .untiled n.tiling.full } with
    | error e =>
      rw [hbare] at run
      cases run
    | ok r₀ =>
      rw [hbare] at run
      obtain rfl : r₀.marked n = r := Except.ok.inj run
      -- the flags that the search added are added once more
      show Except.ok { r₀ with nest := r₀.nest.marked (r₀.nest.marked n) } = _
      rw [LoopNest.marked_marked]
      rfl

/-- A layer untiled, and on a tile of one place with the loops off the chip in another
order: the two searches are one. What they find of the twelve candidates was turned, and is
found once more from there. -/
theorem search_eq_of_full_eq_fiveByFour :
    let a : Accelerator :=
      ⟨1, 1.0, 1.0, ⟨64, 64, 64⟩, 1, 3, [.outputWidth], [.outputHeight]⟩
    let s : Scheduler := ⟨a, {}, by decide⟩
    let full : Extents := ⟨1, 0, 0, 5, 4, 1, 2, 2, 4, 3, 3⟩
    let n : LoopNest := { tiling := .untiled full }
    let n' : LoopNest :=
      { tiling := ⟨full, ⟨1, 0, 0, 2, 2, 1, 2, 2, 1, 1, 1⟩, .unit 1 0 0⟩
        offChip := LoopOrder.arrange {} Operand.input.loopOrder }
    n' ≠ n ∧ s.search n' = s.search n
      ∧ ∃ r, s.search n = .ok r ∧ r.candidates = 12
        ∧ r.nest.tiling.tile = ⟨1, 0, 0, 4, 2, 1, 2, 2, 3, 1, 2⟩
        ∧ s.search r.nest = .ok r := by
  intro a s full n n'
  obtain ⟨hsame, hagain⟩ := search_eq_of_full_eq s (n := n) (by decide)
  have hrun : (do
      let r ← s.search n
      return (r.candidates, r.nest.tiling.tile))
        = .ok (12, ⟨1, 0, 0, 4, 2, 1, 2, 2, 3, 1, 2⟩) := by decide +kernel
  simp only [bind_eq_ok_iff, pure_eq_ok_iff, Prod.mk.injEq] at hrun
  obtain ⟨r, hr, hcandidates, htile⟩ := hrun
  exact ⟨by decide, hsame n' (by decide) rfl rfl rfl rfl, r, hr, hcandidates.symm, htile.symm,
    hagain r hr⟩

end Scheduler

end ConvTiling
