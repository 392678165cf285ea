import ConvTiling.Attempt

/-!
# Computations that have an answer

A computation on words either has an answer or stops at a fault, and a proof
about it is of one of two kinds. One says what the answer is like *if there is
one*; the other says that there is one. The two meet at a sequence of steps:
that the second step has an answer is shown for the answers the first one can
have, and what those are like is a statement of the first kind.

So there is one predicate for the second kind, `Checked.Answers`, with a rule
for a sequence of two steps whose premise about the second step is under the
hypothesis that the first one had that answer (`Checked.Answers.bind`). A fold
is a sequence of many steps: what every step keeps the fold keeps
(`Checked.foldlM_keeps`), and if every step has an answer where that is kept,
the fold has one (`Checked.answers_foldlM`).

An attempt can also be refused, which is an answer of its own. What an attempt
must not do is stop at a fault, and `Attempt.FaultFree` says that it does not.

Where two computations differ in something that should not matter, they are followed side
by side: at each step either both stop for the same reason, or both go on with states that
are related (`Alike`).
-/

namespace ConvTiling

namespace Checked

variable {ε α β σ : Type}

/-- **A computation has an answer.** -/
def Answers (x : Except ε α) : Prop := ∃ a, x = .ok a

@[simp] theorem answers_ok (a : α) : Answers (.ok a : Except ε α) := ⟨a, rfl⟩

@[simp] theorem answers_pure (a : α) : Answers (pure a : Except ε α) := ⟨a, rfl⟩

/-- A computation that ends well has an answer. -/
theorem answers_of_isOk {x : Except ε α} (h : x.isOk = true) : Answers x := by
  cases x with
  | ok a => exact ⟨a, rfl⟩
  | error e => cases h

/-- **A sequence of two steps has an answer** if the first step has one, and
the second has one on it. -/
theorem Answers.bind {x : Except ε α} {f : α → Except ε β} (hx : Answers x)
    (hf : ∀ a, x = .ok a → Answers (f a)) : Answers (x >>= f) := by
  obtain ⟨a, ha⟩ := hx
  obtain ⟨b, hb⟩ := hf a ha
  exact ⟨b, bind_eq_ok_iff.2 ⟨a, ha, hb⟩⟩

/-! ## Folds and lists of computations -/

/-- A fold over a longer list goes on from the first step. -/
theorem foldlM_cons_eq_ok_iff {f : σ → α → Except ε σ} {x : α} {xs : List α}
    {s t : σ} :
    (x :: xs).foldlM f s = .ok t ↔ ∃ s', f s x = .ok s' ∧ xs.foldlM f s' = .ok t := by
  rw [List.foldlM_cons, bind_eq_ok_iff]

/-- **What every step keeps the fold keeps.** -/
theorem foldlM_keeps {P : σ → Prop} {f : σ → α → Except ε σ} {xs : List α}
    {s t : σ} (keeps : ∀ x ∈ xs, ∀ s t, P s → f s x = .ok t → P t) (hs : P s)
    (run : xs.foldlM f s = .ok t) : P t := by
  induction xs generalizing s with
  | nil =>
    obtain rfl : t = s := pure_eq_ok_iff.1 run
    exact hs
  | cons x xs ih =>
    obtain ⟨s', hstep, hrest⟩ := foldlM_cons_eq_ok_iff.1 run
    exact ih (fun y hy => keeps y (List.mem_cons_of_mem x hy))
      (keeps x List.mem_cons_self s s' hs hstep) hrest

/-- **A fold has an answer** if every step has one wherever an invariant
holds, and every step keeps the invariant. -/
theorem answers_foldlM {P : σ → Prop} {f : σ → α → Except ε σ} {xs : List α} {s : σ}
    (answers : ∀ x ∈ xs, ∀ s, P s → Answers (f s x))
    (keeps : ∀ x ∈ xs, ∀ s t, P s → f s x = .ok t → P t) (hs : P s) :
    Answers (xs.foldlM f s) := by
  induction xs generalizing s with
  | nil => exact answers_pure s
  | cons x xs ih =>
    rw [List.foldlM_cons]
    refine (answers x List.mem_cons_self s hs).bind fun s' hstep => ?_
    exact ih (fun y hy => answers y (List.mem_cons_of_mem x hy))
      (fun y hy => keeps y (List.mem_cons_of_mem x hy))
      (keeps x List.mem_cons_self s s' hs hstep)

/-- A fold has an answer if every step has one on everything. -/
theorem answers_foldlM_of_forall {f : σ → α → Except ε σ} {xs : List α} {s : σ}
    (answers : ∀ x ∈ xs, ∀ s, Answers (f s x)) : Answers (xs.foldlM f s) :=
  answers_foldlM (P := fun _ => True) (fun x hx s _ => answers x hx s)
    (fun _ _ _ _ _ _ => trivial) trivial

/-- **A fold and what follows it** have an answer if every step has one wherever
an invariant holds and keeps it, and what follows has one wherever it holds. -/
theorem answers_foldlM_bind {P : σ → Prop} {f : σ → α → Except ε σ} {xs : List α} {s : σ}
    {g : σ → Except ε β} (answers : ∀ x ∈ xs, ∀ s, P s → Answers (f s x))
    (keeps : ∀ x ∈ xs, ∀ s t, P s → f s x = .ok t → P t) (hs : P s)
    (rest : ∀ t, P t → Answers (g t)) : Answers (xs.foldlM f s >>= g) :=
  (answers_foldlM answers keeps hs).bind fun t run => rest t (foldlM_keeps keeps hs run)

/-- **A list of computations has an answer** exactly when each has one. Where
what an answer can be is known for each, the list is the list of those. -/
theorem mapM_eq_ok_iff {f : α → Except ε β} {g : α → β} {xs : List α} {ys : List β}
    (value : ∀ x ∈ xs, ∀ y, f x = .ok y → y = g x) :
    xs.mapM f = .ok ys ↔ ys = xs.map g ∧ ∀ x ∈ xs, Answers (f x) := by
  induction xs generalizing ys with
  | nil => simp [List.mapM_nil, pure_eq_ok_iff]
  | cons x xs ih =>
    have hx := value x List.mem_cons_self
    have ih := fun ys => @ih ys fun z hz => value z (List.mem_cons_of_mem x hz)
    simp only [List.mapM_cons, bind_eq_ok_iff, pure_eq_ok_iff, ih, List.map_cons,
      List.forall_mem_cons]
    constructor
    · rintro ⟨y, hy, ys', ⟨rfl, hall⟩, rfl⟩
      exact ⟨by rw [hx y hy], ⟨y, hy⟩, hall⟩
    · rintro ⟨rfl, ⟨y, hy⟩, hall⟩
      exact ⟨y, hy, _, ⟨rfl, hall⟩, by rw [hx y hy]⟩

end Checked

/-! ## Words -/

/-- A length that is at most a word is a word. -/
theorem Signed.Fits.of_le {n m : Int} (hm : Signed.Fits m) (hn : 0 ≤ n) (hle : n ≤ m) :
    Signed.Fits n :=
  ⟨Int.le_trans (by decide) hn, Int.le_trans hle hm.2⟩

/-! ## Attempts that meet no fault -/

namespace Attempt

open Checked (Answers)

variable {δ ε α β : Type}

/-- **An attempt does not stop at a fault**: it ends with a result, or is
refused. -/
def FaultFree (x : Attempt ε α) : Prop := ∀ cause, x ≠ .error (.fault cause)

@[simp] theorem faultFree_ok (a : α) : FaultFree (.ok a : Attempt ε α) :=
  fun _ => by simp

@[simp] theorem faultFree_pure (a : α) : FaultFree (pure a : Attempt ε α) :=
  faultFree_ok a

@[simp] theorem faultFree_refuse (reason : ε) :
    FaultFree (refuse reason : Attempt ε α) :=
  fun _ => by simp [refuse]

/-- **A step that computes must have an answer** for the attempt to meet no
fault, and the rest must meet none on it. -/
theorem faultFree_compute_bind_iff {x : Checked α} {f : α → Attempt ε β} :
    FaultFree (compute x >>= f) ↔ ∃ a, x = .ok a ∧ FaultFree (f a) := by
  cases x with
  | ok a => simp [compute, bind, Except.bind]
  | error cause =>
    simp only [reduceCtorEq, false_and, exists_false, iff_false]
    exact fun h => h cause rfl

/-- A step that accepts or refuses meets no fault itself. -/
theorem faultFree_accept_bind_iff {reading : δ → ε} {x : Except δ α}
    {f : α → Attempt ε β} :
    FaultFree (accept reading x >>= f) ↔ ∀ a, x = .ok a → FaultFree (f a) := by
  cases x with
  | ok a => simp [accept, bind, Except.bind]
  | error reason => simp [FaultFree, accept, bind, Except.bind]

end Attempt

/-! ## Two computations side by side -/

section Alike

variable {ε δ α α' β β' σ σ' : Type}

/-- **Two computations run alike**: both have an answer, and the answers are related, or
both stop for the same reason. -/
inductive Alike (R : α → α' → Prop) : Except ε α → Except ε α' → Prop
  | answer {a : α} {a' : α'} (h : R a a') : Alike R (.ok a) (.ok a')
  | stop (e : ε) : Alike R (.error e) (.error e)

namespace Alike

variable {R : α → α' → Prop} {S : β → β' → Prop}

/-- **Two sequences of steps run alike** if their first steps do, and what follows does
on related answers. -/
theorem bind {x : Except ε α} {x' : Except ε α'} {f : α → Except ε β}
    {f' : α' → Except ε β'} (h : Alike R x x') (hf : ∀ a a', R a a' → Alike S (f a) (f' a')) :
    Alike S (x >>= f) (x' >>= f') := by
  cases h with
  | answer h => exact hf _ _ h
  | stop e => exact .stop e

/-- Two sequences of steps with the same first step run alike if what follows does. -/
theorem bind_same (x : Except ε α) {f : α → Except ε β} {f' : α → Except ε β'}
    (hf : ∀ a, Alike S (f a) (f' a)) : Alike S (x >>= f) (x >>= f') := by
  cases x with
  | ok a => exact hf a
  | error e => exact .stop e

/-- Two folds over one list run alike if their steps do. -/
theorem foldlM {R : σ → σ' → Prop} {f : σ → α → Except ε σ} {f' : σ' → α → Except ε σ'}
    (hstep : ∀ x s s', R s s' → Alike R (f s x) (f' s' x)) (xs : List α) {s : σ} {s' : σ'}
    (h : R s s') : Alike R (xs.foldlM f s) (xs.foldlM f' s') := by
  induction xs generalizing s s' with
  | nil => exact .answer h
  | cons x xs ih =>
    rw [List.foldlM_cons, List.foldlM_cons]
    exact (hstep x s s' h).bind fun t t' ht => ih ht

/-- Two computations that run alike do so as steps of an attempt. -/
theorem compute {x : Checked α} {x' : Checked α'} (h : Alike R x x') :
    Alike R (Attempt.compute x : Attempt δ α) (Attempt.compute x') := by
  cases h with
  | answer h => exact .answer h
  | stop cause => exact .stop (Failure.fault cause)

/-- Two computations that run alike are the same up to what of their answers agrees. -/
theorem map_eq {γ : Type} {g : α → γ} {g' : α' → γ} {x : Except ε α} {x' : Except ε α'}
    (h : Alike (fun a a' => g a = g' a') x x') : x.map g = x'.map g' := by
  cases h with
  | answer h => exact congrArg Except.ok h
  | stop e => rfl

/-- **A computation that runs like another one**, each answer being a function of that
of the other, is the other one with the function applied. -/
theorem eq_map {g : α → α'} {x : Except ε α} {x' : Except ε α'}
    (h : Alike (fun a a' => a' = g a) x x') : x' = x.map g := by
  cases h with
  | answer h => rw [h]; rfl
  | stop e => rfl

end Alike

end Alike

end ConvTiling
