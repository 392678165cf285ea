import ConvTiling.Arith.Checked

/-!
# Attempts

Scheduling a layer can be refused for a reason of its own – a field that was
never set, a layer that no buffer holds – and it computes with words, so it
can also meet an operation that has no answer. The two are kept apart: a
refusal is the answer of the program, a fault says that it has none. An
`Attempt ε α` ends with an `α`, with a refusal from `ε`, or with a fault.

A step that only computes is a `Checked` and enters an attempt through
`Attempt.compute`; a step that only accepts or refuses is an `Except` and
enters through `Attempt.accept`. Neither changes when the step succeeds
(`Attempt.compute_eq_ok_iff`, `Attempt.accept_eq_ok_iff`).
-/

namespace ConvTiling

/-- Accepts where `p` holds, and gives the reason otherwise. -/
def require {ε : Type} (p : Prop) [Decidable p] (reason : ε) : Except ε Unit :=
  if p then .ok () else .error reason

@[simp] theorem require_eq_ok_iff {ε : Type} {p : Prop} [Decidable p]
    {reason : ε} {u : Unit} : require p reason = .ok u ↔ p := by
  unfold require
  split <;> simp [*]

/-- Why an attempt has no result. -/
inductive Failure (ε : Type) where
  /-- An operation on words had no answer. -/
  | fault (cause : Fault)
  /-- The attempt was refused. -/
  | refused (reason : ε)
  deriving DecidableEq, Repr

/-- **A computation that may be refused**, or stop at a fault. -/
abbrev Attempt (ε α : Type) := Except (Failure ε) α

namespace Attempt

variable {δ ε α : Type}

/-- A refusal. -/
def refuse (reason : ε) : Attempt ε α := .error (.refused reason)

/-- A step that only computes. -/
def compute : Checked α → Attempt ε α
  | .ok a => .ok a
  | .error cause => .error (.fault cause)

/-- A step that only accepts or refuses, its reasons read as `ε`. -/
def accept (reading : δ → ε) : Except δ α → Attempt ε α
  | .ok a => .ok a
  | .error reason => .error (.refused (reading reason))

/-- An attempt as a step of another one, its reasons read as `ε`. -/
def embed (reading : δ → ε) : Attempt δ α → Attempt ε α
  | .ok a => .ok a
  | .error (.fault cause) => .error (.fault cause)
  | .error (.refused reason) => .error (.refused (reading reason))

@[simp] theorem refuse_eq_ok_iff {reason : ε} {a : α} :
    refuse reason = .ok a ↔ False := by
  simp [refuse]

@[simp] theorem compute_eq_ok_iff {x : Checked α} {a : α} :
    (compute x : Attempt ε α) = .ok a ↔ x = .ok a := by
  cases x <;> simp [compute]

@[simp] theorem accept_eq_ok_iff {reading : δ → ε} {x : Except δ α} {a : α} :
    accept reading x = .ok a ↔ x = .ok a := by
  cases x <;> simp [accept]

@[simp] theorem embed_eq_ok_iff {reading : δ → ε} {x : Attempt δ α} {a : α} :
    embed reading x = .ok a ↔ x = .ok a := by
  cases x with
  | ok b => simp [embed]
  | error e => cases e <;> simp [embed]

end Attempt

end ConvTiling
