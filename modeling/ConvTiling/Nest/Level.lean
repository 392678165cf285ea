import ConvTiling.Nest.Error

/-!
# Levels one can compute with

Two conditions make a stack of levels a tiling. A level is **valid** when
every number of it reaches the least value of its field
(`Extents.Valid`), and an upper level **contains** a lower one when no extent
of the lower one is larger (`Extents.Contains`).

Both are decidable statements about the numbers. The checks beside them
report the first number that breaks the condition, fields in the order of
the persisted form and extents in the order of `Dim.all`, and accept exactly
the levels the condition holds of (`Extents.checkValid_eq_ok_iff`,
`Extents.checkContains_eq_ok_iff`).

A level that is not valid can still be written down and computed with, as long
as its numbers are words (`Extents.InWords`).
-/

namespace ConvTiling.Extents

/-- **A level with every number given**: a stride and padding of at least
`0` and extents of at least `1`. -/
def Valid (e : Extents) : Prop := ∀ f ∈ Field.all, f.least ≤ e.field f

instance (e : Extents) : Decidable e.Valid :=
  inferInstanceAs (Decidable (∀ f ∈ Field.all, f.least ≤ e.field f))

/-- **The upper level contains the lower one** in every extent. -/
def Contains (upper lower : Extents) : Prop :=
  ∀ d ∈ Dim.all, lower.get d ≤ upper.get d

instance (upper lower : Extents) : Decidable (upper.Contains lower) :=
  inferInstanceAs (Decidable (∀ d ∈ Dim.all, lower.get d ≤ upper.get d))

/-- **Every number of a level is a word.** -/
def InWords (e : Extents) : Prop := ∀ f ∈ Field.all, Signed.Fits (e.field f)

instance (e : Extents) : Decidable e.InWords :=
  inferInstanceAs (Decidable (∀ f ∈ Field.all, Signed.Fits (e.field f)))

/-- Accepts a valid level, and reports the first number of another one that
is below its least value. -/
def checkValid (e : Extents) : Except NestError Unit :=
  match Field.all.find? fun f => e.field f < f.least with
  | some f => .error (.belowLeast f (e.field f))
  | none => .ok ()

/-- Accepts a level contained in the upper one, and reports the first extent
of another one that is too large. -/
def checkContains (upper lower : Extents) : Except NestError Unit :=
  match Dim.all.find? fun d => upper.get d < lower.get d with
  | some d => .error (.notContained d (upper.get d) (lower.get d))
  | none => .ok ()

/-- Validity, read at each field. -/
theorem valid_iff {e : Extents} : e.Valid ↔ ∀ f, f.least ≤ e.field f :=
  ⟨fun h f => h f f.mem_all, fun h f _ => h f⟩

/-- The numbers of a level in words, read at each field. -/
theorem InWords.fits {e : Extents} (h : e.InWords) (f : Field) :
    Signed.Fits (e.field f) :=
  h f f.mem_all

/-- Containment, read at each extent. -/
theorem contains_iff {upper lower : Extents} :
    upper.Contains lower ↔ ∀ d, lower.get d ≤ upper.get d :=
  ⟨fun h d => h d d.mem_all, fun h d _ => h d⟩

/-- The check of a level accepts exactly the valid ones. -/
theorem checkValid_eq_ok_iff {e : Extents} {u : Unit} :
    e.checkValid = .ok u ↔ e.Valid := by
  unfold checkValid Valid
  split
  · next f hf =>
    have hm := List.mem_of_find?_eq_some hf
    have hp := List.find?_some hf
    simp only [reduceCtorEq, false_iff]
    intro h
    have := h f hm
    simp only [decide_eq_true_eq] at hp
    omega
  · next hf => simpa using hf

/-- The check of two levels accepts exactly those of which the first
contains the second. -/
theorem checkContains_eq_ok_iff {upper lower : Extents} {u : Unit} :
    upper.checkContains lower = .ok u ↔ upper.Contains lower := by
  unfold checkContains Contains
  split
  · next d hd =>
    have hm := List.mem_of_find?_eq_some hd
    have hp := List.find?_some hd
    simp only [reduceCtorEq, false_iff]
    intro h
    have := h d hm
    simp only [decide_eq_true_eq] at hp
    omega
  · next hd => simpa using hd

/-- Every extent of a valid level is at least `1`. -/
theorem Valid.one_le_get {e : Extents} (h : e.Valid) (d : Dim) : 1 ≤ e.get d := by
  have := valid_iff.1 h d.field
  cases d <;> simpa [get, Dim.field, Field.least] using this

/-- A level contains itself. -/
theorem Contains.refl (e : Extents) : e.Contains e := fun _ _ => Int.le_refl _

/-- Containment of levels is transitive. -/
theorem Contains.trans {e f g : Extents} (h : e.Contains f) (h' : f.Contains g) :
    e.Contains g :=
  fun d hd => Int.le_trans (h' d hd) (h d hd)

end ConvTiling.Extents
