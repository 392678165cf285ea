import Mathlib.Algebra.BigOperators.Group.List.Basic
import Mathlib.Data.List.Perm.Subperm
import Mathlib.Tactic.Linarith
import ConvTiling.Nest.Tiling
import ConvTiling.Proofs.Answers

/-!
# Products of extents

Sizes, counts of multiplications, counts of tiles: whatever is computed from
the extents of a level is a product of some of them, or of quotients that are
no larger than they are. A product on words is checked after every factor, so
the questions are two – which number it is, and whether the partial products
are words.

The exact number is `Extents.volume`, the product of some extents as an
integer. The factors are all at least `1`, so the partial products never
exceed the whole one, and a product has an answer as soon as its volume is a
word (`Signed.productBy_eq_ok`). For the same reason a product over fewer
extents is no larger than one over more (`Extents.volume_le_of_subset`), which
bounds every product of a layer by the one or two largest.
-/

namespace ConvTiling

open Checked (Answers bind_eq_ok_iff)

/-! ## Products of factors that are at least one -/

section Factors

variable {α : Type} {f g : α → Int} {xs : List α}

/-- A product of factors that are at least `1` is. -/
theorem one_le_prod_map (h : ∀ x ∈ xs, 1 ≤ f x) : 1 ≤ (xs.map f).prod := by
  induction xs with
  | nil => simp
  | cons x xs ih =>
    have hx := h x List.mem_cons_self
    have hxs := ih fun y hy => h y (List.mem_cons_of_mem x hy)
    rw [List.map_cons, List.prod_cons]
    nlinarith

/-- **A product of factors that are at least `1` is `1`** exactly if every factor is. -/
theorem prod_map_eq_one_iff (h : ∀ x ∈ xs, 1 ≤ f x) :
    (xs.map f).prod = 1 ↔ ∀ x ∈ xs, f x = 1 := by
  induction xs with
  | nil => simp
  | cons x xs ih =>
    have hx := h x List.mem_cons_self
    have hrest := fun y hy => h y (List.mem_cons_of_mem x hy)
    have hxs := one_le_prod_map hrest
    rw [List.map_cons, List.prod_cons, List.forall_mem_cons, ← ih hrest]
    constructor
    · intro hprod
      constructor <;> nlinarith
    · rintro ⟨hone, hprod⟩
      rw [hone, hprod, Int.one_mul]

/-- Larger factors give a larger product. -/
theorem prod_map_le_prod_map (h : ∀ x ∈ xs, 1 ≤ f x) (hle : ∀ x ∈ xs, f x ≤ g x) :
    (xs.map f).prod ≤ (xs.map g).prod := by
  induction xs with
  | nil => simp
  | cons x xs ih =>
    have hx := h x List.mem_cons_self
    have hxg := hle x List.mem_cons_self
    have hrest := fun y hy => h y (List.mem_cons_of_mem x hy)
    have hxs := ih hrest fun y hy => hle y (List.mem_cons_of_mem x hy)
    have hone := one_le_prod_map hrest
    simp only [List.map_cons, List.prod_cons]
    exact Int.mul_le_mul hxg hxs (by omega) (by omega)

/-- Leaving out factors that are at least `1` gives no larger a product. -/
theorem prod_map_le_of_sublist {ys : List α} (h : ∀ y ∈ ys, 1 ≤ f y)
    (hsub : xs.Sublist ys) : (xs.map f).prod ≤ (ys.map f).prod := by
  induction hsub with
  | slnil => exact Int.le_refl _
  | @cons xs ys y hsub ih =>
    have hy := h y List.mem_cons_self
    have hys := fun z hz => h z (List.mem_cons_of_mem y hz)
    have hone := one_le_prod_map hys
    have := ih hys
    rw [List.map_cons, List.prod_cons]
    nlinarith
  | @cons_cons xs ys y hsub ih =>
    have hy := h y List.mem_cons_self
    have := ih fun z hz => h z (List.mem_cons_of_mem y hz)
    simp only [List.map_cons, List.prod_cons]
    exact Int.mul_le_mul_of_nonneg_left this (by omega)

end Factors

/-! ## Products on words -/

namespace Signed

variable {α : Type} {factor : α → Checked Int} {value : α → Int}

/-- A product that has an answer is the exact product, and each of its
factors has an answer. -/
theorem eq_prod_of_productFrom {xs : List α} {acc p : Int}
    (hvalue : ∀ x ∈ xs, ∀ n, factor x = .ok n → n = value x)
    (run : productFrom factor acc xs = .ok p) :
    p = acc * (xs.map value).prod ∧ ∀ x ∈ xs, Answers (factor x) := by
  induction xs generalizing acc with
  | nil =>
    obtain rfl : acc = p := by simpa [productFrom] using run
    simp
  | cons x xs ih =>
    obtain ⟨n, hn, -, hrest⟩ := productFrom_cons_eq_ok_iff.1 run
    obtain rfl : n = value x := hvalue x List.mem_cons_self n hn
    obtain ⟨hp, hall⟩ := ih (fun y hy => hvalue y (List.mem_cons_of_mem x hy)) hrest
    refine ⟨?_, List.forall_mem_cons.2 ⟨⟨_, hn⟩, hall⟩⟩
    rw [hp, List.map_cons, List.prod_cons, Int.mul_assoc]

/-- **A product that has an answer is the exact product**, and each of its
factors has an answer. -/
theorem eq_prod_of_productBy {xs : List α} {p : Int}
    (hvalue : ∀ x ∈ xs, ∀ n, factor x = .ok n → n = value x)
    (run : productBy factor xs = .ok p) :
    p = (xs.map value).prod ∧ ∀ x ∈ xs, Answers (factor x) := by
  have := eq_prod_of_productFrom hvalue run
  rwa [Int.one_mul] at this

/-- A product goes on to its end if all of it is a word: what is still to be
multiplied in only makes it larger. -/
theorem productFrom_eq_ok {xs : List α} {acc : Int} (hacc : 1 ≤ acc)
    (hfactor : ∀ x ∈ xs, factor x = .ok (value x)) (hone : ∀ x ∈ xs, 1 ≤ value x)
    (hfits : Fits (acc * (xs.map value).prod)) :
    productFrom factor acc xs = .ok (acc * (xs.map value).prod) := by
  induction xs generalizing acc with
  | nil => simp [productFrom]
  | cons x xs ih =>
    have hx := hone x List.mem_cons_self
    have hrest := fun y hy => hone y (List.mem_cons_of_mem x hy)
    have hprod := one_le_prod_map hrest
    rw [List.map_cons, List.prod_cons, ← Int.mul_assoc] at hfits ⊢
    have hnext : 1 ≤ acc * value x := by nlinarith
    -- the partial product is at most the whole one, so it is a word too
    have hle : acc * value x ≤ acc * value x * (xs.map value).prod := by nlinarith
    refine productFrom_cons_eq_ok_iff.2 ⟨value x, hfactor x List.mem_cons_self, ?_, ?_⟩
    · exact hfits.of_le (by omega) hle
    · exact ih hnext (fun y hy => hfactor y (List.mem_cons_of_mem x hy)) hrest hfits

/-- **A product of factors that are at least `1` has an answer** if the exact
product is a word. -/
theorem productBy_eq_ok {xs : List α} (hfactor : ∀ x ∈ xs, factor x = .ok (value x))
    (hone : ∀ x ∈ xs, 1 ≤ value x) (hfits : Fits (xs.map value).prod) :
    productBy factor xs = .ok (xs.map value).prod := by
  have := productFrom_eq_ok (Int.le_refl 1) hfactor hone (by rwa [Int.one_mul])
  rwa [Int.one_mul] at this

/-- **A product stops for one reason alone**, if its factors have answers: it is too large. -/
theorem productFrom_eq_error {xs : List α} {acc : Int} {fault : Fault}
    (hfactor : ∀ x ∈ xs, Answers (factor x)) (run : productFrom factor acc xs = .error fault) :
    fault = .productOverflow := by
  induction xs generalizing acc with
  | nil => cases run
  | cons x xs ih =>
    obtain ⟨n, hn⟩ := hfactor x List.mem_cons_self
    obtain hx | ⟨m, -, run⟩ := Checked.bind_eq_error_iff.1 run
    · cases hn.symm.trans hx
    · obtain hmul | ⟨acc', -, run⟩ := Checked.bind_eq_error_iff.1 run
      · exact (Checked.within_eq_error_iff.1 hmul).2
      · exact ih (fun y hy => hfactor y (List.mem_cons_of_mem x hy)) run

end Signed

/-! ## The volume of a level -/

namespace Extents

/-- **The product of some extents of a level**, as an integer. -/
def volume (e : Extents) (dims : List Dim) : Int := (dims.map e.get).prod

@[simp] theorem volume_nil (e : Extents) : e.volume [] = 1 := rfl

@[simp] theorem volume_cons (e : Extents) (d : Dim) (dims : List Dim) :
    e.volume (d :: dims) = e.get d * e.volume dims := by
  simp [volume]

/-- The product over two lists of extents is that over both. -/
theorem volume_append (e : Extents) (ds es : List Dim) :
    e.volume (ds ++ es) = e.volume ds * e.volume es := by
  simp [volume]

/-- The product over lists of extents, one after the other, is that of the products
over each. -/
theorem volume_flatMap {α : Type} (e : Extents) (f : α → List Dim) (xs : List α) :
    e.volume (xs.flatMap f) = (xs.map fun x => e.volume (f x)).prod := by
  induction xs with
  | nil => rfl
  | cons x xs ih => rw [List.flatMap_cons, volume_append, ih, List.map_cons, List.prod_cons]

variable {e e' : Extents} {ds es : List Dim}

theorem one_le_volume (h : ∀ d, 1 ≤ e.get d) (ds : List Dim) : 1 ≤ e.volume ds :=
  one_le_prod_map fun d _ => h d

/-- A smaller level has smaller products. -/
theorem volume_le_volume (h : ∀ d, 1 ≤ e.get d) (hle : ∀ d, e.get d ≤ e'.get d)
    (ds : List Dim) : e.volume ds ≤ e'.volume ds :=
  prod_map_le_prod_map (fun d _ => h d) fun d _ => hle d

/-- **A product over fewer extents is no larger.** -/
theorem volume_le_of_subset (h : ∀ d, 1 ≤ e.get d) (hds : ds.Nodup) (hsub : ds ⊆ es) :
    e.volume ds ≤ e.volume es := by
  obtain ⟨ds', hperm, hsublist⟩ := List.subperm_of_subset hds hsub
  calc e.volume ds = e.volume ds' := (hperm.map e.get).prod_eq.symm
    _ ≤ e.volume es := prod_map_le_of_sublist (fun d _ => h d) hsublist

/-- Every product of the extents of a level is its volume. -/
theorem eq_volume_of_productBy {dims : List Dim} {p : Int}
    (run : Signed.productBy (fun d => .ok (e.get d)) dims = .ok p) :
    p = e.volume dims :=
  (Signed.eq_prod_of_productBy (fun _ _ _ h => (Except.ok.inj h).symm) run).1

/-- A product of extents has an answer if its volume is a word. -/
theorem productBy_get_eq_ok (h : ∀ d, 1 ≤ e.get d) {dims : List Dim}
    (hfits : Signed.Fits (e.volume dims)) :
    Signed.productBy (fun d => .ok (e.get d)) dims = .ok (e.volume dims) :=
  Signed.productBy_eq_ok (fun _ _ => rfl) (fun d _ => h d) hfits

/-- **The bytes of an operand** are four times its volume. -/
theorem eq_volume_of_bytes {o : Operand} {b : Int} (run : e.bytes o = .ok b) :
    b = e.volume o.dims * 4 := by
  obtain ⟨n, hn, hb⟩ := bind_eq_ok_iff.1 run
  rw [← eq_volume_of_productBy hn]
  exact (Signed.mul_eq_ok_iff.1 hb).1

/-- The bytes of an operand have an answer if they are a word. -/
theorem bytes_eq_ok (h : ∀ d, 1 ≤ e.get d) {o : Operand}
    (hfits : Signed.Fits (e.volume o.dims * 4)) :
    e.bytes o = .ok (e.volume o.dims * 4) := by
  have hone := one_le_volume h o.dims
  have hsize : Signed.Fits (e.volume o.dims) := by
    unfold Signed.Fits at *
    omega
  exact bind_eq_ok_iff.2
    ⟨_, productBy_get_eq_ok h hsize, Signed.mul_eq_ok_iff.2 ⟨rfl, hfits⟩⟩

/-- **The bytes of an operand, or the fault**: they are four times its volume where that is a
word, and too large a product where it is not. -/
theorem bytes_eq_within (h : ∀ d, 1 ≤ e.get d) (o : Operand) :
    e.bytes o = Checked.within (Signed.Fits (e.volume o.dims * 4)) .productOverflow
      (e.volume o.dims * 4) := by
  by_cases hfits : Signed.Fits (e.volume o.dims * 4)
  · rw [bytes_eq_ok h hfits, Checked.within, if_pos hfits]
  · rw [Checked.within, if_neg hfits]
    cases hbytes : e.bytes o with
    | ok b =>
      obtain ⟨n, -, hb⟩ := bind_eq_ok_iff.1 hbytes
      exact absurd (eq_volume_of_bytes hbytes ▸ (Signed.mul_eq_ok_iff.1 hb).2) hfits
    | error fault =>
      obtain hsize | ⟨n, -, hmul⟩ := Checked.bind_eq_error_iff.1 hbytes
      · rw [Signed.productFrom_eq_error (fun _ _ => ⟨_, rfl⟩) hsize]
      · rw [(Checked.within_eq_error_iff.1 hmul).2]

end Extents

end ConvTiling
