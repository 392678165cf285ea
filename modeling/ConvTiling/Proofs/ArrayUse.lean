import ConvTiling.Proofs.Stages

/-!
# How much of the array an unrolling uses

The two rounds hand out no processing element twice. Of a side of the array,
what the extents mapped onto it have taken, times what is left, is the whole side
(`Handout.Accounted`): a share divides what is left, and so do the primes of what
is left, one after the other. So the product of the unrolled extents of a side
divides its length.

What happens afterwards is not handed out. An input is widened to the unrolled
kernel, and an output unrolled once is made what the unrolled input gives, also
where that input or output is mapped itself. Each of them **follows** another
extent (`Dim.follows?`), and stays as it was handed out as long as that one is
unrolled once. Hence a side is never exceeded if no extent of it follows a mapped
one (`Accelerator.Settled`), and can be exceeded otherwise.
-/

namespace ConvTiling

open Checked (Answers bind_eq_ok_iff pure_eq_ok_iff)

namespace Extents

variable {e e' : Extents} {ds : List Dim} {d : Dim}

/-- A product is that of the values of its extents. -/
theorem volume_congr (h : ∀ d ∈ ds, e.get d = e'.get d) : e.volume ds = e'.volume ds :=
  congrArg List.prod (List.map_congr_left h)

/-- A product of extents that are `1` is `1`. -/
theorem volume_eq_one (h : ∀ d ∈ ds, e.get d = 1) : e.volume ds = 1 :=
  List.prod_eq_one (List.forall_mem_map.2 h)

/-- **Unrolling an extent `n` times as often** multiplies a product it is in. -/
theorem volume_set_mul (hds : ds.Nodup) (hd : d ∈ ds) (n : Int) :
    (e.set d (e.get d * n)).volume ds = e.volume ds * n := by
  induction ds with
  | nil => cases hd
  | cons c ds ih =>
    obtain ⟨hc, hds⟩ := List.nodup_cons.1 hds
    rw [volume_cons, volume_cons, get_set]
    obtain rfl | hd' := List.mem_cons.1 hd
    · have hrest : (e.set d (e.get d * n)).volume ds = e.volume ds := by
        refine volume_congr fun b hb => ?_
        rw [get_set, if_neg (by rintro rfl; exact hc hb)]
      rw [if_pos rfl, hrest, Int.mul_right_comm]
    · rw [if_neg (by rintro rfl; exact hc hd'), ih hds hd', Int.mul_assoc]

end Extents

/-! ## The rounds of a side -/

namespace Handout

variable {tile start : Extents} {ds : List Dim} {length : Int} {h h' : Handout} {d : Dim}

/-- **The elements of a side are accounted for**: those its extents have taken
and those that are left make up the side, and no other extent has taken any. -/
structure Accounted (ds : List Dim) (start : Extents) (length : Int) (h : Handout) :
    Prop where
  taken_mul_left : h.unroll.volume ds * h.left = length
  one_le_left : 1 ≤ h.left
  others : ∀ d ∉ ds, h.unroll.get d = start.get d

/-- **Spending a divisor of what is left** on an extent of the side. Both rounds
do nothing else. -/
theorem Accounted.spend (hh : h.Accounted ds start length) (hds : ds.Nodup) (hd : d ∈ ds)
    {n : Int} (hn : 1 ≤ n) (hdvd : n ∣ h.left) :
    Accounted ds start length ⟨h.unroll.set d (h.unroll.get d * n), h.left.tdiv n⟩ := by
  obtain ⟨m, hm⟩ := hdvd
  have hone := hh.one_le_left
  have hquot : h.left.tdiv n = m := by
    rw [hm, Int.mul_tdiv_cancel_left _ (by omega)]
  rw [hquot]
  refine ⟨?_, ?_, fun c hc => ?_⟩
  · calc (h.unroll.set d (h.unroll.get d * n)).volume ds * m
        = h.unroll.volume ds * (n * m) := by rw [Extents.volume_set_mul hds hd, Int.mul_assoc]
      _ = length := by rw [← hm, hh.taken_mul_left]
  · show 1 ≤ m
    rw [hm] at hone
    exact Int.pos_of_mul_pos_right (by omega) hn
  · show (h.unroll.set d (h.unroll.get d * n)).get c = start.get c
    rw [Extents.get_set, if_neg (by rintro rfl; exact hc hd), hh.others c hc]

/-- **A share** is a divisor of what is left, for an extent that has taken nothing
yet. -/
theorem Accounted.takeShare (hh : h.Accounted ds start length) (hds : ds.Nodup)
    (hd : d ∈ ds) (hone : h.unroll.get d = 1) (run : Handout.takeShare tile h d = .ok h') :
    h'.Accounted ds start length
      ∧ ∀ c, c ≠ d → h'.unroll.get c = h.unroll.get c := by
  have hpos := hh.one_le_left
  have hgcd := Nat.gcd_pos_of_pos_right (tile.get d).natAbs (n := h.left.natAbs) (by omega)
  have hspend := hh.spend hds hd (n := (((tile.get d).natAbs.gcd h.left.natAbs : Nat) : Int))
    (by omega) (Int.natCast_dvd.2 (Nat.gcd_dvd_right _ _))
  rw [hone, Int.one_mul] at hspend
  rw [eq_of_takeShare run]
  refine ⟨hspend, fun c hc => ?_⟩
  rw [Extents.get_set, if_neg (Ne.symm hc)]

/-- **The first round** serves every extent once, so each has taken nothing
before. -/
theorem Accounted.takeShares {xs : List Dim} (hh : h.Accounted ds start length)
    (hds : ds.Nodup) (hxs : xs.Nodup) (hsub : xs ⊆ ds)
    (hone : ∀ d ∈ xs, h.unroll.get d = 1) (run : xs.foldlM (Handout.takeShare tile) h = .ok h') :
    h'.Accounted ds start length := by
  induction xs generalizing h with
  | nil =>
    obtain rfl := pure_eq_ok_iff.1 run
    exact hh
  | cons d xs ih =>
    obtain ⟨h₁, hstep, hrest⟩ := Checked.foldlM_cons_eq_ok_iff.1 run
    obtain ⟨hd, hxs⟩ := List.nodup_cons.1 hxs
    obtain ⟨hd', hsub⟩ := List.cons_subset.1 hsub
    obtain ⟨hh₁, hothers⟩ := hh.takeShare hds hd' (hone d List.mem_cons_self) hstep
    refine ih hh₁ hxs hsub (fun c hc => ?_) hrest
    rw [hothers c (fun he => hd (he ▸ hc))]
    exact hone c (List.mem_cons_of_mem d hc)

/-- **Primes whose product divides what is left** are spent or passed over. What
is left stays a multiple of those still to come. -/
theorem Accounted.foldlM_takePrime {ps : List Nat} (hh : h.Accounted ds start length)
    (hds : ds.Nodup) (hd : d ∈ ds) (hps : ∀ p ∈ ps, 2 ≤ p)
    (hdvd : (ps.prod : Int) ∣ h.left) (run : ps.foldlM (Handout.takePrime tile d) h = .ok h') :
    h'.Accounted ds start length := by
  induction ps generalizing h with
  | nil =>
    obtain rfl := pure_eq_ok_iff.1 run
    exact hh
  | cons p ps ih =>
    obtain ⟨h₁, hstep, hrest⟩ := Checked.foldlM_cons_eq_ok_iff.1 run
    obtain ⟨hp, hps⟩ := List.forall_mem_cons.1 hps
    rw [List.prod_cons, Nat.cast_mul] at hdvd
    obtain ⟨-, rfl⟩ | ⟨-, rfl⟩ := takePrime_cases hstep
    · refine ih (hh.spend hds hd (by omega) (dvd_of_mul_right_dvd hdvd)) hps ?_ hrest
      obtain ⟨m, hm⟩ := hdvd
      show (ps.prod : Int) ∣ h.left.tdiv p
      rw [hm, Int.mul_assoc, Int.mul_tdiv_cancel_left _ (by omega)]
      exact dvd_mul_right _ _
    · exact ih hh hps (dvd_of_mul_left_dvd hdvd) hrest

/-- **The second round**, for one extent, spends prime factors of what is left. -/
theorem Accounted.takePrimes (hh : h.Accounted ds start length) (hds : ds.Nodup)
    (hd : d ∈ ds) (run : Handout.takePrimes tile h d = .ok h') :
    h'.Accounted ds start length := by
  obtain ⟨primes, hprimes, run⟩ := bind_eq_ok_iff.1 run
  refine hh.foldlM_takePrime hds hd (two_le_of_mem_primeFactors hprimes) ?_ run
  exact dvd_of_eq (prod_of_primeFactors hh.one_le_left hprimes)

end Handout

/-! ## The sides of the array -/

variable {tile u v : Extents} {a : Accelerator}

/-- **The two rounds of a side** account for its elements, if its extents have taken none
before. -/
theorem rounds_of_handOutSide {s : Side} (hds : (a.mapped s).Nodup) (hs : 1 ≤ a.length s)
    (hone : ∀ d ∈ a.mapped s, u.get d = 1) (run : handOutSide tile a u s = .ok v) :
    ∃ h₁ h₂ : Handout,
      (a.mapped s).foldlM (Handout.takeShare tile) ⟨u, a.length s⟩ = .ok h₁
        ∧ h₁.Accounted (a.mapped s) u (a.length s)
        ∧ (a.mapped s).foldlM (Handout.takePrimes tile) h₁ = .ok h₂
        ∧ h₂.Accounted (a.mapped s) u (a.length s) ∧ h₂.unroll = v := by
  obtain ⟨h₁, hshares, run⟩ := bind_eq_ok_iff.1 run
  obtain ⟨h₂, hprimes, run⟩ := bind_eq_ok_iff.1 run
  have hstart : (⟨u, a.length s⟩ : Handout).Accounted (a.mapped s) u (a.length s) := by
    refine ⟨?_, hs, fun _ _ => rfl⟩
    show u.volume (a.mapped s) * a.length s = a.length s
    rw [Extents.volume_eq_one hone, Int.one_mul]
  have hshared := hstart.takeShares hds hds (List.Subset.refl _) hone hshares
  have hspent := Checked.foldlM_keeps (fun _ hd _ _ hh hstep => hh.takePrimes hds hd hstep)
    hshared hprimes
  exact ⟨h₁, h₂, hshares, hshared, hprimes, hspent, (pure_eq_ok_iff.1 run).symm⟩

/-- **What a side hands out divides it**, and reaches no extent of the other
side. -/
theorem dvd_length_of_handOutSide {s : Side} (hds : (a.mapped s).Nodup)
    (hs : 1 ≤ a.length s) (hone : ∀ d ∈ a.mapped s, u.get d = 1)
    (run : handOutSide tile a u s = .ok v) :
    v.volume (a.mapped s) ∣ a.length s ∧ ∀ d ∉ a.mapped s, v.get d = u.get d := by
  obtain ⟨-, h₂, -, -, -, hspent, rfl⟩ := rounds_of_handOutSide hds hs hone run
  exact ⟨Dvd.intro _ hspent.taken_mul_left, hspent.others⟩

/-- No extent is mapped twice onto one side. -/
theorem Accelerator.Valid.nodup_mapped (ha : a.Valid) (s : Side) : (a.mapped s).Nodup := by
  obtain ⟨hrows, hcolumns, -⟩ := List.nodup_append.1 ha.2.2.2.2.2
  cases s with
  | row => exact hrows
  | column => exact hcolumns

/-- **Each side is handed out in its turn**, from an unrolling in which its extents have
taken nothing, and they keep what it gives them: the rows are served first, and the
columns share no extent with them. An extent that is not mapped takes nothing. -/
theorem sides_of_handOut (ha : a.Valid) (run : handOut tile a = .ok u) :
    (∀ s, ∃ start v, handOutSide tile a start s = .ok v
        ∧ ((∀ d, 1 ≤ tile.get d) → start.LiesIn tile)
        ∧ (∀ d ∈ a.mapped s, start.get d = 1) ∧ ∀ d ∈ a.mapped s, u.get d = v.get d)
      ∧ ∀ d ∉ a.mappedDims, u.get d = 1 := by
  obtain ⟨-, -, hapart⟩ := List.nodup_append.1 ha.2.2.2.2.2
  have hlength := ha.one_le_length
  obtain ⟨r, hr, run⟩ := Checked.foldlM_cons_eq_ok_iff.1 run
  obtain ⟨c, hc, run⟩ := Checked.foldlM_cons_eq_ok_iff.1 run
  obtain rfl := pure_eq_ok_iff.1 run
  obtain ⟨-, hunmapped⟩ := dvd_length_of_handOutSide (s := .row) (ha.nodup_mapped .row)
    (hlength .row) (fun d _ => Extents.get_unit _ _ _ d) hr
  simp only [Extents.get_unit] at hunmapped
  have hcolumn : ∀ d ∈ a.columnDims, r.get d = 1 := fun d hd =>
    hunmapped d fun hd' => hapart d hd' d hd rfl
  obtain ⟨-, hkept⟩ := dvd_length_of_handOutSide (s := .column) (ha.nodup_mapped .column)
    (hlength .column) hcolumn hc
  refine ⟨fun s => ?_, fun d hd => ?_⟩
  · cases s with
    | row =>
      exact ⟨_, r, hr, liesIn_unit, fun d _ => Extents.get_unit _ _ _ d,
        fun d hd => hkept d fun hd' => hapart d hd d hd' rfl⟩
    | column =>
      exact ⟨r, u, hc, fun htile => liesIn_handOutSide htile (Int.le_of_lt (hlength .row))
        (liesIn_unit htile) hr, hcolumn, fun _ _ => rfl⟩
  · obtain ⟨hr, hc⟩ := not_or.1 (mt List.mem_append.2 hd)
    rw [hkept d hc, hunmapped d hr]

/-- **What is handed out of each side divides it**, and only mapped extents take
part. -/
theorem dvd_length_of_handOut (ha : a.Valid) (run : handOut tile a = .ok u) :
    (∀ s, u.volume (a.mapped s) ∣ a.length s) ∧ ∀ d ∉ a.mappedDims, u.get d = 1 := by
  obtain ⟨hsides, hunmapped⟩ := sides_of_handOut ha run
  refine ⟨fun s => ?_, hunmapped⟩
  obtain ⟨start, v, hv, -, hone, hsame⟩ := hsides s
  rw [Extents.volume_congr hsame]
  exact (dvd_length_of_handOutSide (ha.nodup_mapped s) (ha.one_le_length s) hone hv).1

/-! ## What follows -/

/-- **The extent that an extent follows** once all is handed out: an input is
widened to the kernel of its direction, and an output made what the input gives. -/
def Dim.follows? : Dim → Option Dim
  | .inputWidth => some .kernelWidth
  | .inputHeight => some .kernelHeight
  | .outputWidth => some .inputWidth
  | .outputHeight => some .inputHeight
  | _ => none

/-- **A side whose extents follow no mapped one.** -/
def Accelerator.Settled (a : Accelerator) (s : Side) : Prop :=
  ∀ d ∈ a.mapped s, ∀ c ∈ d.follows?, c ∉ a.mappedDims

instance (a : Accelerator) (s : Side) : Decidable (a.Settled s) :=
  inferInstanceAs (Decidable (∀ d ∈ a.mapped s, ∀ c ∈ d.follows?, c ∉ a.mappedDims))

/-- An output stays as it is where the input is no longer than the kernel. -/
theorem followInput_of_le {output input kernel stride bound n : Int}
    (hle : input ≤ kernel) (hbound : 1 ≤ bound)
    (run : followInput output input kernel stride bound = .ok n) : n = output := by
  unfold followInput at run
  split at run
  · next hone =>
    obtain ⟨m, hm, run⟩ := bind_eq_ok_iff.1 run
    obtain rfl := pure_eq_ok_iff.1 run
    have hm : m = 1 := by
      by_cases hlt : input < kernel
      · rw [tileOutputLength_of_lt hlt] at hm
        exact (Except.ok.inj hm).symm
      · obtain ⟨rfl, -⟩ := (tileOutputLength_eq_ok_iff (Int.not_lt.1 hlt)).1 hm
        rw [places, show input - kernel = 0 by omega, Int.zero_ediv]
        rfl
    omega
  · exact (Except.ok.inj run).symm

/-- An input under a kernel unrolled once is not widened. -/
theorem widened_eq_of_kernel_eq_one {input kernel bound : Int} (hinput : 1 ≤ input)
    (hbound : input ≤ bound) (hkernel : kernel = 1) :
    min (max input kernel) bound = input := by
  omega

/-- An input unrolled once is widened to the kernel at most. -/
theorem widened_le_of_input_eq_one {input kernel bound : Int} (hkernel : 1 ≤ kernel)
    (hinput : input = 1) : min (max input kernel) bound ≤ kernel := by
  omega

/-- **An extent stays as it was handed out** as long as the one it follows is
unrolled once. -/
theorem get_unrollTile_of_follows (htile : ∀ d, 1 ≤ tile.get d)
    (ha : ∀ s, 0 ≤ a.length s) (run : unrollTile tile a = .ok v) :
    ∃ u, handOut tile a = .ok u ∧ u.LiesIn tile
      ∧ ∀ d, (∀ c ∈ d.follows?, u.get c = 1) → v.get d = u.get d := by
  obtain ⟨u, hsides, w, hw, h, hh, rfl⟩ := unrollTile_eq_ok_iff.1 run
  have hu := liesIn_handOut htile ha hsides
  refine ⟨u, hsides, hu, fun d hd => ?_⟩
  cases d with
  | inputWidth =>
    exact widened_eq_of_kernel_eq_one (hu.one_le .inputWidth) (hu.le .inputWidth)
      (hd .kernelWidth rfl)
  | inputHeight =>
    exact widened_eq_of_kernel_eq_one (hu.one_le .inputHeight) (hu.le .inputHeight)
      (hd .kernelHeight rfl)
  | outputWidth =>
    exact followInput_of_le
      (widened_le_of_input_eq_one (hu.one_le .kernelWidth) (hd .inputWidth rfl))
      (htile .outputWidth) hw
  | outputHeight =>
    exact followInput_of_le
      (widened_le_of_input_eq_one (hu.one_le .kernelHeight) (hd .inputHeight rfl))
      (htile .outputHeight) hh
  | kernelWidth | kernelHeight | inputChannel | outputChannel => rfl

/-- The extents that are left as they were handed out stay within a side. -/
theorem volume_filter_le {dims : List Dim} {length : Int} (hu : ∀ d, 1 ≤ u.get d)
    (hlength : 1 ≤ length) (hdvd : u.volume dims ∣ length) :
    v.volume (dims.filter fun d => v.get d = u.get d) ≤ length :=
  calc v.volume (dims.filter fun d => v.get d = u.get d)
      = u.volume (dims.filter fun d => v.get d = u.get d) :=
        Extents.volume_congr fun _ hd => of_decide_eq_true (List.mem_filter.1 hd).2
    _ ≤ u.volume dims := prod_map_le_of_sublist (fun d _ => hu d) List.filter_sublist
    _ ≤ length := Int.le_of_dvd hlength hdvd

/-- **An unrolling uses no more of a side than there is** of the extents that are
left as they were handed out. What is handed out of a side divides it; only an
extent that follows a mapped one, unrolled more than once, is not left so; and so
a side of which no extent follows a mapped one is not exceeded at all. The
unrolling exists for a tile of words and sides that can be factored. -/
theorem volume_mapped_unrollTile_le (ha : a.Valid) (htile : ∀ d, 1 ≤ tile.get d) :
    ((∀ d, Signed.Fits (tile.get d)) → (∀ s, a.length s < 3037000499 * 3037000499) →
        Answers (unrollTile tile a))
      ∧ ∀ v, unrollTile tile a = .ok v →
        (∃ u, handOut tile a = .ok u
          ∧ (∀ s, u.volume (a.mapped s) ∣ a.length s)
          ∧ (∀ d, v.get d ≠ u.get d → ∃ c ∈ d.follows?, c ∈ a.mappedDims ∧ 1 < u.get c)
          ∧ ∀ s, v.volume ((a.mapped s).filter fun d => v.get d = u.get d) ≤ a.length s)
        ∧ ∀ s, a.Settled s → v.volume (a.mapped s) ≤ a.length s := by
  have hsides := ha.one_le_length
  have hnonneg : ∀ s, 0 ≤ a.length s := fun s => Int.le_of_lt (hsides s)
  refine ⟨fun hfits hlength => answers_unrollTile htile hfits hnonneg hlength,
    fun v run => ?_⟩
  obtain ⟨u, hu, hlies, hkept⟩ := get_unrollTile_of_follows htile hnonneg run
  obtain ⟨hdvd, hunmapped⟩ := dvd_length_of_handOut ha hu
  refine ⟨⟨u, hu, hdvd, fun d hne => ?_, fun s => ?_⟩, fun s hsettled => ?_⟩
  · by_contra hnone
    refine hne (hkept d fun c hc => ?_)
    by_contra hc1
    have hmapped : c ∈ a.mappedDims := by
      by_contra hc'
      exact hc1 (hunmapped c hc')
    have := hlies.one_le c
    exact hnone ⟨c, hc, hmapped, by omega⟩
  · exact volume_filter_le hlies.one_le (hsides s) (hdvd s)
  · have hsame : v.volume (a.mapped s) = u.volume (a.mapped s) :=
      Extents.volume_congr fun d hd =>
        hkept d fun c hc => hunmapped c (hsettled d hd c hc)
    rw [hsame]
    exact Int.le_of_dvd (hsides s) (hdvd s)

/-- Four rows of input width, under a kernel that is not mapped: the rows are
settled and all in use, and the output follows the input. -/
theorem volume_mapped_unrollTile_le_fourRows :
    let tile : Extents := ⟨1, 0, 0, 8, 3, 1, 3, 3, 6, 1, 1⟩
    let a : Accelerator := { Accelerator.simd8x8 with
      rows := 4, rowDims := [.inputWidth], columns := 1, columnDims := [] }
    a.Valid ∧ (∀ d, 1 ≤ tile.get d) ∧ a.Settled .row
      ∧ ∃ v, unrollTile tile a = .ok v ∧ v.inputWidth = 4 ∧ v.outputWidth = 4
        ∧ v.volume (a.mapped .row) ≤ a.length .row := by
  intro tile a
  have ha : a.Valid := by decide
  have htile : ∀ d, 1 ≤ tile.get d := by
    intro d
    cases d <;> decide
  have hsettled : a.Settled .row := by decide
  have hrun : unrollTile tile a = .ok
      { Extents.unit 1 0 0 with inputWidth := 4, outputWidth := 4 } := by decide +kernel
  exact ⟨ha, htile, hsettled, _, hrun, rfl, rfl,
    ((volume_mapped_unrollTile_le ha htile).2 _ hrun).2 .row hsettled⟩

/-- **A side can be exceeded** by an extent that follows a mapped one. With three
rows of kernel width, the input is unrolled three times on a single column; and
with three rows of input width, so is the output. -/
theorem volume_mapped_unrollTile_gt_threeRows :
    let tile : Extents :=
      { Extents.unit 1 0 0 with inputWidth := 3, kernelWidth := 3, outputWidth := 3 }
    let byKernel : Accelerator := { Accelerator.simd8x8 with
      rows := 3, rowDims := [.kernelWidth], columns := 1, columnDims := [.inputWidth] }
    let byInput : Accelerator := { Accelerator.simd8x8 with
      rows := 3, rowDims := [.inputWidth], columns := 1, columnDims := [.outputWidth] }
    (∀ d, 1 ≤ tile.get d) ∧ byKernel.Valid ∧ byInput.Valid
      ∧ (∃ v, unrollTile tile byKernel = .ok v
        ∧ byKernel.length .column < v.volume (byKernel.mapped .column))
      ∧ ∃ v, unrollTile tile byInput = .ok v
        ∧ byInput.length .column < v.volume (byInput.mapped .column) := by
  intro tile byKernel byInput
  have htile : ∀ d, 1 ≤ tile.get d := by
    intro d
    cases d <;> decide
  have hkernel : unrollTile tile byKernel = .ok
      { Extents.unit 1 0 0 with inputWidth := 3, kernelWidth := 3 } := by decide +kernel
  have hinput : unrollTile tile byInput = .ok
      { Extents.unit 1 0 0 with inputWidth := 3, outputWidth := 3 } := by decide +kernel
  exact ⟨htile, by decide, by decide, ⟨_, hkernel, by decide⟩, _, hinput, by decide⟩

end ConvTiling
