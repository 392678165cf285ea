import Mathlib.Data.Nat.Prime.Int
import ConvTiling.Proofs.ArrayUse

/-!
# Nothing that is left of a side can be used

Two rounds hand out a side of the array, and what they leave divides its length. The
second round passes over a prime only if the tile is too short for that many more steps
of the unrolling, and so an extent that was served once is done with: whatever prime is
still left, one more of it would make the unrolling longer than the tile
(`Handout.Exhausted`).

This holds at once when the extent has been served, because the factors that were tried
are all the primes of what was left then; one that is still left was passed over. It holds
for good, because the unrolling of the extent does not change any more and what is left
only loses factors to the extents that follow. That the factors are *prime* matters: from
a composite one that is passed over a smaller one could still be spent.

On an array onto which no input is mapped nothing that is handed out changes afterwards,
so the same holds of the unrolling of a tile (`unrollTile_exhausts`).
-/

namespace ConvTiling

open Checked (bind_eq_ok_iff pure_eq_ok_iff)

/-! ## Serving one extent -/

namespace Handout

variable {tile : Extents} {length : Int} {h h' : Handout} {c d : Dim}

/-- **Nothing that is left can be spent on an extent**: with any prime of it more the
unrolling would be longer than the tile. -/
def Exhausted (tile : Extents) (h : Handout) (d : Dim) : Prop :=
  ∀ p : Nat, p.Prime → (p : Int) ∣ h.left → tile.get d < h.unroll.get d * p

/-- **What spending on one extent does to the rest**: the other extents keep what they
have taken, and what is left only loses factors. -/
structure SpentOn (d : Dim) (h h' : Handout) : Prop where
  left_dvd : h'.left ∣ h.left
  others : ∀ c, c ≠ d → h'.unroll.get c = h.unroll.get c

theorem SpentOn.refl (d : Dim) (h : Handout) : SpentOn d h h where
  left_dvd := dvd_refl h.left
  others _ _ := rfl

theorem SpentOn.trans {h'' : Handout} (hs : SpentOn d h h') (hs' : SpentOn d h' h'') :
    SpentOn d h h'' where
  left_dvd := hs'.left_dvd.trans hs.left_dvd
  others c hc := (hs'.others c hc).trans (hs.others c hc)

/-- An extent that nothing can be spent on stays so while another one is served. -/
theorem Exhausted.of_spentOn (hx : Exhausted tile h c) (hc : c ≠ d)
    (hs : SpentOn d h h') : Exhausted tile h' c := by
  intro p hp hdvd
  rw [hs.others c hc]
  exact hx p hp (hdvd.trans hs.left_dvd)

/-- **The primes still to be tried** account for what is left, but for a factor of which
no prime can be spent. -/
def Pending (tile : Extents) (d : Dim) (ps : List Nat) (h : Handout) : Prop :=
  ∃ refused : Int, h.left = ps.prod * refused
    ∧ ∀ p : Nat, p.Prime → (p : Int) ∣ refused → tile.get d < h.unroll.get d * p

/-- **Trying one prime**: if it is spent the unrolling has only grown, and if it is passed
over it goes to what is refused. -/
theorem Pending.takePrime {p : Nat} {ps : List Nat} (hpending : Pending tile d (p :: ps) h)
    (hh : h.Sound tile length) (hp : p.Prime)
    (run : Handout.takePrime tile d h p = .ok h') :
    Pending tile d ps h' ∧ SpentOn d h h' := by
  obtain ⟨refused, hleft, hrefused⟩ := hpending
  rw [List.prod_cons, Nat.cast_mul, Int.mul_assoc] at hleft
  have htwo := hp.two_le
  obtain ⟨-, rfl⟩ | ⟨hfull, rfl⟩ := takePrime_cases run
  · have hquot : h.left.tdiv p = ps.prod * refused := by
      rw [hleft, Int.mul_tdiv_cancel_left _ (by omega)]
    refine ⟨⟨refused, hquot, fun q hq hdvd => ?_⟩, ?_, fun c hc => ?_⟩
    · have hone := hh.liesIn.one_le d
      show tile.get d < (h.unroll.set d (h.unroll.get d * p)).get d * q
      rw [Extents.get_set, if_pos rfl]
      calc tile.get d < h.unroll.get d * q := hrefused q hq hdvd
        _ ≤ h.unroll.get d * p * q :=
          Int.mul_le_mul_of_nonneg_right (by nlinarith) (by omega)
    · show h.left.tdiv p ∣ h.left
      rw [hquot, hleft]
      exact dvd_mul_left _ _
    · show (h.unroll.set d (h.unroll.get d * p)).get c = h.unroll.get c
      rw [Extents.get_set, if_neg (Ne.symm hc)]
  · refine ⟨⟨p * refused, by rw [hleft, Int.mul_left_comm], fun q hq hdvd => ?_⟩, .refl d _⟩
    obtain hdvd | hdvd := (Nat.prime_iff_prime_int.1 hq).dvd_or_dvd hdvd
    · obtain rfl := (Nat.prime_dvd_prime_iff_eq hq hp).1 (Int.natCast_dvd_natCast.1 hdvd)
      rw [hh.le_steps_iff] at hfull
      exact Int.not_le.1 hfull
    · exact hrefused q hq hdvd

/-- **Trying several primes**, until none is to be tried any more. -/
theorem Pending.foldlM_takePrime {ps : List Nat} (hpending : Pending tile d ps h)
    (hh : h.Sound tile length) (hps : ∀ p ∈ ps, p.Prime)
    (run : ps.foldlM (Handout.takePrime tile d) h = .ok h') :
    Pending tile d [] h' ∧ SpentOn d h h' := by
  induction ps generalizing h with
  | nil =>
    obtain rfl := pure_eq_ok_iff.1 run
    exact ⟨hpending, .refl d _⟩
  | cons p ps ih =>
    obtain ⟨h₁, hstep, hrest⟩ := Checked.foldlM_cons_eq_ok_iff.1 run
    obtain ⟨hp, hps⟩ := List.forall_mem_cons.1 hps
    obtain ⟨hpending₁, hspent⟩ := hpending.takePrime hh hp hstep
    obtain ⟨hdone, hspent'⟩ := ih hpending₁ (hh.takePrime hp.two_le hstep) hps hrest
    exact ⟨hdone, hspent.trans hspent'⟩

/-- **An extent that is served** leaves nothing that could be spent on it. The primes that
are tried are all there are, so at the end what is left is what was refused. -/
theorem Sound.exhausted_takePrimes (hh : h.Sound tile length) (hleft : 1 ≤ h.left)
    (run : Handout.takePrimes tile h d = .ok h') :
    Exhausted tile h' d ∧ SpentOn d h h' := by
  obtain ⟨primes, hprimes, run⟩ := bind_eq_ok_iff.1 run
  have hstart : Pending tile d primes h := by
    refine ⟨1, ?_, fun p hp hdvd => ?_⟩
    · rw [Int.mul_one, prod_of_primeFactors hleft hprimes]
    · have := Int.le_of_dvd (by decide) hdvd
      have := hp.two_le
      omega
  obtain ⟨⟨refused, hrefused, hdone⟩, hspent⟩ :=
    hstart.foldlM_takePrime hh (prime_of_mem_primeFactors hprimes) run
  rw [List.prod_nil, Nat.cast_one, Int.one_mul] at hrefused
  exact ⟨fun p hp hdvd => hdone p hp (hrefused ▸ hdvd), hspent⟩

/-- **All the extents that are served** leave nothing that could be spent on them, and
neither do those that were done with before. -/
theorem Sound.exhausted_foldlM_takePrimes {xs : List Dim} (hh : h.Sound tile length)
    (hleft : 1 ≤ h.left) (run : xs.foldlM (Handout.takePrimes tile) h = .ok h') :
    ∀ c, c ∈ xs ∨ Exhausted tile h c → Exhausted tile h' c := by
  induction xs generalizing h with
  | nil =>
    obtain rfl := pure_eq_ok_iff.1 run
    rintro c (hc | hx)
    · exact absurd hc List.not_mem_nil
    · exact hx
  | cons d xs ih =>
    obtain ⟨h₁, hstep, hrest⟩ := Checked.foldlM_cons_eq_ok_iff.1 run
    obtain ⟨hx, hspent⟩ := hh.exhausted_takePrimes hleft hstep
    have hh₁ := hh.takePrimes hstep
    have hleft₁ : 1 ≤ h₁.left := by
      -- a divisor of something positive is not zero
      have hne : h₁.left ≠ 0 := ne_zero_of_dvd_ne_zero (by omega) hspent.left_dvd
      have hnonneg := hh₁.left_nonneg
      omega
    intro c hc
    refine ih hh₁ hleft₁ hrest c ?_
    by_cases hcd : c = d
    · exact .inr (hcd ▸ hx)
    · refine hc.imp (fun hmem => ?_) fun hx => hx.of_spentOn hcd hspent
      exact (List.mem_cons.1 hmem).resolve_left hcd

end Handout

/-! ## The whole array -/

variable {tile u v : Extents} {a : Accelerator}

/-- **What a side leaves** is of no use to its extents. -/
theorem lt_mul_of_handOutSide {s : Side} (ha : a.Valid) (htile : ∀ d, 1 ≤ tile.get d)
    (hu : u.LiesIn tile) (hone : ∀ d ∈ a.mapped s, u.get d = 1)
    (run : handOutSide tile a u s = .ok v) {d : Dim} (hd : d ∈ a.mapped s) {p : Nat}
    (hp : p.Prime) (hdvd : (p : Int) ∣ a.length s / v.volume (a.mapped s)) :
    tile.get d < v.get d * p := by
  have hs := ha.one_le_length s
  obtain ⟨h₁, h₂, hshares, hshared, hprimes, hspent, rfl⟩ :=
    rounds_of_handOutSide (ha.nodup_mapped s) hs hone run
  have hstart : (⟨u, a.length s⟩ : Handout).Sound tile (a.length s) :=
    ⟨hu, Int.le_of_lt hs, Int.le_refl _⟩
  have hsound : h₁.Sound tile (a.length s) :=
    Checked.foldlM_keeps (fun _ _ _ _ hh hstep => hh.takeShare htile hstep) hstart hshares
  have hleft : h₂.left = a.length s / h₂.unroll.volume (a.mapped s) := by
    have hne : h₂.unroll.volume (a.mapped s) ≠ 0 := by
      intro hzero
      have htaken := hspent.taken_mul_left
      rw [hzero, Int.zero_mul] at htaken
      omega
    rw [← hspent.taken_mul_left, Int.mul_ediv_cancel_left _ hne]
  exact hsound.exhausted_foldlM_takePrimes hshared.one_le_left hprimes d (.inl hd) p hp
    (hleft ▸ hdvd)

/-- **What any side leaves** of all that is handed out is of no use to its extents. -/
theorem lt_mul_of_handOut (ha : a.Valid) (htile : ∀ d, 1 ≤ tile.get d)
    (run : handOut tile a = .ok u) {s : Side} {d : Dim} (hd : d ∈ a.mapped s) {p : Nat}
    (hp : p.Prime) (hdvd : (p : Int) ∣ a.length s / u.volume (a.mapped s)) :
    tile.get d < u.get d * p := by
  obtain ⟨start, v, hv, hstart, hone, hsame⟩ := (sides_of_handOut ha run).1 s
  rw [hsame d hd]
  rw [Extents.volume_congr hsame] at hdvd
  exact lt_mul_of_handOutSide ha htile (hstart htile) hone hv hd hp hdvd

/-- **The unrolled input** is what was handed out, widened to the unrolled kernel within
the tile. -/
theorem input_of_unrollTile (hu : handOut tile a = .ok u) (run : unrollTile tile a = .ok v) :
    v.inputWidth = min (max u.inputWidth u.kernelWidth) tile.inputWidth
      ∧ v.inputHeight = min (max u.inputHeight u.kernelHeight) tile.inputHeight := by
  obtain ⟨u', hu', width, -, height, -, rfl⟩ := unrollTile_eq_ok_iff.1 run
  obtain rfl := Except.ok.inj (hu.symm.trans hu')
  exact ⟨rfl, rfl⟩

/-- **An array onto which no input is mapped** unrolls all but the input as far as was
handed out: only the input is widened, and the output follows an input that is unrolled
once. -/
theorem get_unrollTile_of_mapsNoInput (ha : a.Valid) (hinput : a.MapsNoInput)
    (htile : ∀ d, 1 ≤ tile.get d) (run : unrollTile tile a = .ok v) :
    ∃ u, handOut tile a = .ok u
      ∧ (∀ d, d ≠ .inputWidth → d ≠ .inputHeight → v.get d = u.get d)
      ∧ (∀ s, ∀ d ∈ a.mapped s, v.get d = u.get d)
      ∧ v.inputWidth = min v.kernelWidth tile.inputWidth
      ∧ v.inputHeight = min v.kernelHeight tile.inputHeight := by
  obtain ⟨u, hu, hlies, hfollows⟩ :=
    get_unrollTile_of_follows htile (fun s => Int.le_of_lt (ha.one_le_length s)) run
  obtain ⟨-, hunmapped⟩ := dvd_length_of_handOut ha hu
  have hkept : ∀ d, d ≠ .inputWidth → d ≠ .inputHeight → v.get d = u.get d := by
    intro d hwidth hheight
    refine hfollows d fun c hc => ?_
    cases d with
    | inputWidth => exact absurd rfl hwidth
    | inputHeight => exact absurd rfl hheight
    | outputWidth => exact Option.some.inj hc ▸ hunmapped _ hinput.1
    | outputHeight => exact Option.some.inj hc ▸ hunmapped _ hinput.2
    | kernelWidth | kernelHeight | inputChannel | outputChannel => cases hc
  refine ⟨u, hu, hkept, fun s d hd => ?_, ?_, ?_⟩
  · obtain ⟨hwidth, hheight⟩ := hinput.ne_of_mem hd
    exact hkept d hwidth hheight
  · have hkernel : v.kernelWidth = u.kernelWidth := hkept .kernelWidth (by decide) (by decide)
    have hone : u.inputWidth = 1 := hunmapped .inputWidth hinput.1
    have hle : 1 ≤ u.kernelWidth := hlies.one_le .kernelWidth
    rw [(input_of_unrollTile hu run).1, hkernel, hone, Int.max_eq_right hle]
  · have hkernel : v.kernelHeight = u.kernelHeight :=
      hkept .kernelHeight (by decide) (by decide)
    have hone : u.inputHeight = 1 := hunmapped .inputHeight hinput.2
    have hle : 1 ≤ u.kernelHeight := hlies.one_le .kernelHeight
    rw [(input_of_unrollTile hu run).2, hkernel, hone, Int.max_eq_right hle]

/-- **An unrolling leaves nothing of the array that could be used**, where no input is
mapped onto it. The unrolling of a tile of words exists on sides that can be factored. It
lies in the tile, and what the extents of a side take divides the side; of what is left
then, one prime more would make the unrolling of any extent of that side longer than the
tile. An extent that is not mapped is unrolled once, and the input as far as the kernel
is, within the tile. -/
theorem unrollTile_exhausts (ha : a.Valid) (hinput : a.MapsNoInput)
    (htile : ∀ d, 1 ≤ tile.get d) (hfits : ∀ d, Signed.Fits (tile.get d))
    (hlength : ∀ s, a.length s < 3037000499 * 3037000499) :
    ∃ v, unrollTile tile a = .ok v
      ∧ (∀ d, 1 ≤ v.get d ∧ v.get d ≤ tile.get d)
      ∧ (∀ s, v.volume (a.mapped s) ∣ a.length s)
      ∧ (∀ s, ∀ d ∈ a.mapped s, ∀ p : Nat, p.Prime →
        (p : Int) ∣ a.length s / v.volume (a.mapped s) → tile.get d < v.get d * p)
      ∧ (∀ d, d ∉ a.mappedDims → d ≠ .inputWidth → d ≠ .inputHeight → v.get d = 1)
      ∧ v.inputWidth = min v.kernelWidth tile.inputWidth
      ∧ v.inputHeight = min v.kernelHeight tile.inputHeight := by
  have hnonneg : ∀ s, 0 ≤ a.length s := fun s => Int.le_of_lt (ha.one_le_length s)
  obtain ⟨v, run⟩ := answers_unrollTile htile hfits hnonneg hlength
  obtain ⟨u, hu, hkept, hmapped, hwidth, hheight⟩ :=
    get_unrollTile_of_mapsNoInput ha hinput htile run
  obtain ⟨hdvd, hunmapped⟩ := dvd_length_of_handOut ha hu
  have hvolume : ∀ s, v.volume (a.mapped s) = u.volume (a.mapped s) := fun s =>
    Extents.volume_congr (hmapped s)
  have hin := liesIn_unrollTile htile hnonneg run
  refine ⟨v, run, fun d => ⟨hin.one_le d, hin.le d⟩, fun s => ?_, fun s d hd p hp hp' => ?_,
    fun d hd hnoWidth hnoHeight => ?_, hwidth, hheight⟩
  · rw [hvolume s]
    exact hdvd s
  · rw [hvolume s] at hp'
    rw [hmapped s d hd]
    exact lt_mul_of_handOut ha htile hu hd hp hp'
  · rw [hkept d hnoWidth hnoHeight, hunmapped d hd]

/-- Twelve rows that are all in use, and fourteen columns of which two are: the seven that
each of them leaves are more steps than the tile has. -/
theorem unrollTile_exhausts_fourteenColumns :
    let tile : Extents := ⟨1, 0, 0, 7, 3, 8, 3, 3, 5, 1, 5⟩
    let a : Accelerator := { Accelerator.simd8x8 with
      rows := 12, rowDims := [.outputChannel, .inputChannel]
      columns := 14, columnDims := [.outputWidth, .kernelHeight] }
    a.Valid ∧ a.MapsNoInput ∧ (∀ d, 1 ≤ tile.get d) ∧ (∀ d, Signed.Fits (tile.get d))
      ∧ (∀ s, a.length s < 3037000499 * 3037000499)
      ∧ ∃ v, unrollTile tile a = .ok v ∧ v.volume (a.mapped .row) = 12
        ∧ v.volume (a.mapped .column) = 2 ∧ tile.outputWidth < v.outputWidth * 7
        ∧ tile.kernelHeight < v.kernelHeight * 7 := by
  intro tile a
  have ha : a.Valid := by decide
  have hinput : a.MapsNoInput := by decide
  have htile : ∀ d, 1 ≤ tile.get d ∧ Signed.Fits (tile.get d) := by
    intro d
    cases d <;> decide
  have hlength : ∀ s, a.length s < 3037000499 * 3037000499 := by
    intro s
    cases s <;> decide
  have hrun : unrollTile tile a = .ok
      { Extents.unit 1 0 0 with
        inputChannel := 4, outputWidth := 2, outputChannel := 3 } := by decide +kernel
  obtain ⟨v, hv, -, -, hexhausts, -⟩ := unrollTile_exhausts ha hinput (fun d => (htile d).1)
    (fun d => (htile d).2) hlength
  obtain rfl := Except.ok.inj (hrun.symm.trans hv)
  have hseven := fun d hd => hexhausts .column d hd 7 (by decide) (by decide)
  exact ⟨ha, hinput, fun d => (htile d).1, fun d => (htile d).2, hlength, _, hv, by decide,
    by decide, hseven .outputWidth (by decide), hseven .kernelHeight (by decide)⟩

end ConvTiling
