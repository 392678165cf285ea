import ConvTiling.Proofs.Lengths
import ConvTiling.Proofs.Nesting
import ConvTiling.Proofs.PrimeFactors
import ConvTiling.Schedule.Handout

/-!
# An unrolling lies in its tile

Whatever the array and the mapping, the unrolling of a tile lies in it
(`liesIn_unrollTile`). A share divides the tile, a prime is spent only while
the tile holds that many more steps, and everything that is set afterwards is
cut to the tile.

The handing out of a side is followed through its two rounds by one invariant
(`Handout.Sound`): the unrolling lies in the tile, and what is left of the side
is between nothing and its whole length. The second half is what makes the
rounds have an answer. The sharing divides by shares of at least `1`, and what
is left is factored, which a length below the square of `3037000499` can be
(`answers_unrollTile`).
-/

namespace ConvTiling

open Checked (Answers bind_eq_ok_iff pure_eq_ok_iff)

variable {tile : Extents} {length : Int}

/-! ## The rounds of a side -/

namespace Handout

/-- **What the rounds of a side keep**: an unrolling in the tile, and a rest of
the side that is no longer than the side. -/
structure Sound (tile : Extents) (length : Int) (h : Handout) : Prop where
  liesIn : h.unroll.LiesIn tile
  left_nonneg : 0 ≤ h.left
  left_le : h.left ≤ length

variable {h h' : Handout} {d : Dim}

/-- A quotient of what is left is still between nothing and the whole side. -/
theorem Sound.tdiv {n : Int} (hh : h.Sound tile length) (hn : 0 ≤ n) :
    0 ≤ h.left.tdiv n ∧ h.left.tdiv n ≤ length := by
  have hnonneg := hh.left_nonneg
  refine ⟨Int.tdiv_nonneg hnonneg hn, ?_⟩
  rw [Int.tdiv_eq_ediv_of_nonneg hnonneg]
  exact Int.le_trans (Int.ediv_le_self n hnonneg) hh.left_le

/-- **What the first round does** for one extent. -/
theorem eq_of_takeShare (run : takeShare tile h d = .ok h') :
    h' = ⟨h.unroll.set d ((tile.get d).natAbs.gcd h.left.natAbs : Nat),
      h.left.tdiv ((tile.get d).natAbs.gcd h.left.natAbs : Nat)⟩ := by
  obtain ⟨share, hshare, left, hleft, hh'⟩ :
      ∃ share, Signed.gcd (tile.get d) h.left = .ok share
        ∧ ∃ left, Signed.div h.left share = .ok left
          ∧ h' = ⟨h.unroll.set d share, left⟩ := by
    simpa only [takeShare, bind_eq_ok_iff, pure_eq_ok_iff] using run
  obtain ⟨rfl, -⟩ := Signed.gcd_eq_ok_iff.1 hshare
  obtain ⟨-, rfl, -⟩ := Signed.div_eq_ok_iff.1 hleft
  exact hh'

/-- **What is done with a prime**: it is spent if the tile holds that many steps, and
passed over otherwise. -/
theorem takePrime_cases {p : Nat} (run : takePrime tile d h p = .ok h') :
    ((p : Int) ≤ (tile.get d).tdiv (h.unroll.get d)
        ∧ h' = ⟨h.unroll.set d (h.unroll.get d * p), h.left.tdiv p⟩)
      ∨ (¬ (p : Int) ≤ (tile.get d).tdiv (h.unroll.get d) ∧ h' = h) := by
  obtain ⟨steps, hsteps, run⟩ := bind_eq_ok_iff.1 run
  obtain ⟨-, rfl, -⟩ := Signed.div_eq_ok_iff.1 hsteps
  split at run
  · next hroom =>
    obtain ⟨unroll, hunroll, left, hleft, hh'⟩ :
        ∃ unroll, Signed.mul (h.unroll.get d) p = .ok unroll
          ∧ ∃ left, Signed.div h.left p = .ok left
            ∧ h' = ⟨h.unroll.set d unroll, left⟩ := by
      simpa only [bind_eq_ok_iff, pure_eq_ok_iff] using run
    obtain ⟨rfl, -⟩ := Signed.mul_eq_ok_iff.1 hunroll
    obtain ⟨-, rfl, -⟩ := Signed.div_eq_ok_iff.1 hleft
    exact .inl ⟨hroom, hh'⟩
  · next hfull => exact .inr ⟨hfull, pure_eq_ok_iff.1 run⟩

/-- The share of an extent is at least `1` and at most its tile. -/
theorem share_bounds {a b : Int} (ha : 1 ≤ a) :
    1 ≤ ((a.natAbs.gcd b.natAbs : Nat) : Int)
      ∧ ((a.natAbs.gcd b.natAbs : Nat) : Int) ≤ a := by
  have hpos := Nat.gcd_pos_of_pos_left b.natAbs (m := a.natAbs) (by omega)
  have hle := Nat.gcd_le_left b.natAbs (m := a.natAbs) (by omega)
  omega

/-- The first round keeps the invariant. -/
theorem Sound.takeShare (hh : h.Sound tile length) (htile : ∀ d, 1 ≤ tile.get d)
    (run : takeShare tile h d = .ok h') : h'.Sound tile length := by
  obtain ⟨hone, hle⟩ := share_bounds (b := h.left) (htile d)
  obtain ⟨hnonneg, hlength⟩ := hh.tdiv (Int.le_of_lt hone)
  rw [eq_of_takeShare run]
  exact ⟨hh.liesIn.set hone hle, hnonneg, hlength⟩

/-- The first round has an answer: a share is never `0`. -/
theorem Sound.answers_takeShare (hh : h.Sound tile length) (htile : ∀ d, 1 ≤ tile.get d)
    (hlength : Signed.Fits length) : Answers (Handout.takeShare tile h d) := by
  obtain ⟨hone, -⟩ := share_bounds (b := h.left) (htile d)
  obtain ⟨hnonneg, hle⟩ := hh.tdiv (Int.le_of_lt hone)
  have hpos := htile d
  have hleft := hh.left_nonneg
  refine ⟨⟨_, _⟩, bind_eq_ok_iff.2 ⟨_, Signed.gcd_eq_ok_iff.2 ⟨rfl, ?_, ?_⟩,
    bind_eq_ok_iff.2 ⟨_, Signed.div_eq_ok_iff.2 ⟨by omega, rfl, ?_⟩, rfl⟩⟩⟩
  · intro hneg
    omega
  · intro hneg
    omega
  · exact hlength.of_le hnonneg hle

/-- The tile holds some number of steps of an unrolling exactly when it is as
long as that many of them. -/
theorem Sound.le_steps_iff (hh : h.Sound tile length) {p : Int} :
    p ≤ (tile.get d).tdiv (h.unroll.get d) ↔ h.unroll.get d * p ≤ tile.get d := by
  have hone := hh.liesIn.one_le d
  have hle := hh.liesIn.le d
  rw [Int.tdiv_eq_ediv_of_nonneg (by omega), Int.le_ediv_iff_mul_le (by omega),
    Int.mul_comm]

/-- **Spending a prime** keeps the invariant: the tile holds at least that many
steps of the unrolling. -/
theorem Sound.takePrime (hh : h.Sound tile length) {p : Nat} (hp : 2 ≤ p)
    (run : takePrime tile d h p = .ok h') : h'.Sound tile length := by
  obtain ⟨hroom, rfl⟩ | ⟨-, rfl⟩ := takePrime_cases run
  · have hone := hh.liesIn.one_le d
    obtain ⟨hnonneg, hlength⟩ := hh.tdiv (n := (p : Int)) (by omega)
    refine ⟨hh.liesIn.set ?_ (hh.le_steps_iff.1 hroom), hnonneg, hlength⟩
    nlinarith
  · exact hh

/-- Spending a prime has an answer. -/
theorem Sound.answers_takePrime (hh : h.Sound tile length) {p : Nat} (hp : 2 ≤ p)
    (htile : Signed.Fits (tile.get d)) (hlength : Signed.Fits length) :
    Answers (Handout.takePrime tile d h p) := by
  have hone := hh.liesIn.one_le d
  have hle := hh.liesIn.le d
  unfold Signed.Fits at htile
  have hsteps := Int.ediv_le_self (h.unroll.get d) (a := tile.get d) (by omega)
  have hsteps' := Int.ediv_nonneg (a := tile.get d) (b := h.unroll.get d) (by omega)
    (by omega)
  refine Answers.bind ⟨_, Signed.div_eq_ok_iff.2 ⟨by omega, rfl, ?_⟩⟩ fun steps hrun => ?_
  · rw [Int.tdiv_eq_ediv_of_nonneg (by omega)]
    constructor <;> omega
  obtain ⟨-, rfl, -⟩ := Signed.div_eq_ok_iff.1 hrun
  split
  · next hroom =>
    obtain ⟨hnonneg, hlen⟩ := hh.tdiv (n := (p : Int)) (by omega)
    have hmul : 1 ≤ h.unroll.get d * p := by nlinarith
    have hin := hh.le_steps_iff.1 hroom
    refine Answers.bind ⟨_, Signed.mul_eq_ok_iff.2 ⟨rfl, ?_⟩⟩ fun unroll _ => ?_
    · constructor <;> omega
    refine Answers.bind ⟨_, Signed.div_eq_ok_iff.2 ⟨by omega, rfl, ?_⟩⟩ fun left _ => ?_
    · exact hlength.of_le hnonneg hlen
    exact Checked.answers_pure _
  · exact Checked.answers_pure h

/-- The second round keeps the invariant. -/
theorem Sound.takePrimes (hh : h.Sound tile length)
    (run : takePrimes tile h d = .ok h') : h'.Sound tile length := by
  obtain ⟨primes, hprimes, run⟩ := bind_eq_ok_iff.1 run
  have htwo := two_le_of_mem_primeFactors hprimes
  exact Checked.foldlM_keeps (fun p hp _ _ hs hstep => hs.takePrime (htwo p hp) hstep) hh
    run

/-- The second round has an answer on a side that can be factored. -/
theorem Sound.answers_takePrimes (hh : h.Sound tile length)
    (htile : Signed.Fits (tile.get d)) (hlength : length < 3037000499 * 3037000499) :
    Answers (Handout.takePrimes tile h d) := by
  have hleft := hh.left_le
  have hnonneg := hh.left_nonneg
  have hfits : Signed.Fits length := by constructor <;> omega
  refine (answers_primeFactors (by omega)).bind fun primes hprimes => ?_
  have htwo := two_le_of_mem_primeFactors hprimes
  exact Checked.answers_foldlM
    (fun p hp _ hs => hs.answers_takePrime (htwo p hp) htile hfits)
    (fun p hp _ _ hs hstep => hs.takePrime (htwo p hp) hstep) hh

end Handout

/-! ## A whole side -/

/-- Handing out a side keeps an unrolling in the tile. -/
theorem liesIn_handOutSide {a : Accelerator} {unroll unroll' : Extents} {s : Side}
    (htile : ∀ d, 1 ≤ tile.get d) (hs : 0 ≤ a.length s) (hu : unroll.LiesIn tile)
    (run : handOutSide tile a unroll s = .ok unroll') : unroll'.LiesIn tile := by
  obtain ⟨h, hshares, run⟩ := bind_eq_ok_iff.1 run
  obtain ⟨h', hprimes, run⟩ := bind_eq_ok_iff.1 run
  obtain rfl := pure_eq_ok_iff.1 run
  have hsound : h.Sound tile (a.length s) :=
    Checked.foldlM_keeps (fun _ _ _ _ hh hstep => hh.takeShare htile hstep)
      ⟨hu, hs, Int.le_refl _⟩ hshares
  have hsound' : h'.Sound tile (a.length s) :=
    Checked.foldlM_keeps (fun _ _ _ _ hh hstep => hh.takePrimes hstep) hsound hprimes
  exact hsound'.liesIn

/-- A side that can be factored is handed out. -/
theorem answers_handOutSide {a : Accelerator} {unroll : Extents} {s : Side}
    (htile : ∀ d, 1 ≤ tile.get d) (hfits : ∀ d, Signed.Fits (tile.get d))
    (hs : 0 ≤ a.length s) (hlength : a.length s < 3037000499 * 3037000499)
    (hu : unroll.LiesIn tile) : Answers (handOutSide tile a unroll s) := by
  have hword : Signed.Fits (a.length s) := by constructor <;> omega
  have hstart : (⟨unroll, a.length s⟩ : Handout).Sound tile (a.length s) :=
    ⟨hu, hs, Int.le_refl _⟩
  refine Checked.answers_foldlM_bind (fun _ _ _ hh => hh.answers_takeShare htile hword)
    (fun _ _ _ _ hh hstep => hh.takeShare htile hstep) hstart fun h hsound => ?_
  exact Checked.answers_foldlM_bind
    (fun d _ _ hh => hh.answers_takePrimes (hfits d) hlength)
    (fun _ _ _ _ hh hstep => hh.takePrimes hstep) hsound fun _ _ => Checked.answers_pure _

/-! ## The whole array -/

variable {a : Accelerator} {u v : Extents}

/-- **The unrolling that the sides hand out**, before any input or output is made
to follow. -/
def handOut (tile : Extents) (a : Accelerator) : Checked Extents :=
  Side.all.foldlM (handOutSide tile a)
    (.unit tile.stride tile.paddingWidth tile.paddingHeight)

/-- **An unrolling** is what the sides hand out, with the input widened to the
kernel and the output made to follow. -/
theorem unrollTile_eq_ok_iff :
    unrollTile tile a = .ok v ↔ ∃ u, handOut tile a = .ok u
      ∧ ∃ outputWidth, followInput u.outputWidth (coverKernel tile u).inputWidth
          u.kernelWidth tile.stride tile.outputWidth = .ok outputWidth
      ∧ ∃ outputHeight, followInput u.outputHeight (coverKernel tile u).inputHeight
          u.kernelHeight tile.stride tile.outputHeight = .ok outputHeight
      ∧ v = { coverKernel tile u with outputWidth, outputHeight } := by
  simp only [unrollTile, handOut, bind_eq_ok_iff, pure_eq_ok_iff]
  rfl

/-- The unrolling of a single multiplication lies in every tile. -/
theorem liesIn_unit (htile : ∀ d, 1 ≤ tile.get d) :
    (Extents.unit tile.stride tile.paddingWidth tile.paddingHeight).LiesIn tile where
  stride := rfl
  paddingWidth := rfl
  paddingHeight := rfl
  one_le d := by rw [Extents.get_unit]
  le d := by
    rw [Extents.get_unit]
    exact htile d

/-- What is handed out lies in the tile. -/
theorem liesIn_handOut (htile : ∀ d, 1 ≤ tile.get d) (ha : ∀ s, 0 ≤ a.length s)
    (run : handOut tile a = .ok u) : u.LiesIn tile :=
  Checked.foldlM_keeps (P := fun u => u.LiesIn tile)
    (fun s _ _ _ hu hstep => liesIn_handOutSide htile (ha s) hu hstep)
    (liesIn_unit htile) run

/-- Widening the input to the kernel keeps an unrolling in the tile. -/
theorem liesIn_coverKernel {unroll : Extents} (hu : unroll.LiesIn tile) :
    (coverKernel tile unroll).LiesIn tile := by
  have hw : 1 ≤ max unroll.inputWidth unroll.kernelWidth :=
    Int.le_trans (hu.one_le .inputWidth) (Int.le_max_left _ _)
  have hh : 1 ≤ max unroll.inputHeight unroll.kernelHeight :=
    Int.le_trans (hu.one_le .inputHeight) (Int.le_max_left _ _)
  exact hu.set_input hw hh

/-- An output that follows from the input is within its bound, as one that
does not is. -/
theorem followInput_bounds {output input kernel stride bound n : Int} (ho : 1 ≤ output)
    (hb : output ≤ bound) (run : followInput output input kernel stride bound = .ok n) :
    1 ≤ n ∧ n ≤ bound := by
  unfold followInput at run
  split at run
  · obtain ⟨m, hm, run⟩ := bind_eq_ok_iff.1 run
    obtain rfl := pure_eq_ok_iff.1 run
    have := one_le_of_tileOutputLength hm
    omega
  · obtain rfl := Except.ok.inj run
    exact ⟨ho, hb⟩

/-- An output that follows from the input has an answer. -/
theorem answers_followInput {output input kernel stride bound : Int} (hk : 1 ≤ kernel)
    (hin : Signed.Fits input) :
    Answers (followInput output input kernel stride bound) := by
  unfold followInput
  split
  · exact (answers_tileOutputLength hk hin).bind fun _ _ => Checked.answers_pure _
  · exact Checked.answers_ok _

/-- **The unrolling of a tile lies in it**, for every array and every
mapping. -/
theorem liesIn_unrollTile (htile : ∀ d, 1 ≤ tile.get d) (ha : ∀ s, 0 ≤ a.length s)
    (run : unrollTile tile a = .ok v) : v.LiesIn tile := by
  obtain ⟨u, hu, w, hw, h, hh, rfl⟩ := unrollTile_eq_ok_iff.1 run
  have hc := liesIn_coverKernel (liesIn_handOut htile ha hu)
  obtain ⟨hw1, hwle⟩ := followInput_bounds (hc.one_le .outputWidth) (hc.le .outputWidth) hw
  obtain ⟨hh1, hhle⟩ :=
    followInput_bounds (hc.one_le .outputHeight) (hc.le .outputHeight) hh
  exact (hc.set (d := .outputWidth) hw1 hwle).set (d := .outputHeight) hh1 hhle

/-- **A tile of words is unrolled** over an array whose sides can be
factored. -/
theorem answers_unrollTile (htile : ∀ d, 1 ≤ tile.get d)
    (hfits : ∀ d, Signed.Fits (tile.get d)) (ha : ∀ s, 0 ≤ a.length s)
    (hlength : ∀ s, a.length s < 3037000499 * 3037000499) :
    Answers (unrollTile tile a) := by
  refine Checked.answers_foldlM_bind (P := fun u => u.LiesIn tile)
    (fun s _ _ hu => answers_handOutSide htile hfits (ha s) (hlength s) hu)
    (fun s _ _ _ hu hstep => liesIn_handOutSide htile (ha s) hu hstep)
    (liesIn_unit htile) fun u hu => ?_
  have hc := liesIn_coverKernel hu
  have hword : ∀ d, Signed.Fits ((coverKernel tile u).get d) := by
    intro d
    exact (hfits d).of_le (Int.le_of_lt (hc.one_le d)) (hc.le d)
  refine (answers_followInput (hc.one_le .kernelWidth) (hword .inputWidth)).bind
    fun _ _ => ?_
  refine (answers_followInput (hc.one_le .kernelHeight) (hword .inputHeight)).bind
    fun _ _ => ?_
  exact Checked.answers_pure _

end ConvTiling
