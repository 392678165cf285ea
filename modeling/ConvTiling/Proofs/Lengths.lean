import ConvTiling.Nest.Layer
import ConvTiling.Proofs.Answers

/-!
# Lengths of inputs and outputs

A tile of output needs a window of input, `(output - 1) * stride + kernel`
long, and a tile of input gives as many places of output as the kernel finds
in it. Two things are wanted of these lengths wherever they are used: that they
are at least `1`, so that a tile that follows from another one is a tile, and
that they are words where those of the layer are.

The output of a layer is what links the two. It was computed from the padded
input, so the window that the whole output needs lies in the padded input, and
is a word (`fits_window_of_outputLength`). Every tile of the output needs a
smaller one.
-/

namespace ConvTiling

open Checked (Answers bind_eq_ok_iff)

/-- **The window of input** under some places of output, as an integer. -/
def window (output kernel stride : Int) : Int := (output - 1) * stride + kernel

/-- **How many places a kernel finds** in some length of input, as an integer. -/
def places (length kernel stride : Int) : Int := (length - kernel) / stride + 1

section Lengths

variable {output input length kernel stride padding n : Int}

/-- A window over places of output is at least as long as the kernel. -/
theorem kernel_le_window (kernel : Int) (ho : 1 ≤ output) (hs : 0 ≤ stride) :
    kernel ≤ window output kernel stride := by
  have : 0 ≤ (output - 1) * stride := Int.mul_nonneg (by omega) hs
  unfold window
  omega

/-- Fewer places of output under a smaller kernel need a smaller window. -/
theorem window_le_window {output' kernel' : Int} (hs : 0 ≤ stride)
    (ho : output ≤ output') (hk : kernel ≤ kernel') :
    window output kernel stride ≤ window output' kernel' stride := by
  have : (output - 1) * stride ≤ (output' - 1) * stride :=
    Int.mul_le_mul_of_nonneg_right (by omega) hs
  unfold window
  omega

/-- A window over places of output is at least as long as they are many. -/
theorem le_window (ho : 1 ≤ output) (hk : 1 ≤ kernel) (hs : 1 ≤ stride) :
    output ≤ window output kernel stride := by
  have : (output - 1) * 1 ≤ (output - 1) * stride :=
    Int.mul_le_mul_of_nonneg_left hs (by omega)
  unfold window
  omega

/-- **A window lies in a length** exactly if the kernel finds as many places in it: windows
and places are adjoint. -/
theorem window_le_iff (hs : 0 < stride) :
    window output kernel stride ≤ length ↔ output ≤ places length kernel stride := by
  rw [window, places, Int.add_le_iff_le_sub, ← Int.le_ediv_iff_mul_le hs]
  omega

/-- The window over one place more than a kernel finds is too long. -/
theorem lt_window_places_add_one (length kernel : Int) (hs : 0 < stride) :
    length < window (places length kernel stride + 1) kernel stride :=
  Int.not_le.1 fun hle => absurd ((window_le_iff hs).1 hle) (by omega)

/-- A kernel finds as many places in a window as there are below it. -/
theorem places_window (output kernel : Int) (hs : 0 < stride) :
    places (window output kernel stride) kernel stride = output := by
  rw [places, window, Int.add_sub_cancel, Int.mul_ediv_cancel _ (by omega)]
  omega

/-- A kernel finds a place in what is as long as it is. -/
theorem one_le_places (hs : 0 < stride) (hle : kernel ≤ length) :
    1 ≤ places length kernel stride := by
  refine (window_le_iff hs).1 ?_
  rwa [window, Int.sub_self, Int.zero_mul, Int.zero_add]

/-- A kernel finds no more places in a length than it is long. -/
theorem places_le (hk : 1 ≤ kernel) (hs : 0 < stride) (hle : kernel ≤ length) :
    places length kernel stride ≤ length :=
  Int.le_trans (le_window (one_le_places hs hle) hk hs) ((window_le_iff hs).2 (Int.le_refl _))

/-! ## From output to input -/

/-- **The input that a tile of output needs** is its window, where each step
of computing it is a word. -/
theorem tileInputLength_eq_ok_iff (ho : 1 ≤ output) :
    tileInputLength output kernel stride = .ok n ↔
      n = window output kernel stride ∧ Signed.Fits (output - 1)
        ∧ Signed.Fits ((output - 1) * stride) ∧ Signed.Fits n := by
  rw [tileInputLength, if_neg (by omega)]
  simp only [bind_eq_ok_iff, Signed.sub_eq_ok_iff, Signed.mul_eq_ok_iff,
    Signed.add_eq_ok_iff, window]
  constructor
  · rintro ⟨_, ⟨rfl, h1⟩, _, ⟨rfl, h2⟩, rfl, h3⟩
    exact ⟨rfl, h1, h2, h3⟩
  · rintro ⟨rfl, h1, h2, h3⟩
    exact ⟨_, ⟨rfl, h1⟩, _, ⟨rfl, h2⟩, rfl, h3⟩

/-- The input that a tile of output needs is at least `1`. -/
theorem one_le_of_tileInputLength (ho : 1 ≤ output) (hk : 1 ≤ kernel) (hs : 0 ≤ stride)
    (run : tileInputLength output kernel stride = .ok n) : 1 ≤ n := by
  obtain ⟨rfl, -⟩ := (tileInputLength_eq_ok_iff ho).1 run
  exact Int.le_trans hk (kernel_le_window kernel ho hs)

/-- The input that a tile of output needs has an answer where the window is a
word. -/
theorem tileInputLength_eq_ok (ho : 1 ≤ output) (hk : 1 ≤ kernel) (hs : 0 ≤ stride)
    (hout : Signed.Fits output) (hfits : Signed.Fits (window output kernel stride)) :
    tileInputLength output kernel stride = .ok (window output kernel stride) := by
  have hsteps : 0 ≤ (output - 1) * stride := Int.mul_nonneg (by omega) hs
  unfold Signed.Fits at hout
  have hle : (output - 1) * stride ≤ 9223372036854775807 := by
    have := hfits.2
    unfold window at this
    omega
  refine (tileInputLength_eq_ok_iff ho).2 ⟨rfl, ?_, ?_, hfits⟩
  · constructor <;> omega
  · constructor <;> omega

/-- Fewer places of output under a smaller kernel need an input that is a word
where that of more places under a larger one is. -/
theorem tileInputLength_eq_ok_of_le {output' kernel' : Int} (hs : 0 ≤ stride)
    (ho : 1 ≤ output) (hole : output ≤ output') (hk : 1 ≤ kernel) (hkle : kernel ≤ kernel')
    (hword : Signed.Fits output') (hfits : Signed.Fits (window output' kernel' stride)) :
    tileInputLength output kernel stride = .ok (window output kernel stride) := by
  have hlow := kernel_le_window kernel ho hs
  refine tileInputLength_eq_ok ho hk hs ?_ ?_
  · exact hword.of_le (by omega) hole
  · exact hfits.of_le (by omega) (window_le_window hs hole hkle)

/-! ## From input to output -/

/-- An input shorter than the kernel gives one place of output. -/
theorem tileOutputLength_of_lt (hlt : input < kernel) (stride : Int) :
    tileOutputLength input kernel stride = .ok 1 :=
  if_pos hlt

/-- **The output that a tile of input gives** is as long as the kernel finds places in it,
where each step of computing it is a word. A stride below `1` counts as `1`. -/
theorem tileOutputLength_eq_ok_iff (hin : kernel ≤ input) :
    tileOutputLength input kernel stride = .ok n ↔
      n = places input kernel (max stride 1) ∧ Signed.Fits (input - kernel)
        ∧ Signed.Fits (n - 1) ∧ Signed.Fits n := by
  rw [tileOutputLength, if_neg (Int.not_lt.2 hin)]
  simp only [bind_eq_ok_iff, Signed.sub_eq_ok_iff, Signed.div_eq_ok_iff,
    Signed.add_eq_ok_iff]
  have hstride : max stride 1 ≠ 0 := by omega
  rw [places, ← Int.tdiv_eq_ediv_of_nonneg (Int.sub_nonneg.2 hin)]
  constructor
  · rintro ⟨_, ⟨rfl, h1⟩, _, ⟨-, rfl, h2⟩, rfl, h3⟩
    exact ⟨rfl, h1, by rwa [Int.add_sub_cancel], h3⟩
  · rintro ⟨rfl, h1, h2, h3⟩
    rw [Int.add_sub_cancel] at h2
    exact ⟨_, ⟨rfl, h1⟩, _, ⟨hstride, rfl, h2⟩, rfl, h3⟩

/-- The output that a tile of input gives has an answer: it is no longer than the input. -/
theorem tileOutputLength_eq_ok (hk : 1 ≤ kernel) (hin : kernel ≤ input)
    (hword : Signed.Fits input) :
    tileOutputLength input kernel stride = .ok (places input kernel (max stride 1)) := by
  have hstride : 0 < max stride 1 := by omega
  have hone := one_le_places hstride hin
  have hle := places_le hk hstride hin
  refine (tileOutputLength_eq_ok_iff hin).2 ⟨rfl, ?_, ?_, ?_⟩
  · exact hword.of_le (by omega) (by omega)
  · exact hword.of_le (by omega) (by omega)
  · exact hword.of_le (by omega) hle

/-- The output that a tile of input gives is at least `1`. -/
theorem one_le_of_tileOutputLength
    (run : tileOutputLength input kernel stride = .ok n) : 1 ≤ n := by
  by_cases hlt : input < kernel
  · rw [tileOutputLength_of_lt hlt] at run
    exact Int.le_of_eq (Except.ok.inj run)
  · have hin := Int.not_lt.1 hlt
    obtain ⟨rfl, -⟩ := (tileOutputLength_eq_ok_iff hin).1 run
    exact one_le_places (by omega) hin

/-- A tile of input gives an output. -/
theorem answers_tileOutputLength (hk : 1 ≤ kernel) (hin : Signed.Fits input) :
    Answers (tileOutputLength input kernel stride) := by
  by_cases hlt : input < kernel
  · exact ⟨1, tileOutputLength_of_lt hlt stride⟩
  · exact ⟨_, tileOutputLength_eq_ok hk (Int.not_lt.1 hlt) hin⟩

/-! ## The output of a layer -/

/-- A layer whose input is shorter than its kernel has one place of output. -/
theorem outputLength_of_lt (hlt : input < kernel) (stride padding : Int) :
    outputLength input kernel stride padding = .ok 1 :=
  if_pos hlt

/-- **The output of a layer** is as long as the kernel finds places in the padded input,
where each step of computing it is a word. -/
theorem outputLength_eq_ok_iff (hin : kernel ≤ input) (hp : 0 ≤ padding) :
    outputLength input kernel stride padding = .ok n ↔
      n = places (input + 2 * padding) kernel (max stride 1) ∧ Signed.Fits (2 * padding)
        ∧ Signed.Fits (input + 2 * padding) ∧ Signed.Fits (input + 2 * padding - kernel)
        ∧ Signed.Fits (n - 1) ∧ Signed.Fits n := by
  rw [outputLength, if_neg (Int.not_lt.2 hin)]
  simp only [bind_eq_ok_iff, Signed.mul_eq_ok_iff, Signed.sub_eq_ok_iff,
    Signed.div_eq_ok_iff, Signed.add_eq_ok_iff]
  have hstride : max stride 1 ≠ 0 := by omega
  rw [places, ← Int.tdiv_eq_ediv_of_nonneg (by omega)]
  constructor
  · rintro ⟨_, ⟨rfl, h1⟩, _, ⟨rfl, h2⟩, _, ⟨rfl, h3⟩, _, ⟨-, rfl, h4⟩, rfl, h5⟩
    exact ⟨rfl, h1, h2, h3, by rwa [Int.add_sub_cancel], h5⟩
  · rintro ⟨rfl, h1, h2, h3, h4, h5⟩
    rw [Int.add_sub_cancel] at h4
    exact ⟨_, ⟨rfl, h1⟩, _, ⟨rfl, h2⟩, _, ⟨rfl, h3⟩, _, ⟨hstride, rfl, h4⟩, rfl, h5⟩

/-- **The output of a layer has an answer** exactly if the padded input is a word: it is no
longer than that. -/
theorem answers_outputLength_iff (hk : 1 ≤ kernel) (hin : kernel ≤ input) (hp : 0 ≤ padding) :
    Answers (outputLength input kernel stride padding) ↔ Signed.Fits (input + 2 * padding) := by
  constructor
  · rintro ⟨n, run⟩
    exact ((outputLength_eq_ok_iff hin hp).1 run).2.2.1
  · intro hfits
    have hinside : kernel ≤ input + 2 * padding := by omega
    have hstride : 0 < max stride 1 := by omega
    have hone := one_le_places hstride hinside
    have hle := places_le hk hstride hinside
    refine ⟨_, (outputLength_eq_ok_iff hin hp).2 ⟨rfl, ?_, hfits, ?_, ?_, ?_⟩⟩
    · exact hfits.of_le (by omega) (by omega)
    · exact hfits.of_le (by omega) (by omega)
    · exact hfits.of_le (by omega) (by omega)
    · exact hfits.of_le (by omega) hle

/-- The output of a layer is as long as its kernel finds places in the padded input. -/
theorem eq_places_of_outputLength (hin : kernel ≤ input) (hs : 0 < stride) (hp : 0 ≤ padding)
    (run : outputLength input kernel stride padding = .ok n) :
    n = places (input + 2 * padding) kernel stride := by
  obtain ⟨hn, -⟩ := (outputLength_eq_ok_iff hin hp).1 run
  rwa [Int.max_eq_left (by omega)] at hn

/-- **The windows of a layer** lie in its padded input, if its kernel lies in the
input. -/
theorem window_le_of_outputLength (hin : kernel ≤ input) (hs : 0 < stride) (hp : 0 ≤ padding)
    (run : outputLength input kernel stride padding = .ok n) :
    window n kernel stride ≤ input + 2 * padding :=
  (window_le_iff hs).2 (Int.le_of_eq (eq_places_of_outputLength hin hs hp run))

/-- The padded input of a layer ends before one more window would. -/
theorem lt_of_outputLength (hin : kernel ≤ input) (hs : 0 < stride) (hp : 0 ≤ padding)
    (run : outputLength input kernel stride padding = .ok n) :
    input + 2 * padding < n * stride + kernel := by
  have hlong := lt_window_places_add_one (input + 2 * padding) kernel hs
  rwa [← eq_places_of_outputLength hin hs hp run, window, Int.add_sub_cancel] at hlong

/-- **The window of the whole output is a word**: it lies in the padded input,
or is the kernel alone where the input is shorter than it. -/
theorem fits_window_of_outputLength (hk : 1 ≤ kernel) (hkernel : Signed.Fits kernel)
    (hs : 0 < stride) (hp : 0 ≤ padding)
    (run : outputLength input kernel stride padding = .ok n) :
    Signed.Fits (window n kernel stride) := by
  by_cases hlt : input < kernel
  · rw [outputLength_of_lt hlt] at run
    obtain rfl := Except.ok.inj run
    rwa [window, Int.sub_self, Int.zero_mul, Int.zero_add]
  · have hin := Int.not_lt.1 hlt
    obtain ⟨-, -, hpadded, -⟩ := (outputLength_eq_ok_iff hin hp).1 run
    have hone : 1 ≤ n :=
      eq_places_of_outputLength hin hs hp run ▸ one_le_places hs (by omega)
    have hlow := kernel_le_window kernel hone (Int.le_of_lt hs)
    exact hpadded.of_le (by omega) (window_le_of_outputLength hin hs hp run)

end Lengths

end ConvTiling
