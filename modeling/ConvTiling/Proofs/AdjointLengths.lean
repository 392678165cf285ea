import ConvTiling.Proofs.Lengths

/-!
# The two directions of a length

A tile is sized from either end: from the output it is to give, or from the input it is
given. The two conversions are adjoint. A tile of input holds what some places of output
need exactly if it gives as many places (`tileInputLength_le_iff`), whether or not the
stride divides what is left over. So the input that was sized for an output gives that
output again (`tileOutputLength_of_tileInputLength`).

A layer pads its input on both sides. Its output is the greatest number of places whose
windows lie in the padded input, and the way back loses less than one stride: as much as
the last window leaves over (`inputLength_of_outputLength`).
-/

namespace ConvTiling

open Checked (Answers bind_eq_ok_iff)

variable {output input kernel stride padding m n : Int}

/-! ## Tiles -/

/-- **A tile of input holds what an output needs** exactly if it gives that much output. -/
theorem tileInputLength_le_iff (hs : 1 ≤ stride) (hin : kernel ≤ input) (ho : 1 ≤ output)
    (hm : tileOutputLength input kernel stride = .ok m)
    (hn : tileInputLength output kernel stride = .ok n) : n ≤ input ↔ output ≤ m := by
  obtain ⟨rfl, -⟩ := (tileOutputLength_eq_ok_iff hin).1 hm
  obtain ⟨rfl, -⟩ := (tileInputLength_eq_ok_iff ho).1 hn
  rw [Int.max_eq_left hs]
  exact window_le_iff hs

/-- What an output needs has an answer where a tile of input gives that much output. -/
theorem answers_tileInputLength (hs : 1 ≤ stride) (hk : 1 ≤ kernel) (hin : kernel ≤ input)
    (hword : Signed.Fits input) (ho : 1 ≤ output)
    (hle : output ≤ places input kernel stride) :
    Answers (tileInputLength output kernel stride) := by
  have hwindow : window output kernel stride ≤ input := (window_le_iff hs).2 hle
  have hlow := kernel_le_window kernel ho (Int.le_trans (by decide) hs)
  refine ⟨_, tileInputLength_eq_ok ho hk (by omega) ?_ (hword.of_le (by omega) hwindow)⟩
  exact hword.of_le (by omega) (Int.le_trans hle (places_le hk hs hin))

/-- **The input that was sized for an output gives that output.** -/
theorem tileOutputLength_of_tileInputLength (hs : 1 ≤ stride) (hk : 1 ≤ kernel)
    (ho : 1 ≤ output) (run : tileInputLength output kernel stride = .ok n) :
    tileOutputLength n kernel stride = .ok output := by
  obtain ⟨rfl, -, -, hword⟩ := (tileInputLength_eq_ok_iff ho).1 run
  have hlow := kernel_le_window kernel ho (Int.le_trans (by decide) hs)
  rw [tileOutputLength_eq_ok hk hlow hword, Int.max_eq_left hs, places_window output kernel hs]

/-! ## Layers -/

/-- **The input of a layer that gives an output** is its window without the padding, where
each step of computing it is a word. -/
theorem inputLength_eq_ok_iff (ho : 1 ≤ output) :
    inputLength output kernel stride padding = .ok n ↔
      n = window output kernel stride - 2 * padding ∧ Signed.Fits (output - 1)
        ∧ Signed.Fits ((output - 1) * stride) ∧ Signed.Fits (window output kernel stride)
        ∧ Signed.Fits (2 * padding) ∧ Signed.Fits n := by
  rw [inputLength, if_neg (by omega)]
  simp only [bind_eq_ok_iff, Signed.sub_eq_ok_iff, Signed.mul_eq_ok_iff,
    Signed.add_eq_ok_iff, window]
  constructor
  · rintro ⟨_, ⟨rfl, h1⟩, _, ⟨rfl, h2⟩, _, ⟨rfl, h3⟩, _, ⟨rfl, h4⟩, rfl, h5⟩
    exact ⟨rfl, h1, h2, h3, h4, h5⟩
  · rintro ⟨rfl, h1, h2, h3, h4, h5⟩
    exact ⟨_, ⟨rfl, h1⟩, _, ⟨rfl, h2⟩, _, ⟨rfl, h3⟩, _, ⟨rfl, h4⟩, rfl, h5⟩

/-- **The way back from the output of a layer** has an answer, and loses less than one
stride of the input. -/
theorem inputLength_of_outputLength (hs : 1 ≤ stride) (hk : 1 ≤ kernel) (hin : kernel ≤ input)
    (hp : 0 ≤ padding) (run : outputLength input kernel stride padding = .ok output) :
    ∃ n, inputLength output kernel stride padding = .ok n ∧ n ≤ input ∧ input < n + stride := by
  obtain ⟨-, hmargin, hpadded, -, hsteps, -⟩ := (outputLength_eq_ok_iff hin hp).1 run
  have hone : 1 ≤ output :=
    eq_places_of_outputLength hin hs hp run ▸ one_le_places hs (by omega)
  have hinside := window_le_of_outputLength hin hs hp run
  have hlong := lt_of_outputLength hin hs hp run
  have hnext : output * stride = (output - 1) * stride + stride := by
    rw [Int.sub_mul, Int.one_mul, Int.sub_add_cancel]
  have hslack : 0 ≤ (output - 1) * stride := Int.mul_nonneg (by omega) (by omega)
  refine ⟨window output kernel stride - 2 * padding,
    (inputLength_eq_ok_iff hone).2 ⟨rfl, hsteps, ?_, ?_, hmargin, ?_⟩, ?_, ?_⟩
  all_goals
    unfold window Signed.Fits at *
    omega

/-- **The conversions of lengths are adjoint.** Let a kernel lie in an input. The input gives
an output, and whatever it gives no more of it can hold: what an output needs is then a
word, and lies in the input exactly if the input gives that output. So the input that was
sized for an output gives that output again. With padding, the output has an answer exactly
if the padded input is a word. It is then the greatest number of places whose windows lie
in the padded input, and the input that this output needs is the input again, up to less
than one stride. -/
theorem lengths_adjoint (hs : 1 ≤ stride) (hk : 1 ≤ kernel) (hin : kernel ≤ input)
    (hword : Signed.Fits input) :
    (∃ m, tileOutputLength input kernel stride = .ok m
        ∧ ∀ output, 1 ≤ output →
          (output ≤ m → Answers (tileInputLength output kernel stride))
          ∧ ∀ n, tileInputLength output kernel stride = .ok n → (n ≤ input ↔ output ≤ m))
      ∧ (∀ output n, 1 ≤ output → tileInputLength output kernel stride = .ok n →
        tileOutputLength n kernel stride = .ok output)
      ∧ ∀ padding, 0 ≤ padding →
        (Answers (outputLength input kernel stride padding)
          ↔ Signed.Fits (input + 2 * padding))
        ∧ ∀ output, outputLength input kernel stride padding = .ok output →
          ((output - 1) * stride + kernel ≤ input + 2 * padding
            ∧ input + 2 * padding < output * stride + kernel)
          ∧ (∀ c, (c - 1) * stride + kernel ≤ input + 2 * padding ↔ c ≤ output)
          ∧ ∃ n, inputLength output kernel stride padding = .ok n
            ∧ n ≤ input ∧ input < n + stride := by
  refine ⟨⟨_, tileOutputLength_eq_ok hk hin hword, fun output ho => ⟨fun hle => ?_, ?_⟩⟩,
    fun output n ho run => tileOutputLength_of_tileInputLength hs hk ho run,
    fun padding hp => ⟨answers_outputLength_iff hk hin hp, fun output run => ?_⟩⟩
  · rw [Int.max_eq_left hs] at hle
    exact answers_tileInputLength hs hk hin hword ho hle
  · exact fun n run =>
      tileInputLength_le_iff hs hin ho (tileOutputLength_eq_ok hk hin hword) run
  · refine ⟨⟨window_le_of_outputLength hin hs hp run, lt_of_outputLength hin hs hp run⟩,
      fun c => ?_, inputLength_of_outputLength hs hk hin hp run⟩
    rw [eq_places_of_outputLength hin hs hp run]
    exact window_le_iff hs

/-- An input of ten under a kernel of three with a stride of four gives two places, and leaves
three over. Padded by two on both sides it gives three places, the last of which ends three
short of the end. -/
theorem lengths_adjoint_strideFour :
    Signed.Fits 10 ∧ tileOutputLength 10 3 4 = .ok 2
      ∧ (∀ output n, 1 ≤ output → tileInputLength output 3 4 = .ok n → (n ≤ 10 ↔ output ≤ 2))
      ∧ outputLength 10 3 4 2 = .ok 3
      ∧ (∀ c : Int, (c - 1) * 4 + 3 ≤ 10 + 2 * 2 ↔ c ≤ 3)
      ∧ ∃ n, inputLength 3 3 4 2 = .ok n ∧ n ≤ 10 ∧ 10 < n + 4 := by
  have hword : Signed.Fits 10 := by decide
  have hstride : (1 : Int) ≤ 4 := by decide
  have hkernel : (1 : Int) ≤ 3 := by decide
  have hinside : (3 : Int) ≤ 10 := by decide
  obtain ⟨⟨m, hm, hadjoint⟩, -, hpadded⟩ := lengths_adjoint hstride hkernel hinside hword
  obtain rfl : m = 2 := (Except.ok.inj hm).symm
  have run : outputLength 10 3 4 2 = .ok 3 := rfl
  obtain ⟨-, hgreatest, hback⟩ := (hpadded 2 (by decide)).2 3 run
  exact ⟨hword, hm, fun output n ho hn => (hadjoint output ho).2 n hn, run, hgreatest, hback⟩

end ConvTiling
