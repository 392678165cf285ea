/-!
# The words of a text

The persisted form of a schedule is read word by word: line breaks and
indentation do not count, only that there is some blank between two words.
Blank is what Unicode calls white space, in every script – the ideographic
space separates two words as the plain one does.

`words` is determined by three equations, and nothing else about it is
needed: a blank splits a text in two (`words_append_blank`), a text of blanks
has no words (`words_eq_nil`), and a text that is not empty and has no blank
is one word (`words_of_forall_letter`).
-/

namespace ConvTiling.Text

/-- **Whether a character is blank**: the property `White_Space` of the
Unicode character database. The separators of information (U+001C to
U+001F), the zero-width space and the byte-order mark are not. -/
def isBlank (c : Char) : Bool :=
  let n := c.toNat
  (9 ≤ n && n ≤ 13) || n == 0x20 || n == 0x85 || n == 0xa0 || n == 0x1680
    || (0x2000 ≤ n && n ≤ 0x200a) || n == 0x2028 || n == 0x2029 || n == 0x202f
    || n == 0x205f || n == 0x3000

/-- Whether a text goes on with a word at once. -/
def beginsWord (cs : List Char) : Bool := cs.head?.any fun c => !isBlank c

/-- Puts a character in front of the first word. -/
def extendFirst (c : Char) : List (List Char) → List (List Char)
  | [] => [[c]]
  | w :: ws => (c :: w) :: ws

/-- **The words of a text**: its longest stretches without a blank, in
order. -/
def words : List Char → List (List Char)
  | [] => []
  | c :: cs =>
    if isBlank c then words cs
    else if beginsWord cs then extendFirst c (words cs)
    else [c] :: words cs

/-- The words of a string. -/
def tokens (text : String) : List String :=
  (words text.toList).map String.ofList

@[simp] theorem words_nil : words [] = [] := rfl

theorem words_cons_of_isBlank {c : Char} (h : isBlank c = true)
    (cs : List Char) : words (c :: cs) = words cs := by
  simp [words, h]

/-- A text that begins with a word has one. -/
theorem words_ne_nil {cs : List Char} (h : beginsWord cs = true) :
    words cs ≠ [] := by
  cases cs with
  | nil => simp [beginsWord] at h
  | cons c cs =>
    have hc : isBlank c = false := by simpa [beginsWord] using h
    simp only [words, hc]
    cases hb : beginsWord cs
    · simp
    · cases hw : words cs <;> simp [extendFirst]

/-- **A blank splits a text in two.** -/
theorem words_append_blank {c : Char} (hc : isBlank c = true)
    (x y : List Char) : words (x ++ c :: y) = words x ++ words y := by
  induction x with
  | nil => simp [words_cons_of_isBlank hc]
  | cons a x ih =>
    cases ha : isBlank a with
    | true => simp [words_cons_of_isBlank ha, ih]
    | false =>
      cases hx : beginsWord x with
      | true =>
        have hxy : beginsWord (x ++ c :: y) = true := by
          cases x <;> simp_all [beginsWord]
        obtain ⟨w, ws, hw⟩ := List.exists_cons_of_ne_nil (words_ne_nil hx)
        rw [hw] at ih
        simp [words, ha, hx, hxy, ih, hw, extendFirst]
      | false =>
        have hxy : beginsWord (x ++ c :: y) = false := by
          cases x <;> simp_all [beginsWord]
        simp [words, ha, hx, hxy, ih]

/-- A text of blanks has no words. -/
theorem words_eq_nil {cs : List Char} (h : ∀ c ∈ cs, isBlank c = true) :
    words cs = [] := by
  induction cs with
  | nil => rfl
  | cons c cs ih =>
    rw [words_cons_of_isBlank (h c (by simp))]
    exact ih fun d hd => h d (by simp [hd])

/-- A text that is not empty and has no blank is one word. -/
theorem words_of_forall_letter {w : List Char} (hw : w ≠ [])
    (h : ∀ c ∈ w, isBlank c = false) : words w = [w] := by
  induction w with
  | nil => exact absurd rfl hw
  | cons c w ih =>
    have hc : isBlank c = false := h c (by simp)
    cases w with
    | nil => simp [words, hc, beginsWord]
    | cons d w =>
      have hd : beginsWord (d :: w) = true := by
        simpa [beginsWord] using h d (by simp)
      have hw' := ih (by simp) fun e he => h e (by simp [he])
      rw [words, hc, hd, hw']
      simp [extendFirst]

end ConvTiling.Text
