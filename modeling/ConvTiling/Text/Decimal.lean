import ConvTiling.Arith.Checked

/-!
# Decimal numbers

A number is written with the fewest decimal digits, after a `-` if it is
negative. It is read more liberally – leading zeros and a `+` are accepted –
but strictly otherwise: there is at least one digit, there is nothing beside
the sign and the digits, and the number is a word. Digits are the ten of
ASCII and no others.

Reading undoes writing (`readWord?_write`).
-/

namespace ConvTiling.Decimal

/-- The number that a run of digits spells, if it is one. -/
def readDigits? (cs : List Char) : Option Nat :=
  if cs ≠ [] ∧ cs.all Char.isDigit then some (Nat.ofDigitChars 10 cs 0) else none

/-- The number that digits after an optional sign spell, of any size. -/
def readSigned? : List Char → Option Int
  | '-' :: ds => (readDigits? ds).map fun (n : Nat) => -(n : Int)
  | '+' :: ds => (readDigits? ds).map Int.ofNat
  | ds => (readDigits? ds).map Int.ofNat

/-- **Reads a signed word.** -/
def readWord? (text : String) : Option Int :=
  (readSigned? text.toList).filter fun n => decide (Signed.Fits n)

/-- **Reads a count.** There is no minus sign on a count, not even on
zero. -/
def readCount? (text : String) : Option Nat :=
  (match text.toList with
    | '+' :: ds => readDigits? ds
    | ds => readDigits? ds).filter fun n => decide (Count.Fits n)

/-- The digits of a number, after a sign if it is negative. -/
def digits : Int → List Char
  | .ofNat n => Nat.toDigits 10 n
  | .negSucc n => '-' :: Nat.toDigits 10 (n + 1)

/-- **Writes a number.** -/
def write (n : Int) : String := String.ofList (digits n)

theorem readDigits?_toDigits (n : Nat) :
    readDigits? (Nat.toDigits 10 n) = some n := by
  have hd : (Nat.toDigits 10 n).all Char.isDigit = true :=
    List.all_eq_true.2 fun c hc =>
      Nat.isDigit_of_mem_toDigits (by decide) (by decide) hc
  rw [readDigits?, if_pos ⟨Nat.toDigits_ne_nil, hd⟩, Nat.ofDigitChars_ten_toDigits]

/-- A run of digits has no sign to read. -/
theorem readSigned?_of_isDigit {c : Char} {cs : List Char}
    (h : c.isDigit = true) :
    readSigned? (c :: cs) = (readDigits? (c :: cs)).map Int.ofNat := by
  unfold readSigned?
  split <;> simp_all [Char.isDigit]

/-- Reading the digits of a number gives the number. -/
theorem readSigned?_digits (n : Int) : readSigned? (digits n) = some n := by
  cases n with
  | ofNat n =>
    obtain ⟨c, cs, hc⟩ := List.exists_cons_of_ne_nil (Nat.toDigits_ne_nil (b := 10) (n := n))
    have hd : c.isDigit = true :=
      Nat.isDigit_of_mem_toDigits (b := 10) (n := n) (by decide) (by decide) (by simp [hc])
    have hr := readDigits?_toDigits n
    rw [digits, hc, readSigned?_of_isDigit hd, ← hc, hr, Option.map_some]
  | negSucc n =>
    rw [digits, readSigned?, readDigits?_toDigits, Option.map_some, Int.negSucc_eq]
    rfl

/-- **Reading a written word gives it back.** -/
theorem readWord?_write {n : Int} (h : Signed.Fits n) :
    readWord? (write n) = some n := by
  rw [readWord?, write, String.toList_ofList, readSigned?_digits]
  simp [h]

end ConvTiling.Decimal
