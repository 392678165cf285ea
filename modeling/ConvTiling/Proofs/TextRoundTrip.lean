import ConvTiling.Nest.TextForm

/-!
# What is written reads back

Both documents of a nest are lines of two words, and reading one takes those
words off the front of the text. So the round trip is proved with more text
after what was written: of a level, or of an order, followed by anything, the
reader gives back the level or the order and the words of the rest
(`readLevel_tokens_write`, `readOrder_tokens_write`). The documents of two parts
follow by reading the second part in the rest of the first
(`TileLevels.ofText_write`, `LoopOrders.ofText_write`).

A level comes back as it was, if every number of it is one that the reader
accepts (`Extents.Storable`). An order comes back with its bindings alone: what
is known of the loops is not written (`LoopOrder.unflagged`).
-/

namespace ConvTiling

open Checked (bind_eq_ok_iff)

/-! ## Lines of two words -/

namespace Text

/-- **One word**: some characters, and no blank among them. -/
def IsWord (w : List Char) : Prop := w ≠ [] ∧ ∀ c ∈ w, isBlank c = false

-- the letters are tried one after the other, not the characters that there are
instance (w : List Char) : Decidable (IsWord w) :=
  @instDecidableAnd _ _ inferInstance (List.decidableBAll _ w)

/-- A digit is not blank. -/
theorem isBlank_of_isDigit {c : Char} (h : c.isDigit = true) : isBlank c = false := by
  obtain ⟨hlow, hhigh⟩ := Char.isDigit_iff_toNat.1 h
  rw [show '0'.toNat = 48 from rfl] at hlow
  rw [show '9'.toNat = 57 from rfl] at hhigh
  simp only [isBlank, Bool.or_eq_false_iff, Bool.and_eq_false_iff, beq_eq_false_iff_ne,
    decide_eq_false_iff_not]
  omega

/-- A word, a blank, a word and a blank put two words in front of a text. -/
theorem words_append_line {w v : List Char} (hw : IsWord w) (hv : IsWord v)
    (rest : List Char) :
    words ((w ++ ' ' :: v ++ ['\n']) ++ rest) = w :: v :: words rest := by
  have hsplit : (w ++ ' ' :: v ++ ['\n']) ++ rest = w ++ ' ' :: (v ++ '\n' :: rest) := by
    simp only [List.append_assoc, List.cons_append, List.nil_append]
  rw [hsplit, words_append_blank rfl, words_append_blank rfl,
    words_of_forall_letter hw.1 hw.2, words_of_forall_letter hv.1 hv.2]
  rfl

/-- **Lines of two words** put their words in front of a text. -/
theorem words_flatMap_line {α : Type} {first second : α → List Char} {xs : List α}
    (hfirst : ∀ x ∈ xs, IsWord (first x)) (hsecond : ∀ x ∈ xs, IsWord (second x))
    (rest : List Char) :
    words ((xs.flatMap fun x => first x ++ ' ' :: second x ++ ['\n']) ++ rest)
      = (xs.flatMap fun x => [first x, second x]) ++ words rest := by
  induction xs with
  | nil => rfl
  | cons x xs ih =>
    rw [List.flatMap_cons, List.append_assoc,
      words_append_line (hfirst x List.mem_cons_self) (hsecond x List.mem_cons_self),
      ih (fun y hy => hfirst y (List.mem_cons_of_mem x hy))
        (fun y hy => hsecond y (List.mem_cons_of_mem x hy))]
    rfl

/-- **Words that are lines of two**, one for each of some entries: the words of a line
and its entry are in a given relation. -/
inductive Lines {α : Type} (R : String → String → α → Prop) :
    List String → List α → Prop where
  | nil : Lines R [] []
  | cons {first second : String} {words : List String} {x : α} {xs : List α} :
    R first second x → Lines R words xs → Lines R (first :: second :: words) (x :: xs)

section Lines

variable {α : Type} {R : String → String → α → Prop} {words : List String} {xs ys : List α}

/-- There are two words for each entry. -/
theorem Lines.length_words (h : Lines R words xs) : words.length = 2 * xs.length := by
  induction h with
  | nil => rfl
  | cons _ _ ih =>
    simp only [List.length_cons, ih]
    omega

/-- **Lines for two lists of entries** are lines for the one, followed by lines for the
other. -/
theorem lines_append_iff : Lines R words (xs ++ ys) ↔
    ∃ front back, words = front ++ back ∧ Lines R front xs ∧ Lines R back ys := by
  constructor
  · intro h
    induction xs generalizing words with
    | nil => exact ⟨[], words, rfl, .nil, h⟩
    | cons x xs ih =>
      obtain - | ⟨hline, hrest⟩ := h
      obtain ⟨front, back, rfl, hfront, hback⟩ := ih hrest
      exact ⟨_ :: _ :: front, back, rfl, .cons hline hfront, hback⟩
  · rintro ⟨front, back, rfl, hfront, hback⟩
    induction hfront with
    | nil => exact hback
    | cons hline _ ih => exact .cons hline ih

end Lines

/-- The words of such lines, as strings. -/
theorem tokens_flatMap_line {α : Type} {first second : α → List Char} {xs : List α}
    (hfirst : ∀ x ∈ xs, IsWord (first x)) (hsecond : ∀ x ∈ xs, IsWord (second x))
    (rest : String) :
    tokens (String.ofList (xs.flatMap fun x => first x ++ ' ' :: second x ++ ['\n']) ++ rest)
      = (xs.flatMap fun x => [String.ofList (first x), String.ofList (second x)])
        ++ tokens rest := by
  rw [tokens, String.toList_append, String.toList_ofList,
    words_flatMap_line hfirst hsecond, List.map_append, List.map_flatMap]
  rfl

end Text

/-- **A written number is one word.** -/
theorem Decimal.isWord_digits (n : Int) : Text.IsWord (Decimal.digits n) := by
  have hdigits : ∀ k, ∀ c ∈ Nat.toDigits 10 k, Text.isBlank c = false := fun k c hc =>
    Text.isBlank_of_isDigit (Nat.isDigit_of_mem_toDigits (by decide) (by decide) hc)
  cases n with
  | ofNat k => exact ⟨Nat.toDigits_ne_nil, hdigits k⟩
  | negSucc k =>
    refine ⟨List.cons_ne_nil _ _, fun c hc => ?_⟩
    obtain rfl | hc := List.mem_cons.1 hc
    · rfl
    · exact hdigits (k + 1) c hc

/-! ## A level -/

namespace Extents

/-- **A level that can be kept**: every number of it is a word, and at least
`0`. -/
def Storable (e : Extents) : Prop := ∀ f, 0 ≤ e.field f ∧ Signed.Fits (e.field f)

/-- Setting some fields to what they are in another level. -/
theorem field_foldl_setField (e x : Extents) (fs : List Field) (g : Field) :
    (fs.foldl (fun e f => e.setField f (x.field f)) e).field g
      = if g ∈ fs then x.field g else e.field g := by
  induction fs generalizing e with
  | nil => rfl
  | cons f fs ih =>
    rw [List.foldl_cons, ih, field_setField]
    by_cases hg : g ∈ fs
    · rw [if_pos hg, if_pos (List.mem_cons_of_mem f hg)]
    · by_cases hfg : f = g
      · rw [if_neg hg, if_pos hfg, if_pos (List.mem_cons.2 (.inl hfg.symm)), hfg]
      · have hcons : g ∉ f :: fs := by simp [hg, Ne.symm hfg]
        rw [if_neg hg, if_neg hfg, if_neg hcons]

/-- Setting every field to what it is in another level gives that level. -/
theorem foldl_setField_all (e x : Extents) :
    Field.all.foldl (fun e f => e.setField f (x.field f)) e = x :=
  ext_field fun f => by rw [field_foldl_setField, if_pos f.mem_all]

/-- Reading a value of at least `0` sets the field that is read. -/
theorem readFields_cons {f : Field} {fs : List Field} {e : Extents} {label word : String}
    {words : List String} {n : Int} (hn : 0 ≤ n) (hword : Decimal.readWord? word = some n) :
    readFields (f :: fs) e (label :: word :: words)
      = readFields fs (e.setField f n) words := by
  simp only [readFields, hword]
  exact if_neg (Int.not_lt.2 hn)

/-- Reading a value below `0` is refused. -/
theorem readFields_cons_of_neg {f : Field} {fs : List Field} {e : Extents}
    {label word : String} {words : List String} {n : Int} (hn : n < 0)
    (hword : Decimal.readWord? word = some n) :
    readFields (f :: fs) e (label :: word :: words) = .error (.belowLeast f n) := by
  simp only [readFields, hword]
  exact if_pos hn

/-- **Reading written values** sets the fields that they are of, and leaves the
words after them, if no value is below `0`; otherwise the first one that is
reported. -/
theorem readFields_append {x : Extents} (hx : x.InWords) (fs : List Field) (e : Extents)
    (rest : List String) :
    readFields fs e ((fs.flatMap fun f => [f.label, Decimal.write (x.field f)]) ++ rest)
      = match fs.find? fun f => x.field f < 0 with
        | some f => .error (.belowLeast f (x.field f))
        | none => .ok (fs.foldl (fun e f => e.setField f (x.field f)) e, rest) := by
  induction fs generalizing e with
  | nil => rfl
  | cons f fs ih =>
    have hword := Decimal.readWord?_write (hx.fits f)
    rw [List.flatMap_cons, List.append_assoc]
    by_cases hneg : x.field f < 0
    · rw [List.find?_cons_of_pos (by simpa using hneg)]
      exact readFields_cons_of_neg hneg hword
    · rw [List.find?_cons_of_neg (by simpa using hneg), List.foldl_cons, ← ih]
      exact readFields_cons (Int.not_lt.1 hneg) hword

/-- The words of a written level are its labels and values. -/
theorem tokens_write (e : Extents) (rest : String) :
    Text.tokens (e.write ++ rest)
      = (Field.all.flatMap fun f => [f.label, Decimal.write (e.field f)])
        ++ Text.tokens rest := by
  have hlabel : ∀ f ∈ Field.all, Text.IsWord f.label.toList := by decide
  rw [write, Text.tokens_flatMap_line hlabel fun f _ => Decimal.isWord_digits (e.field f)]
  simp only [String.ofList_toList]
  rfl

/-- The first field of a level, in the order of the persisted form, that is below
`0`. -/
def firstNegative? (e : Extents) : Option Field := Field.all.find? fun f => e.field f < 0

/-- **A written level in words reads back**, with the words after it left, unless a
number of it is below `0`: then the first one that is gets reported. -/
theorem readLevel_tokens_write_eq {e : Extents} (he : e.InWords) (rest : String) :
    readLevel (Text.tokens (e.write ++ rest)) = match e.firstNegative? with
      | some f => .error (.belowLeast f (e.field f))
      | none => .ok (e, Text.tokens rest) := by
  rw [tokens_write, readLevel, readFields_append he, foldl_setField_all]
  rfl

/-- A level that can be kept is in words. -/
theorem Storable.inWords {e : Extents} (he : e.Storable) : e.InWords := fun f _ => (he f).2

/-- No number of a level that can be kept is below `0`. -/
theorem Storable.firstNegative? {e : Extents} (he : e.Storable) : e.firstNegative? = none :=
  List.find?_eq_none.2 fun f _ => by simpa using (he f).1

/-- **A written level that can be kept reads back**, with the words after it
left. -/
theorem readLevel_tokens_write {e : Extents} (he : e.Storable) (rest : String) :
    readLevel (Text.tokens (e.write ++ rest)) = .ok (e, Text.tokens rest) := by
  rw [readLevel_tokens_write_eq he.inWords, he.firstNegative?]

/-- **A level written as a document reads back.** -/
theorem ofText_write {e : Extents} (he : e.Storable) : ofText e.write = .ok e := by
  have hread := readLevel_tokens_write he ""
  rw [String.append_empty] at hread
  exact bind_eq_ok_iff.2 ⟨_, hread, rfl⟩

end Extents

/-- **The kept levels of a nest read back.** -/
theorem TileLevels.ofText_write {t : TileLevels} (htile : t.tile.Storable)
    (hunroll : t.unroll.Storable) : ofText t.write = .ok t := by
  have hrest := Extents.readLevel_tokens_write hunroll ""
  rw [String.append_empty] at hrest
  refine bind_eq_ok_iff.2 ⟨_, Extents.readLevel_tokens_write htile t.unroll.write, ?_⟩
  exact bind_eq_ok_iff.2 ⟨_, hrest, rfl⟩

/-! ## An order -/

namespace LoopOrder

/-- **The bindings of an order alone**, with nothing known of its loops. -/
def unflagged (o : LoopOrder) : LoopOrder :=
  { positionOf := o.positionOf, axisAt := o.axisAt }

@[simp] theorem stationary_unflagged (o : LoopOrder) (s : Operand) :
    o.unflagged.stationary.get s = false := PerOperand.get_uniform false s

/-- **Arranging the axes of an order whose directions agree** restores its
bindings. -/
theorem arrange_axisAt {o : LoopOrder} (h : o.Bijective) :
    arrange {} o.axisAt = o.unflagged := by
  have hpositions : (arrange {} o.axisAt).positionOf = o.positionOf := by
    refine PerAxis.ext_get fun a => ?_
    simp only [arrange, Position.all, List.foldl_cons, List.foldl_nil, LoopOrder.bind,
      PerAxis.get_set, h.axisAt_eq_iff]
    cases o.positionOf.get a <;> rfl
  rw [unflagged, ← hpositions, ← axisAt_arrange {} o.axisAt]
  rfl

/-- The bindings alone agree if they do in the order. -/
theorem Bijective.unflagged {o : LoopOrder} (h : o.Bijective) : o.unflagged.Bijective := h

/-- The label of a position reads with its colon. -/
theorem read_label_colon (p : Position) :
    Position.read (String.ofList (p.label.toList ++ [':'])) = .ok p := by
  cases p <;> rfl

/-- **Reading written bindings** makes them, and leaves the words after them. -/
theorem readPositions_append (order : PerPosition Axis) (ps : List Position)
    (o : LoopOrder) (rest : List String) :
    readPositions ps o
        ((ps.flatMap fun p => [String.ofList (p.label.toList ++ [':']), (order.get p).label])
          ++ rest)
      = .ok (ps.foldl (fun o p => o.bind (order.get p) p) o, rest) := by
  induction ps generalizing o with
  | nil => rfl
  | cons p ps ih =>
    rw [List.flatMap_cons, List.append_assoc, List.foldl_cons, ← ih]
    show (Position.read _ >>= _) = _
    rw [read_label_colon]
    show (if p ≠ p then _ else Axis.read _ >>= _) = _
    rw [if_neg (not_not_intro rfl), Axis.read_label]
    rfl

/-- The words of a written order are its positions and their axes. -/
theorem tokens_write (o : LoopOrder) (rest : String) :
    Text.tokens (o.write ++ rest)
      = (Position.all.flatMap fun p =>
          [String.ofList (p.label.toList ++ [':']), (o.axisAt.get p).label])
        ++ Text.tokens rest := by
  have hlabel : ∀ p ∈ Position.all, Text.IsWord (p.label.toList ++ [':']) := by decide
  have haxis : ∀ p ∈ Position.all, Text.IsWord (o.axisAt.get p).label.toList := fun p _ => by
    cases o.axisAt.get p <;> decide
  have hwrite : o.write = String.ofList (Position.all.flatMap fun p =>
      (p.label.toList ++ [':']) ++ ' ' :: (o.axisAt.get p).label.toList ++ ['\n']) := by
    simp only [write, List.append_assoc, List.cons_append, List.nil_append]
  rw [hwrite, Text.tokens_flatMap_line hlabel haxis]
  simp only [String.ofList_toList]

/-- **A written order reads back**, with the words after it left. -/
theorem readOrder_tokens_write {o : LoopOrder} (ho : o.Bijective) (rest : String) :
    readOrder (Text.tokens (o.write ++ rest)) = .ok (o.unflagged, Text.tokens rest) := by
  have hread : readPositions Position.all {} (Text.tokens (o.write ++ rest))
      = .ok (o.unflagged, Text.tokens rest) := by
    rw [tokens_write, readPositions_append, ← arrange_axisAt ho, arrange]
  have hvalid : o.unflagged.checkValid = .ok () := checkValid_eq_ok_iff.2 ho.unflagged
  refine bind_eq_ok_iff.2 ⟨_, hread, ?_⟩
  exact bind_eq_ok_iff.2 ⟨(), hvalid, rfl⟩

/-- **An order written as a document reads back**, without its flags. -/
theorem ofText_write {o : LoopOrder} (ho : o.Bijective) : ofText o.write = .ok o.unflagged := by
  have hread := readOrder_tokens_write ho ""
  rw [String.append_empty] at hread
  exact bind_eq_ok_iff.2 ⟨_, hread, rfl⟩

end LoopOrder

/-- **The orders of a nest read back**, without their flags. -/
theorem LoopOrders.ofText_write {o : LoopOrders} (hoff : o.offChip.Bijective)
    (hon : o.onChip.Bijective) :
    ofText o.write = .ok ⟨o.offChip.unflagged, o.onChip.unflagged⟩ := by
  have hrest := LoopOrder.readOrder_tokens_write hon ""
  rw [String.append_empty] at hrest
  refine bind_eq_ok_iff.2 ⟨_, LoopOrder.readOrder_tokens_write hoff o.onChip.write, ?_⟩
  exact bind_eq_ok_iff.2 ⟨_, hrest, rfl⟩

end ConvTiling
