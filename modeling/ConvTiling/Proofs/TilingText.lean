import Mathlib.Data.List.Forall2
import ConvTiling.Proofs.Answers
import ConvTiling.Proofs.TextRoundTrip

/-!
# Which texts are tilings

The text of a tiling is read by counting: it has a label and a value for each of
the eleven fields of the tile and then for each of the eleven fields of the
unrolling, forty-four words in all, and only the values are looked at. So whether
a text is a tiling does not depend on its labels, and which tiling it is is what
its values spell (`TileLevels.ofText_exact`).

What a value spells is said without the reader, by a relation between words and
numbers (`Decimal.Spells`): digits, with a sign in front of them or not. It is more
than what is written, so reading accepts more texts than writing produces; but of
what is written, only a number below `0` is refused, and the first one that there
is in the order of the text is the one reported.

The reader goes through the fields, and so does the relation between the words that
are read and the values that they list (`Text.Lists`): a line for each value. That
such words can also be described by counting them is `Text.lists_iff`.
-/

namespace ConvTiling

open Checked (Answers bind_eq_ok_iff pure_eq_ok_iff)

/-! ## Numerals -/

namespace Decimal

/-- **A run of digits**: at least one, and nothing else. -/
def IsDigits (ds : List Char) : Prop := ds ≠ [] ∧ ∀ c ∈ ds, c.isDigit = true

/-- **What a numeral spells**: a run of digits its value, with a sign in front of it
or without one. -/
inductive Spells : List Char → Int → Prop where
  | plain {ds : List Char} (h : IsDigits ds) : Spells ds (Nat.ofDigitChars 10 ds 0)
  | plus {ds : List Char} (h : IsDigits ds) : Spells ('+' :: ds) (Nat.ofDigitChars 10 ds 0)
  | minus {ds : List Char} (h : IsDigits ds) : Spells ('-' :: ds) (-Nat.ofDigitChars 10 ds 0)

theorem readDigits?_eq_some_iff {ds : List Char} {n : Nat} :
    readDigits? ds = some n ↔ IsDigits ds ∧ n = Nat.ofDigitChars 10 ds 0 := by
  rw [readDigits?]
  by_cases h : IsDigits ds
  · rw [if_pos ⟨h.1, List.all_eq_true.2 h.2⟩, Option.some.injEq, and_iff_right h, eq_comm]
  · rw [if_neg fun h' => h ⟨h'.1, List.all_eq_true.1 h'.2⟩]
    exact iff_of_false (Option.some_ne_none n).symm fun h' => h h'.1

/-- **The number that is read is the one that is spelled.** -/
theorem readSigned?_eq_some_iff {cs : List Char} {n : Int} :
    readSigned? cs = some n ↔ Spells cs n := by
  constructor
  · intro h
    unfold readSigned? at h
    split at h
    all_goals
      obtain ⟨m, hm, rfl⟩ := Option.map_eq_some_iff.1 h
      obtain ⟨hdigits, rfl⟩ := readDigits?_eq_some_iff.1 hm
    · exact .minus hdigits
    · exact .plus hdigits
    · exact .plain hdigits
  · intro h
    cases h with
    | @plain ds h =>
      obtain ⟨c, cs, rfl⟩ := List.exists_cons_of_ne_nil h.1
      rw [readSigned?_of_isDigit (h.2 c List.mem_cons_self),
        readDigits?_eq_some_iff.2 ⟨h, rfl⟩]
      rfl
    | plus h => rw [readSigned?, readDigits?_eq_some_iff.2 ⟨h, rfl⟩]; rfl
    | minus h => rw [readSigned?, readDigits?_eq_some_iff.2 ⟨h, rfl⟩]; rfl

theorem readWord?_eq_some_iff {word : String} {n : Int} :
    readWord? word = some n ↔ Spells word.toList n ∧ Signed.Fits n := by
  rw [readWord?, Option.filter_eq_some_iff, readSigned?_eq_some_iff, decide_eq_true_iff]

end Decimal

/-! ## Lists of values -/

namespace Text

/-- **A word gives a value**: it spells a number that is a word, and at least
`0`. -/
def Gives (word : String) (n : Int) : Prop :=
  Decimal.Spells word.toList n ∧ Signed.Fits n ∧ 0 ≤ n

/-- **Words list values**: each value is given by the second word of its line, and the
first one can be any word. -/
abbrev Lists : List String → List Int → Prop := Lines fun _ => Gives

/-- **Every second word**, from the second one on. -/
def seconds : List String → List String
  | _ :: word :: words => word :: seconds words
  | _ => []

variable {words : List String} {ns : List Int} {count : Nat}

/-- **Words list values** if there are twice as many of them and every second one
gives its value. -/
theorem lists_iff :
    Lists words ns ↔ words.length = 2 * ns.length ∧ List.Forall₂ Gives (seconds words) ns := by
  constructor
  · intro h
    refine ⟨h.length_words, ?_⟩
    induction h with
    | nil => exact .nil
    | cons hword _ ih => exact .cons hword ih
  · rintro ⟨hlength, hgives⟩
    induction ns generalizing words with
    | nil =>
      obtain rfl := List.eq_nil_of_length_eq_zero hlength
      exact .nil
    | cons n ns ih =>
      match words, hlength, hgives with
      | [_], hlength, _ =>
        simp only [List.length_cons, List.length_nil] at hlength
        omega
      | label :: word :: words, hlength, hgives =>
        obtain ⟨hword, hrest⟩ := List.forall₂_cons.1 hgives
        refine .cons hword (ih ?_ hrest)
        simp only [List.length_cons] at hlength
        omega

/-- **Words list some values** of a given number if there are twice as many of them
and every second one gives a value. -/
theorem exists_lists_iff :
    (∃ ns, ns.length = count ∧ Lists words ns) ↔
      words.length = 2 * count ∧ ∀ word ∈ seconds words, ∃ n, Gives word n := by
  constructor
  · rintro ⟨ns, rfl, h⟩
    refine ⟨h.length_words, ?_⟩
    induction h with
    | nil => exact fun word hword => by cases hword
    | cons hword _ ih => exact List.forall_mem_cons.2 ⟨⟨_, hword⟩, ih⟩
  · rintro ⟨hlength, hgives⟩
    induction count generalizing words with
    | zero =>
      obtain rfl := List.eq_nil_of_length_eq_zero hlength
      exact ⟨[], rfl, .nil⟩
    | succ count ih =>
      match words, hlength, hgives with
      | [], hlength, _ =>
        rw [List.length_nil] at hlength
        omega
      | [_], hlength, _ =>
        rw [List.length_cons, List.length_nil] at hlength
        omega
      | label :: word :: words, hlength, hgives =>
        obtain ⟨⟨n, hn⟩, hrest⟩ := List.forall_mem_cons.1 hgives
        simp only [List.length_cons] at hlength
        obtain ⟨ns, hns, hlists⟩ := ih (by omega) hrest
        exact ⟨n :: ns, by rw [List.length_cons, hns], .cons hn hlists⟩

end Text

open Text (Gives Lists)

/-! ## Reading fields -/

variable {f : Field} {fs : List Field} {e e' : Extents} {words rest : List String}

/-- **Reading a field and the ones after it** takes a label and a value off the
words. -/
theorem readFields_cons_eq_ok_iff :
    readFields (f :: fs) e words = .ok (e', rest) ↔
      ∃ label word words' n, words = label :: word :: words' ∧ Gives word n
        ∧ readFields fs (e.setField f n) words' = .ok (e', rest) := by
  constructor
  · intro run
    match words, run with
    | label :: word :: words', run =>
      cases hword : Decimal.readWord? word with
      | none => simp [readFields, hword] at run
      | some n =>
        by_cases hneg : n < 0
        · rw [Extents.readFields_cons_of_neg hneg hword] at run
          cases run
        · obtain ⟨hspells, hfits⟩ := Decimal.readWord?_eq_some_iff.1 hword
          rw [Extents.readFields_cons (Int.not_lt.1 hneg) hword] at run
          exact ⟨label, word, words', n, rfl, ⟨hspells, hfits, Int.not_lt.1 hneg⟩, run⟩
  · rintro ⟨label, word, words', n, rfl, ⟨hspells, hfits, hn⟩, run⟩
    rw [Extents.readFields_cons hn (Decimal.readWord?_eq_some_iff.2 ⟨hspells, hfits⟩)]
    exact run

/-- **Reading fields** succeeds on words that begin with a list of their values, and
leaves the words after it and the other fields. -/
theorem readFields_eq_ok_iff (hfs : fs.Nodup) :
    readFields fs e words = .ok (e', rest) ↔
      (∃ front, words = front ++ rest ∧ Lists front (fs.map e'.field))
        ∧ ∀ g ∉ fs, e'.field g = e.field g := by
  induction fs generalizing e words with
  | nil =>
    rw [readFields, Except.ok.injEq, Prod.mk.injEq]
    constructor
    · rintro ⟨rfl, rfl⟩
      exact ⟨⟨[], rfl, .nil⟩, fun _ _ => rfl⟩
    · rintro ⟨⟨front, rfl, hfront⟩, hsame⟩
      cases hfront
      exact ⟨(Extents.ext_field fun g => hsame g List.not_mem_nil).symm, rfl⟩
  | cons f fs ih =>
    obtain ⟨hf, hfs⟩ := List.nodup_cons.1 hfs
    simp only [readFields_cons_eq_ok_iff, ih hfs, Extents.field_setField]
    constructor
    · rintro ⟨label, word, _, n, rfl, hword, ⟨front, rfl, hfront⟩, hsame⟩
      have hn : e'.field f = n := by rw [hsame f hf, if_pos rfl]
      refine ⟨⟨label :: word :: front, rfl, .cons (hn ▸ hword) hfront⟩, fun g hg => ?_⟩
      obtain ⟨hgf, hgfs⟩ := not_or.1 (mt List.mem_cons.2 hg)
      rw [hsame g hgfs, if_neg (Ne.symm hgf)]
    · rintro ⟨⟨front, rfl, hfront⟩, hsame⟩
      obtain - | ⟨hword, hrest⟩ := hfront
      refine ⟨_, _, _, _, rfl, hword, ⟨_, rfl, hrest⟩, fun g hg => ?_⟩
      by_cases hfg : f = g
      · rw [if_pos hfg, hfg]
      · rw [if_neg hfg]
        exact hsame g fun hmem => (List.mem_cons.1 hmem).elim (Ne.symm hfg) hg

/-- **Reading a level** succeeds on words that begin with a list of its fields. -/
theorem readLevel_eq_ok_iff :
    readLevel words = .ok (e, rest) ↔
      ∃ front, words = front ++ rest ∧ Lists front (Field.all.map e.field) := by
  rw [readLevel, readFields_eq_ok_iff (by decide)]
  exact and_iff_left fun g hg => absurd g.mem_all hg

/-- Any values are those of some fields of some level. -/
theorem Extents.exists_map_field (hfs : fs.Nodup) {ns : List Int}
    (hlength : ns.length = fs.length) : ∃ e : Extents, fs.map e.field = ns := by
  induction fs generalizing ns with
  | nil => exact ⟨{}, (List.eq_nil_of_length_eq_zero hlength).symm⟩
  | cons f fs ih =>
    obtain ⟨hf, hfs⟩ := List.nodup_cons.1 hfs
    match ns, hlength with
    | n :: ns, hlength =>
      obtain ⟨e, rfl⟩ := ih hfs (Nat.succ.inj hlength)
      refine ⟨e.setField f n, ?_⟩
      rw [List.map_cons, field_setField, if_pos rfl]
      refine congrArg _ (List.map_congr_left fun g hg => ?_)
      rw [field_setField, if_neg (by rintro rfl; exact hf hg)]

/-! ## Reading a tiling -/

namespace TileLevels

variable {text : String} {t : TileLevels}

/-- **The entries of the text of a tiling**: every field of the tile and then of the
unrolling, with its value. -/
def entries (t : TileLevels) : List (Field × Int) :=
  (Field.all.map fun f => (f, t.tile.field f))
    ++ Field.all.map fun f => (f, t.unroll.field f)

/-- **The values of the text of a tiling**, in order. -/
def values (t : TileLevels) : List Int := t.entries.map Prod.snd

theorem values_eq (t : TileLevels) :
    t.values = Field.all.map t.tile.field ++ Field.all.map t.unroll.field := rfl

/-- **A text is a tiling** if its words list the values of the tiling. -/
theorem ofText_eq_ok_iff : ofText text = .ok t ↔ Lists (Text.tokens text) t.values := by
  simp only [ofText, bind_eq_ok_iff, Prod.exists, readLevel_eq_ok_iff, readEnd_eq_ok_iff,
    pure_eq_ok_iff, values_eq, Text.lines_append_iff]
  constructor
  · rintro ⟨tile, _, ⟨front, htext, hfront⟩, unroll, _, ⟨back, rfl, hback⟩, -, rfl, rfl⟩
    exact ⟨front, back, by rw [htext, List.append_nil], hfront, hback⟩
  · rintro ⟨front, back, htext, hfront, hback⟩
    exact ⟨t.tile, back, ⟨front, htext, hfront⟩, t.unroll, [],
      ⟨back, (List.append_nil back).symm, hback⟩, (), rfl, rfl⟩

/-- Any forty-four words of which every second one gives a value are a tiling. -/
theorem answers_ofText_iff : Answers (ofText text) ↔
    (Text.tokens text).length = 44 ∧ ∀ word ∈ Text.seconds (Text.tokens text), ∃ n,
      Gives word n := by
  rw [show (44 : Nat) = 2 * 22 from rfl, ← Text.exists_lists_iff]
  simp only [Answers, ofText_eq_ok_iff]
  constructor
  · rintro ⟨t, ht⟩
    exact ⟨t.values, rfl, ht⟩
  · rintro ⟨ns, hns, hlists⟩
    have hfields : Field.all.Nodup := by decide
    have hfront : (ns.take 11).length = Field.all.length := by rw [List.length_take, hns]; rfl
    have hback : (ns.drop 11).length = Field.all.length := by rw [List.length_drop, hns]; rfl
    obtain ⟨tile, htile⟩ := Extents.exists_map_field hfields hfront
    obtain ⟨unroll, hunroll⟩ := Extents.exists_map_field hfields hback
    refine ⟨⟨tile, unroll⟩, ?_⟩
    rwa [values_eq, htile, hunroll, List.take_append_drop]

/-- The first entry below `0` is that of the tile, if the tile has one, and else that
of the unrolling. -/
theorem find?_entries (t : TileLevels) :
    t.entries.find? (fun entry => entry.2 < 0)
      = (t.tile.firstNegative?.map fun f => (f, t.tile.field f)).or
        (t.unroll.firstNegative?.map fun f => (f, t.unroll.field f)) := by
  rw [entries, List.find?_append, List.find?_map, List.find?_map]
  rfl

/-- **A tiling in words that is written** reads back, unless a value is below `0`:
then the first entry that is gets reported. -/
theorem ofText_write_eq (htile : t.tile.InWords) (hunroll : t.unroll.InWords) :
    ofText t.write = match t.entries.find? fun entry => entry.2 < 0 with
      | some (f, n) => .error (.belowLeast f n)
      | none => .ok t := by
  have hrest := Extents.readLevel_tokens_write_eq hunroll ""
  rw [String.append_empty] at hrest
  rw [find?_entries, ofText, write, Extents.readLevel_tokens_write_eq htile t.unroll.write]
  cases t.tile.firstNegative? with
  | some f => rfl
  | none =>
    simp only [bind, Except.bind]
    rw [hrest]
    cases t.unroll.firstNegative? <;> rfl

/-- **Exactly which texts are tilings.** A text is one if it has forty-four words of
which every second one gives a value, whatever the others are; it is then the tiling
of those values, the tile before the unrolling and the fields of each in the order of
the persisted form. And a tiling in words that is written reads back, unless a value
of it is below `0`: then the first entry that is gets reported, with its value. -/
theorem ofText_exact :
    (∀ text, Answers (ofText text) ↔ (Text.tokens text).length = 44
        ∧ ∀ word ∈ Text.seconds (Text.tokens text), ∃ n, Gives word n)
      ∧ (∀ text t, ofText text = .ok t ↔ (Text.tokens text).length = 44
        ∧ List.Forall₂ Gives (Text.seconds (Text.tokens text)) t.values)
      ∧ ∀ t : TileLevels, t.tile.InWords → t.unroll.InWords →
        ofText t.write = match t.entries.find? fun entry => entry.2 < 0 with
          | some (f, n) => .error (.belowLeast f n)
          | none => .ok t :=
  ⟨fun _ => answers_ofText_iff, fun _ _ => ofText_eq_ok_iff.trans Text.lists_iff,
    fun _ => ofText_write_eq⟩

/-- A tiling whose unrolling has the least word in it is refused for that, and not for
the other number below `0`, which comes later. -/
theorem ofText_exact_leastWord :
    let t : TileLevels := ⟨.unit 9223372036854775807 0 0,
      { Extents.unit 1 0 0 with inputHeight := -9223372036854775808, outputChannel := -1 }⟩
    (t.tile.InWords ∧ t.unroll.InWords)
      ∧ ofText t.write = .error (.belowLeast .inputHeight (-9223372036854775808)) := by
  intro t
  have htile : t.tile.InWords := by decide
  have hunroll : t.unroll.InWords := by decide
  exact ⟨⟨htile, hunroll⟩, ofText_exact.2.2 t htile hunroll⟩

end TileLevels

end ConvTiling
