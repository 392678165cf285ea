import ConvTiling.Proofs.Answers
import ConvTiling.Proofs.Arranging
import ConvTiling.Proofs.TextRoundTrip

/-!
# Which texts are loop orders

The text of two loop orders has a line for each position of the one and then of the
other, sixteen words in all, and here the labels count: they spell an axis for each
position (`LoopOrders.Spelled`). Whether the text is accepted is then a matter of the
two orders that it spells, and not of the text: it is if both go through all four axes
(`LoopOrders.reads_exact`).

The reader binds one axis after the other, and it binds them in an order that has
bindings already. As it binds every position, those do not matter: what it makes is the
order that is spelled, arranged (`readPositions_all_eq_ok_iff`). So everything that is
said of arranging any order is said of reading: an axis that repeats is reported by the
check of the positions, and the check of the axes never refuses what was read.
-/

namespace ConvTiling

open Checked (Answers bind_eq_ok_iff bind_eq_error_iff pure_eq_ok_iff)

/-! ## Labels -/

/-- Where at most one entry can match, the first match is the entry that does. -/
theorem find?_eq_some_iff_of_unique {α : Type} {xs : List α} {P : α → Prop}
    [DecidablePred P] {x : α} (hx : x ∈ xs) (hunique : ∀ y ∈ xs, P x → P y → y = x) :
    xs.find? (fun y => P y) = some x ↔ P x := by
  constructor
  · intro h
    simpa using List.find?_some h
  · intro h
    cases hfind : xs.find? fun y => P y with
    | none =>
      have hnone := List.find?_eq_none.1 hfind x hx
      exact absurd (decide_eq_true h) hnone
    | some y =>
      have hy : P y := by simpa using List.find?_some hfind
      rw [hunique y (List.mem_of_find?_eq_some hfind) h hy]

/-- **A word is the label of an axis**, in any case. -/
def Axis.IsLabel (a : Axis) (word : String) : Prop :=
  caseless word.toList = caseless a.label.toList

/-- **A word is the label of a position**, in any case, with one colon behind it or with
none. -/
def Position.IsLabel (p : Position) (word : String) : Prop :=
  ∃ spelled, caseless spelled = caseless p.label.toList
    ∧ (word.toList = spelled ∨ word.toList = spelled ++ [':'])

/-- The axis that is read is the one whose label the word is. -/
theorem Axis.read_eq_ok_iff {word : String} {a : Axis} :
    Axis.read word = .ok a ↔ a.IsLabel word := by
  have hlabels : ∀ b ∈ all, ∀ c ∈ all,
      caseless b.label.toList = caseless c.label.toList → b = c := by decide
  have hfind := find?_eq_some_iff_of_unique
    (P := fun b => caseless b.label.toList = caseless word.toList) a.mem_all
    fun b hb ha hb' => hlabels b hb a a.mem_all (hb'.trans ha.symm)
  refine Iff.trans ?_ (hfind.trans eq_comm)
  rw [read]
  split <;> simp [*]

/-- A label of a position, in any case, has no colon to take off. -/
theorem Position.withoutColon_of_caseless {p : Position} {spelled : List Char}
    (h : caseless spelled = caseless p.label.toList) : withoutColon spelled = spelled := by
  refine if_neg fun hcolon => ?_
  have hlast : (caseless spelled).getLast? = some ':' := by
    rw [caseless, List.getLast?_map, hcolon]
    rfl
  have hlabel : ∀ q ∈ all, (caseless q.label.toList).getLast? ≠ some ':' := by decide
  rw [h] at hlast
  exact hlabel p p.mem_all hlast

/-- A word is the label of a position if what is left of it without a colon is. -/
theorem Position.isLabel_iff {p : Position} {word : String} :
    p.IsLabel word ↔ caseless p.label.toList = caseless (withoutColon word.toList) := by
  constructor
  · rintro ⟨spelled, hspelled, hword | hword⟩
    · rw [hword, withoutColon_of_caseless hspelled, hspelled]
    · rw [hword, withoutColon, if_pos List.getLast?_concat, List.dropLast_concat, hspelled]
  · intro h
    rw [withoutColon] at h
    split at h
    · next hcolon =>
      refine ⟨word.toList.dropLast, h.symm, .inr ?_⟩
      exact (List.dropLast_append_getLast? ':' hcolon).symm
    · exact ⟨word.toList, h.symm, .inl rfl⟩

/-- The position that is read is the one whose label the word is. -/
theorem Position.read_eq_ok_iff {word : String} {p : Position} :
    Position.read word = .ok p ↔ p.IsLabel word := by
  have hlabels : ∀ q ∈ all, ∀ r ∈ all,
      caseless q.label.toList = caseless r.label.toList → q = r := by decide
  have hfind := find?_eq_some_iff_of_unique
    (P := fun q => caseless q.label.toList = caseless (withoutColon word.toList)) p.mem_all
    fun q hq hp hq' => hlabels q hq p p.mem_all (hq'.trans hp.symm)
  rw [isLabel_iff, ← hfind, read]
  split <;> simp [*]

/-! ## Reading positions -/

/-- **Two words are the line of a position** in a given order: its label, and then the
label of its axis. -/
def PerPosition.IsLine (order : PerPosition Axis) (label word : String) (p : Position) :
    Prop :=
  p.IsLabel label ∧ (order.get p).IsLabel word

/-- **Words spell an order**: a line for each position, from the innermost outward. -/
def PerPosition.SpelledBy (order : PerPosition Axis) (words : List String) : Prop :=
  Text.Lines order.IsLine words Position.all

variable {o o' : LoopOrder} {order : PerPosition Axis} {p back : Position} {ps : List Position}
  {words front rest : List String} {text : String}

/-- **Reading a position and the ones after it** takes its label and that of an axis off
the words. -/
theorem readPositions_cons_eq_ok_iff :
    readPositions (p :: ps) o words = .ok (o', rest) ↔
      ∃ label word words' a, words = label :: word :: words' ∧ p.IsLabel label ∧ a.IsLabel word
        ∧ readPositions ps (o.bind a p) words' = .ok (o', rest) := by
  constructor
  · intro run
    match words, run with
    | label :: words, run =>
      obtain ⟨found, hfound, run⟩ := bind_eq_ok_iff.1 run
      split at run
      · cases run
      · next hp =>
        obtain rfl := not_not.1 hp
        match words, run with
        | word :: words', run =>
          obtain ⟨a, ha, run⟩ := bind_eq_ok_iff.1 run
          exact ⟨label, word, words', a, rfl, Position.read_eq_ok_iff.1 hfound,
            Axis.read_eq_ok_iff.1 ha, run⟩
  · rintro ⟨label, word, words', a, rfl, hlabel, hword, run⟩
    refine bind_eq_ok_iff.2 ⟨p, Position.read_eq_ok_iff.2 hlabel, ?_⟩
    rw [if_neg (not_not_intro rfl)]
    exact bind_eq_ok_iff.2 ⟨a, Axis.read_eq_ok_iff.2 hword, run⟩

/-- Binding some positions to what they hold in a given order. -/
theorem LoopOrder.get_axisAt_foldl_bind (o : LoopOrder) (order : PerPosition Axis)
    (ps : List Position) (q : Position) :
    (ps.foldl (fun o p => o.bind (order.get p) p) o).axisAt.get q
      = if q ∈ ps then order.get q else o.axisAt.get q := by
  induction ps generalizing o with
  | nil => rfl
  | cons p ps ih =>
    rw [List.foldl_cons, ih, LoopOrder.bind, PerPosition.get_set]
    by_cases hpq : p = q
    · subst hpq
      simp
    · simp [hpq, Ne.symm hpq]

/-- **Reading positions** succeeds on words that begin with a line for each of them, and
binds the axes of these lines. -/
theorem readPositions_eq_ok_iff (hps : ps.Nodup) :
    readPositions ps o words = .ok (o', rest) ↔
      (∃ front, words = front ++ rest ∧ Text.Lines o'.axisAt.IsLine front ps)
        ∧ o' = ps.foldl (fun o p => o.bind (o'.axisAt.get p) p) o := by
  induction ps generalizing o words with
  | nil =>
    rw [readPositions, Except.ok.injEq, Prod.mk.injEq, List.foldl_nil]
    constructor
    · rintro ⟨rfl, rfl⟩
      exact ⟨⟨[], rfl, .nil⟩, rfl⟩
    · rintro ⟨⟨front, rfl, hfront⟩, rfl⟩
      cases hfront
      exact ⟨rfl, rfl⟩
  | cons p ps ih =>
    obtain ⟨hp, hps⟩ := List.nodup_cons.1 hps
    simp only [readPositions_cons_eq_ok_iff, ih hps, List.foldl_cons]
    constructor
    · rintro ⟨label, word, _, a, rfl, hlabel, hword, ⟨front, rfl, hfront⟩, ho'⟩
      -- the positions still to come leave the axis of this one
      have ha : o'.axisAt.get p = a := by
        rw [ho', LoopOrder.get_axisAt_foldl_bind, if_neg hp, LoopOrder.bind,
          PerPosition.get_set, if_pos rfl]
      rw [ha]
      exact ⟨⟨label :: word :: front, rfl, .cons ⟨hlabel, ha ▸ hword⟩ hfront⟩, ho'⟩
    · rintro ⟨⟨front, rfl, hfront⟩, ho'⟩
      obtain - | ⟨⟨hlabel, hword⟩, hrest⟩ := hfront
      exact ⟨_, _, _, _, rfl, hlabel, hword, ⟨_, rfl, hrest⟩, ho'⟩

/-- **Reading all four positions** succeeds on words that begin with those of an order,
and arranges it. -/
theorem readPositions_all_eq_ok_iff :
    readPositions Position.all {} words = .ok (o, rest) ↔
      ∃ order front, words = front ++ rest ∧ PerPosition.SpelledBy order front
        ∧ o = LoopOrder.arrange {} order := by
  rw [readPositions_eq_ok_iff (by decide)]
  constructor
  · rintro ⟨⟨front, hwords, hfront⟩, ho⟩
    exact ⟨o.axisAt, front, hwords, hfront, ho⟩
  · rintro ⟨order, front, hwords, hfront, rfl⟩
    rw [LoopOrder.axisAt_arrange]
    exact ⟨⟨front, hwords, hfront⟩, rfl⟩

/-! ## Reading one order -/

/-- Reading words that begin with those of an order arranges and checks it. -/
theorem readOrder_append (h : order.SpelledBy front) (rest : List String) :
    readOrder (front ++ rest)
      = (LoopOrder.arrange {} order).checkValid >>= fun _ =>
          .ok (LoopOrder.arrange {} order, rest) := by
  have hread : readPositions Position.all {} (front ++ rest)
      = .ok (LoopOrder.arrange {} order, rest) :=
    readPositions_all_eq_ok_iff.2 ⟨order, front, rfl, h, rfl⟩
  rw [readOrder, hread]
  rfl

/-- **Reading an order** succeeds on words that begin with those of one that goes through
all four axes. -/
theorem readOrder_eq_ok_iff :
    readOrder words = .ok (o, rest) ↔
      ∃ order front, words = front ++ rest ∧ PerPosition.SpelledBy order front
        ∧ order.toList.Perm Axis.all ∧ o = LoopOrder.arrange {} order := by
  constructor
  · intro run
    obtain ⟨⟨o', rest'⟩, hread, run⟩ := bind_eq_ok_iff.1 run
    obtain ⟨u, hvalid, hreturn⟩ := bind_eq_ok_iff.1 run
    obtain ⟨rfl, rfl⟩ := Prod.mk.inj (pure_eq_ok_iff.1 hreturn)
    obtain ⟨order, front, hwords, hspelled, rfl⟩ := readPositions_all_eq_ok_iff.1 hread
    exact ⟨order, front, hwords, hspelled,
      (LoopOrder.checkValid_arrange_eq_ok_iff {}).1 hvalid, rfl⟩
  · rintro ⟨order, front, rfl, hspelled, hperm, rfl⟩
    rw [readOrder_append hspelled, (LoopOrder.checkValid_arrange_eq_ok_iff {} (u := ())).2 hperm]
    rfl

/-- The two directions of an order that is read agree. -/
theorem bijective_of_readOrder (run : readOrder words = .ok (o, rest)) : o.Bijective := by
  obtain ⟨order, front, -, -, hperm, rfl⟩ := readOrder_eq_ok_iff.1 run
  exact LoopOrder.bijective_arrange {} hperm

/-- **An order as it is read**: its axes, with two directions that agree and no flags. -/
structure LoopOrder.Plain (o : LoopOrder) (order : PerPosition Axis) : Prop where
  axisAt : o.axisAt = order
  bijective : o.Bijective
  fullyTiled : o.fullyTiled = .uniform false
  stationary : o.stationary = .uniform false

theorem LoopOrder.plain_arrange (h : order.toList.Perm Axis.all) :
    (LoopOrder.arrange {} order).Plain order :=
  ⟨axisAt_arrange {} order, bijective_arrange {} h, rfl, rfl⟩

/-- There are eight words that spell an order. -/
theorem PerPosition.SpelledBy.length_words (h : order.SpelledBy words) : words.length = 8 :=
  Text.Lines.length_words h

namespace LoopOrders

/-- **A text spells two orders**: it has sixteen words, and the first eight of them spell
the order off the chip, the others the one on it. -/
structure Spelled (offChip onChip : PerPosition Axis) (text : String) : Prop where
  length_tokens : (Text.tokens text).length = 16
  offChip : offChip.SpelledBy ((Text.tokens text).take 8)
  onChip : onChip.SpelledBy ((Text.tokens text).drop 8)

/-- A text spells two orders if its words are those of the one and then of the other. -/
theorem spelled_iff {offChip onChip : PerPosition Axis} :
    Spelled offChip onChip text ↔ ∃ front back, Text.tokens text = front ++ back
      ∧ offChip.SpelledBy front ∧ onChip.SpelledBy back := by
  constructor
  · exact fun h => ⟨_, _, (List.take_append_drop 8 _).symm, h.offChip, h.onChip⟩
  · rintro ⟨front, back, hwords, hfront, hback⟩
    have hlength := hfront.length_words
    refine ⟨?_, ?_, ?_⟩
    · rw [hwords, List.length_append, hlength, hback.length_words]
    · rwa [hwords, List.take_left' hlength]
    · rwa [hwords, List.drop_left' hlength]

/-- **A text is two orders** if it spells them and each of them goes through all four
axes. -/
theorem ofText_eq_ok_iff {os : LoopOrders} : ofText text = .ok os ↔
    ∃ offChip onChip, Spelled offChip onChip text ∧ offChip.toList.Perm Axis.all
      ∧ onChip.toList.Perm Axis.all ∧ os = ⟨.arrange {} offChip, .arrange {} onChip⟩ := by
  simp only [ofText, bind_eq_ok_iff, Prod.exists, readOrder_eq_ok_iff, readEnd_eq_ok_iff,
    pure_eq_ok_iff, spelled_iff]
  constructor
  · rintro ⟨_, _, ⟨offChip, front, hwords, hfront, hoff, rfl⟩, _, _,
      ⟨onChip, back, rfl, hback, hon, rfl⟩, -, rfl, rfl⟩
    rw [List.append_nil] at hwords
    exact ⟨offChip, onChip, ⟨front, back, hwords, hfront, hback⟩, hoff, hon, rfl⟩
  · rintro ⟨offChip, onChip, ⟨front, back, hwords, hfront, hback⟩, hoff, hon, rfl⟩
    exact ⟨_, back, ⟨offChip, front, hwords, hfront, hoff, rfl⟩, _, [],
      ⟨onChip, back, (List.append_nil back).symm, hback, hon, rfl⟩, (), rfl, rfl⟩

theorem answers_ofText_iff : Answers (ofText text) ↔
    ∃ offChip onChip, Spelled offChip onChip text ∧ offChip.toList.Perm Axis.all
      ∧ onChip.toList.Perm Axis.all := by
  simp only [Answers, ofText_eq_ok_iff]
  constructor
  · rintro ⟨_, offChip, onChip, hspelled, hoff, hon, -⟩
    exact ⟨offChip, onChip, hspelled, hoff, hon⟩
  · rintro ⟨offChip, onChip, hspelled, hoff, hon⟩
    exact ⟨_, offChip, onChip, hspelled, hoff, hon, rfl⟩

/-- **What is read is what is spelled.** -/
theorem Spelled.ofText {offChip onChip : PerPosition Axis} (h : Spelled offChip onChip text)
    (hoff : offChip.toList.Perm Axis.all) (hon : onChip.toList.Perm Axis.all) :
    ∃ os, ofText text = .ok os ∧ os.offChip.Plain offChip ∧ os.onChip.Plain onChip :=
  ⟨_, ofText_eq_ok_iff.2 ⟨offChip, onChip, h, hoff, hon, rfl⟩, LoopOrder.plain_arrange hoff,
    LoopOrder.plain_arrange hon⟩

end LoopOrders

end ConvTiling
