import TurtleLogo.Program.Text
import TurtleLogo.Proofs.Legibility

/-!
# The text of an expression identifies it

Canonical texts are read from left to right. Where a word ends is known since no word has a blank, a bracket or a parenthesis
in it (`Bounded`, `eq_of_word_append`), and what stands in parentheses ends with them. So an expression is told from every
other one whatever follows the two:

* `Expression.ofAtom?_text`: a number, a variable and an operator without operands are words, which can be read back;
* `Expression.Legible.told`: equal texts with something after them are texts of one expression, with one rest.
-/

namespace TurtleLogo

/-! ## Words -/

/-- The text does not go on with a word. -/
def Bounded (text : List Char) : Prop :=
  ∀ c ∈ text.head?, isWordChar c = false

theorem Bounded.cons {c : Char} (hc : isWordChar c = false) (text : List Char) : Bounded (c :: text) := by
  intro d hd
  cases hd
  exact hc

theorem Bounded.takeWhile_append {word rest : List Char} (hword : ∀ c ∈ word, isWordChar c = true) (hrest : Bounded rest) :
    (word ++ rest).takeWhile isWordChar = word := by
  rw [List.takeWhile_append_of_pos hword]
  cases rest with
  | nil => simp
  | cons c rest => simp [hrest c rfl]

/-- Where a word ends is seen from the text. -/
theorem eq_of_word_append {a b r r' : List Char} (ha : ∀ c ∈ a, isWordChar c = true) (hb : ∀ c ∈ b, isWordChar c = true)
    (hr : Bounded r) (hr' : Bounded r') (h : a ++ r = b ++ r') : a = b ∧ r = r' := by
  have hword : a = b := by
    calc
      a = (a ++ r).takeWhile isWordChar := (Bounded.takeWhile_append ha hr).symm
      _ = (b ++ r').takeWhile isWordChar := by rw [h]
      _ = b := Bounded.takeWhile_append hb hr'
  subst hword
  exact ⟨rfl, List.append_cancel_left h⟩

/-- A word does not begin with what bounds words. -/
theorem word_append_ne_cons {word r rest : List Char} {c : Char} (hne : word ≠ [])
    (hword : ∀ d ∈ word, isWordChar d = true) (hc : isWordChar c = false) : word ++ r ≠ c :: rest := by
  cases word with
  | nil =>
      exact absurd rfl hne
  | cons d word =>
      intro h
      have hd := hword d List.mem_cons_self
      rw [(List.cons.inj h).1, hc] at hd
      cases hd

/-! ## Numbers -/

namespace Number

theorem isFinite_ofMagnitudeBits {bits : Nat} (h : bits < infinityBits) : (ofMagnitudeBits bits).isFinite = true := by
  have hlt : bits < twoTo 31 := Nat.lt_trans h (by decide)
  rwa [isFinite_iff, magnitudeBits, toNat_toBits_ofMagnitudeBits h, Nat.mod_eq_of_lt hlt]

theorem abs_ofMagnitudeBits {bits : Nat} (h : bits < infinityBits) : (ofMagnitudeBits bits).abs = ofMagnitudeBits bits := by
  have hlt : bits < twoTo 31 := Nat.lt_trans h (by decide)
  refine abs_eq_self (isFinite_ofMagnitudeBits h) ?_
  simpa [isNegative, toNat_toBits_ofMagnitudeBits h] using hlt

/-- Every number past the greatest finite one is infinity. -/
theorem ofMagnitudeBits_of_le {bits : Nat} (h : infinityBits ≤ bits) : ofMagnitudeBits bits = 1 / 0 := by
  have hinfinity : Float32.ofBits (UInt32.ofNat infinityBits) = 1 / 0 := by
    decide
  rw [ofMagnitudeBits, Nat.min_eq_right h, hinfinity]

theorem chars_infinity : chars (1 / 0) = ['i', 'n', 'f'] := by
  decide

/-- The text of a number without a sign begins with a digit, or it is `inf`; and it is a word. -/
theorem exists_chars_ofMagnitudeBits (bits : Nat) :
    ∃ c cs, chars (ofMagnitudeBits bits) = c :: cs ∧ c.isAlphanum = true ∧ ∀ d ∈ cs, isWordChar d = true := by
  rcases Nat.lt_or_ge bits infinityBits with hlt | hge
  · rcases exists_chars (isFinite_ofMagnitudeBits hlt) with ⟨c, cs, hchars, hc, hcs⟩
    rw [abs_ofMagnitudeBits hlt] at hchars
    refine ⟨c, cs, hchars, by simp [Char.isAlphanum, hc], fun d hd => isWordChar_of_isNameChar ?_⟩
    have hnumber := hcs d hd
    simp only [isNumberChar, Bool.or_eq_true, decide_eq_true_eq] at hnumber
    rcases hnumber with hdigit | rfl
    · simp [isNameChar, Char.isAlphanum, hdigit]
    · rfl
  · rw [ofMagnitudeBits_of_le hge, chars_infinity]
    exact ⟨'i', ['n', 'f'], rfl, rfl, List.all_eq_true.1 rfl⟩

theorem readMagnitude?_chars (bits : Nat) : readMagnitude? (chars (ofMagnitudeBits bits)) = some (ofMagnitudeBits bits) := by
  rcases Nat.lt_or_ge bits infinityBits with hlt | hge
  · have hread := read?_chars (isFinite_ofMagnitudeBits hlt)
    rcases exists_chars (isFinite_ofMagnitudeBits hlt) with ⟨c, cs, hchars, hc, -⟩
    rw [abs_ofMagnitudeBits hlt] at hread hchars
    -- A numeral begins with a digit, and `inf` does not.
    have hne : chars (ofMagnitudeBits bits) ≠ ['i', 'n', 'f'] := by
      rw [hchars]
      rintro ⟨rfl, -⟩
      cases hc
    rw [readMagnitude?, if_neg hne, hread]
  · rw [ofMagnitudeBits_of_le hge, chars_infinity]
    rfl

end Number

/-! ## Expressions of one word -/

theorem Operator.isWord_name (op : Operator) : op.name.toList ≠ [] ∧ IsWord op.name := by
  rcases op.exists_name with ⟨c, name, hchars, hc, hname⟩
  rw [IsWord, hchars, List.forall_mem_cons]
  refine ⟨List.cons_ne_nil c name, isWordChar_of_isAlphanum (by simp [Char.isAlphanum, hc]), fun d hd => ?_⟩
  exact isWordChar_of_isNameChar (List.all_eq_true.1 hname d hd)

namespace Expression

/-- Whether the text of an expression is a single word. -/
def isAtom : Expression → Bool
  | .apply _ operands => operands.isEmpty
  | _ => true

/-- The expression of a single word. -/
def ofAtom? (text : List Char) : Option Expression :=
  match text with
  | ':' :: name => some (.var (String.ofList name))
  | _ =>
      match Number.readMagnitude? text with
      | some value => some (.number value)
      | none => (Operator.ofWord? (String.ofList text).toLower).map (.apply · [])

theorem isWord_of_isAtom {e : Expression} (hatom : e.isAtom = true) (h : e.Legible) :
    e.text.toList ≠ [] ∧ IsWord e.text := by
  cases h with
  | number bits =>
      rcases Number.exists_chars_ofMagnitudeBits bits with ⟨c, cs, hchars, hc, hcs⟩
      rw [IsWord, text, Number.text, String.toList_ofList, hchars, List.forall_mem_cons]
      exact ⟨List.cons_ne_nil c cs, isWordChar_of_isAlphanum hc, hcs⟩
  | @var name hname =>
      have htext : (var name).text.toList = ':' :: name.toList := by
        simp [text]
      rw [IsWord, htext, List.forall_mem_cons]
      exact ⟨List.cons_ne_nil _ _, rfl, hname⟩
  | @apply op operands _ =>
      cases List.isEmpty_iff.1 hatom
      exact op.isWord_name

theorem ofAtom?_name (op : Operator) : ofAtom? op.name.toList = some (.apply op []) := by
  have hnumber : Number.readMagnitude? op.name.toList = none := by
    cases op <;> decide
  have hword : Operator.ofWord? op.name.toLower = some op := op.ofWord?_word
  rcases op.exists_name with ⟨c, name, hchars, hc, -⟩
  unfold ofAtom?
  split
  · rename_i hcolon
    rw [hchars] at hcolon
    cases hcolon
    cases hc
  · rw [hnumber, String.ofList_toList, hword]
    rfl

theorem ofAtom?_text {e : Expression} (hatom : e.isAtom = true) (h : e.Legible) : ofAtom? e.text.toList = some e := by
  cases h with
  | number bits =>
      rcases Number.exists_chars_ofMagnitudeBits bits with ⟨c, cs, hchars, hc, -⟩
      rw [text, Number.text, String.toList_ofList]
      unfold ofAtom?
      split
      · rename_i hcolon
        rw [hchars] at hcolon
        cases hcolon
        cases hc
      · rw [Number.readMagnitude?_chars]
  | @var name hname =>
      simp [text, ofAtom?]
  | @apply op operands _ =>
      cases List.isEmpty_iff.1 hatom
      exact ofAtom?_name op

/-! ## Expressions -/

theorem exists_of_not_isAtom {e : Expression} (h : e.isAtom = false) : ∃ op first rest, e = .apply op (first :: rest) := by
  cases e with
  | apply op operands =>
      cases operands with
      | nil => cases h
      | cons first rest => exact ⟨op, first, rest, rfl⟩
  | _ => cases h

theorem toList_text_apply_cons (op : Operator) (first : Expression) (rest : List Expression) :
    (apply op (first :: rest)).text.toList = '(' :: (op.name.toList ++ ((listText (first :: rest)).toList ++ [')'])) := by
  rw [text, if_neg (by simp)]
  simp

theorem toList_listText_cons (first : Expression) (rest : List Expression) :
    (listText (first :: rest)).toList = ' ' :: '(' :: (first.text.toList ++ ')' :: (listText rest).toList) := by
  simp [listText]

/-- The text of the expression, whatever follows it, is the text of no other expression. -/
def Told (a : Expression) : Prop :=
  ∀ ⦃b : Expression⦄ ⦃r r' : List Char⦄, b.Legible → Bounded r → Bounded r' →
    a.text.toList ++ r = b.text.toList ++ r' → a = b ∧ r = r'

/-- The texts of operands up to the closing parenthesis are those of no other operands. -/
def ListTold (as : List Expression) : Prop :=
  ∀ ⦃bs : List Expression⦄ ⦃r r' : List Char⦄, ListLegible bs →
    (listText as).toList ++ ')' :: r = (listText bs).toList ++ ')' :: r' → as = bs ∧ r = r'

theorem told_of_isAtom {a : Expression} (hatom : a.isAtom = true) (ha : a.Legible) : a.Told := by
  intro b r r' hb hr hr' h
  rcases isWord_of_isAtom hatom ha with ⟨hne, hword⟩
  cases hbatom : b.isAtom with
  | true =>
      rcases eq_of_word_append hword (isWord_of_isAtom hbatom hb).2 hr hr' h with ⟨htext, hrest⟩
      have hread := ofAtom?_text hatom ha
      rw [htext, ofAtom?_text hbatom hb] at hread
      exact ⟨(Option.some.inj hread).symm, hrest⟩
  | false =>
      rcases exists_of_not_isAtom hbatom with ⟨op, first, rest, rfl⟩
      rw [toList_text_apply_cons] at h
      exact absurd h (word_append_ne_cons hne hword rfl)

theorem bounded_listText_append (list : List Expression) (r : List Char) : Bounded ((listText list).toList ++ ')' :: r) := by
  cases list with
  | nil => exact .cons rfl r
  | cons first rest =>
      rw [toList_listText_cons]
      exact .cons rfl _

end Expression

theorem Operator.name_inj {op op' : Operator} (h : op.name.toList = op'.name.toList) : op = op' := by
  have hread := Expression.ofAtom?_name op
  rw [h, Expression.ofAtom?_name op'] at hread
  cases hread
  rfl

namespace Expression

theorem told_apply (op : Operator) {first : Expression} {rest : List Expression} (hlist : ListTold (first :: rest)) :
    (apply op (first :: rest)).Told := by
  intro b r r' hb hr hr' h
  rw [toList_text_apply_cons] at h
  cases hbatom : b.isAtom with
  | true =>
      rcases isWord_of_isAtom hbatom hb with ⟨hne, hword⟩
      exact absurd h.symm (word_append_ne_cons hne hword rfl)
  | false =>
      rcases exists_of_not_isAtom hbatom with ⟨op', first', rest', rfl⟩
      rw [toList_text_apply_cons] at h
      simp only [List.cons_append, List.append_assoc, List.nil_append, List.cons.injEq, true_and] at h
      rcases eq_of_word_append op.isWord_name.2 op'.isWord_name.2 (bounded_listText_append _ _)
        (bounded_listText_append _ _) h with ⟨hname, hoperands⟩
      cases hb with
      | apply _ hlegible =>
          rcases hlist hlegible hoperands with ⟨hsame, hrest⟩
          exact ⟨by rw [Operator.name_inj hname, hsame], hrest⟩

theorem listTold_nil : ListTold [] := by
  intro bs r r' hbs h
  cases hbs with
  | nil =>
      exact ⟨rfl, (List.cons.inj h).2⟩
  | cons =>
      rw [toList_listText_cons] at h
      cases (List.cons.inj h).1

theorem listTold_cons {first : Expression} {rest : List Expression} (hfirst : first.Told) (hrest : ListTold rest) :
    ListTold (first :: rest) := by
  intro bs r r' hbs h
  rw [toList_listText_cons] at h
  cases hbs with
  | nil =>
      cases (List.cons.inj h).1
  | cons hb hbs =>
      rw [toList_listText_cons] at h
      simp only [List.cons_append, List.append_assoc, List.cons.injEq, true_and] at h
      rcases hfirst hb (.cons rfl _) (.cons rfl _) h with ⟨rfl, hmore⟩
      rcases hrest hbs (List.cons.inj hmore).2 with ⟨rfl, hr⟩
      exact ⟨rfl, hr⟩

mutual

theorem Legible.told : {a : Expression} → a.Legible → a.Told
  | _, .number bits => told_of_isAtom rfl (.number bits)
  | _, .var h => told_of_isAtom rfl (.var h)
  | _, .apply op .nil => told_of_isAtom rfl (.apply op .nil)
  | _, .apply op (.cons h hrest) => told_apply op (listTold_cons h.told hrest.told)

theorem ListLegible.told : {as : List Expression} → ListLegible as → ListTold as
  | _, .nil => listTold_nil
  | _, .cons h hrest => listTold_cons h.told hrest.told

end

/-- An expression ends where a character comes that bounds words. -/
theorem Legible.eq_of_append {a b : Expression} (ha : a.Legible) (hb : b.Legible) {c : Char} (hc : isWordChar c = false)
    {r r' : List Char} (h : a.text.toList ++ c :: r = b.text.toList ++ c :: r') : a = b ∧ r = r' := by
  rcases ha.told hb (.cons hc r) (.cons hc r') h with ⟨hsame, hrest⟩
  exact ⟨hsame, (List.cons.inj hrest).2⟩

end Expression

end TurtleLogo
