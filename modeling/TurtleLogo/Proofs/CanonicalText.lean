import TurtleLogo.Program.Text
import TurtleLogo.Proofs.Compiling
import TurtleLogo.Proofs.Numerals

/-!
# Canonical texts read back

The text of an expression compiles to that expression, in which every literal with a sign has become an application of
`minus`: texts have no signed literals, and `-3` is read as the operator before `3`.

The way back goes through a surface tree for each expression:

* `ScansTo text ls`: the characters are scanned as the lexemes, at the start of an operand and whatever follows them, if
  only it begins with a blank or a closing parenthesis;
* `Expression.tree e`: the tree that the text of `e` is read as. The text is scanned as the canonical lexemes
  of the tree (`Expression.scansTo_text`), and so it is read back by `returned_of_wellFormed`;
* `Expression.ofSurface_tree`: the value of the tree.

An operator without operands has no parentheses of its own. As an operand it is read with the parentheses of its place,
`(sum)`; on its own it is a word, which is an expression only for the constants.
-/

namespace TurtleLogo

open Surface Grammar

/-! ## Texts between blanks and parentheses -/

/-- The text does not go on with a word. -/
def Breaks (text : List Char) : Prop :=
  ∀ c ∈ text.head?, c = ' ' ∨ c = ')'

theorem Breaks.append {first second : List Char} (hfirst : Breaks first) (hsecond : Breaks second) :
    Breaks (first ++ second) := by
  cases first with
  | nil => exact hsecond
  | cons c first => exact hfirst

/-- What stands before such a text does not matter to it. -/
theorem Breaks.segments_eq {text : List Char} (h : Breaks text) (previous : Option Char) :
    segments previous text = segments none text := by
  cases text with
  | nil => simp only [segments]
  | cons c text =>
      rcases h c rfl with rfl | rfl
      · rw [segments_space, segments_space]
      · rw [segments_closeParen, segments_closeParen]

theorem Breaks.takeWhile_append {text : List Char} (h : Breaks text) {p : Char → Bool} (hblank : p ' ' = false)
    (hparen : p ')' = false) {word : List Char} (hword : ∀ c ∈ word, p c = true) :
    (word ++ text).takeWhile p = word := by
  refine Stretch.takeWhile_eq ⟨hword, fun c hc => ?_⟩
  rcases h c hc with rfl | rfl
  · exact hblank
  · exact hparen

theorem isDigit_of_isAlpha {c : Char} (h : c.isAlpha = true) : c.isDigit = false := by
  simp [Char.isAlpha, Char.isUpper, Char.isLower, Char.isDigit, UInt32.le_iff_toNat_le] at h ⊢
  omega

namespace Segment

/-- Digits begin numbers, and letters begin names. -/
theorem next_of_isAlphanum {c : Char} (hc : c.isAlphanum = true) (previous : Option Char) (rest : List Char) :
    next previous c rest =
      if c.isDigit then
        .lexeme (.number (String.ofList (c :: rest.takeWhile isNumberChar))) (c :: rest.takeWhile isNumberChar)
      else
        .lexeme (Lexeme.ofName (String.ofList (c :: rest.takeWhile isNameChar)).toLower)
          (c :: rest.takeWhile isNameChar) := by
  have hne {d : Char} (hd : d.isAlphanum = false) : c ≠ d := by
    rintro rfl
    exact Bool.false_ne_true (hd.symm.trans hc)
  have hblank : isBlank c = false := by
    simp [isBlank, hne (d := ' ') rfl, hne (d := '\t') rfl, hne (d := '\r') rfl, hne (d := '\n') rfl]
  have hpoint : decide (c = '.') = false := decide_eq_false (hne rfl)
  simp only [next, hblank, hne (d := ';') rfl, hne (d := '-') rfl, hne (d := '<') rfl, hne (d := '>') rfl,
    hne (d := '"') rfl, hne (d := ':') rfl, hpoint, Bool.false_and, Bool.or_false, Bool.false_eq_true, if_false]
  cases hdigit : c.isDigit with
  | true => rw [if_pos rfl, if_pos rfl]
  | false =>
      have halpha : c.isAlpha = true := by
        simpa [Char.isAlphanum, hdigit] using hc
      rw [if_neg Bool.false_ne_true, if_neg Bool.false_ne_true, halpha, Bool.true_or, if_pos rfl]

theorem next_number {c : Char} {digits rest : List Char} (hc : c.isDigit = true)
    (hdigits : ∀ d ∈ digits, isNumberChar d = true) (hrest : Breaks rest) (previous : Option Char) :
    next previous c (digits ++ rest) = .lexeme (.number (String.ofList (c :: digits))) (c :: digits) := by
  have hfirst : c.isAlphanum = true := by
    simp [Char.isAlphanum, hc]
  have hword := hrest.takeWhile_append (p := isNumberChar) rfl rfl hdigits
  rw [next_of_isAlphanum hfirst, if_pos hc, hword]

theorem next_name {c : Char} {name rest : List Char} (hc : c.isAlpha = true)
    (hname : ∀ d ∈ name, isNameChar d = true) (hrest : Breaks rest) (previous : Option Char) :
    next previous c (name ++ rest) = .lexeme (Lexeme.ofName (String.ofList (c :: name)).toLower) (c :: name) := by
  have hfirst : c.isAlphanum = true := by
    simp [Char.isAlphanum, hc]
  have hdigit : ¬ c.isDigit = true := by
    simp [isDigit_of_isAlpha hc]
  have hword := hrest.takeWhile_append (p := isNameChar) rfl rfl hname
  rw [next_of_isAlphanum hfirst, if_neg hdigit, hword]

theorem next_var {name rest : List Char} (hne : name ≠ []) (hname : ∀ d ∈ name, isNameChar d = true)
    (hrest : Breaks rest) (previous : Option Char) :
    next previous ':' (name ++ rest) = .lexeme (.var (String.ofList name).toLower) (':' :: name) := by
  have hword := hrest.takeWhile_append (p := isNameChar) rfl rfl hname
  rcases List.exists_cons_of_ne_nil hne with ⟨c, name, rfl⟩
  simp only [next, hword]
  rfl

end Segment

theorem segments_word {previous : Option Char} {c : Char} {word rest : List Char} {l : Lexeme} (hrest : Breaks rest)
    (h : Segment.next previous c (word ++ rest) = .lexeme l (c :: word)) :
    segments previous (c :: word ++ rest) = .lexeme l (c :: word) :: segments none rest := by
  have hdrop : (word ++ rest).drop ((c :: word).length - 1) = rest := List.drop_left
  rw [List.cons_append, segments_cons, h, Segment.text, hdrop, hrest.segments_eq]

/-! ## Scanning with something after it -/

/-- At the start of an operand the text is scanned as these lexemes, whatever breaks it off. -/
def ScansTo (text : List Char) (ls : List Lexeme) : Prop :=
  ∀ rest, Breaks rest →
    Segment.lexemes? (segments none (text ++ rest)) = (Segment.lexemes? (segments none rest)).map (ls ++ ·)

namespace ScansTo

theorem nil : ScansTo [] [] := by
  intro rest _
  simp

theorem of_next {c : Char} {word : List Char} {l : Lexeme}
    (h : ∀ rest, Breaks rest → Segment.next none c (word ++ rest) = .lexeme l (c :: word)) : ScansTo (c :: word) [l] := by
  intro rest hrest
  rw [segments_word hrest (h rest hrest)]
  rfl

theorem append {first second : List Char} {ls ls' : List Lexeme} (hfirst : ScansTo first ls)
    (hsecond : ScansTo second ls') (hbreaks : Breaks second) : ScansTo (first ++ second) (ls ++ ls') := by
  intro rest hrest
  rw [List.append_assoc, hfirst _ (hbreaks.append hrest), hsecond rest hrest, Option.map_map]
  congr 1
  funext more
  exact (List.append_assoc ls ls' more).symm

theorem blank {text : List Char} {ls : List Lexeme} (h : ScansTo text ls) : ScansTo (' ' :: text) ls := by
  intro rest hrest
  rw [List.cons_append, segments_space]
  exact h rest hrest

theorem parenthesised {text : List Char} {ls : List Lexeme} (h : ScansTo text ls) :
    ScansTo ('(' :: (text ++ [')'])) (.openParen :: (ls ++ [.closeParen])) := by
  intro rest hrest
  have hbreaks : Breaks (')' :: rest) := by
    intro c hc
    cases hc
    exact .inr rfl
  have htext : '(' :: (text ++ [')']) ++ rest = '(' :: (text ++ ')' :: rest) := by
    simp
  rw [htext, segments_openParen, Segment.lexemes?, h _ hbreaks, segments_closeParen, hrest.segments_eq, Segment.lexemes?,
    Option.map_map, Option.map_map]
  congr 1
  funext more
  simp

theorem exists_scan {source : String} {ls : List Lexeme} (h : ScansTo source.toList ls) :
    ∃ tokens, Tokens.scan source = .ok tokens ∧ tokens.list.map Token.lexeme = ls := by
  have hscanned := h [] fun c hc => nomatch hc
  rw [List.append_nil, segments, Segment.lexemes?, Option.map_some, List.append_nil] at hscanned
  exact Tokens.exists_scan hscanned

end ScansTo

/-! ## Words of expressions -/

theorem scansTo_chars {x : Float32} (h : x.isFinite = true) :
    ScansTo (Number.chars x.abs) [.number (Number.text x.abs)] := by
  rcases Number.exists_chars h with ⟨c, digits, hchars, hc, hdigits⟩
  rw [Number.text, hchars]
  exact .of_next fun rest hrest => Segment.next_number hc hdigits hrest none

/-- A minus sign before a numeral begins an operand. -/
theorem scansTo_negative {x : Float32} (h : x.isFinite = true) :
    ScansTo ('-' :: Number.chars x.abs) [.negate, .number (Number.text x.abs)] := by
  rcases Number.exists_chars h with ⟨c, digits, hchars, hc, hdigits⟩
  have hspacing : isSpacing c = false := by
    rw [Bool.eq_false_iff]
    intro hblank
    simp only [isSpacing, isBlank, Bool.or_eq_true, decide_eq_true_eq] at hblank
    rcases hblank with (((rfl | rfl) | rfl) | rfl) | rfl <;> cases hc
  intro rest hrest
  -- The sign looks at the digit after it, and the numeral does not look back at the sign.
  have hminus : Segment.next none '-' (c :: digits ++ rest) = .lexeme .negate ['-'] := by
    simp [Segment.next, Segment.minus, isBlank, opensOperand, hspacing]
  rw [Number.text, hchars, List.cons_append, segments_cons_of_single hminus rfl,
    segments_word hrest (Segment.next_number hc hdigits hrest (some '-'))]
  simp [Segment.lexemes?]
  rfl

/-- The characters of variables as they are read. -/
def isLowerNameChar (c : Char) : Bool :=
  c.isLower || c.isDigit || c = '_' || c = '.' || c = '?'

theorem isNameChar_of_isLowerNameChar {c : Char} (h : isLowerNameChar c = true) : isNameChar c = true := by
  simp only [isLowerNameChar, isNameChar, Char.isAlphanum, Char.isAlpha] at h ⊢
  grind

theorem toLower_of_isLowerNameChar {c : Char} (h : isLowerNameChar c = true) : c.toLower = c := by
  refine Char.toLower_eq_of_not_isUpper fun hupper => ?_
  simp only [isLowerNameChar, Bool.or_eq_true, decide_eq_true_eq] at h
  rcases h with (((hlower | hdigit) | rfl) | rfl) | rfl
  · exact Char.not_isUpper_of_isLower hlower hupper
  · simp [Char.isUpper, Char.isDigit, UInt32.le_iff_toNat_le] at hupper hdigit
    omega
  all_goals exact absurd hupper (by decide)

theorem toLower_of_all {name : String} (h : ∀ c ∈ name.toList, isLowerNameChar c = true) : name.toLower = name := by
  rw [← String.toList_inj, String.toLower, String.toList_map]
  exact (List.map_congr_left fun c hc => toLower_of_isLowerNameChar (h c hc)).trans (List.map_id _)

theorem scansTo_var {name : String} (hne : name ≠ "") (h : ∀ c ∈ name.toList, isLowerNameChar c = true) :
    ScansTo (':' :: name.toList) [.var name] := by
  refine .of_next fun rest hrest => ?_
  have hchars : name.toList ≠ [] := by
    simpa using hne
  rw [Segment.next_var hchars (fun c hc => isNameChar_of_isLowerNameChar (h c hc)) hrest, String.ofList_toList,
    toLower_of_all h]

theorem Operator.exists_name (op : Operator) :
    ∃ c name, op.name.toList = c :: name ∧ c.isAlpha = true ∧ name.all isNameChar = true := by
  cases op <;> exact ⟨_, _, rfl, rfl, rfl⟩

theorem Operator.ofName_name (op : Operator) : Lexeme.ofName op.name.toLower = .ident op.word := by
  cases op <;> decide +kernel

theorem scansTo_operator (op : Operator) : ScansTo op.name.toList [.ident op.word] := by
  rcases op.exists_name with ⟨c, name, hchars, hc, hname⟩
  have hstring : String.ofList (c :: name) = op.name := by
    rw [← hchars, String.ofList_toList]
  rw [hchars]
  refine .of_next fun rest hrest => ?_
  rw [Segment.next_name hc (List.all_eq_true.1 hname) hrest, hstring, op.ofName_name]

/-! ## Expressions and their trees -/

/-- Whether a variable can be named so in a text. -/
def isPlainName (name : String) : Bool :=
  name ≠ "" && name.toList.all isLowerNameChar

mutual

/-- Whether every literal is finite and every variable has a plain name. -/
def Expression.printable : Expression → Bool
  | .number value => value.isFinite
  | .var name => isPlainName name
  | .apply _ operands => Expression.listPrintable operands

def Expression.listPrintable : List Expression → Bool
  | [] => true
  | e :: rest => e.printable && Expression.listPrintable rest

end

mutual

/-- The expression in which `minus` is applied to the magnitude of each literal with a sign. -/
def Expression.unsigned : Expression → Expression
  | .number value => if Number.isNegative value then .apply .minus [.number value.abs] else .number value
  | .var name => .var name
  | .apply op operands => .apply op (Expression.listUnsigned operands)

def Expression.listUnsigned : List Expression → List Expression
  | [] => []
  | e :: rest => e.unsigned :: Expression.listUnsigned rest

end

/-- Whether the text of an expression is the word of an operator alone. -/
def Expression.isBare : Expression → Bool
  | .apply _ operands => operands.isEmpty
  | _ => false

mutual

/-- The tree that the text of an expression is read as. -/
def Expression.tree : Expression → Expr
  | .number value =>
      if Number.isNegative value then .negate (.number (Number.text value.abs) .start) .start
      else .number (Number.text value.abs) .start
  | .var name => .var name .start
  | .apply op operands => .apply op (Expression.operandTrees operands) .start

/-- The trees of operands with the parentheses around them. -/
def Expression.operandTrees : List Expression → List Expr
  | [] => []
  | e :: rest => (if e.isBare then e.tree else .group e.tree .start) :: Expression.operandTrees rest

end

namespace Expression

mutual

theorem wellFormed_tree : (e : Expression) → e.tree.WellFormed
  | .number value => by
      rw [tree]
      split
      · exact ⟨Rank.signed_le_primary, trivial⟩
      · trivial
  | .var name => trivial
  | .apply op operands => wellFormed_operandTrees operands

theorem wellFormed_operandTrees : (list : List Expression) → Expr.ListWellFormed (operandTrees list)
  | [] => trivial
  | e :: rest => by
      refine ⟨?_, wellFormed_operandTrees rest⟩
      split <;> exact wellFormed_tree e

end

theorem ofSurface_number {value : Float32} (h : value.isFinite = true) (pos : Position) :
    ofSurface (.number (Number.text value.abs) pos) = .ok (.number value.abs) := by
  have hread : Number.read? (Number.text value.abs).toList = some value.abs := by
    rw [Number.text, String.toList_ofList, Number.read?_chars h]
  rw [← Checked.toOption_eq_some, ofSurface, Checked.toOption_map, toOption_numberLiteral, hread]
  rfl

mutual

theorem ofSurface_tree : (e : Expression) → e.printable = true → ofSurface e.tree = .ok e.unsigned
  | .number value, h => by
      rw [tree, unsigned]
      have hmagnitude := ofSurface_number h .start
      cases hsign : Number.isNegative value with
      | true =>
          rw [if_pos rfl, if_pos rfl, ofSurface, hmagnitude]
          rfl
      | false =>
          rw [if_neg Bool.false_ne_true, if_neg Bool.false_ne_true, hmagnitude, Number.abs_eq_self h hsign]
  | .var name, _ => rfl
  | .apply op operands, h => by
      rw [tree, unsigned, ofSurface, listOfSurface_operandTrees operands h]
      rfl

theorem listOfSurface_operandTrees : (list : List Expression) → listPrintable list = true →
    listOfSurface (operandTrees list) = .ok (listUnsigned list)
  | [], _ => rfl
  | e :: rest, h => by
      simp only [listPrintable, Bool.and_eq_true] at h
      have he : ofSurface (if e.isBare then e.tree else .group e.tree .start) = .ok e.unsigned := by
        split
        · exact ofSurface_tree e h.1
        · rw [ofSurface, ofSurface_tree e h.1]
      rw [operandTrees, listUnsigned, listOfSurface, he, listOfSurface_operandTrees rest h.2]
      rfl

end

/-! ## Texts of expressions -/

theorem breaks_listText (list : List Expression) : Breaks (listText list).toList := by
  cases list with
  | nil =>
      intro c hc
      simp [listText] at hc
  | cons e rest =>
      intro c hc
      simp [listText] at hc
      exact .inl hc.symm

theorem exists_of_isBare {e : Expression} (h : e.isBare = true) : ∃ op, e = .apply op [] := by
  cases e with
  | apply op operands => exact ⟨op, congrArg (apply op) (List.isEmpty_iff.1 h)⟩
  | _ => cases h

/-- The parentheses of its place make an operator an application. -/
theorem scansTo_bare {e : Expression} (h : e.isBare = true) : ScansTo ('(' :: (e.text.toList ++ [')'])) e.tree.lexemes := by
  rcases exists_of_isBare h with ⟨op, rfl⟩
  exact (scansTo_operator op).parenthesised

theorem scansTo_number {value : Float32} (h : value.isFinite = true) :
    ScansTo (Number.text value).toList (tree (.number value)).lexemes := by
  rw [Number.text, String.toList_ofList, Number.chars_eq h, tree]
  split
  · exact scansTo_negative h
  · exact scansTo_chars h

mutual

theorem scansTo_text : (e : Expression) → e.printable = true → e.isBare = false → ScansTo e.text.toList e.tree.lexemes
  | .number value, h, _ => scansTo_number h
  | .var name, h, _ => by
      simp only [printable, isPlainName, Bool.and_eq_true, decide_eq_true_eq, List.all_eq_true] at h
      have htext : (text (.var name)).toList = ':' :: name.toList := by
        simp [text]
      rw [htext]
      exact scansTo_var h.1 h.2
  | .apply op operands, h, hbare => by
      have htext : (text (.apply op operands)).toList = '(' :: (op.name.toList ++ (listText operands).toList ++ [')']) := by
        rw [text, if_neg (by simpa [isBare] using hbare)]
        simp
      rw [htext]
      exact ((scansTo_operator op).append (scansTo_listText operands h) (breaks_listText operands)).parenthesised

theorem scansTo_listText : (list : List Expression) → listPrintable list = true →
    ScansTo (listText list).toList (Expr.listLexemes (operandTrees list))
  | [], _ => .nil
  | e :: rest, h => by
      simp only [listPrintable, Bool.and_eq_true] at h
      have htext : (listText (e :: rest)).toList =
          ' ' :: '(' :: (e.text.toList ++ [')']) ++ (listText rest).toList := by
        simp [listText]
      have hoperand : ScansTo ('(' :: (e.text.toList ++ [')']))
          (if e.isBare then e.tree else Expr.group e.tree .start).lexemes := by
        -- Either the parentheses are the application's own, or they group a whole operand.
        cases hbare : e.isBare with
        | true => exact scansTo_bare hbare
        | false => exact (scansTo_text e h.1 hbare).parenthesised
      rw [htext]
      exact hoperand.blank.append (scansTo_listText rest h.2) (breaks_listText rest)

end

/-! ## Reading back -/

theorem compile_text_of_not_isBare {e : Expression} (hprintable : e.printable = true) (hbare : e.isBare = false) :
    compile e.text = .ok e.unsigned := by
  rcases (scansTo_text e hprintable hbare).exists_scan with ⟨tokens, hscan, hlist⟩
  have hreturned := returned_of_wellFormed (Env.ofTokens tokens) e.tree e.wellFormed_tree
  rcases hreturned.expression hlist (stops_nil .comparison) with ⟨t, hsame, htaken⟩
  rw [List.append_nil] at htaken
  exact compile_of_takes hscan htaken (ofSurface_congr hsame (ofSurface_tree e hprintable))

theorem compile_constant {op : Operator} (h : op.bareCount = 0) : compile op.name = .ok (.apply op []) := by
  rcases (scansTo_operator op).exists_scan with ⟨tokens, hscan, hlist⟩
  rcases exists_cons_of_lexemes hlist with ⟨pos, tail, hcons, htail⟩
  cases List.map_eq_nil_iff.1 htail
  -- The word takes no operands, so that nothing is missing at the end of the text.
  have hoperands : Takes (expressions (Env.ofTokens tokens) · op.bareCount) [] [] [] := by
    rw [h]
    exact takes_expressions_zero []
  have htaken := takes_bare pos op.ofWord?_word hoperands
  rw [← hcons] at htaken
  refine compile_of_takes hscan (takes_expression_of_primary ?_ ?_ htaken) rfl
  · simp [hcons, ahead]
  · simp [hcons, ahead]

/-- The canonical text of an expression compiles to that expression, `minus` being applied to the magnitudes of literals
with a sign. -/
theorem canonical_text_reads_back (e : Expression) (hprintable : e.printable = true)
    (hconstant : ∀ op, e = .apply op [] → op = .truth ∨ op = .falsity) : compile e.text = .ok e.unsigned := by
  cases hbare : e.isBare with
  | false => exact compile_text_of_not_isBare hprintable hbare
  | true =>
      rcases exists_of_isBare hbare with ⟨op, rfl⟩
      have hcount : op.bareCount = 0 := by
        rcases hconstant op rfl with rfl | rfl <;> rfl
      exact compile_constant hcount

/-- A signed literal, operators without operands, a nested application and a name in camel case. -/
theorem comparison_text_reads_back :
    let e := apply .lessEqual
      [.number (-0.5), .apply .sum [], .apply .negation [.apply .truth []], .apply .product [.var "x.1?", .number 16777216]]
    e.printable = true ∧ e.text = "(lessEqual? (-0.5) (sum) ((not (true))) ((product (:x.1?) (16777216))))" ∧
      compile "(lessEqual? (-0.5) (sum) ((not (true))) ((product (:x.1?) (16777216))))" = .ok (.apply .lessEqual
        [.apply .minus [.number 0.5], .apply .sum [], .apply .negation [.apply .truth []],
          .apply .product [.var "x.1?", .number 16777216]]) := by
  intro e
  have hprintable : e.printable = true := by decide
  have htext : e.text = "(lessEqual? (-0.5) (sum) ((not (true))) ((product (:x.1?) (16777216))))" := by decide +kernel
  have hnegative : Number.isNegative (-0.5) = true := by decide
  have hpositive : Number.isNegative 16777216 = false := by decide
  have habs : (-0.5 : Float32).abs = 0.5 := by decide
  refine ⟨hprintable, htext, ?_⟩
  have hread := canonical_text_reads_back e hprintable fun op h => by simp [e] at h
  rw [htext] at hread
  simpa [e, unsigned, listUnsigned, hnegative, hpositive, habs] using hread

end Expression

end TurtleLogo
