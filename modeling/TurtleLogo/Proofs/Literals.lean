import TurtleLogo.Proofs.ErrorOrder
import TurtleLogo.Proofs.LetterCase
import TurtleLogo.Proofs.Numerals
import TurtleLogo.Proofs.StepSpec

/-!
# Literals and their values

Numbers and words for colours are all that building has to look at; the rest of a tree only changes its form. The literals
of a tree are listed here without regard to what becomes of them, and so are the constants of a program:

* `Checked.Judges`: a check gives every literal its value, in order, or an error for each one without a value. Building is
  such a check (`Command.listJudged`);
* `Surface.Literal.WellFormed` and `Surface.Literal.Denotes`: what a literal should look like and what it then stands for,
  said without reading it. Scanning has seen to it that a number has a digit and is made of digits and points
  (`Tokens.isNumeral_of_scan`);
* `Surface.Literal.Among`: the literals of a tree stand in its text in the same order, and no other token is a number.
-/

namespace TurtleLogo

/-! ## Literals of a tree -/

namespace Surface

/-- A part of a text that has a value of its own: the digits and points of a number, or a word for a colour. -/
inductive Literal where
  | number (text : String) (pos : Position)
  | colour (word : String) (pos : Position)

mutual

/-- The literals of an expression from left to right. -/
def Expr.literals : Expr → List Literal
  | .number text pos => [.number text pos]
  | .var _ _ => []
  | .thing _ _ => []
  | .binary _ left right _ => left.literals ++ right.literals
  | .negate operand _ => operand.literals
  | .apply _ operands _ => Expr.listLiterals operands
  | .group inner _ => inner.literals

def Expr.listLiterals : List Expr → List Literal
  | [] => []
  | e :: rest => e.literals ++ Expr.listLiterals rest

end

def ColourArgument.literals : ColourArgument → List Literal
  | .word text pos => [.colour text pos]
  | .rgb red green blue => red.literals ++ green.literals ++ blue.literals
  | .index e => e.literals

mutual

/-- The literals of a statement from left to right; quoted names are none. -/
def Statement.literals : Statement → List Literal
  | .definition _ _ body _ => Statement.listLiterals body
  | .command _ arguments _ => Argument.listLiterals arguments
  | .call _ arguments _ => Expr.listLiterals arguments

def Statement.listLiterals : List Statement → List Literal
  | [] => []
  | s :: rest => s.literals ++ Statement.listLiterals rest

def Argument.literals : Argument → List Literal
  | .value e => e.literals
  | .block body => Statement.listLiterals body
  | .point x y => x.literals ++ y.literals
  | .colour c => c.literals
  | .word _ _ => []

def Argument.listLiterals : List Argument → List Literal
  | [] => []
  | a :: rest => a.literals ++ Argument.listLiterals rest

end

end Surface

/-! ## Constants of a program -/

/-- A value that a program holds: a number or a colour. -/
inductive Constant where
  | number (value : Float32)
  | colour (colour : Colour)

mutual

/-- The numbers in an expression from left to right. -/
def Expression.constants : Expression → List Constant
  | .number value => [.number value]
  | .var _ => []
  | .apply _ operands => Expression.listConstants operands

def Expression.listConstants : List Expression → List Constant
  | [] => []
  | e :: rest => e.constants ++ Expression.listConstants rest

end

def ColourExpression.constants : ColourExpression → List Constant
  | .literal colour => [.colour colour]
  | .rgb red green blue => red.constants ++ green.constants ++ blue.constants
  | .palette index => index.constants

mutual

/-- The numbers and colours in a command from left to right. -/
def Command.constants : Command → List Constant
  | ⟨_, operands, _⟩ => Operand.listConstants operands

def Operand.constants : Operand → List Constant
  | .value e => e.constants
  | .block body => Command.listConstants body
  | .point x y => x.constants ++ y.constants
  | .colour c => c.constants
  | .name _ => []
  | .definition d => d.constants

def Operand.listConstants : List Operand → List Constant
  | [] => []
  | o :: rest => o.constants ++ Operand.listConstants rest

def Definition.constants : Definition → List Constant
  | ⟨_, _, body⟩ => Command.listConstants body

def Command.listConstants : List Command → List Constant
  | [] => []
  | c :: rest => c.constants ++ Command.listConstants rest

end

theorem Operand.listConstants_values (values : List Expression) :
    Operand.listConstants (values.map .value) = Expression.listConstants values := by
  induction values with
  | nil => simp [Operand.listConstants, Expression.listConstants]
  | cons e values ih => simp [Operand.listConstants, Operand.constants, Expression.listConstants, ih]

/-! ## Values of literals -/

namespace Surface.Literal

/-- The number that is written, or the colour with this code or name. -/
def value? : Literal → Option Constant
  | .number text _ => (Number.read? text.toList).map .number
  | .colour word _ =>
      if word.toList.head? = some '#' then (Colour.ofHex? word).map .colour else (Colour.named? word).map .colour

def pos : Literal → Position
  | .number _ pos => pos
  | .colour _ pos => pos

/-- The error that reports a literal without a value. -/
def error : Literal → BuildError
  | .number text pos => ⟨pos, .malformedNumber text⟩
  | .colour word pos => ⟨pos, if word.toList.head? = some '#' then .malformedColour word else .unknownColour word⟩

end Surface.Literal

/-! ## Building as a check of literals -/

open Surface (Literal)

namespace Checked

variable {α β γ : Type}

/-- The constants of the result are the values of the literals; or each literal without a value has its error, and there is
one. -/
def Judges (constants : α → List Constant) (literals : List Literal) (x : Checked α) : Prop :=
  Ensures x (fun a => literals.map Literal.value? = (constants a).map some) fun errors =>
    errors ≠ [] ∧ errors = (literals.filter (·.value?.isNone)).map Literal.error

namespace Judges

variable {constants : α → List Constant} {constants' : β → List Constant} {constants'' : γ → List Constant}
  {literals more : List Literal}

theorem ok {a : α} (h : constants a = []) : Judges constants [] (.ok a) := by
  simp [Judges, Ensures, h]

theorem filter_eq_nil {list : List Constant} (h : literals.map Literal.value? = list.map some) :
    literals.filter (·.value?.isNone) = [] := by
  have hsome : ∀ v ∈ literals.map Literal.value?, v.isNone = false := by
    rw [h]
    simp
  refine List.filter_eq_nil_iff.2 fun l hl => ?_
  rw [hsome _ (List.mem_map_of_mem hl)]
  exact Bool.false_ne_true

theorem map {x : Checked α} (h : Judges constants literals x) {f : α → β} (hf : ∀ a, constants' (f a) = constants a) :
    Judges constants' literals (x.map f) := by
  cases x with
  | error errors => exact h
  | ok a =>
      have hvalues : literals.map Literal.value? = (constants a).map some := h
      exact hvalues.trans (by rw [hf])

theorem map₂ {x : Checked α} {y : Checked β} (hx : Judges constants literals x) (hy : Judges constants' more y)
    {f : α → β → γ} (hf : ∀ a b, constants'' (f a b) = constants a ++ constants' b) :
    Judges constants'' (literals ++ more) (Checked.map₂ f x y) := by
  cases x with
  | ok a =>
      have hvalues : literals.map Literal.value? = (constants a).map some := hx
      cases y with
      | ok b =>
          have hvalues' : more.map Literal.value? = (constants' b).map some := hy
          change (literals ++ more).map Literal.value? = (constants'' (f a b)).map some
          rw [hf, List.map_append, List.map_append, hvalues, hvalues']
      | error errors =>
          rcases hy with ⟨hne, herrors⟩
          refine ⟨hne, ?_⟩
          rw [List.filter_append, filter_eq_nil hvalues, List.nil_append, ← herrors]
  | error errors =>
      rcases hx with ⟨hne, herrors⟩
      cases y with
      | ok b =>
          have hvalues' : more.map Literal.value? = (constants' b).map some := hy
          refine ⟨hne, ?_⟩
          rw [List.filter_append, filter_eq_nil hvalues', List.append_nil, ← herrors]
      | error errors' =>
          rcases hy with ⟨-, herrors'⟩
          refine ⟨List.append_ne_nil_of_left_ne_nil hne errors', ?_⟩
          rw [List.filter_append, List.map_append, ← herrors, ← herrors']

end Judges

end Checked

theorem numberLiteral_judged (text : String) (pos : Position) :
    Checked.Judges (fun value => [.number value]) [.number text pos] (numberLiteral text pos) := by
  rw [numberLiteral]
  cases hread : Number.read? text.toList with
  | some value => simp [Checked.Judges, Ensures, Literal.value?, hread]
  | none => simp [Checked.Judges, Ensures, Literal.value?, hread, Literal.error]

theorem ColourExpression.word_judged (word : String) (pos : Position) :
    Checked.Judges constants [.colour word pos] (ofSurface (.word word pos)) := by
  rw [ofSurface, colourWord]
  by_cases hhex : word.toList.head? = some '#'
  · cases hcolour : Colour.ofHex? word <;>
      simp [Checked.Judges, Ensures, Literal.value?, Literal.error, constants, hhex, hcolour]
  · cases hcolour : Colour.named? word <;>
      simp [Checked.Judges, Ensures, Literal.value?, Literal.error, constants, hhex, hcolour]

mutual

theorem Expression.judged (e : Surface.Expr) : Checked.Judges Expression.constants e.literals (Expression.ofSurface e) := by
  cases e with
  | number text pos =>
      rw [Surface.Expr.literals, Expression.ofSurface]
      exact (numberLiteral_judged text pos).map fun value => by rw [Expression.constants]
  | var name pos =>
      rw [Surface.Expr.literals, Expression.ofSurface]
      exact .ok (by rw [Expression.constants])
  | thing name pos =>
      rw [Surface.Expr.literals, Expression.ofSurface]
      exact .ok (by rw [Expression.constants])
  | binary op left right pos =>
      rw [Surface.Expr.literals, Expression.ofSurface]
      exact (Expression.judged left).map₂ (Expression.judged right) fun l r => by
        simp [Expression.constants, Expression.listConstants]
  | negate operand pos =>
      rw [Surface.Expr.literals, Expression.ofSurface]
      exact (Expression.judged operand).map fun e => by simp [Expression.constants, Expression.listConstants]
  | apply op operands pos =>
      rw [Surface.Expr.literals, Expression.ofSurface]
      exact (Expression.listJudged operands).map fun es => by rw [Expression.constants]
  | group inner pos =>
      rw [Surface.Expr.literals, Expression.ofSurface]
      exact Expression.judged inner

theorem Expression.listJudged (list : List Surface.Expr) :
    Checked.Judges Expression.listConstants (Surface.Expr.listLiterals list) (Expression.listOfSurface list) := by
  cases list with
  | nil =>
      rw [Surface.Expr.listLiterals, Expression.listOfSurface]
      exact .ok (by rw [Expression.listConstants])
  | cons e rest =>
      rw [Surface.Expr.listLiterals, Expression.listOfSurface]
      exact (Expression.judged e).map₂ (Expression.listJudged rest) fun e es => by rw [Expression.listConstants]

end

/-- A function of three values takes the first two as a pair. -/
theorem Checked.map₂_map₂ {α β γ δ : Type} (f : α → β → γ → δ) (x : Checked α) (y : Checked β) (z : Checked γ) :
    map₂ (fun g c => g c) (map₂ f x y) z = map₂ (fun p c => f p.1 p.2 c) (map₂ Prod.mk x y) z := by
  cases x <;> cases y <;> cases z <;> rfl

theorem ColourExpression.judged (c : Surface.ColourArgument) : Checked.Judges constants c.literals (ofSurface c) := by
  cases c with
  | word text pos => exact word_judged text pos
  | rgb red green blue =>
      -- Two channels without the third are no colour, but a pair of them has constants.
      rw [Surface.ColourArgument.literals, ofSurface, Checked.map₂_map₂]
      have hpair : Checked.Judges (fun p : Expression × Expression => p.1.constants ++ p.2.constants)
          (red.literals ++ green.literals)
          (Checked.map₂ Prod.mk (Expression.ofSurface red) (Expression.ofSurface green)) :=
        (Expression.judged red).map₂ (Expression.judged green) fun r g => rfl
      exact hpair.map₂ (Expression.judged blue) fun p b => rfl
  | index e =>
      rw [Surface.ColourArgument.literals, ofSurface]
      exact (Expression.judged e).map fun index => rfl

mutual

theorem Command.judged (s : Surface.Statement) : Checked.Judges Command.constants s.literals (Command.ofSurface s) := by
  cases s with
  | definition name params body pos =>
      rw [Surface.Statement.literals, Command.ofSurface]
      exact (Command.listJudged body).map fun commands => by
        simp [Command.constants, Operand.listConstants, Operand.constants, Definition.constants]
  | command b arguments pos =>
      rw [Surface.Statement.literals, Command.ofSurface]
      exact (Operand.listJudged arguments).map fun operands => by rw [Command.constants]
  | call name arguments pos =>
      rw [Surface.Statement.literals, Command.ofSurface]
      exact (Expression.listJudged arguments).map fun values => by
        rw [Command.constants, Operand.listConstants_values]

theorem Operand.judged (a : Surface.Argument) : Checked.Judges Operand.constants a.literals (Operand.ofSurface a) := by
  cases a with
  | value e =>
      rw [Surface.Argument.literals, Operand.ofSurface]
      exact (Expression.judged e).map fun e => by rw [Operand.constants]
  | block body =>
      rw [Surface.Argument.literals, Operand.ofSurface]
      exact (Command.listJudged body).map fun commands => by rw [Operand.constants]
  | point x y =>
      rw [Surface.Argument.literals, Operand.ofSurface]
      exact (Expression.judged x).map₂ (Expression.judged y) fun x y => by rw [Operand.constants]
  | colour c =>
      rw [Surface.Argument.literals, Operand.ofSurface]
      exact (ColourExpression.judged c).map fun c => by rw [Operand.constants]
  | word text pos =>
      rw [Surface.Argument.literals, Operand.ofSurface]
      exact .ok (by rw [Operand.constants])

theorem Operand.listJudged (list : List Surface.Argument) :
    Checked.Judges Operand.listConstants (Surface.Argument.listLiterals list) (Operand.listOfSurface list) := by
  cases list with
  | nil =>
      rw [Surface.Argument.listLiterals, Operand.listOfSurface]
      exact .ok (by rw [Operand.listConstants])
  | cons a rest =>
      rw [Surface.Argument.listLiterals, Operand.listOfSurface]
      exact (Operand.judged a).map₂ (Operand.listJudged rest) fun o os => by rw [Operand.listConstants]

theorem Command.listJudged (list : List Surface.Statement) :
    Checked.Judges Command.listConstants (Surface.Statement.listLiterals list) (Command.listOfSurface list) := by
  cases list with
  | nil =>
      rw [Surface.Statement.listLiterals, Command.listOfSurface]
      exact .ok (by rw [Command.listConstants])
  | cons s rest =>
      rw [Surface.Statement.listLiterals, Command.listOfSurface]
      exact (Command.judged s).map₂ (Command.listJudged rest) fun c cs => by rw [Command.listConstants]

end

/-! ## Numbers with at most one point -/

namespace Number

/-- How many characters stand behind the first point. -/
def places (text : List Char) : Nat :=
  (text.dropWhile (· ≠ '.')).tail.length

theorem count_point_of_digits {digits : List Char} (h : ∀ c ∈ digits, c.isDigit = true) : digits.count '.' = 0 := by
  refine List.count_eq_zero.2 fun hmem => ?_
  have hpoint := h '.' hmem
  exact absurd hpoint (by decide)

theorem digits_of_count_point {text : List Char} (hchars : ∀ c ∈ text, isNumberChar c = true)
    (hcount : text.count '.' = 0) : ∀ c ∈ text, c.isDigit = true := by
  intro c hmem
  have hpoint : c ≠ '.' := fun h => List.count_eq_zero.1 hcount (h ▸ hmem)
  simpa [isNumberChar, hpoint] using hchars c hmem

/-- A text that is read has one point at most, whatever else it is. -/
theorem count_point_of_read? {text : List Char} {value : Float32} (h : read? text = some value) :
    text.count '.' ≤ 1 := by
  have hwhole : (text.takeWhile Char.isDigit).count '.' = 0 :=
    count_point_of_digits fun c hmem => List.mem_takeWhile_imp hmem
  have hsplit : text.count '.' = (text.dropWhile Char.isDigit).count '.' :=
    calc
      text.count '.' = (text.takeWhile Char.isDigit ++ text.dropWhile Char.isDigit).count '.' := by
        rw [List.takeWhile_append_dropWhile]
      _ = (text.dropWhile Char.isDigit).count '.' := by rw [List.count_append, hwhole, Nat.zero_add]
  simp only [read?] at h
  split at h
  · rename_i hrest
    simp [hsplit, hrest]
  · rename_i point fraction hrest
    split at h
    · rename_i hcondition
      simp only [Bool.and_eq_true, decide_eq_true_eq, List.all_eq_true] at hcondition
      rw [hsplit, hrest, List.count_cons, count_point_of_digits hcondition.1.2]
      split <;> omega
    · cases h

theorem ne_point_of_digits {digits : List Char} (h : ∀ c ∈ digits, c.isDigit = true) :
    ∀ c ∈ digits, decide (c ≠ '.') = true := by
  intro c hmem
  have hpoint := List.count_eq_zero.1 (count_point_of_digits h)
  exact decide_eq_true fun hc => hpoint (hc ▸ hmem)

theorem places_of_digits {digits : List Char} (h : ∀ c ∈ digits, c.isDigit = true) : places digits = 0 := by
  rw [places, List.dropWhile_eq_nil_iff.2 (ne_point_of_digits h)]
  rfl

theorem places_of_point {whole : List Char} (h : ∀ c ∈ whole, c.isDigit = true) (fraction : List Char) :
    places (whole ++ '.' :: fraction) = fraction.length := by
  rw [places, List.dropWhile_append_of_pos (ne_point_of_digits h)]
  simp

/-- Digits with a point among them, in front of them or behind them are a number: its digits without the point, scaled by
the places behind it. -/
theorem read?_of_numeral {text : List Char} (hchars : ∀ c ∈ text, isNumberChar c = true)
    (hdigit : ∃ c ∈ text, c.isDigit = true) (hcount : text.count '.' ≤ 1) :
    read? text = some (nearest (Nat.ofDigitChars 10 (text.filter Char.isDigit) 0) (tenTo (places text))) := by
  have htext := List.takeWhile_append_dropWhile (p := Char.isDigit) (l := text)
  have hwhole : ∀ c ∈ text.takeWhile Char.isDigit, c.isDigit = true := fun c hmem => List.mem_takeWhile_imp hmem
  cases hrest : text.dropWhile Char.isDigit with
  | nil =>
      rw [hrest, List.append_nil] at htext
      rw [htext] at hwhole
      rcases hdigit with ⟨c, hmem, -⟩
      rw [read?_of_digits (List.ne_nil_of_mem hmem) hwhole, List.filter_eq_self.2 hwhole, places_of_digits hwhole]
      rfl
  | cons point fraction =>
      rw [hrest] at htext
      -- The digits end at a character of numbers that is no digit.
      have hpoint : point = '.' := by
        have hdigits : point.isDigit = false := by
          have hhead := List.head?_dropWhile_not Char.isDigit text
          simpa [hrest] using hhead
        have hchar := hchars point (by rw [← htext]; simp)
        simpa [isNumberChar, hdigits] using hchar
      subst hpoint
      have hfraction : ∀ c ∈ fraction, c.isDigit = true := by
        refine digits_of_count_point (fun c hmem => hchars c (by rw [← htext]; simp [hmem])) ?_
        rw [← htext, List.count_append, List.count_cons_self] at hcount
        omega
      have hfilter : text.filter Char.isDigit = text.takeWhile Char.isDigit ++ fraction :=
        calc
          text.filter Char.isDigit = (text.takeWhile Char.isDigit ++ '.' :: fraction).filter Char.isDigit := by rw [htext]
          _ = text.takeWhile Char.isDigit ++ fraction := by
            rw [List.filter_append, List.filter_eq_self.2 hwhole, List.filter_cons_of_neg (by decide),
              List.filter_eq_self.2 hfraction]
      have hne : text.takeWhile Char.isDigit ++ fraction ≠ [] := by
        rcases hdigit with ⟨c, hmem, hc⟩
        rw [← hfilter]
        exact List.ne_nil_of_mem (List.mem_filter.2 ⟨hmem, hc⟩)
      have hplaces : places text = fraction.length := by
        rw [← htext, places_of_point hwhole]
      have hempty : ((text.takeWhile Char.isDigit).isEmpty && fraction.isEmpty) = false := by
        simpa only [Bool.and_eq_false_iff, List.isEmpty_eq_false_iff, ne_eq, List.append_eq_nil_iff, not_and_or] using hne
      rw [hfilter, hplaces]
      simp [read?, hrest, List.all_eq_true.2 hfraction, hempty]

end Number

/-! ## Codes and names of colours -/

namespace Colour

def isHexDigit (c : Char) : Bool :=
  c.isDigit || ('a' ≤ c && c ≤ 'f') || ('A' ≤ c && c ≤ 'F')

theorem isSome_hexValue? (c : Char) : (hexValue? c).isSome = isHexDigit c := by
  unfold hexValue? isHexDigit
  split_ifs <;> simp_all

theorem toNat_lt_of_isHexDigit {c : Char} (h : isHexDigit c = true) : c.toNat < 128 := by
  simp only [isHexDigit, Char.isDigit, Bool.or_eq_true, Bool.and_eq_true, decide_eq_true_eq, Char.le_def] at h
  have hval : c.toNat = c.val.toNat := rfl
  rcases h with (⟨-, h⟩ | ⟨-, h⟩) | ⟨-, h⟩
  all_goals
    have := UInt32.le_iff_toNat_le.1 h
    rw [hval]
    exact lt_of_le_of_lt this (by decide)

/-- The value of a digit is below sixteen, and is written with the digit in lower case. -/
theorem digitChar_of_hexValue? {c : Char} {n : Nat} (h : hexValue? c = some n) : n < 16 ∧ Nat.digitChar n = c.toLower := by
  have hall : ∀ k < 128, ∀ m ∈ hexValue? (Char.ofNat k), m < 16 ∧ Nat.digitChar m = (Char.ofNat k).toLower := by
    decide
  have hsmall := toNat_lt_of_isHexDigit ((isSome_hexValue? c).symm.trans (by rw [h]; rfl))
  have hchar := hall c.toNat hsmall
  rw [Char.ofNat_toNat] at hchar
  exact hchar n h

theorem channelDigits_of_channelOfDigits? {high low : Char} {channel : UInt8}
    (h : channelOfDigits? high low = some channel) : channelDigits channel = [high.toLower, low.toLower] := by
  simp only [channelOfDigits?, Option.bind_eq_bind, Option.bind_eq_some_iff] at h
  rcases h with ⟨n, hhigh, m, hlow, hchannel⟩
  cases hchannel
  rcases digitChar_of_hexValue? hhigh with ⟨hn, hdigit⟩
  rcases digitChar_of_hexValue? hlow with ⟨hm, hdigit'⟩
  have hvalue : (UInt8.ofNat (16 * n + m)).toNat = 16 * n + m := by
    rw [UInt8.toNat_ofNat']
    omega
  have hquotient : (16 * n + m) / 16 = n := by omega
  have hremainder : (16 * n + m) % 16 = m := by omega
  rw [channelDigits, hvalue, hquotient, hremainder, hdigit, hdigit']

/-- A code is the colour whose code it is, but for capitals. -/
theorem hex_of_ofHex? {word : String} {c : Colour} (h : ofHex? word = some c) : c.hex = word.toLower := by
  unfold ofHex? at h
  split at h
  · rename_i r₁ r₀ g₁ g₀ b₁ b₀ hword
    simp only [Option.bind_eq_bind, Option.bind_eq_some_iff] at h
    rcases h with ⟨red, hred, green, hgreen, blue, hblue, hcolour⟩
    cases hcolour
    rw [hex, channelDigits_of_channelOfDigits? hred, channelDigits_of_channelOfDigits? hgreen,
      channelDigits_of_channelOfDigits? hblue, ← String.toList_inj, String.toList_ofList, String.toLower,
      String.toList_map, hword]
    rfl
  · cases h

theorem isSome_channelOfDigits? (high low : Char) :
    (channelOfDigits? high low).isSome = (isHexDigit high && isHexDigit low) := by
  rw [← isSome_hexValue?, ← isSome_hexValue?, channelOfDigits?]
  cases hexValue? high <;> cases hexValue? low <;> rfl

/-- `#` and six digits. -/
def IsCode (word : String) : Prop :=
  word.toList.head? = some '#' ∧ word.toList.tail.length = 6 ∧ ∀ d ∈ word.toList.tail, isHexDigit d = true

instance (word : String) : Decidable (IsCode word) :=
  inferInstanceAs (Decidable (_ ∧ _ ∧ _))

theorem isSome_ofHex?_iff (word : String) : (ofHex? word).isSome = true ↔ IsCode word := by
  unfold ofHex? IsCode
  split
  · rename_i r₁ r₀ g₁ g₀ b₁ b₀ hword
    have hall (x y z : Option UInt8) : (do
        let red ← x
        let green ← y
        let blue ← z
        return ({ red, green, blue } : Colour)).isSome = (x.isSome && y.isSome && z.isSome) := by
      cases x <;> cases y <;> cases z <;> rfl
    rw [hall, isSome_channelOfDigits?, isSome_channelOfDigits?, isSome_channelOfDigits?, hword]
    simp [and_assoc]
  · rename_i hother
    simp only [Option.isSome_none, Bool.false_eq_true, false_iff]
    rintro ⟨hhead, hlength, -⟩
    cases hword : word.toList with
    | nil => simp [hword] at hhead
    | cons c digits =>
        rw [hword] at hhead hlength hother
        cases hhead
        match digits, hlength with
        | [r₁, r₀, g₁, g₀, b₁, b₀], _ => exact hother r₁ r₀ g₁ g₀ b₁ b₀ rfl

theorem isSome_named?_iff (word : String) : (named? word).isSome = true ↔ word.toLower ∈ names.map Prod.fst := by
  have hnone : names.lookup word.toLower = none ↔ word.toLower ∉ names.map Prod.fst := by
    rw [List.lookup_eq_none_iff]
    constructor
    · intro h hmem
      rcases List.mem_map.1 hmem with ⟨entry, hentry, hname⟩
      simpa [hname] using h entry hentry
    · intro h entry hentry
      exact bne_iff_ne.2 fun hname => h (List.mem_map.2 ⟨entry, hentry, hname.symm⟩)
  rw [named?, ← Option.ne_none_iff_isSome, ne_eq, hnone, not_not]

/-- No name begins as a code does. -/
theorem not_mem_names_of_code {word : String} (h : word.toList.head? = some '#') :
    word.toLower ∉ names.map Prod.fst := by
  have hnames : ∀ name ∈ names.map Prod.fst, name.toList.head? ≠ some '#' := by
    decide
  intro hmem
  refine hnames _ hmem ?_
  rw [String.toLower, String.toList_map, List.head?_map, h]
  rfl

end Colour

/-! ## Well-formed literals -/

/-- What scanning promises of the text of a number. -/
def Lexeme.IsNumeral : Lexeme → Prop
  | .number text => (∀ c ∈ text.toList, isNumberChar c = true) ∧ ∃ c ∈ text.toList, c.isDigit = true
  | _ => True

namespace Surface.Literal

/-- A number has at most one point. A colour is a code, or one of the names but for capitals. -/
def WellFormed : Literal → Prop
  | .number text _ => text.toList.count '.' ≤ 1
  | .colour word _ => Colour.IsCode word ∨ word.toLower ∈ Colour.names.map Prod.fst

instance : DecidablePred WellFormed
  | .number _ _ => inferInstanceAs (Decidable (_ ≤ _))
  | .colour _ _ => inferInstanceAs (Decidable (_ ∨ _))

/-- The constant that a literal stands for: the number nearest to the decimal, the colour with this code or this name. -/
def Denotes : Literal → Constant → Prop
  | .number text _, .number value =>
      value = Number.nearest (Nat.ofDigitChars 10 (text.toList.filter Char.isDigit) 0)
        (Number.tenTo (Number.places text.toList))
  | .colour word _, .colour c => c.hex = word.toLower ∨ (word.toLower, c) ∈ Colour.names
  | _, _ => False

def code : Literal → String
  | .number _ _ => "B003"
  | .colour word _ => if word.toList.head? = some '#' then "B001" else "B002"

theorem code_error (l : Literal) : l.error.cause.code = l.code := by
  cases l with
  | number text pos => rfl
  | colour word pos =>
      simp only [error, code]
      split_ifs <;> rfl

theorem pos_error (l : Literal) : l.error.pos = l.pos := by
  cases l <;> rfl

def token : Literal → Token
  | .number text pos => ⟨.number text, pos⟩
  | .colour word pos => ⟨.word word, pos⟩

theorem pos_token (l : Literal) : l.token.pos = l.pos := by
  cases l <;> rfl

theorem isSome_value?_iff {l : Literal} (h : l.token.lexeme.IsNumeral) : l.value?.isSome = true ↔ l.WellFormed := by
  cases l with
  | number text pos =>
      rw [value?, Option.isSome_map, WellFormed]
      constructor
      · intro hsome
        rcases Option.isSome_iff_exists.1 hsome with ⟨value, hread⟩
        exact Number.count_point_of_read? hread
      · intro hcount
        rw [Number.read?_of_numeral h.1 h.2 hcount]
        rfl
  | colour word pos =>
      rw [value?, WellFormed]
      by_cases hhead : word.toList.head? = some '#'
      · rw [if_pos hhead, Option.isSome_map, Colour.isSome_ofHex?_iff]
        exact (or_iff_left (Colour.not_mem_names_of_code hhead)).symm
      · rw [if_neg hhead, Option.isSome_map, Colour.isSome_named?_iff]
        exact (or_iff_right fun hcode => hhead hcode.1).symm

theorem denotes_of_value? {l : Literal} {constant : Constant} (h : l.token.lexeme.IsNumeral)
    (hvalue : l.value? = some constant) : l.Denotes constant := by
  cases l with
  | number text pos =>
      rcases Option.map_eq_some_iff.1 hvalue with ⟨value, hread, rfl⟩
      rw [Number.read?_of_numeral h.1 h.2 (Number.count_point_of_read? hread)] at hread
      exact (Option.some.inj hread).symm
  | colour word pos =>
      rw [value?] at hvalue
      split_ifs at hvalue
      · rcases Option.map_eq_some_iff.1 hvalue with ⟨c, hcode, rfl⟩
        exact .inl (Colour.hex_of_ofHex? hcode)
      · rcases Option.map_eq_some_iff.1 hvalue with ⟨c, hname, rfl⟩
        rcases List.lookup_eq_some_iff.1 hname with ⟨before, after, hsplit, -⟩
        exact .inr (by rw [hsplit]; simp)

/-! ## Literals in the text -/

/-- The literals stand among the tokens in this order, and no other token is a number. -/
inductive Among : List Literal → List Token → Prop where
  | nil : Among [] []
  | literal (l : Literal) {literals : List Literal} {tokens : List Token} (h : Among literals tokens) :
      Among (l :: literals) (l.token :: tokens)
  | other {token : Token} {literals : List Literal} {tokens : List Token} (hother : ∀ text, token.lexeme ≠ .number text)
      (h : Among literals tokens) : Among literals (token :: tokens)

namespace Among

variable {literals more : List Literal} {tokens rest : List Token}

theorem append (h : Among literals tokens) (hmore : Among more rest) : Among (literals ++ more) (tokens ++ rest) := by
  induction h with
  | nil => exact hmore
  | literal l _ ih => exact .literal l ih
  | other hother _ ih => exact .other hother ih

theorem sublist (h : Among literals tokens) : (literals.map token).Sublist tokens := by
  induction h with
  | nil => exact .slnil
  | literal l _ ih => exact ih.cons_cons _
  | other _ _ ih => exact ih.cons _

theorem others (h : ∀ token ∈ tokens, ∀ text, token.lexeme ≠ .number text) : Among [] tokens := by
  induction tokens with
  | nil => exact .nil
  | cons token tokens ih =>
      rcases List.forall_mem_cons.1 h with ⟨htoken, htokens⟩
      exact .other htoken (ih htokens)

/-- A closing sign follows. -/
theorem closed (h : Among literals tokens) {token : Token} (hother : ∀ text, token.lexeme ≠ .number text) :
    Among literals (tokens ++ [token]) := by
  have happend := h.append (.other hother .nil)
  rwa [List.append_nil] at happend

end Among

end Surface.Literal

namespace Surface

theorem BinaryOp.sign_ne_number (op : BinaryOp) (text : String) : op.sign ≠ .number text := by
  cases op <;> exact Lexeme.noConfusion

mutual

theorem Expr.Yields.among {e : Expr} {tokens : List Token} : e.Yields tokens → Literal.Among e.literals tokens
  | .number text pos => by
      rw [Expr.literals]
      exact .literal (.number text pos) .nil
  | .var _ _ => by
      rw [Expr.literals]
      exact .other nofun .nil
  | .thing _ _ _ => by
      rw [Expr.literals]
      exact .other nofun (.other nofun .nil)
  | @Expr.Yields.binary op _ _ _ _ _ hleft hright => by
      rw [Expr.literals]
      exact hleft.among.append (.other op.sign_ne_number hright.among)
  | .negate _ hsign h => by
      rw [Expr.literals]
      refine .other (fun text => ?_) h.among
      rcases hsign with rfl | rfl <;> exact Lexeme.noConfusion
  | .bare _ _ _ h => by
      rw [Expr.literals]
      exact .other nofun h.among
  | .parenthesised _ _ _ _ h => by
      rw [Expr.literals]
      exact .other nofun (.other nofun (h.among.closed nofun))
  | .group _ _ h => by
      rw [Expr.literals]
      exact .other nofun (h.among.closed nofun)

theorem Expr.ListYields.among {list : List Expr} {tokens : List Token} :
    Expr.ListYields list tokens → Literal.Among (Expr.listLiterals list) tokens
  | .nil => by
      rw [Expr.listLiterals]
      exact .nil
  | .cons h hrest => by
      rw [Expr.listLiterals]
      exact h.among.append hrest.among

end

theorem ColourArgument.Yields.among {c : ColourArgument} {tokens : List Token} (h : c.Yields tokens) :
    Literal.Among c.literals tokens := by
  cases h with
  | word text pos => exact .literal (.colour text pos) .nil
  | rgb first last hred hgreen hblue =>
      rw [ColourArgument.literals, List.append_assoc]
      exact .other nofun (hred.among.append (hgreen.among.append (hblue.among.closed nofun)))
  | index h => exact h.among

mutual

theorem Statement.Yields.among {s : Statement} {tokens : List Token} :
    s.Yields tokens → Literal.Among s.literals tokens
  | .definition _ _ _ hvars h => by
      rw [Statement.literals]
      have hparams := Literal.Among.others fun token hmem text hnumber => by
        have hlexeme := List.mem_map_of_mem (f := Token.lexeme) hmem
        rw [hvars, hnumber] at hlexeme
        simp at hlexeme
      exact .other nofun (.other nofun (hparams.append (h.among.closed nofun)))
  | .command _ _ h => by
      rw [Statement.literals]
      exact .other nofun h.among
  | .call _ h => by
      rw [Statement.literals]
      exact .other nofun h.among

theorem Statement.ListYields.among {list : List Statement} {tokens : List Token} :
    Statement.ListYields list tokens → Literal.Among (Statement.listLiterals list) tokens
  | .nil => by
      rw [Statement.listLiterals]
      exact .nil
  | .cons h hrest => by
      rw [Statement.listLiterals]
      exact h.among.append hrest.among

theorem Argument.Yields.among {form : ArgumentForm} {a : Argument} {tokens : List Token} :
    a.Yields form tokens → Literal.Among a.literals tokens
  | .value h | .condition h => by
      rw [Argument.literals]
      exact h.among
  | .bracketed _ _ h => by
      rw [Argument.literals]
      exact .other nofun (h.among.closed nofun)
  | .block _ _ h => by
      rw [Argument.literals]
      exact .other nofun (h.among.closed nofun)
  | .point _ _ hx hy => by
      rw [Argument.literals]
      exact .other nofun (hx.among.append (hy.among.closed nofun))
  | .colour h => by
      rw [Argument.literals]
      exact h.among
  | .word _ _ => by
      rw [Argument.literals]
      exact .other nofun .nil

theorem Argument.ListYields.among {forms : List ArgumentForm} {list : List Argument} {tokens : List Token} :
    Argument.ListYields forms list tokens → Literal.Among (Argument.listLiterals list) tokens
  | .nil => by
      rw [Argument.listLiterals]
      exact .nil
  | .cons h hrest => by
      rw [Argument.listLiterals]
      exact h.among.append hrest.among

end

end Surface

/-! ## Numbers as they are scanned -/

namespace Lexeme

theorem isNumeral_minus (previous : Option Char) (rest : List Char) : (Segment.minus previous rest).IsNumeral := by
  unfold Segment.minus
  repeat' split
  all_goals trivial

theorem isNumeral_ofName (name : String) : (ofName name).IsNumeral := by
  unfold ofName
  repeat' split
  all_goals trivial

theorem isNumeral_sign {c : Char} {sign : Lexeme} (h : signs.lookup c = some sign) : sign.IsNumeral := by
  have hsigns : ∀ entry ∈ signs, entry.2.IsNumeral := by
    simp [signs, IsNumeral]
  rcases List.lookup_eq_some_iff.1 h with ⟨before, after, hsplit, -⟩
  exact hsigns (c, sign) (by simp [hsplit])

theorem isNumeral_number {c : Char} {rest : List Char}
    (h : (c.isDigit || (c = '.' && rest.head?.any Char.isDigit)) = true) :
    (number (String.ofList (c :: rest.takeWhile isNumberChar))).IsNumeral := by
  have hrest : ∀ d ∈ rest.takeWhile isNumberChar, isNumberChar d = true := fun d hmem => List.mem_takeWhile_imp hmem
  rw [IsNumeral, String.toList_ofList]
  simp only [Bool.or_eq_true, Bool.and_eq_true, decide_eq_true_eq] at h
  rcases h with hdigit | ⟨rfl, hnext⟩
  · exact ⟨List.forall_mem_cons.2 ⟨by simp [isNumberChar, hdigit], hrest⟩, c, List.mem_cons_self, hdigit⟩
  · refine ⟨List.forall_mem_cons.2 ⟨by decide, hrest⟩, ?_⟩
    -- A point begins a number only with a digit right behind it.
    cases rest with
    | nil => simp at hnext
    | cons d rest =>
        have hdigit : d.isDigit = true := by
          simpa using hnext
        exact ⟨d, by simp [isNumberChar, hdigit], hdigit⟩

theorem isNumeral_of_next {previous : Option Char} {c : Char} {rest : List Char} {l : Lexeme} {text : List Char}
    (h : Segment.next previous c rest = .lexeme l text) : l.IsNumeral := by
  unfold Segment.next at h
  repeat' split at h
  all_goals cases h
  -- What is left are the pieces whose lexeme is computed.
  all_goals try trivial
  · exact isNumeral_minus _ _
  · exact isNumeral_number ‹_›
  · exact isNumeral_ofName _
  · exact isNumeral_sign ‹_›

end Lexeme

theorem Tokens.isNumeral_of_scan {source : String} {tokens : Tokens} (h : Tokens.scan source = .ok tokens) :
    ∀ token ∈ tokens.list, token.lexeme.IsNumeral :=
  forall_of_scan Lexeme.isNumeral_of_next h

/-! ## What building reports -/

theorem Surface.Literal.forall₂_denotes {literals : List Literal} {constants : List Constant}
    (hnumeral : ∀ l ∈ literals, l.token.lexeme.IsNumeral) (h : literals.map Literal.value? = constants.map some) :
    List.Forall₂ Literal.Denotes literals constants := by
  induction literals generalizing constants with
  | nil =>
      rw [List.map_nil] at h
      rw [List.map_eq_nil_iff.1 h.symm]
      exact .nil
  | cons l literals ih =>
      cases constants with
      | nil => cases h
      | cons constant constants =>
          rcases List.forall_mem_cons.1 hnumeral with ⟨hl, hliterals⟩
          rcases List.cons.inj h with ⟨hvalue, hvalues⟩
          exact .cons (denotes_of_value? hl hvalue) (ih hliterals hvalues)

theorem Checked.Judges.reports {α : Type} {constants : α → List Constant} {literals : List Literal} {x : Checked α}
    (h : Judges constants literals x) (hnumeral : ∀ l ∈ literals, l.token.lexeme.IsNumeral) :
    Ensures x (fun a => (∀ l ∈ literals, l.WellFormed) ∧ List.Forall₂ Literal.Denotes literals (constants a))
      fun errors => (¬ ∀ l ∈ literals, l.WellFormed) ∧
        errors = (literals.filter fun l => ¬ l.WellFormed).map Literal.error := by
  -- The literals without a value are the malformed ones, since scanning lets no other number through.
  have hfilter : (literals.filter fun l => ¬ l.WellFormed) = literals.filter (·.value?.isNone) := by
    refine List.filter_congr fun l hmem => ?_
    rw [Bool.eq_iff_iff, decide_eq_true_iff, ← Literal.isSome_value?_iff (hnumeral l hmem)]
    simp
  refine h.mono (fun a hvalues => ⟨?_, Literal.forall₂_denotes hnumeral hvalues⟩) ?_
  · have hnil := hfilter.trans (filter_eq_nil hvalues)
    simpa using hnil
  · rintro errors ⟨hne, herrors⟩
    rw [← hfilter] at herrors
    refine ⟨fun hall => hne ?_, herrors⟩
    rw [herrors, List.filter_eq_nil_iff.2 fun l hmem => by simpa using hall l hmem, List.map_nil]

namespace Program

open Surface

/-- Building a tree that was read from a text succeeds if and only if all literals of the text are well formed, and its
constants are then what the literals stand for, in order. Otherwise there is one error for each of the others, with the code
of its kind at its own place, in the order of the text. -/
theorem build_reports_malformed_literals {source : String} {tokens : Tokens} {tree : List Statement}
    (hscan : Tokens.scan source = .ok tokens) (hparse : Grammar.parse tokens = .ok tree) :
    let literals := Statement.listLiterals tree
    let malformed := literals.filter fun l => ¬ l.WellFormed
    Literal.Among literals tokens.list ∧
      ((∃ commands, Command.listOfSurface tree = .ok commands) ↔ ∀ l ∈ literals, l.WellFormed) ∧
      (∀ commands, Command.listOfSurface tree = .ok commands →
        List.Forall₂ Literal.Denotes literals (Command.listConstants commands)) ∧
      ∀ errors, Command.listOfSurface tree = .error errors →
        errors = malformed.map Literal.error ∧
          (errors.map fun e => (e.cause.code, e.pos)) = (malformed.map fun l => (l.code, l.pos)) ∧
          errors.Pairwise fun a b => a.pos.key < b.pos.key := by
  intro literals malformed
  have hamong : Literal.Among literals tokens.list := (Grammar.treeRead_of_parse hparse).1.among
  have hnumeral : ∀ l ∈ literals, l.token.lexeme.IsNumeral := fun l hmem =>
    Tokens.isNumeral_of_scan hscan l.token (hamong.sublist.subset (List.mem_map_of_mem hmem))
  have hreports := (Command.listJudged tree).reports hnumeral
  refine ⟨hamong, ⟨?_, fun hall => ?_⟩, fun commands hok => ?_, fun errors herror => ?_⟩
  · rintro ⟨commands, hok⟩
    rw [hok] at hreports
    exact hreports.1
  · cases hbuilt : Command.listOfSurface tree with
    | ok commands => exact ⟨commands, rfl⟩
    | error errors =>
        rw [hbuilt] at hreports
        exact absurd hall hreports.1
  · rw [hok] at hreports
    exact hreports.2
  · rw [herror] at hreports
    have herrors : errors = malformed.map Literal.error := hreports.2
    refine ⟨herrors, ?_, ?_⟩
    · rw [herrors, List.map_map]
      exact List.map_congr_left fun l _ => Prod.ext l.code_error l.pos_error
    · have hplaces : (malformed.map Literal.token).Sublist tokens.list :=
        ((List.filter_sublist).map Literal.token).trans hamong.sublist
      have hascends := List.pairwise_map.1 ((Tokens.ordered_of_scan hscan).ascends.sublist hplaces)
      rw [herrors, List.pairwise_map]
      refine hascends.imp fun {l l'} hlt => ?_
      rwa [l.pos_error, l'.pos_error, ← l.pos_token, ← l'.pos_token]

/-- A short code, a colour in capitals, a number that begins with its point, one with two points, and a word that names no
colour. -/
theorem three_of_five_literals_are_reported :
    ∃ tokens tree errors, Tokens.scan "setpc \"#1 setpc \"RED repeat .5 [fd 1..2] setpc \"nope" = .ok tokens ∧
      Grammar.parse tokens = .ok tree ∧ Command.listOfSurface tree = .error errors ∧
      (errors.map fun e => (e.cause.code, e.pos)) = [("B001", ⟨1, 7⟩), ("B003", ⟨1, 36⟩), ("B002", ⟨1, 48⟩)] ∧
      (Statement.listLiterals tree).length = 5 ∧ Literal.Among (Statement.listLiterals tree) tokens.list ∧
      (¬ ∀ l ∈ Statement.listLiterals tree, l.WellFormed) ∧
      errors = ((Statement.listLiterals tree).filter fun l => ¬ l.WellFormed).map Literal.error := by
  have hcodes : (match Tokens.scan "setpc \"#1 setpc \"RED repeat .5 [fd 1..2] setpc \"nope" with
      | .error _ => none
      | .ok tokens =>
          match Grammar.parse tokens with
          | .error _ => none
          | .ok tree =>
              match Command.listOfSurface tree with
              | .ok _ => none
              | .error errors =>
                  some (errors.map fun e => (e.cause.code, e.pos), (Statement.listLiterals tree).length)) =
      some ([("B001", ⟨1, 7⟩), ("B003", ⟨1, 36⟩), ("B002", ⟨1, 48⟩)], 5) := by
    decide +kernel
  split at hcodes
  · cases hcodes
  · rename_i tokens hscan
    split at hcodes
    · cases hcodes
    · rename_i tree hparse
      split at hcodes
      · cases hcodes
      · rename_i errors hbuilt
        rcases Prod.mk.inj (Option.some.inj hcodes) with ⟨hreported, hcount⟩
        rcases build_reports_malformed_literals hscan hparse with ⟨hamong, hbuilds, -, herrors⟩
        refine ⟨tokens, tree, errors, hscan, hparse, hbuilt, hreported, hcount, hamong, fun hall => ?_,
          (herrors errors hbuilt).1⟩
        rcases hbuilds.2 hall with ⟨commands, hok⟩
        cases hbuilt.symm.trans hok

end Program

end TurtleLogo
