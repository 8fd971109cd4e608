import Mathlib
import TurtleLogo.Proofs.CanonicalText

/-!
# Capitals and small letters in texts

A text with its capitals made small is cut into the same segments, with the same positions. Names come out of scanning in
small letters anyway; what remains of the case of letters is in quoted words and in the texts that errors quote. `folded`
forgets it there too:

* `Segment.next_folded` and `segments_folded`: making letters small and cutting a text can change places;
* `Tokens.scan_toLower`: so the tokens of a text in small letters, or its errors, are those of the text, folded.
-/

namespace TurtleLogo

/-! ## Characters -/

/-- What is no letter is not the small form of anything else. -/
theorem toLower_eq_iff {d : Char} (hd : d.isAlpha = false) (c : Char) : c.toLower = d ↔ c = d := by
  cases hc : c.isUpper with
  | false =>
      rw [Char.toLower_eq_of_not_isUpper (by simp [hc])]
  | true =>
      have halpha : c.isAlpha = true := by
        simp [Char.isAlpha, hc]
      constructor
      · rintro rfl
        rw [Char.isAlpha_toLower_eq_isAlpha, halpha] at hd
        cases hd
      · rintro rfl
        rw [halpha] at hd
        cases hd

theorem toLower_of_not_isAlpha {c : Char} (h : c.isAlpha = false) : c.toLower = c :=
  (toLower_eq_iff h c).2 rfl

theorem isDigit_toLower (c : Char) : c.toLower.isDigit = c.isDigit := by
  cases hc : c.isAlpha with
  | false => rw [toLower_of_not_isAlpha hc]
  | true => rw [isDigit_of_isAlpha hc, isDigit_of_isAlpha ((Char.isAlpha_toLower_eq_isAlpha c).trans hc)]

theorem isBlank_toLower (c : Char) : isBlank c.toLower = isBlank c := by
  simp [isBlank, toLower_eq_iff]

theorem isSpacing_toLower (c : Char) : isSpacing c.toLower = isSpacing c := by
  simp [isSpacing, isBlank_toLower, toLower_eq_iff]

theorem isNameChar_toLower (c : Char) : isNameChar c.toLower = isNameChar c := by
  simp [isNameChar, Char.isAlphanum, isDigit_toLower, toLower_eq_iff]

theorem isNumberChar_toLower (c : Char) : isNumberChar c.toLower = isNumberChar c := by
  simp [isNumberChar, isDigit_toLower, toLower_eq_iff]

theorem isWordChar_toLower (c : Char) : isWordChar c.toLower = isWordChar c := by
  simp [isWordChar, isBlank_toLower, toLower_eq_iff]

theorem toLower_of_isNumberChar {c : Char} (h : isNumberChar c = true) : c.toLower = c := by
  refine toLower_of_not_isAlpha ?_
  rw [Bool.eq_false_iff]
  intro halpha
  simp only [isNumberChar, isDigit_of_isAlpha halpha, Bool.false_or, decide_eq_true_eq] at h
  subst h
  cases halpha

theorem opensOperand_map_toLower (previous : Option Char) :
    opensOperand (previous.map Char.toLower) = opensOperand previous := by
  cases previous with
  | none => rfl
  | some c => simp [opensOperand, isSpacing_toLower, toLower_eq_iff]

/-! ## Pieces of texts -/

theorem takeWhile_map_toLower {p : Char → Bool} (hp : ∀ c, p c.toLower = p c) (text : List Char) :
    (text.map Char.toLower).takeWhile p = (text.takeWhile p).map Char.toLower := by
  have hcomp : p ∘ Char.toLower = p := funext hp
  rw [List.takeWhile_map, hcomp]

theorem ofList_map_toLower (text : List Char) : String.ofList (text.map Char.toLower) = (String.ofList text).toLower := by
  rw [← String.toList_inj, String.toList_ofList, String.toLower, String.toList_map, String.toList_ofList]

theorem toLower_ofList_map_toLower (text : List Char) :
    (String.ofList (text.map Char.toLower)).toLower = (String.ofList text).toLower := by
  rw [ofList_map_toLower, Grammar.toLower_toLower]

theorem map_toLower_of_isNumberChar {text : List Char} (h : ∀ c ∈ text, isNumberChar c = true) :
    text.map Char.toLower = text :=
  (List.map_congr_left fun c hc => toLower_of_isNumberChar (h c hc)).trans (List.map_id text)

/-! ## Folding -/

namespace Lexeme

/-- The lexeme with a quoted word in small letters; nothing else has any capitals. -/
def folded : Lexeme → Lexeme
  | word text => word text.toLower
  | l => l

theorem folded_ofName (name : String) : (ofName name).folded = ofName name := by
  unfold ofName
  repeat' split
  all_goals rfl

end Lexeme

namespace BuildError

/-- The cause with all that it quotes in small letters. -/
def Cause.folded : Cause → Cause
  | unexpectedCharacter c => unexpectedCharacter c.toLower
  | unexpected wanted found => unexpected wanted (found.map Lexeme.folded)
  | missing wanted found => missing wanted (found.map Lexeme.folded)
  | missingName found => missingName (found.map Lexeme.folded)
  | missingNameAfterThing found => missingNameAfterThing (found.map Lexeme.folded)
  | malformedColour word => malformedColour word.toLower
  | unknownColour word => unknownColour word.toLower
  | cause => cause

theorem Cause.code_folded (cause : Cause) : cause.folded.code = cause.code := by
  cases cause <;> rfl

def folded (e : BuildError) : BuildError :=
  { e with cause := e.cause.folded }

end BuildError

def Token.folded (token : Token) : Token :=
  { token with lexeme := token.lexeme.folded }

def Tokens.folded (tokens : Tokens) : Tokens :=
  { tokens with list := tokens.list.map Token.folded }

namespace Segment

def folded : Segment → Segment
  | blank c => blank c.toLower
  | comment text => comment (text.map Char.toLower)
  | lexeme l text => lexeme l.folded (text.map Char.toLower)
  | fault cause text => fault cause.folded (text.map Char.toLower)

theorem text_folded (segment : Segment) : segment.folded.text = segment.text.map Char.toLower := by
  cases segment <;> rfl

/-! ## Scanning -/

theorem minus_map_toLower (previous : Option Char) (rest : List Char) :
    minus previous (rest.map Char.toLower) = minus previous rest := by
  cases rest with
  | nil => rfl
  | cons d rest => simp [minus, isSpacing_toLower]

theorem folded_minus (previous : Option Char) (rest : List Char) : (minus previous rest).folded = minus previous rest := by
  unfold minus
  repeat' split
  all_goals rfl

theorem folded_sign {c : Char} {sign : Lexeme} (h : signs.lookup c = some sign) : sign.folded = sign := by
  have hsigns : ∀ entry ∈ signs, entry.2.folded = entry.2 := by
    decide
  rcases List.lookup_eq_some_iff.1 h with ⟨before, after, hsplit, -⟩
  exact hsigns (c, sign) (by simp [hsplit])

/-- A letter begins a name. -/
theorem next_folded_of_isAlpha {c : Char} (hc : c.isAlpha = true) (previous : Option Char) (rest : List Char) :
    next previous c.toLower (rest.map Char.toLower) = (next previous c rest).folded := by
  have hc' : c.toLower.isAlpha = true := (Char.isAlpha_toLower_eq_isAlpha c).trans hc
  have hname := takeWhile_map_toLower isNameChar_toLower rest
  rw [next_of_isAlphanum (by simp [Char.isAlphanum, hc']), next_of_isAlphanum (by simp [Char.isAlphanum, hc]),
    isDigit_of_isAlpha hc, isDigit_of_isAlpha hc', if_neg Bool.false_ne_true, if_neg Bool.false_ne_true, hname,
    ← List.map_cons, toLower_ofList_map_toLower, folded, Lexeme.folded_ofName]

/-- The sign that begins with `<` or `>` is told by the character after it, whose case does not matter. -/
theorem next_folded_of_comparison {c : Char} (hc : c = '<' ∨ c = '>') (previous : Option Char) (rest : List Char) :
    next previous c (rest.map Char.toLower) = (next previous c rest).folded := by
  cases rest with
  | nil =>
      rcases hc with rfl | rfl <;> rfl
  | cons d rest =>
      have hsmall {e : Char} (he : e.isAlpha = false) (hd : d ≠ e) : d.toLower ≠ e :=
        fun h => hd ((toLower_eq_iff he d).1 h)
      by_cases hequal : d = '='
      · subst hequal
        rcases hc with rfl | rfl <;> rfl
      by_cases hgreater : d = '>'
      · subst hgreater
        rcases hc with rfl | rfl <;> rfl
      rcases hc with rfl | rfl
      · simp [next, isBlank, folded, Lexeme.folded, hequal, hgreater, hsmall rfl hequal, hsmall rfl hgreater]
      · simp [next, isBlank, folded, Lexeme.folded, hequal, hsmall rfl hequal]

/-- Any other character stays as it is. -/
theorem next_folded_of_not_isAlpha {c : Char} (hc : c.isAlpha = false) (previous : Option Char) (rest : List Char) :
    next previous c (rest.map Char.toLower) = (next previous c rest).folded := by
  have hsmall := toLower_of_not_isAlpha hc
  have hcomment := takeWhile_map_toLower (p := fun d => decide (d ≠ '\n')) (by simp [toLower_eq_iff]) rest
  have hword := takeWhile_map_toLower isWordChar_toLower rest
  have hname := takeWhile_map_toLower isNameChar_toLower rest
  have hdigits : (rest.takeWhile isNumberChar).map Char.toLower = rest.takeWhile isNumberChar :=
    map_toLower_of_isNumberChar fun _ hd => List.mem_takeWhile_imp hd
  have hnumber := (takeWhile_map_toLower isNumberChar_toLower rest).trans hdigits
  have hhead : (rest.map Char.toLower).head?.any Char.isDigit = rest.head?.any Char.isDigit := by
    cases rest <;> simp [isDigit_toLower]
  by_cases hsign : c = '<' ∨ c = '>'
  · exact next_folded_of_comparison hsign previous rest
  have hsigns : c ≠ '<' ∧ c ≠ '>' := not_or.1 hsign
  simp only [next, hsigns.1, hsigns.2, hcomment, hword, hname, hnumber, hhead, minus_map_toLower, if_false]
  split_ifs with hblank hsemicolon hminus hquote hcolon hdigit hname'
  · simp [folded, hsmall]
  · simp [folded, hsmall]
  · simp [folded, hsmall, folded_minus]
  · cases rest.takeWhile isWordChar with
    | nil =>
        simp [folded, hsmall, BuildError.Cause.folded]
    | cons d word =>
        have htext := ofList_map_toLower (d :: word)
        simp only [List.map_cons] at htext
        simp only [folded, List.map_cons, Lexeme.folded, hsmall, htext]
  · cases rest.takeWhile isNameChar with
    | nil =>
        simp [folded, hsmall, BuildError.Cause.folded]
    | cons d name =>
        have htext := toLower_ofList_map_toLower (d :: name)
        simp only [List.map_cons] at htext
        simp only [folded, List.map_cons, Lexeme.folded, hsmall, htext]
  · simp only [folded, List.map_cons, Lexeme.folded, hsmall, hdigits]
  · have htext := toLower_ofList_map_toLower (c :: rest.takeWhile isNameChar)
    simp only [List.map_cons, hsmall] at htext
    simp only [folded, List.map_cons, Lexeme.folded_ofName, hsmall, htext]
  · cases hlookup : signs.lookup c with
    | none => simp [folded, hsmall, BuildError.Cause.folded]
    | some sign => simp [folded, hsmall, folded_sign hlookup]

theorem next_folded (previous : Option Char) (c : Char) (rest : List Char) :
    next previous c.toLower (rest.map Char.toLower) = (next previous c rest).folded := by
  cases hc : c.isAlpha with
  | true =>
      exact next_folded_of_isAlpha hc previous rest
  | false =>
      rw [toLower_of_not_isAlpha hc]
      exact next_folded_of_not_isAlpha hc previous rest

end Segment

theorem segments_folded (previous : Option Char) (text : List Char) :
    segments previous (text.map Char.toLower) = (segments previous text).map Segment.folded := by
  fun_induction segments previous text with
  | case1 previous =>
      simp [segments]
  | case2 previous c rest segment ih =>
      have hlast : opensOperand (segment.text.map Char.toLower).getLast? = opensOperand segment.text.getLast? := by
        rw [List.getLast?_map, opensOperand_map_toLower]
      calc
        segments previous ((c :: rest).map Char.toLower)
            = segment.folded :: segments (segment.text.map Char.toLower).getLast?
                ((rest.drop (segment.text.length - 1)).map Char.toLower) := by
              rw [List.map_cons, segments_cons, Segment.next_folded, Segment.text_folded, List.length_map, List.map_drop]
        -- Of the segment before, only its last character matters to what follows.
        _ = segment.folded :: segments segment.text.getLast? ((rest.drop (segment.text.length - 1)).map Char.toLower) := by
              rw [segments_congr hlast]
        _ = (segment :: segments segment.text.getLast? (rest.drop (segment.text.length - 1))).map Segment.folded := by
              rw [ih, List.map_cons]

/-! ## Tokens -/

theorem Position.after_map_toLower (pos : Position) (text : List Char) :
    pos.after (text.map Char.toLower) = pos.after text := by
  induction text generalizing pos with
  | nil => rfl
  | cons c text ih => simp [ih, Position.next, toLower_eq_iff]

theorem placed_folded (pos : Position) (list : List Segment) :
    placed pos (list.map Segment.folded) = (placed pos list).map (Prod.map id Segment.folded) := by
  induction list generalizing pos with
  | nil => rfl
  | cons segment list ih => simp [placed, ih, Segment.text_folded, Position.after_map_toLower]

namespace Tokens

theorem token?_folded (piece : Position × Segment) :
    token? (Prod.map id Segment.folded piece) = (token? piece).map Token.folded := by
  rcases piece with ⟨pos, segment⟩
  cases segment <;> rfl

theorem error?_folded (piece : Position × Segment) :
    error? (Prod.map id Segment.folded piece) = (error? piece).map BuildError.folded := by
  rcases piece with ⟨pos, segment⟩
  cases segment <;> rfl

/-- Scanning a text in small letters gives the tokens of the text with small letters, or its errors with small letters. -/
theorem scan_toLower (source : String) :
    scan source.toLower = ((scan source).map folded).mapError (List.map BuildError.folded) := by
  have hchars : source.toLower.toList = source.toList.map Char.toLower := String.toList_map
  have htokens (pieces : List (Position × Segment)) :
      (pieces.map (Prod.map id Segment.folded)).filterMap token? = (pieces.filterMap token?).map Token.folded := by
    simp only [List.filterMap_map, List.map_filterMap, Function.comp_def, token?_folded]
  have herrors (pieces : List (Position × Segment)) :
      (pieces.map (Prod.map id Segment.folded)).filterMap error? = (pieces.filterMap error?).map BuildError.folded := by
    simp only [List.filterMap_map, List.map_filterMap, Function.comp_def, error?_folded]
  simp only [scan, hchars, segments_folded, placed_folded, htokens, herrors, Position.after_map_toLower]
  cases (placed Position.start (segments none source.toList)).filterMap error? with
  | nil => rfl
  | cons => rfl

end Tokens
end TurtleLogo
