import TurtleLogo.Proofs.CanonicalText

/-!
# How a text is divided

What the pieces of a text can be is said here by the text before and after them, without a scanner:

* `Segment.Spells`: the spellings of lexemes;
* `Segment.Fits`: the segments that can stand between two pieces of text, among them those that are faults;
* `Cuts`: a text divided into such segments with nothing left over. There is one way to do so, and scanning finds it
  (`cuts_iff`);
* `Position.behind`: the position where a text ends, by its number of line breaks and the length of its last line.
-/

namespace TurtleLogo

/-! ## Longest pieces of a text -/

theorem exists_stretch (p : Char → Bool) (text : List Char) :
    ∃ first after, first ++ after = text ∧ Stretch p first after := by
  refine ⟨text.takeWhile p, text.dropWhile p, List.takeWhile_append_dropWhile, ?_, ?_⟩
  · intro c hc
    exact List.mem_takeWhile_imp hc
  · intro c hc
    simpa [Option.mem_def.1 hc] using List.head?_dropWhile_not p text

/-- A character of the class at the head of the text belongs to the piece. -/
theorem Stretch.mem_head? {p : Char → Bool} {text after : List Char} (h : Stretch p text after) {c : Char}
    (hhead : c ∈ (text ++ after).head?) (hc : p c = true) : c ∈ text.head? := by
  cases text with
  | nil => exact absurd hc (by simp [h.ends c hhead])
  | cons d text => exact hhead

namespace Segment

/-! ## What a segment can be -/

/-- A minus sign begins an operand: it comes after a blank, an opening sign or nothing, and right before something. -/
def BeginsOperand (before after : List Char) : Prop :=
  opensOperand before.getLast? = true ∧ ∃ c ∈ after.head?, isSpacing c = false

/-- The lexeme is spelled by the text that stands between `before` and `after`. -/
inductive Spells (before : List Char) : Lexeme → List Char → List Char → Prop where
  | number {c : Char} {digits after : List Char}
      (first : c.isDigit = true ∨ c = '.' ∧ ∃ d ∈ digits.head?, d.isDigit = true)
      (longest : Stretch isNumberChar digits after) :
      Spells before (.number (String.ofList (c :: digits))) (c :: digits) after
  | word {word after : List Char} (nonempty : word ≠ []) (longest : Stretch isWordChar word after) :
      Spells before (.word (String.ofList word)) ('"' :: word) after
  | var {name after : List Char} (nonempty : name ≠ []) (longest : Stretch isNameChar name after) :
      Spells before (.var (String.ofList name).toLower) (':' :: name) after
  | name {c : Char} {name after : List Char} (first : c.isAlpha = true ∨ c = '_')
      (longest : Stretch isNameChar name after) :
      Spells before (Lexeme.ofName (String.ofList (c :: name)).toLower) (c :: name) after
  | sign {c : Char} {sign : Lexeme} {after : List Char} (listed : (c, sign) ∈ signs) : Spells before sign [c] after
  | negate {after : List Char} (begins : BeginsOperand before after) : Spells before .negate ['-'] after
  | minus {after : List Char} (begins : ¬ BeginsOperand before after) : Spells before .minus ['-'] after
  | lessEqual {after : List Char} : Spells before .lessEqual ['<', '='] after
  | notEqual {after : List Char} : Spells before .notEqual ['<', '>'] after
  | less {after : List Char} (equal : after.head? ≠ some '=') (greater : after.head? ≠ some '>') :
      Spells before .less ['<'] after
  | greaterEqual {after : List Char} : Spells before .greaterEqual ['>', '='] after
  | greater {after : List Char} (equal : after.head? ≠ some '=') : Spells before .greater ['>'] after

/-- A lexeme begins with the character, which stands between `before` and `rest`. -/
def LexemeAhead (before : List Char) (c : Char) (rest : List Char) : Prop :=
  ∃ l text after, text ++ after = rest ∧ Spells before l (c :: text) after

/-- The segment can stand between `before` and `after`. -/
inductive Fits (before : List Char) : Segment → List Char → Prop where
  | blank {c : Char} {after : List Char} (h : c = ' ' ∨ c = '\t' ∨ c = '\r' ∨ c = '\n') : Fits before (.blank c) after
  | comment {text after : List Char} (line : Stretch (· ≠ '\n') text after) : Fits before (.comment (';' :: text)) after
  | lexeme {l : Lexeme} {text after : List Char} (spells : Spells before l text after) :
      Fits before (.lexeme l text) after
  | emptyWord {after : List Char} (empty : Stretch isWordChar [] after) : Fits before (.fault .emptyWord ['"']) after
  | emptyVariable {after : List Char} (empty : Stretch isNameChar [] after) :
      Fits before (.fault .emptyVariable [':']) after
  /-- A character that is no blank and with which no comment, word, variable or other lexeme can begin. -/
  | unexpected {c : Char} {after : List Char} (blank : isBlank c = false) (comment : c ≠ ';') (quote : c ≠ '"')
      (colon : c ≠ ':') (ahead : ¬ LexemeAhead before c after) : Fits before (.fault (.unexpectedCharacter c) [c]) after

theorem isBlank_iff {c : Char} : isBlank c = true ↔ c = ' ' ∨ c = '\t' ∨ c = '\r' ∨ c = '\n' := by
  simp [isBlank, or_assoc]

/-! ## Lexemes that come next -/

theorem minus_of_beginsOperand {before after : List Char} (h : BeginsOperand before after) :
    minus before.getLast? after = .negate := by
  rcases h with ⟨hbefore, c, hc, hspacing⟩
  cases after with
  | nil => cases hc
  | cons d after =>
      cases hc
      simp [minus, hbefore, hspacing]

theorem minus_of_not_beginsOperand {before after : List Char} (h : ¬ BeginsOperand before after) :
    minus before.getLast? after = .minus := by
  cases after with
  | nil => rfl
  | cons c after =>
      refine if_neg fun hboth => h ?_
      simpa [BeginsOperand] using hboth

theorem Spells.next_eq {before : List Char} {l : Lexeme} {c : Char} {text after : List Char}
    (h : Spells before l (c :: text) after) : next before.getLast? c (text ++ after) = .lexeme l (c :: text) := by
  cases h with
  | number first longest =>
      -- A digit is always the beginning of a number, a point only before a digit.
      rcases first with hdigit | ⟨rfl, d, hd, hdigit⟩
      · have hfirst : c.isAlphanum = true := by
          simp [Char.isAlphanum, hdigit]
        rw [next_of_isAlphanum hfirst, if_pos hdigit, longest.takeWhile_eq]
      · rcases List.head?_eq_some_iff.1 hd with ⟨digits, rfl⟩
        have hpoint : Option.any Char.isDigit (d :: digits ++ after).head? = true := hdigit
        simp only [next, longest.takeWhile_eq]
        exact if_pos hpoint
  | word nonempty longest =>
      rcases List.exists_cons_of_ne_nil nonempty with ⟨d, word, rfl⟩
      simp only [next, longest.takeWhile_eq]
      rfl
  | var nonempty longest =>
      rcases List.exists_cons_of_ne_nil nonempty with ⟨d, name, rfl⟩
      simp only [next, longest.takeWhile_eq]
      rfl
  | name first longest =>
      rcases first with halpha | rfl
      · have hfirst : c.isAlphanum = true := by
          simp [Char.isAlphanum, halpha]
        have hdigit : ¬ c.isDigit = true := by
          simp [isDigit_of_isAlpha halpha]
        rw [next_of_isAlphanum hfirst, if_neg hdigit, longest.takeWhile_eq]
      · simp only [next, longest.takeWhile_eq]
        rfl
  | sign listed =>
      simp only [signs, List.mem_cons, Prod.mk.injEq, List.not_mem_nil, or_false] at listed
      rcases listed with ⟨rfl, rfl⟩ | ⟨rfl, rfl⟩ | ⟨rfl, rfl⟩ | ⟨rfl, rfl⟩ | ⟨rfl, rfl⟩ | ⟨rfl, rfl⟩ | ⟨rfl, rfl⟩ |
        ⟨rfl, rfl⟩ | ⟨rfl, rfl⟩ | ⟨rfl, rfl⟩
      all_goals rfl
  | negate begins =>
      exact congrArg (lexeme · ['-']) (minus_of_beginsOperand begins)
  | minus begins =>
      exact congrArg (lexeme · ['-']) (minus_of_not_beginsOperand begins)
  | less equal greater =>
      cases after with
      | nil => rfl
      | cons d after =>
          have hequal : d ≠ '=' := by simpa using equal
          have hgreater : d ≠ '>' := by simpa using greater
          simp [next, isBlank, hequal, hgreater]
  | greater equal =>
      cases after with
      | nil => rfl
      | cons d after =>
          have hequal : d ≠ '=' := by simpa using equal
          simp [next, isBlank, hequal]
  | lessEqual | notEqual | greaterEqual =>
      rfl

/-! ## Characters with which a lexeme begins -/

theorem lexemeAhead_minus (before rest : List Char) : LexemeAhead before '-' rest := by
  by_cases h : BeginsOperand before rest
  · exact ⟨_, [], rest, rfl, .negate h⟩
  · exact ⟨_, [], rest, rfl, .minus h⟩

theorem lexemeAhead_less (before rest : List Char) : LexemeAhead before '<' rest := by
  by_cases hequal : rest.head? = some '='
  · rcases List.head?_eq_some_iff.1 hequal with ⟨after, rfl⟩
    exact ⟨_, ['='], after, rfl, .lessEqual⟩
  by_cases hgreater : rest.head? = some '>'
  · rcases List.head?_eq_some_iff.1 hgreater with ⟨after, rfl⟩
    exact ⟨_, ['>'], after, rfl, .notEqual⟩
  · exact ⟨_, [], rest, rfl, .less hequal hgreater⟩

theorem lexemeAhead_greater (before rest : List Char) : LexemeAhead before '>' rest := by
  by_cases hequal : rest.head? = some '='
  · rcases List.head?_eq_some_iff.1 hequal with ⟨after, rfl⟩
    exact ⟨_, ['='], after, rfl, .greaterEqual⟩
  · exact ⟨_, [], rest, rfl, .greater hequal⟩

theorem lexemeAhead_number (before : List Char) {c : Char} {rest : List Char}
    (h : c.isDigit = true ∨ c = '.' ∧ ∃ d ∈ rest.head?, d.isDigit = true) : LexemeAhead before c rest := by
  rcases exists_stretch isNumberChar rest with ⟨digits, after, rfl, longest⟩
  refine ⟨_, digits, after, rfl, .number (h.imp_right fun ⟨hpoint, d, hd, hdigit⟩ => ?_) longest⟩
  -- The digit after a point is part of its number.
  exact ⟨hpoint, d, longest.mem_head? hd (by simp [isNumberChar, hdigit]), hdigit⟩

theorem lexemeAhead_name (before : List Char) {c : Char} (h : c.isAlpha = true ∨ c = '_') (rest : List Char) :
    LexemeAhead before c rest := by
  rcases exists_stretch isNameChar rest with ⟨name, after, rfl, longest⟩
  exact ⟨_, name, after, rfl, .name h longest⟩

theorem lexemeAhead_sign (before : List Char) {c : Char} {sign : Lexeme} (h : signs.lookup c = some sign)
    (rest : List Char) : LexemeAhead before c rest := by
  rcases List.lookup_eq_some_iff.1 h with ⟨first, last, hsigns, -⟩
  have hlisted : (c, sign) ∈ signs := by
    simp [hsigns]
  exact ⟨sign, [], rest, rfl, .sign hlisted⟩

/-! ## Segments that come next -/

/-- A character passes none of the tests if it is not expected. -/
theorem next_of_not_lexemeAhead {before : List Char} {c : Char} {rest : List Char} (hblank : isBlank c = false)
    (hcomment : c ≠ ';') (hquote : c ≠ '"') (hcolon : c ≠ ':') (h : ¬ LexemeAhead before c rest) :
    next before.getLast? c rest = .fault (.unexpectedCharacter c) [c] := by
  -- A character that passed one of these tests would begin a lexeme.
  have hminus : c ≠ '-' := by
    rintro rfl
    exact h (lexemeAhead_minus before rest)
  have hless : c ≠ '<' := by
    rintro rfl
    exact h (lexemeAhead_less before rest)
  have hgreater : c ≠ '>' := by
    rintro rfl
    exact h (lexemeAhead_greater before rest)
  have hnumber : ¬ (c.isDigit || (c = '.' && rest.head?.any Char.isDigit)) = true := by
    intro hstart
    refine h (lexemeAhead_number before ?_)
    simpa [Option.any_eq_true] using hstart
  have hname : ¬ (c.isAlpha || c = '_') = true := by
    intro hstart
    exact h (lexemeAhead_name before (by simpa using hstart) rest)
  have hsign : signs.lookup c = none := by
    cases hlookup : signs.lookup c with
    | none => rfl
    | some sign => exact absurd (lexemeAhead_sign before hlookup rest) h
  simp only [next, hblank, hcomment, hminus, hless, hgreater, hquote, hcolon, hnumber, hname, hsign,
    Bool.false_eq_true, if_false]

/-- Whatever fits is what comes next. -/
theorem Fits.next_eq {before : List Char} {segment : Segment} {c : Char} {text after : List Char}
    (h : Fits before segment after) (htext : segment.text = c :: text) :
    next before.getLast? c (text ++ after) = segment := by
  cases h with
  | blank hblank =>
      cases htext
      exact if_pos (isBlank_iff.2 hblank)
  | comment line =>
      cases htext
      simp only [next, line.takeWhile_eq]
      rfl
  | lexeme spells =>
      subst htext
      exact spells.next_eq
  | emptyWord empty =>
      cases htext
      simp only [next, empty.takeWhile_eq]
      rfl
  | emptyVariable empty =>
      cases htext
      simp only [next, empty.takeWhile_eq]
      rfl
  | unexpected hblank hcomment hquote hcolon ahead =>
      cases htext
      exact next_of_not_lexemeAhead hblank hcomment hquote hcolon ahead

theorem exists_fits (before : List Char) (c : Char) (rest : List Char) :
    ∃ segment text after, segment.text = c :: text ∧ text ++ after = rest ∧ Fits before segment after := by
  cases hblank : isBlank c with
  | true => exact ⟨.blank c, [], rest, rfl, rfl, .blank (isBlank_iff.1 hblank)⟩
  | false =>
      by_cases hcomment : c = ';'
      · subst hcomment
        rcases exists_stretch (· ≠ '\n') rest with ⟨text, after, hrest, line⟩
        exact ⟨_, text, after, rfl, hrest, .comment line⟩
      by_cases hquote : c = '"'
      · subst hquote
        rcases exists_stretch isWordChar rest with ⟨word, after, hrest, longest⟩
        by_cases hempty : word = []
        · subst hempty
          exact ⟨_, [], after, rfl, hrest, .emptyWord longest⟩
        · exact ⟨_, word, after, rfl, hrest, .lexeme (.word hempty longest)⟩
      by_cases hcolon : c = ':'
      · subst hcolon
        rcases exists_stretch isNameChar rest with ⟨name, after, hrest, longest⟩
        by_cases hempty : name = []
        · subst hempty
          exact ⟨_, [], after, rfl, hrest, .emptyVariable longest⟩
        · exact ⟨_, name, after, rfl, hrest, .lexeme (.var hempty longest)⟩
      by_cases hahead : LexemeAhead before c rest
      · rcases hahead with ⟨l, text, after, hrest, spells⟩
        exact ⟨.lexeme l (c :: text), text, after, rfl, hrest, .lexeme spells⟩
      · exact ⟨_, [], rest, rfl, rfl, .unexpected hblank hcomment hquote hcolon hahead⟩

theorem Fits.text_ne_nil {before : List Char} {segment : Segment} {after : List Char} (h : Fits before segment after) :
    segment.text ≠ [] := by
  cases h with
  | lexeme spells => cases spells <;> simp [text]
  | _ => simp [text]

end Segment

/-! ## Positions -/

/-- The position where a text ends: lines and columns count from one. -/
def Position.behind (text : List Char) : Position where
  line := 1 + text.count '\n'
  column := 1 + (text.reverse.takeWhile (· ≠ '\n')).length

theorem Position.next_behind (text : List Char) (c : Char) : (behind text).next c = behind (text ++ [c]) := by
  by_cases hc : c = '\n'
  · simp [next, behind, hc, Nat.add_assoc]
  · simp [next, behind, hc, Nat.add_comm]

theorem Position.after_behind (before text : List Char) : (behind before).after text = behind (before ++ text) := by
  induction text generalizing before with
  | nil => simp
  | cons c text ih => simp [next_behind, ih]

/-- Segments with the positions where the text before them ends. -/
def located (before : List Char) : List Segment → List (Position × Segment)
  | [] => []
  | segment :: rest => (Position.behind before, segment) :: located (before ++ segment.text) rest

theorem placed_behind (before : List Char) (list : List Segment) :
    placed (Position.behind before) list = located before list := by
  induction list generalizing before with
  | nil => rfl
  | cons segment list ih => rw [placed, located, Position.after_behind, ih]

/-! ## The one way to divide a text -/

/-- The text that comes after `before` is made up of segments that fit there. -/
inductive Cuts : List Char → List Segment → List Char → Prop where
  | nil {before : List Char} : Cuts before [] []
  | cons {before : List Char} {segment : Segment} {list : List Segment} {after : List Char}
      (head : segment.Fits before after) (tail : Cuts (before ++ segment.text) list after) :
      Cuts before (segment :: list) (segment.text ++ after)

/-- The first of the segments is the one that fits, and the others divide the text after it. -/
theorem segments_of_fits {before : List Char} {segment : Segment} {after : List Char} (h : segment.Fits before after) :
    segments before.getLast? (segment.text ++ after) = segment :: segments (before ++ segment.text).getLast? after := by
  rcases List.exists_cons_of_ne_nil h.text_ne_nil with ⟨c, text, htext⟩
  rw [List.getLast?_append_of_ne_nil before h.text_ne_nil, htext, List.cons_append, segments_cons, h.next_eq htext, htext]
  simp

theorem Cuts.eq_segments {before : List Char} {list : List Segment} {text : List Char} (h : Cuts before list text) :
    list = segments before.getLast? text := by
  induction h with
  | nil => rw [segments]
  | cons head tail ih => rw [segments_of_fits head, ← ih]

theorem cuts_segments (before : List Char) : (text : List Char) → Cuts before (segments before.getLast? text) text
  | [] => by
      rw [segments]
      exact .nil
  | c :: rest => by
      rcases Segment.exists_fits before c rest with ⟨segment, text, after, htext, rfl, hfits⟩
      -- What is left to divide is shorter, for no segment is empty.
      have hlength : after.length < (c :: (text ++ after)).length := by
        simp only [List.length_cons, List.length_append]
        omega
      have hcuts := Cuts.cons hfits (cuts_segments (before ++ segment.text) after)
      rwa [← segments_of_fits hfits, htext] at hcuts
termination_by text => text.length

theorem cuts_iff {before : List Char} {list : List Segment} {text : List Char} :
    Cuts before list text ↔ list = segments before.getLast? text :=
  ⟨Cuts.eq_segments, fun h => h ▸ cuts_segments before text⟩

/-! ## Tokens and errors -/

def Segment.isFault : Segment → Bool
  | fault _ _ => true
  | _ => false

theorem filterMap_error?_eq_nil_iff {before : List Char} {list : List Segment} :
    (located before list).filterMap Tokens.error? = [] ↔ list.any Segment.isFault = false := by
  induction list generalizing before with
  | nil => simp [located]
  | cons segment list ih => cases segment <;> simp_all [located, Tokens.error?, Segment.isFault]

theorem Tokens.scan_eq (source : String) :
    scan source =
      if (segments none source.toList).any Segment.isFault then
        .error ((located [] (segments none source.toList)).filterMap error?)
      else
        .ok ⟨(located [] (segments none source.toList)).filterMap token?, Position.behind source.toList⟩ := by
  have hplaced := placed_behind [] (segments none source.toList)
  have hfinish := Position.after_behind [] source.toList
  have hstart : Position.start = Position.behind [] := rfl
  simp only [scan, hstart, hplaced, hfinish, List.nil_append]
  cases hfault : (segments none source.toList).any Segment.isFault with
  | false =>
      rw [filterMap_error?_eq_nil_iff.2 hfault]
      rfl
  | true =>
      rw [if_pos rfl]
      split
      case h_1 herrors =>
        rw [filterMap_error?_eq_nil_iff.1 herrors] at hfault
        cases hfault
      case h_2 => rfl

/-- The text that segments make up. -/
def Segment.join (list : List Segment) : String :=
  String.ofList (list.flatMap Segment.text)

theorem Segment.join_append {first second : List Segment} : join (first ++ second) = join first ++ join second := by
  rw [join, List.flatMap_append, String.ofList_append, join, join]

theorem Segment.join_segments (source : String) : join (segments none source.toList) = source := by
  rw [join, flatMap_text_segments, String.ofList_toList]

/-- A text is divided in one way into blanks, comments, spellings of tokens and faults, and never inside of an encoded
character. Scanning returns the tokens that are spelled, or one error for each fault if there are any, at the positions
where the text before them ends. -/
theorem Tokens.scanning_partitions_text (source : String) :
    ∃ list, (∀ other, Cuts [] other source.toList ↔ other = list) ∧
      (∀ n, Segment.join (list.take n) ++ Segment.join (list.drop n) = source ∧
        (Segment.join (list.take n)).rawEndPos.IsValid source) ∧
      scan source =
        if list.any Segment.isFault then .error ((located [] list).filterMap error?)
        else .ok ⟨(located [] list).filterMap token?, Position.behind source.toList⟩ := by
  refine ⟨segments none source.toList, fun other => cuts_iff, fun n => ?_, scan_eq source⟩
  have hjoin : Segment.join ((segments none source.toList).take n) ++
      Segment.join ((segments none source.toList).drop n) = source := by
    rw [← Segment.join_append, List.take_append_drop, Segment.join_segments]
  exact ⟨hjoin, String.Pos.Raw.isValid_iff_exists_append.2 ⟨_, _, hjoin.symm, rfl⟩⟩

-- Columns count characters, however many bytes these take.
example : Tokens.scan "\"é ü\n;é\n é \"(" =
    .error [⟨⟨1, 4⟩, .unexpectedCharacter 'ü'⟩, ⟨⟨3, 2⟩, .unexpectedCharacter 'é'⟩, ⟨⟨3, 4⟩, .emptyWord⟩] := by
  decide +kernel

end TurtleLogo
