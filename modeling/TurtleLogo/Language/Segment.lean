import TurtleLogo.Language.BuildError

/-!
# Segments of a source text

Scanning cuts a source text into segments, none empty, that make up the text again when joined: blanks,
comments, the spellings of tokens, and pieces that are no token. Which segment comes next depends on the text
ahead and on the one character before it, by which a minus sign knows whether it begins an operand.

* `Segment.next`: the segment at the head of a text;
* `segments`: all segments of a text;
* `Tokens.scan`: the tokens of a text with their positions, or all its scanning errors.
-/

namespace TurtleLogo

/-! ## Characters -/

/-- The characters that separate tokens. -/
def isBlank (c : Char) : Bool :=
  c = ' ' || c = '\t' || c = '\r' || c = '\n'

/-- The blanks of ASCII text, to which a form feed belongs besides those that separate tokens. -/
def isSpacing (c : Char) : Bool :=
  isBlank c || c = '\x0c'

/-- The characters of names. -/
def isNameChar (c : Char) : Bool :=
  c.isAlphanum || c = '_' || c = '.' || c = '?'

/-- The characters of numbers. -/
def isNumberChar (c : Char) : Bool :=
  c.isDigit || c = '.'

/-- The characters of quoted words: all but blanks, brackets and parentheses. -/
def isWordChar (c : Char) : Bool :=
  !(isBlank c || c = '[' || c = ']' || c = '(' || c = ')')

/-- Whether a minus sign after this character can begin an operand; `none` is the start of the text. -/
def opensOperand : Option Char → Bool
  | none => true
  | some c => isSpacing c || c = '[' || c = '('

/-- The signs of one character that begin no longer sign. -/
def signs : List (Char × Lexeme) :=
  [ ('+', .plus), ('*', .star), ('/', .slash), ('%', .percent), ('^', .caret), ('=', .equal),
    ('(', .openParen), (')', .closeParen), ('[', .openBracket), (']', .closeBracket) ]

/-! ## Segments -/

inductive Segment where
  /-- A character that separates tokens. -/
  | blank (c : Char)
  /-- A comment, from its semicolon to the end of the line. -/
  | comment (text : List Char)
  /-- A token as it is spelled. -/
  | lexeme (lexeme : Lexeme) (text : List Char)
  /-- A piece that is no token. -/
  | fault (cause : BuildError.Cause) (text : List Char)
  deriving DecidableEq, Repr

namespace Segment

/-- The piece of text that a segment covers. -/
def text : Segment → List Char
  | blank c => [c]
  | comment text => text
  | lexeme _ text => text
  | fault _ text => text

/-- A minus sign begins an operand when the character before it allows that and no blank follows. -/
def minus (previous : Option Char) (rest : List Char) : Lexeme :=
  match rest with
  | [] => .minus
  | c :: _ => if opensOperand previous && !isSpacing c then .negate else .minus

/-- The segment at the head of `c :: rest` when `previous` stands before it. -/
def next (previous : Option Char) (c : Char) (rest : List Char) : Segment :=
  if isBlank c then blank c
  else if c = ';' then comment (c :: rest.takeWhile (· ≠ '\n'))
  else if c = '-' then lexeme (minus previous rest) [c]
  else if c = '<' then
    match rest with
    | '=' :: _ => lexeme .lessEqual [c, '=']
    | '>' :: _ => lexeme .notEqual [c, '>']
    | _ => lexeme .less [c]
  else if c = '>' then
    match rest with
    | '=' :: _ => lexeme .greaterEqual [c, '=']
    | _ => lexeme .greater [c]
  else if c = '"' then
    match rest.takeWhile isWordChar with
    | [] => fault .emptyWord [c]
    | word => lexeme (.word (String.ofList word)) (c :: word)
  else if c = ':' then
    match rest.takeWhile isNameChar with
    | [] => fault .emptyVariable [c]
    | name => lexeme (.var (String.ofList name).toLower) (c :: name)
  else if c.isDigit || (c = '.' && (rest.head?.any Char.isDigit)) then
    let number := c :: rest.takeWhile isNumberChar
    lexeme (.number (String.ofList number)) number
  else if c.isAlpha || c = '_' then
    let name := c :: rest.takeWhile isNameChar
    lexeme (Lexeme.ofName (String.ofList name).toLower) name
  else
    match signs.lookup c with
    | some sign => lexeme sign [c]
    | none => fault (.unexpectedCharacter c) [c]

/-- A segment is the head of the text it was cut from. -/
theorem text_next_append (previous : Option Char) (c : Char) (rest : List Char) :
    (next previous c rest).text ++ rest.drop ((next previous c rest).text.length - 1) = c :: rest := by
  have cut (p : Char → Bool) : rest.takeWhile p ++ rest.drop (rest.takeWhile p).length = rest := by
    induction rest with
    | nil => rfl
    | cons d rest ih => by_cases h : p d <;> simp [h, ih]
  unfold next
  repeat' split
  all_goals simp_all [text]

theorem text_next_ne_nil (previous : Option Char) (c : Char) (rest : List Char) :
    (next previous c rest).text ≠ [] := by
  intro h
  have := text_next_append previous c rest
  simp [h] at this

end Segment

/-- The segments of a text that follows the character `previous`. -/
def segments (previous : Option Char) : List Char → List Segment
  | [] => []
  | c :: rest =>
      let segment := Segment.next previous c rest
      segment :: segments segment.text.getLast? (rest.drop (segment.text.length - 1))
termination_by text => text.length
decreasing_by simp only [List.length_drop, List.length_cons]; omega

/-- Nothing of a text is lost when it is cut into segments. -/
theorem flatMap_text_segments (previous : Option Char) (text : List Char) :
    (segments previous text).flatMap Segment.text = text := by
  fun_induction segments previous text with
  | case1 => rfl
  | case2 previous c rest segment ih =>
      simp only [List.flatMap_cons, ih]
      exact Segment.text_next_append previous c rest

/-- Segments with their positions, the first at `pos`. -/
def placed (pos : Position) : List Segment → List (Position × Segment)
  | [] => []
  | segment :: rest => (pos, segment) :: placed (pos.after segment.text) rest

namespace Tokens

/-- The token that a segment spells. -/
def token? : Position × Segment → Option Token
  | (pos, .lexeme lexeme _) => some { lexeme, pos }
  | _ => none

/-- The error that a segment is. -/
def error? : Position × Segment → Option BuildError
  | (pos, .fault cause _) => some { pos, cause }
  | _ => none

/-- The tokens of a source text, or every error of scanning it, in the order of the text. -/
def scan (source : String) : Except (List BuildError) Tokens :=
  let pieces := placed Position.start (segments none source.toList)
  match pieces.filterMap error? with
  | [] => .ok { list := pieces.filterMap token?, finish := Position.start.after source.toList }
  | errors => .error errors

end Tokens
end TurtleLogo
