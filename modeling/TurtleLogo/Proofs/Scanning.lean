import TurtleLogo.Language.Grammar
import TurtleLogo.Language.Segment

/-!
# What scanning makes of a text

* `Tokens.plain_of_scan`: the word `to` is never an ordinary name;
* `Segment.lexemes?`: the lexemes of some segments, if none of these is a fault. A text is scanned without an error if and
  only if its segments have lexemes, and these are the lexemes of its tokens (`Tokens.exists_scan`,
  `Tokens.lexemes?_of_scan`), so that texts can be compared without their positions;
* `segments_append_newline`: a line break ends every segment, and what stands before it is cut as if nothing followed;
* `segments_congr`: of what stands before a text it matters only whether a minus sign can begin an operand there.
-/

namespace TurtleLogo

/-- No token is the name `to`. -/
def Grammar.Plain (tokens : List Token) : Prop :=
  ∀ token ∈ tokens, token.lexeme ≠ .ident "to"

/-! ## Names of tokens -/

namespace Segment

theorem ofName_ne_ident_to (name : String) : Lexeme.ofName name ≠ .ident "to" := by
  unfold Lexeme.ofName
  repeat' split
  all_goals simp_all

theorem minus_ne_ident (previous : Option Char) (rest : List Char) (name : String) :
    minus previous rest ≠ .ident name := by
  unfold minus
  repeat' split
  all_goals simp

theorem sign_ne_ident {c : Char} {sign : Lexeme} (h : signs.lookup c = some sign) (name : String) :
    sign ≠ .ident name := by
  have hsigns : ∀ entry ∈ signs, entry.2 ≠ .ident name := by
    simp [signs]
  rcases List.lookup_eq_some_iff.1 h with ⟨before, after, hsplit, -⟩
  exact hsigns (c, sign) (by simp [hsplit])

/-- The name `to` is scanned as a keyword. -/
theorem lexeme_next_ne {previous : Option Char} {c : Char} {rest : List Char} {l : Lexeme} {text : List Char}
    (h : next previous c rest = .lexeme l text) : l ≠ .ident "to" := by
  unfold next at h
  repeat' split at h
  all_goals cases h
  all_goals
    first
      | exact sign_ne_ident ‹_› "to"
      | simp [ofName_ne_ident_to, minus_ne_ident]

end Segment

theorem lexeme_of_mem_segments {P : Lexeme → Prop}
    (hnext : ∀ {previous c rest l text}, Segment.next previous c rest = .lexeme l text → P l)
    {previous : Option Char} {source : List Char} {l : Lexeme} {text : List Char}
    (h : .lexeme l text ∈ segments previous source) : P l := by
  fun_induction segments previous source with
  | case1 => cases h
  | case2 previous c rest segment ih =>
      rcases List.mem_cons.1 h with h | h
      · exact hnext h.symm
      · exact ih h

theorem mem_of_mem_placed {pos pos' : Position} {segment : Segment} {list : List Segment}
    (h : (pos', segment) ∈ placed pos list) : segment ∈ list := by
  induction list generalizing pos with
  | nil => cases h
  | cons first list ih =>
      rcases List.mem_cons.1 h with h | h
      · cases h
        exact List.mem_cons_self
      · exact List.mem_cons_of_mem first (ih h)

/-- What holds of every lexeme that can come next in a text holds of the tokens of a text. -/
theorem Tokens.forall_of_scan {P : Lexeme → Prop}
    (hnext : ∀ {previous c rest l text}, Segment.next previous c rest = .lexeme l text → P l)
    {source : String} {tokens : Tokens} (h : Tokens.scan source = .ok tokens) : ∀ token ∈ tokens.list, P token.lexeme := by
  simp only [scan] at h
  split at h
  · cases h
    intro token hmem
    rcases List.mem_filterMap.1 hmem with ⟨⟨pos, segment⟩, hplaced, htoken⟩
    cases segment with
    | lexeme l text =>
        cases htoken
        exact lexeme_of_mem_segments hnext (mem_of_mem_placed hplaced)
    | _ =>
        cases htoken
  · cases h

theorem Tokens.plain_of_scan {source : String} {tokens : Tokens} (h : Tokens.scan source = .ok tokens) :
    Grammar.Plain tokens.list :=
  forall_of_scan Segment.lexeme_next_ne h

/-! ## Lexemes of segments -/

/-- The lexemes of the segments, if none of these is a fault. -/
def Segment.lexemes? : List Segment → Option (List Lexeme)
  | [] => some []
  | .fault _ _ :: _ => none
  | .lexeme l _ :: rest => (Segment.lexemes? rest).map (l :: ·)
  | .blank _ :: rest => Segment.lexemes? rest
  | .comment _ :: rest => Segment.lexemes? rest

namespace Segment

theorem lexemes?_append (first second : List Segment) :
    lexemes? (first ++ second) = (lexemes? first).bind fun ls => (lexemes? second).map (ls ++ ·) := by
  induction first with
  | nil => simp [lexemes?]
  | cons segment first ih =>
      cases segment with
      | lexeme l text =>
          simp only [List.cons_append, lexemes?, ih]
          cases lexemes? first <;> cases lexemes? second <;> rfl
      | _ => simp [lexemes?, ih]

theorem placed_of_lexemes? {list : List Segment} {ls : List Lexeme} (h : lexemes? list = some ls) (pos : Position) :
    (placed pos list).filterMap Tokens.error? = [] ∧
      ((placed pos list).filterMap Tokens.token?).map Token.lexeme = ls := by
  induction list generalizing pos ls with
  | nil =>
      cases h
      exact ⟨rfl, rfl⟩
  | cons segment list ih =>
      cases segment with
      | fault =>
          cases h
      | lexeme l text =>
          rcases Option.map_eq_some_iff.1 h with ⟨ls, hls, rfl⟩
          rcases ih hls (pos.after text) with ⟨herrors, htokens⟩
          exact ⟨herrors, congrArg (l :: ·) htokens⟩
      | blank c =>
          exact ih h (pos.after [c])
      | comment text =>
          exact ih h (pos.after text)

theorem exists_lexemes? {list : List Segment} {pos : Position} (h : (placed pos list).filterMap Tokens.error? = []) :
    ∃ ls, lexemes? list = some ls := by
  induction list generalizing pos with
  | nil =>
      exact ⟨[], rfl⟩
  | cons segment list ih =>
      cases segment with
      | fault =>
          cases h
      | lexeme l text =>
          rcases ih h with ⟨ls, hls⟩
          exact ⟨l :: ls, by simp [lexemes?, hls]⟩
      | blank | comment =>
          exact ih h

end Segment

theorem Tokens.exists_scan {source : String} {ls : List Lexeme}
    (h : Segment.lexemes? (segments none source.toList) = some ls) :
    ∃ tokens, Tokens.scan source = .ok tokens ∧ tokens.list.map Token.lexeme = ls := by
  rcases Segment.placed_of_lexemes? h Position.start with ⟨herrors, htokens⟩
  refine ⟨⟨_, Position.start.after source.toList⟩, ?_, htokens⟩
  simp only [scan, herrors]

theorem Tokens.lexemes?_of_scan {source : String} {tokens : Tokens} (h : Tokens.scan source = .ok tokens) :
    Segment.lexemes? (segments none source.toList) = some (tokens.list.map Token.lexeme) := by
  simp only [scan] at h
  split at h
  · rename_i herrors
    cases h
    rcases Segment.exists_lexemes? herrors with ⟨ls, hls⟩
    rw [hls, (Segment.placed_of_lexemes? hls Position.start).2]
  · cases h

/-! ## Longest pieces -/

/-- A longest piece of characters of a class: the text has no others, and what is after it does not begin with one. -/
structure Stretch (p : Char → Bool) (text after : List Char) : Prop where
  within : ∀ c ∈ text, p c = true
  ends : ∀ c ∈ after.head?, p c = false

theorem Stretch.takeWhile_eq {p : Char → Bool} {text after : List Char} (h : Stretch p text after) :
    (text ++ after).takeWhile p = text := by
  rw [List.takeWhile_append_of_pos h.within]
  cases after with
  | nil => simp
  | cons c after => simp [h.ends c rfl]

/-! ## Texts joined by a line break -/

theorem takeWhile_append_stop {p : Char → Bool} {d : Char} (hd : p d = false) (s t : List Char) :
    (s ++ d :: t).takeWhile p = s.takeWhile p := by
  induction s with
  | nil => simp [hd]
  | cons c s ih => cases hc : p c <;> simp [hc, ih]

namespace Segment

theorem next_append_newline (previous : Option Char) (c : Char) (rest more : List Char) :
    next previous c (rest ++ '\n' :: more) = next previous c rest := by
  have hcomment := takeWhile_append_stop (p := fun d => decide (d ≠ '\n')) (d := '\n') (by decide) rest more
  have hword := takeWhile_append_stop (p := isWordChar) (d := '\n') (by decide) rest more
  have hname := takeWhile_append_stop (p := isNameChar) (d := '\n') (by decide) rest more
  have hnumber := takeWhile_append_stop (p := isNumberChar) (d := '\n') (by decide) rest more
  cases rest with
  | nil =>
      simp only [List.nil_append] at hcomment hword hname hnumber
      simp only [next, List.nil_append, hcomment, hword, hname, hnumber, minus]
      simp [isSpacing, isBlank]
  | cons d rest =>
      simp only [List.cons_append] at hcomment hword hname hnumber
      simp only [next, List.cons_append, hcomment, hword, hname, hnumber, minus, List.head?_cons]
      -- Only the longer signs look at a character of the rest itself.
      by_cases hequal : d = '='
      · subst hequal
        rfl
      · by_cases hgreater : d = '>'
        · subst hgreater
          rfl
        · simp [hequal, hgreater]

theorem next_congr {previous previous' : Option Char} (h : opensOperand previous = opensOperand previous') (c : Char)
    (rest : List Char) : next previous c rest = next previous' c rest := by
  unfold next minus
  rw [h]

/-- The rest of a text after its first segment. -/
theorem length_text_next_le (previous : Option Char) (c : Char) (rest : List Char) :
    (next previous c rest).text.length - 1 ≤ rest.length := by
  have hlength := congrArg List.length (text_next_append previous c rest)
  simp only [List.length_append, List.length_drop, List.length_cons] at hlength
  omega

end Segment

theorem segments_cons (previous : Option Char) (c : Char) (rest : List Char) :
    segments previous (c :: rest) =
      Segment.next previous c rest ::
        segments (Segment.next previous c rest).text.getLast?
          (rest.drop ((Segment.next previous c rest).text.length - 1)) := by
  rw [segments]

/-- A segment of one character. -/
theorem segments_cons_of_single {previous : Option Char} {c : Char} {rest : List Char} {segment : Segment}
    (h : Segment.next previous c rest = segment) (htext : segment.text = [c]) :
    segments previous (c :: rest) = segment :: segments (some c) rest := by
  rw [segments_cons, h, htext]
  rfl

theorem segments_congr {previous previous' : Option Char} (h : opensOperand previous = opensOperand previous')
    (text : List Char) : segments previous text = segments previous' text := by
  cases text with
  | nil => simp [segments]
  | cons c rest => rw [segments_cons, segments_cons, Segment.next_congr h]

theorem segments_space (previous : Option Char) (rest : List Char) :
    segments previous (' ' :: rest) = .blank ' ' :: segments none rest := by
  rw [← segments_congr (show opensOperand (some ' ') = opensOperand none from rfl)]
  exact segments_cons_of_single rfl rfl

theorem segments_openParen (previous : Option Char) (rest : List Char) :
    segments previous ('(' :: rest) = .lexeme .openParen ['('] :: segments none rest := by
  rw [← segments_congr (show opensOperand (some '(') = opensOperand none from rfl)]
  exact segments_cons_of_single rfl rfl

theorem segments_closeParen (previous : Option Char) (rest : List Char) :
    segments previous (')' :: rest) = .lexeme .closeParen [')'] :: segments (some ')') rest :=
  segments_cons_of_single rfl rfl

theorem segments_append_newline (previous : Option Char) (text more : List Char) :
    segments previous (text ++ '\n' :: more) =
      segments previous text ++ .blank '\n' :: segments (some '\n') more := by
  fun_induction segments previous text with
  | case1 previous =>
      exact segments_cons_of_single rfl rfl
  | case2 previous c rest segment ih =>
      have hdrop : (rest ++ '\n' :: more).drop (segment.text.length - 1) =
          rest.drop (segment.text.length - 1) ++ '\n' :: more :=
        List.drop_append_of_le_length (Segment.length_text_next_le previous c rest)
      rw [List.cons_append, segments_cons, Segment.next_append_newline, hdrop, ih]
      rfl

end TurtleLogo
