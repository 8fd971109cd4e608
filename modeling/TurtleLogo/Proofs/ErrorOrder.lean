import Mathlib.Data.Prod.Lex
import TurtleLogo.Proofs.Relocation

/-!
# Errors in the order of the text

Each phase reports all the errors it finds, in the order of the text, and only the first phase that finds one reports any:

* scanning: a text has its segments one after the other, so that the places of faults ascend, as do those of tokens
  (`Tokens.ordered_of_scan`);
* parsing: an error blames the token that is ahead when it arises, or one that was ahead before it was skipped (`Blames`).
  Reading goes on behind that token or at it, and never before it (`errors_of_statements`);
* building: each bad literal is a token of its own, and trees are built in the order of the tokens that spell them
  (`Command.listLocated`).
-/

namespace TurtleLogo

/-! ## Positions in order -/

namespace Position

/-- Positions are compared by their lines, and by their columns within a line. -/
def key (p : Position) : ℕ ×ₗ ℕ :=
  toLex (p.line, p.column)

theorem key_lt_next (p : Position) (c : Char) : p.key < (p.next c).key := by
  rw [key, key, Prod.Lex.toLex_lt_toLex]
  by_cases hc : c = '\n'
  · exact .inl (by simp [next, hc])
  · exact .inr (by simp [next, hc])

theorem key_le_after (p : Position) (text : List Char) : p.key ≤ (p.after text).key := by
  induction text generalizing p with
  | nil => exact le_refl _
  | cons c text ih => exact ((p.key_lt_next c).le).trans (ih (p.next c))

theorem key_lt_after (p : Position) {text : List Char} (h : text ≠ []) : p.key < (p.after text).key := by
  cases text with
  | nil => exact absurd rfl h
  | cons c text => exact (p.key_lt_next c).trans_le ((p.next c).key_le_after text)

end Position

namespace BuildError.Cause

/-- The letter of the phase that finds an error. -/
def phase : Cause → Char
  | unexpectedCharacter _ | emptyWord | emptyVariable => 'L'
  | malformedColour _ | unknownColour _ | malformedNumber _ => 'B'
  | _ => 'P'

theorem head?_code (cause : Cause) : cause.code.toList.head? = some cause.phase := by
  unfold code phase
  cases cause <;> simp

end BuildError.Cause

/-! ## Scanning -/

theorem key_le_of_mem_placed {pos : Position} {list : List Segment} {piece : Position × Segment}
    (h : piece ∈ placed pos list) : pos.key ≤ piece.1.key := by
  induction list generalizing pos with
  | nil => cases h
  | cons segment list ih =>
      rcases List.mem_cons.1 h with rfl | h
      · exact le_refl _
      · exact (pos.key_le_after segment.text).trans (ih h)

theorem exists_next_of_mem_segments {previous : Option Char} {text : List Char} {segment : Segment}
    (h : segment ∈ segments previous text) : ∃ before c rest, segment = Segment.next before c rest := by
  fun_induction segments previous text with
  | case1 => cases h
  | case2 previous c rest first ih =>
      rcases List.mem_cons.1 h with rfl | h
      · exact ⟨previous, c, rest, rfl⟩
      · exact ih h

theorem text_ne_nil_of_mem_segments {previous : Option Char} {text : List Char} {segment : Segment}
    (h : segment ∈ segments previous text) : segment.text ≠ [] := by
  rcases exists_next_of_mem_segments h with ⟨before, c, rest, rfl⟩
  exact Segment.text_next_ne_nil before c rest

theorem Segment.phase_of_next_eq_fault {before : Option Char} {c : Char} {rest : List Char} {cause : BuildError.Cause}
    {text : List Char} (h : .fault cause text = next before c rest) : cause.phase = 'L' := by
  unfold next at h
  repeat' split at h
  all_goals cases h
  all_goals rfl

theorem placed_ascends {list : List Segment} (h : ∀ segment ∈ list, segment.text ≠ []) (pos : Position) :
    (placed pos list).Pairwise fun a b => a.1.key < b.1.key := by
  induction list generalizing pos with
  | nil => exact .nil
  | cons segment list ih =>
      rcases List.forall_mem_cons.1 h with ⟨hsegment, hlist⟩
      refine .cons (fun piece hpiece => ?_) (ih hlist _)
      exact (pos.key_lt_after hsegment).trans_le (key_le_of_mem_placed hpiece)

theorem key_lt_finish {list : List Segment} (h : ∀ segment ∈ list, segment.text ≠ []) {pos : Position}
    {piece : Position × Segment} (hpiece : piece ∈ placed pos list) :
    piece.1.key < (pos.after (list.flatMap Segment.text)).key := by
  induction list generalizing pos with
  | nil => cases hpiece
  | cons segment list ih =>
      rcases List.forall_mem_cons.1 h with ⟨hsegment, hlist⟩
      rw [List.flatMap_cons, Position.after_append]
      rcases List.mem_cons.1 hpiece with rfl | hpiece
      · exact (pos.key_lt_after hsegment).trans_le (Position.key_le_after _ _)
      · exact ih hlist hpiece

namespace Grammar

/-- The positions of the tokens ascend, and all come before the end of the text. -/
structure Ordered (finish : Position) (tokens : List Token) : Prop where
  ascends : tokens.Pairwise fun a b => a.pos.key < b.pos.key
  finish : ∀ token ∈ tokens, token.pos.key < finish.key

end Grammar

namespace Tokens

theorem eq_of_token? {piece : Position × Segment} {token : Token} (h : token? piece = some token) :
    token.pos = piece.1 := by
  rcases piece with ⟨pos, segment⟩
  cases segment with
  | lexeme =>
      cases h
      rfl
  | _ => cases h

theorem eq_of_error? {previous : Option Char} {text : List Char} {start : Position} {piece : Position × Segment}
    {e : BuildError} (hmem : piece ∈ placed start (segments previous text)) (h : error? piece = some e) :
    e.pos = piece.1 ∧ e.cause.phase = 'L' := by
  rcases piece with ⟨pos, segment⟩
  cases segment with
  | fault cause faulty =>
      cases h
      rcases exists_next_of_mem_segments (mem_of_mem_placed hmem) with ⟨before, c, rest, hfault⟩
      exact ⟨rfl, Segment.phase_of_next_eq_fault hfault⟩
  | _ => cases h

theorem ordered_of_scan {source : String} {tokens : Tokens} (h : scan source = .ok tokens) :
    Grammar.Ordered tokens.finish tokens.list := by
  rcases of_scan h with ⟨-, htokens, hfinish⟩
  have htexts : ∀ segment ∈ segments none source.toList, segment.text ≠ [] :=
    fun _ hmem => text_ne_nil_of_mem_segments hmem
  constructor
  · rw [← htokens]
    refine (placed_ascends htexts .start).filterMap token? fun a b hab first hfirst second hsecond => ?_
    rwa [eq_of_token? hfirst, eq_of_token? hsecond]
  · intro token hmem
    rw [← htokens] at hmem
    rcases List.mem_filterMap.1 hmem with ⟨piece, hpiece, htoken⟩
    have hlt := key_lt_finish htexts hpiece
    rwa [flatMap_text_segments, hfinish, ← eq_of_token? htoken] at hlt

/-- The errors of scanning a text come in its order. -/
theorem errors_of_scan {source : String} {errors : List BuildError} (h : scan source = .error errors) :
    errors ≠ [] ∧ (∀ e ∈ errors, e.cause.phase = 'L') ∧ errors.Pairwise fun a b => a.pos.key < b.pos.key := by
  simp only [scan] at h
  split at h
  · cases h
  · rename_i herrors
    cases h
    refine ⟨fun hnil => herrors (by simpa using hnil), fun e hmem => ?_, ?_⟩
    · rcases List.mem_filterMap.1 hmem with ⟨piece, hpiece, he⟩
      exact (eq_of_error? hpiece he).2
    · have hnonempty : ∀ segment ∈ segments none source.toList, segment.text ≠ [] :=
        fun _ hmem => text_ne_nil_of_mem_segments hmem
      have hascends := placed_ascends hnonempty .start
      refine (List.pairwise_filterMap.2 (hascends.imp_of_mem ?_))
      intro a b ha hb hab first hfirst second hsecond
      rwa [(eq_of_error? ha hfirst).1, (eq_of_error? hb hsecond).1]

end Tokens

/-! ## Parsing -/

namespace Grammar

open Surface

/-- An error blames a token ahead of some of the tokens, and leaves none from before it. -/
def Blaming {α : Type} (env : Env) (tokens : List Token) : EStateM.Result BuildError (List Token) α → Prop
  | .ok _ rest => rest <:+ tokens
  | .error e left => e.cause.phase = 'P' ∧ ∃ blamed, blamed <:+ tokens ∧ left <:+ blamed ∧ e.pos = env.here blamed

/-- The errors of a production are found in its tokens. -/
def Blames {α : Type} (env : Env) (p : Parser α) : Prop :=
  ∀ tokens, Blaming env tokens (p tokens)

section

variable {α β : Type} {env : Env} {tokens : List Token}

theorem Blaming.mono {rest : List Token} {result : EStateM.Result BuildError (List Token) α} (h : Blaming env rest result)
    (hsuffix : rest <:+ tokens) : Blaming env tokens result := by
  cases result with
  | ok a left => exact h.trans hsuffix
  | error e left =>
      rcases h with ⟨hphase, blamed, hblamed, hleft, hpos⟩
      exact ⟨hphase, blamed, hblamed.trans hsuffix, hleft, hpos⟩

/-- An error at the token ahead, which may have been skipped. -/
theorem Blaming.here {e : BuildError} {left : List Token} (hphase : e.cause.phase = 'P') (hleft : left <:+ tokens)
    (hpos : e.pos = env.here tokens) : Blaming env tokens (.error e left : EStateM.Result BuildError (List Token) α) :=
  ⟨hphase, tokens, List.suffix_rfl, hleft, hpos⟩

namespace Blames

theorem bind {p : Parser α} {f : α → Parser β} (hp : Blames env p) (hf : ∀ a, Blames env (f a)) :
    Blames env (p >>= f) := by
  intro tokens
  have hfirst := hp tokens
  simp only [Bind.bind, EStateM.bind]
  cases hresult : p tokens with
  | error e left =>
      rw [hresult] at hfirst
      exact hfirst
  | ok a rest =>
      rw [hresult] at hfirst
      exact (hf a rest).mono hfirst

theorem pure (a : α) : Blames env (Pure.pure a : Parser α) :=
  fun _ => List.suffix_rfl

theorem map {p : Parser α} (hp : Blames env p) (f : α → β) : Blames env (p >>= fun a => Pure.pure (f a)) :=
  hp.bind fun a => .pure (f a)

theorem fail {cause : Option Lexeme → BuildError.Cause} (hcause : ∀ found, (cause found).phase = 'P') :
    Blames env (Grammar.fail env cause : Parser α) :=
  fun _ => .here (hcause _) List.suffix_rfl rfl

theorem reject {cause : Option Lexeme → BuildError.Cause} (hcause : ∀ found, (cause found).phase = 'P') :
    Blames env (Grammar.reject env cause : Parser α) :=
  fun tokens => .here (hcause _) (List.tail_suffix tokens) rfl

theorem expect (wanted : Lexeme) : Blames env (Grammar.expect env wanted) := by
  intro tokens
  unfold Grammar.expect
  split
  · exact List.tail_suffix tokens
  · exact fail (fun _ => rfl) tokens

theorem closing {p : Parser α} (hp : Blames env p) (wanted : Lexeme) (f : α → β) :
    Blames env (p >>= fun a => Grammar.expect env wanted >>= fun _ => Pure.pure (f a)) :=
  hp.bind fun _ => (expect wanted).map _

end Blames

end

/-- What holds of the expression productions with a certain depth. -/
structure ExpressionsBlame (env : Env) (depth : Nat) : Prop where
  chain (level : Level) : Blames env (chain env depth level)
  chainFrom (level : Level) (left : Expr) : Blames env (chainFrom env depth level left)
  operand (level : Level) : Blames env (operand env depth level)
  signed : Blames env (signed env depth)
  power : Blames env (power env depth)
  primary : Blames env (primary env depth)
  expressions (count : Nat) : Blames env (expressions env depth count)
  expressionsToParen : Blames env (expressionsToParen env depth)

namespace ExpressionsBlame

variable {env : Env} {depth : Nat}

theorem zero : ExpressionsBlame env 0 where
  chain _ := .fail fun _ => rfl
  chainFrom _ _ := .fail fun _ => rfl
  operand _ := .fail fun _ => rfl
  signed := .fail fun _ => rfl
  power := .fail fun _ => rfl
  primary := .fail fun _ => rfl
  expressions _ := .fail fun _ => rfl
  expressionsToParen := .fail fun _ => rfl

theorem chainFrom_succ (h : ExpressionsBlame env depth) (level : Level) (left : Expr) :
    Blames env (Grammar.chainFrom env (depth + 1) level left) := by
  intro tokens
  simp only [Grammar.chainFrom]
  split
  · exact List.suffix_rfl
  · rename_i op hop
    exact ((h.operand level).bind (fun right => h.chainFrom level _) tokens.tail).mono (List.tail_suffix tokens)

theorem operand_succ (h : ExpressionsBlame env depth) (level : Level) :
    Blames env (Grammar.operand env (depth + 1) level) := by
  cases level with
  | comparison => exact h.chain .additive
  | additive => exact h.chain .multiplicative
  | multiplicative => exact h.signed

theorem signed_succ (h : ExpressionsBlame env depth) : Blames env (Grammar.signed env (depth + 1)) := by
  intro tokens
  simp only [Grammar.signed]
  split
  · exact (h.signed.map _ tokens.tail).mono (List.tail_suffix tokens)
  · exact h.power tokens

theorem power_succ (h : ExpressionsBlame env depth) : Blames env (Grammar.power env (depth + 1)) := by
  refine h.primary.bind fun base tokens => ?_
  split
  · exact (h.signed.map _ tokens.tail).mono (List.tail_suffix tokens)
  · exact List.suffix_rfl

theorem primary_succ (h : ExpressionsBlame env depth) : Blames env (Grammar.primary env (depth + 1)) := by
  intro tokens
  simp only [Grammar.primary]
  split
  · exact List.suffix_cons _ _
  · exact List.suffix_cons _ _
  · exact (List.suffix_cons _ _).trans (List.suffix_cons _ _)
  · rename_i pos rest hword
    exact (Blames.reject (fun _ => rfl) rest).mono (List.suffix_cons _ rest)
  · rename_i pos rest
    split
    · rename_i op hop
      have hinside := h.expressionsToParen.closing .closeParen (Expr.apply op · pos) rest.tail
      exact hinside.mono ((List.tail_suffix rest).trans (List.suffix_cons _ rest))
    · exact ((h.chain .comparison).closing .closeParen (Expr.group · pos) rest).mono (List.suffix_cons _ rest)
  · rename_i word pos rest
    split
    · exact ((h.expressions _).map _ rest).mono (List.suffix_cons _ rest)
    · split
      · exact .here rfl List.suffix_rfl rfl
      · exact .here rfl List.suffix_rfl rfl
  · exact Blames.fail (fun _ => rfl) tokens

theorem expressions_succ (h : ExpressionsBlame env depth) (count : Nat) :
    Blames env (Grammar.expressions env (depth + 1) count) := by
  cases count with
  | zero => exact .pure []
  | succ count => exact (h.chain .comparison).bind fun first => (h.expressions count).map _

theorem expressionsToParen_succ (h : ExpressionsBlame env depth) :
    Blames env (Grammar.expressionsToParen env (depth + 1)) := by
  intro tokens
  simp only [Grammar.expressionsToParen]
  split
  · exact List.suffix_rfl
  · exact (h.chain .comparison).bind (fun first => h.expressionsToParen.map _) tokens

theorem all (env : Env) (depth : Nat) : ExpressionsBlame env depth := by
  induction depth with
  | zero =>
      exact zero
  | succ depth h =>
      exact
        { chain := fun level => (h.operand level).bind fun first => h.chainFrom level first
          chainFrom := h.chainFrom_succ
          operand := h.operand_succ
          signed := h.signed_succ
          power := h.power_succ
          primary := h.primary_succ
          expressions := h.expressions_succ
          expressionsToParen := h.expressionsToParen_succ }

end ExpressionsBlame

theorem expression_blames (env : Env) (depth : Nat) : Blames env (expression env depth) :=
  (ExpressionsBlame.all env depth).chain .comparison

theorem expressionsAhead_blames (env : Env) (depth : Nat) : Blames env (expressionsAhead env depth) := by
  induction depth with
  | zero =>
      exact .fail fun _ => rfl
  | succ depth ih =>
      intro tokens
      simp only [expressionsAhead]
      split
      · exact (expression_blames env depth).bind (fun first => ih.map _) tokens
      · exact List.suffix_rfl

theorem callArguments_blames (env : Env) (depth : Nat) (name : String) : Blames env (callArguments env depth name) := by
  unfold callArguments
  cases env.paramCount? name with
  | some count => exact (ExpressionsBlame.all env depth).expressions count
  | none => exact expressionsAhead_blames env depth

theorem wordArgument_blames (env : Env) : Blames env (wordArgument env) := by
  intro tokens
  unfold wordArgument
  split
  · exact List.suffix_cons _ _
  · exact Blames.reject (fun _ => rfl) tokens

theorem pointArgument_blames (env : Env) (depth : Nat) : Blames env (pointArgument env depth) :=
  (Blames.expect .openBracket).bind fun _ => (expression_blames env depth).bind fun x =>
    (expression_blames env depth).closing .closeBracket (Argument.point x)

theorem conditionArgument_blames (env : Env) (depth : Nat) : Blames env (conditionArgument env depth) := by
  intro tokens
  unfold conditionArgument
  split
  · exact ((expression_blames env depth).closing .closeBracket Argument.value tokens.tail).mono (List.tail_suffix tokens)
  · exact (expression_blames env depth).map Argument.value tokens

theorem colourArgument_blames (env : Env) (depth : Nat) : Blames env (colourArgument env depth) := by
  intro tokens
  unfold colourArgument
  split
  · exact List.suffix_cons _ _
  · rename_i first rest
    have hchannels : Blames env _ := (expression_blames env depth).bind fun red => (expression_blames env depth).bind
      fun green => (expression_blames env depth).closing .closeBracket fun blue => Argument.colour (.rgb red green blue)
    exact (hchannels rest).mono (List.suffix_cons _ rest)
  · exact (expression_blames env depth).map (fun index => Argument.colour (.index index)) tokens

/-- What holds of the statement productions with a certain depth. -/
structure StatementsBlame (env : Env) (depth : Nat) : Prop where
  statement : Blames env (statement env depth)
  statementsTo (closing : Lexeme) : Blames env (statementsTo env closing depth)
  block : Blames env (block env depth)
  argument (form : ArgumentForm) : Blames env (argument env depth form)
  arguments (forms : List ArgumentForm) : Blames env (arguments env depth forms)

namespace StatementsBlame

variable {env : Env} {depth : Nat}

theorem zero : StatementsBlame env 0 where
  statement := .fail fun _ => rfl
  statementsTo _ := .fail fun _ => rfl
  block := .fail fun _ => rfl
  argument _ := .fail fun _ => rfl
  arguments _ := .fail fun _ => rfl

theorem statement_succ (h : StatementsBlame env depth) : Blames env (Grammar.statement env (depth + 1)) := by
  intro tokens
  simp only [Grammar.statement]
  split
  · exact .here rfl List.suffix_rfl rfl
  · rename_i word pos rest
    split
    · exact ((h.arguments _).map _ rest).mono (List.suffix_cons _ rest)
    · split
      · exact .here rfl (List.suffix_cons _ rest) rfl
      · exact ((callArguments_blames env depth word).map _ rest).mono (List.suffix_cons _ rest)
  · exact Blames.fail (fun _ => rfl) tokens

theorem statementsTo_succ (h : StatementsBlame env depth) (closing : Lexeme) :
    Blames env (Grammar.statementsTo env closing (depth + 1)) := by
  intro tokens
  simp only [Grammar.statementsTo]
  split
  · exact List.suffix_rfl
  · exact h.statement.bind (fun first => (h.statementsTo closing).map _) tokens

theorem argument_succ (h : StatementsBlame env depth) (form : ArgumentForm) :
    Blames env (Grammar.argument env (depth + 1) form) := by
  cases form with
  | value => exact (expression_blames env depth).map Argument.value
  | condition => exact conditionArgument_blames env depth
  | block => exact h.block
  | point => exact pointArgument_blames env depth
  | colour => exact colourArgument_blames env depth
  | word => exact wordArgument_blames env

theorem arguments_succ (h : StatementsBlame env depth) (forms : List ArgumentForm) :
    Blames env (Grammar.arguments env (depth + 1) forms) := by
  cases forms with
  | nil => exact .pure []
  | cons form forms => exact (h.argument form).bind fun first => (h.arguments forms).map _

theorem all (env : Env) (depth : Nat) : StatementsBlame env depth := by
  induction depth with
  | zero =>
      exact zero
  | succ depth h =>
      exact
        { statement := h.statement_succ
          statementsTo := h.statementsTo_succ
          block := (Blames.expect .openBracket).bind fun _ =>
            (h.statementsTo .closeBracket).closing .closeBracket Argument.block
          argument := h.argument_succ
          arguments := h.arguments_succ }

end StatementsBlame

theorem procedureName_blames (env : Env) : Blames env (procedureName env) := by
  intro tokens
  unfold procedureName
  split
  · split
    · exact Blames.reject (fun _ => rfl) tokens
    · exact List.tail_suffix tokens
  · split <;> exact Blames.reject (fun _ => rfl) tokens
  · exact Blames.reject (fun _ => rfl) tokens

theorem params_blames (env : Env) : Blames env params :=
  fun _ => List.dropWhile_suffix isVar

theorem definition_blames (env : Env) (depth : Nat) (pos : Position) : Blames env (definition env depth pos) :=
  (procedureName_blames env).bind fun _ => (params_blames env).bind fun _ =>
    ((StatementsBlame.all env depth).statementsTo .endKeyword).closing .endKeyword _

theorem topStatement_blames (env : Env) (depth : Nat) : Blames env (topStatement env depth) := by
  intro tokens
  unfold topStatement
  split
  · rename_i pos rest
    exact (definition_blames env depth pos rest).mono (List.suffix_cons _ rest)
  · exact (StatementsBlame.all env depth).statement tokens

/-! ## Rounds of parsing -/

namespace Ordered

variable {env : Env} {tokens rest : List Token}

theorem of_suffix (h : Ordered env.finish tokens) (hsuffix : rest <:+ tokens) : Ordered env.finish rest where
  ascends := h.ascends.sublist hsuffix.sublist
  finish token hmem := h.finish token (hsuffix.subset hmem)

/-- What is ahead later stands further on. -/
theorem here_le (h : Ordered env.finish tokens) (hsuffix : rest <:+ tokens) :
    (env.here tokens).key ≤ (env.here rest).key := by
  cases tokens with
  | nil =>
      cases List.suffix_nil.1 hsuffix
      exact le_refl _
  | cons token tokens =>
      rcases List.suffix_cons_iff.1 hsuffix with rfl | hsuffix
      · exact le_refl _
      cases rest with
      | nil => exact (h.finish token List.mem_cons_self).le
      | cons next rest =>
          exact ((List.pairwise_cons.1 h.ascends).1 next (hsuffix.subset List.mem_cons_self)).le

end Ordered

/-- The first round of reading goes on with fewer tokens, and its error is found before them. -/
theorem firstOutcome_blames (env : Env) (tokens : List Token) :
    (firstOutcome env tokens).2 <:+ tokens ∧ ∀ e, (firstOutcome env tokens).1 = .error e →
      e.cause.phase = 'P' ∧ ∃ blamed, blamed <:+ tokens ∧ (firstOutcome env tokens).2 <:+ blamed ∧
        e.pos = env.here blamed := by
  have hblames := topStatement_blames env (depthFor tokens) tokens
  unfold firstOutcome
  cases hresult : topStatement env (depthFor tokens) tokens with
  | ok s left =>
      rw [hresult] at hblames
      exact ⟨hblames, fun e he => nomatch he⟩
  | error e left =>
      rw [hresult] at hblames
      rcases hblames with ⟨hphase, blamed, hblamed, hleft, hpos⟩
      have hrecover : recover env left <:+ blamed := (List.dropWhile_suffix _).trans hleft
      refine ⟨hrecover.trans hblamed, ?_⟩
      rintro _ ⟨⟩
      exact ⟨hphase, blamed, hblamed, hrecover, hpos⟩

/-- The tokens with which the next round begins: those that the first one leaves, but at least one fewer than there were. -/
def nextRound (env : Env) (first : Token) (rest : List Token) : List Token :=
  if (firstOutcome env (first :: rest)).2.length ≤ rest.length then (firstOutcome env (first :: rest)).2 else rest

theorem nextRound_suffix (env : Env) (first : Token) (rest : List Token) :
    nextRound env first rest <:+ rest ∧ nextRound env first rest <:+ (firstOutcome env (first :: rest)).2 := by
  have hleft := (firstOutcome_blames env (first :: rest)).1
  unfold nextRound
  split
  · rename_i hle
    exact ⟨List.suffix_of_suffix_length_le hleft (List.suffix_cons first rest) hle, List.suffix_rfl⟩
  · rename_i hle
    rw [hleft.eq_of_length_le (Nat.lt_of_not_le hle)]
    exact ⟨List.suffix_rfl, List.suffix_cons first rest⟩

theorem statements_nextRound (env : Env) (first : Token) (rest : List Token) :
    statements env (first :: rest) = (firstOutcome env (first :: rest)).1 :: statements env (nextRound env first rest) :=
  statements_cons env first rest

/-- The errors of parsing come in the order of the text, none before the first token. -/
theorem errors_of_statements (env : Env) {tokens : List Token} (h : Ordered env.finish tokens) :
    (∀ e ∈ (statements env tokens).filterMap error?, e.cause.phase = 'P' ∧ (env.here tokens).key ≤ e.pos.key) ∧
      ((statements env tokens).filterMap error?).Pairwise fun a b => a.pos.key ≤ b.pos.key := by
  -- Each round leaves fewer tokens: the induction is on their number.
  induction hlength : tokens.length using Nat.strong_induction_on generalizing tokens with
  | _ n ih =>
      subst hlength
      cases tokens with
      | nil =>
          simp [statements]
      | cons first rest =>
          rcases firstOutcome_blames env (first :: rest) with ⟨hleft, herror⟩
          rcases nextRound_suffix env first rest with ⟨hfewer, hgoes⟩
          have hshorter := Nat.lt_succ_of_le hfewer.length_le
          have hsuffix := hfewer.trans (List.suffix_cons first rest)
          rcases ih _ hshorter (h.of_suffix hsuffix) rfl with ⟨hlater, hpairwise⟩
          rw [statements_nextRound]
          cases houtcome : (firstOutcome env (first :: rest)).1 with
          | ok s =>
              refine ⟨fun e hmem => ?_, hpairwise⟩
              rcases hlater e hmem with ⟨hphase, hle⟩
              exact ⟨hphase, (h.here_le hsuffix).trans hle⟩
          | error e =>
              rcases herror e houtcome with ⟨hphase, blamed, hblamed, hafter, hpos⟩
              have hfirst : (env.here (first :: rest)).key ≤ e.pos.key := hpos ▸ h.here_le hblamed
              have hnextKey : e.pos.key ≤ (env.here (nextRound env first rest)).key :=
                hpos ▸ (h.of_suffix hblamed).here_le (hgoes.trans hafter)
              refine ⟨List.forall_mem_cons.2 ⟨⟨hphase, hfirst⟩, fun e' hmem => ?_⟩, .cons (fun e' hmem => ?_) hpairwise⟩
              · rcases hlater e' hmem with ⟨hphase', hle⟩
                exact ⟨hphase', (h.here_le hsuffix).trans hle⟩
              · exact hnextKey.trans (hlater e' hmem).2

theorem errors_of_parse {tokens : Tokens} {errors : List BuildError} (hordered : Ordered tokens.finish tokens.list)
    (h : parse tokens = .error errors) :
    errors ≠ [] ∧ (∀ e ∈ errors, e.cause.phase = 'P') ∧ errors.Pairwise fun a b => a.pos.key ≤ b.pos.key := by
  have hstatements := errors_of_statements (Env.ofTokens tokens) hordered
  simp only [parse] at h
  split at h
  · cases h
  · rename_i hnone
    cases h
    exact ⟨fun hnil => hnone (by simpa using hnil), fun e hmem => (hstatements.1 e hmem).1, hstatements.2⟩

end Grammar

/-! ## Building -/

/-- There are errors of building, each at a token of its own, in the order of the tokens. -/
structure BuildError.Located (errors : List BuildError) (tokens : List Token) : Prop where
  nonempty : errors ≠ []
  phase : ∀ e ∈ errors, e.cause.phase = 'B'
  positions : (errors.map BuildError.pos).Sublist (tokens.map Token.pos)

namespace Checked

variable {α β γ : Type}

/-- The errors of what was built from the tokens are located in them. -/
def Located (x : Checked α) (tokens : List Token) : Prop :=
  ∀ errors, x = .error errors → BuildError.Located errors tokens

namespace Located

variable {tokens more : List Token}

theorem ok (a : α) (tokens : List Token) : Located (.ok a) tokens :=
  fun _ h => nomatch h

theorem error {e : BuildError} (token : Token) (hphase : e.cause.phase = 'B') (hpos : e.pos = token.pos) :
    Located (.error [e] : Checked α) [token] := by
  rintro _ ⟨⟩
  exact ⟨List.cons_ne_nil _ _, by simpa using hphase, by simp [hpos]⟩

theorem mono {x : Checked α} (h : Located x tokens) (hsublist : tokens.Sublist more) : Located x more := by
  intro errors herrors
  rcases h errors herrors with ⟨hne, hphase, hpositions⟩
  exact ⟨hne, hphase, hpositions.trans (hsublist.map _)⟩

theorem map {x : Checked α} (h : Located x tokens) (f : α → β) : Located (x.map f) tokens := by
  intro errors herrors
  cases x with
  | ok => cases herrors
  | error => exact h errors (by cases herrors; rfl)

theorem map₂ {x : Checked α} {y : Checked β} (hx : Located x tokens) (hy : Located y more) (f : α → β → γ) :
    Located (Checked.map₂ f x y) (tokens ++ more) := by
  cases x with
  | ok a =>
      cases y with
      | ok b => exact .ok _ _
      | error errors => exact (hy.map (f a)).mono (List.sublist_append_right tokens more)
  | error errors =>
      cases y with
      | ok b => exact (hx.map (f · b)).mono (List.sublist_append_left tokens more)
      | error errors' =>
          rintro _ ⟨⟩
          rcases hx errors rfl with ⟨hne, hphase, hpositions⟩
          rcases hy errors' rfl with ⟨-, hphase', hpositions'⟩
          refine ⟨by simp [hne], fun e hmem => ?_, ?_⟩
          · rcases List.mem_append.1 hmem with hmem | hmem
            · exact hphase e hmem
            · exact hphase' e hmem
          · rw [List.map_append, List.map_append]
            exact hpositions.append hpositions'

end Located

end Checked

section

open Surface Checked

mutual

theorem Expression.located {e : Expr} {tokens : List Token} :
    e.Yields tokens → Located (Expression.ofSurface e) tokens
  | .number text pos => by
      rw [Expression.ofSurface, numberLiteral]
      cases Number.read? text.toList with
      | some value => exact .ok _ _
      | none => exact .error ⟨.number text, pos⟩ rfl rfl
  | .var _ _ => by
      rw [Expression.ofSurface]
      exact .ok _ _
  | .thing _ _ _ => by
      rw [Expression.ofSurface]
      exact .ok _ _
  | .binary _ hleft hright => by
      rw [Expression.ofSurface]
      exact ((Expression.located hleft).map₂ (Expression.located hright) _).mono ((List.sublist_cons_self _ _).append_left _)
  | .negate _ _ h => by
      rw [Expression.ofSurface]
      exact ((Expression.located h).map _).mono (List.sublist_cons_self _ _)
  | .bare _ _ _ h => by
      rw [Expression.ofSurface]
      exact ((Expression.listLocated h).map _).mono (List.sublist_cons_self _ _)
  | .parenthesised _ _ _ _ h => by
      rw [Expression.ofSurface]
      exact ((Expression.listLocated h).map _).mono (.cons _ (.cons _ (List.sublist_append_left _ _)))
  | .group _ _ h => by
      rw [Expression.ofSurface]
      exact (Expression.located h).mono (.cons _ (List.sublist_append_left _ _))

theorem Expression.listLocated {list : List Expr} {tokens : List Token} :
    Expr.ListYields list tokens → Located (Expression.listOfSurface list) tokens
  | .nil => by
      rw [Expression.listOfSurface]
      exact .ok _ _
  | .cons h hrest => by
      rw [Expression.listOfSurface]
      exact (Expression.located h).map₂ (Expression.listLocated hrest) _

end

theorem ColourExpression.located {c : ColourArgument} {tokens : List Token} (h : c.Yields tokens) :
    Located (ColourExpression.ofSurface c) tokens := by
  cases h with
  | word text pos =>
      have hcolour : ∀ e, colourWord text pos = .error e → e.cause.phase = 'B' ∧ e.pos = pos := by
        intro e he
        unfold colourWord at he
        split at he <;> split at he
        all_goals cases he
        all_goals exact ⟨rfl, rfl⟩
      rw [ColourExpression.ofSurface]
      cases hword : colourWord text pos with
      | ok colour => exact .ok _ _
      | error e =>
          rcases hcolour e hword with ⟨hphase, hpos⟩
          exact .error ⟨.word text, pos⟩ hphase hpos
  | rgb first last hred hgreen hblue =>
      rw [ColourExpression.ofSurface]
      have hchannels := ((Expression.located hred).map₂ (Expression.located hgreen) ColourExpression.rgb).map₂
        (Expression.located hblue) fun f b => f b
      exact hchannels.mono (.cons _ (by simp))
  | index h =>
      rw [ColourExpression.ofSurface]
      exact (Expression.located h).map _

mutual

theorem Command.located {s : Statement} {tokens : List Token} :
    s.Yields tokens → Located (Command.ofSurface s) tokens
  | @Statement.Yields.definition _ _ _ vars _ _ _ _ _ h => by
      rw [Command.ofSurface]
      refine ((Command.listLocated h).map _).mono (.cons _ (.cons _ ?_))
      exact (List.sublist_append_left _ _).trans (List.sublist_append_right vars _)
  | .command _ _ h => by
      rw [Command.ofSurface]
      exact ((Operand.listLocated h).map _).mono (List.sublist_cons_self _ _)
  | .call _ h => by
      rw [Command.ofSurface]
      exact ((Expression.listLocated h).map _).mono (List.sublist_cons_self _ _)

theorem Command.listLocated {list : List Statement} {tokens : List Token} :
    Statement.ListYields list tokens → Located (Command.listOfSurface list) tokens
  | .nil => by
      rw [Command.listOfSurface]
      exact .ok _ _
  | .cons h hrest => by
      rw [Command.listOfSurface]
      exact (Command.located h).map₂ (Command.listLocated hrest) _

theorem Operand.located {form : ArgumentForm} {a : Argument} {tokens : List Token} :
    a.Yields form tokens → Located (Operand.ofSurface a) tokens
  | .value h | .condition h => by
      rw [Operand.ofSurface]
      exact (Expression.located h).map _
  | .bracketed _ _ h => by
      rw [Operand.ofSurface]
      exact ((Expression.located h).map _).mono (.cons _ (List.sublist_append_left _ _))
  | .block _ _ h => by
      rw [Operand.ofSurface]
      exact ((Command.listLocated h).map _).mono (.cons _ (List.sublist_append_left _ _))
  | .point _ _ hx hy => by
      rw [Operand.ofSurface]
      refine ((Expression.located hx).map₂ (Expression.located hy) _).mono (.cons _ ?_)
      exact (List.sublist_append_left _ _).append_left _
  | .colour h => by
      rw [Operand.ofSurface]
      exact (ColourExpression.located h).map _
  | .word _ _ => by
      rw [Operand.ofSurface]
      exact .ok _ _

theorem Operand.listLocated {forms : List ArgumentForm} {list : List Argument} {tokens : List Token} :
    Argument.ListYields forms list tokens → Located (Operand.listOfSurface list) tokens
  | .nil => by
      rw [Operand.listOfSurface]
      exact .ok _ _
  | .cons h hrest => by
      rw [Operand.listOfSurface]
      exact (Operand.located h).map₂ (Operand.listLocated hrest) _

end

end

/-! ## All phases -/

/-- Errors of one phase in the order of the text. -/
structure BuildError.InOrder (phase : Char) (errors : List BuildError) : Prop where
  nonempty : errors ≠ []
  codes : ∀ e ∈ errors, e.cause.code.toList.head? = some phase
  ascends : errors.Pairwise fun a b => a.pos.key ≤ b.pos.key
  /-- Only parsing blames one token twice. -/
  strictly : phase ≠ 'P' → errors.Pairwise fun a b => a.pos.key < b.pos.key

theorem BuildError.InOrder.of_strictly {phase : Char} {errors : List BuildError} (hne : errors ≠ [])
    (hphase : ∀ e ∈ errors, e.cause.phase = phase) (h : errors.Pairwise fun a b => a.pos.key < b.pos.key) :
    InOrder phase errors where
  nonempty := hne
  codes e hmem := by rw [e.cause.head?_code, hphase e hmem]
  ascends := h.imp le_of_lt
  strictly _ := h

namespace Program

/-- The errors of a text that cannot be compiled are those of one phase, at least one, in the order of the text. -/
theorem build_errors_in_source_order {source : String} {errors : List BuildError} (h : compile source = .error errors) :
    ∃ phase ∈ ['L', 'P', 'B'], BuildError.InOrder phase errors := by
  simp only [compile, Surface.parse, Bind.bind, Except.bind] at h
  cases hscan : Tokens.scan source with
  | error found =>
      simp only [hscan] at h
      cases h
      rcases Tokens.errors_of_scan hscan with ⟨hne, hphase, hascends⟩
      exact ⟨'L', by simp, .of_strictly hne hphase hascends⟩
  | ok tokens =>
      have hordered := Tokens.ordered_of_scan hscan
      cases hparse : Grammar.parse tokens with
      | error found =>
          simp only [hscan, hparse] at h
          cases h
          rcases Grammar.errors_of_parse hordered hparse with ⟨hne, hphase, hascends⟩
          refine ⟨'P', by simp, hne, fun e hmem => ?_, hascends, fun hparsing => absurd rfl hparsing⟩
          rw [e.cause.head?_code, hphase e hmem]
      | ok tree =>
          simp only [hscan, hparse] at h
          rcases Command.listLocated (Grammar.treeRead_of_parse hparse).1 errors h with ⟨hne, hphase, hpositions⟩
          have htokens : (tokens.list.map Token.pos).Pairwise fun a b => a.key < b.key :=
            List.pairwise_map.2 hordered.ascends
          have herrors : (errors.map BuildError.pos).Pairwise fun a b => a.key < b.key := htokens.sublist hpositions
          rw [List.pairwise_map] at herrors
          exact ⟨'B', by simp, .of_strictly hne hphase herrors⟩

/-- The word `sum` is blamed for the name of a procedure, and later twice in one place: it is no closing parenthesis, and it
is no command either. -/
theorem sum_is_blamed_twice :
    ∃ errors, compile "to sum fd (1 sum" = .error errors ∧ errors.map BuildError.pos = [⟨1, 4⟩, ⟨1, 14⟩, ⟨1, 14⟩] ∧
      ∃ phase ∈ ['L', 'P', 'B'], BuildError.InOrder phase errors := by
  have hpositions : (match compile "to sum fd (1 sum" with
      | .ok _ => []
      | .error errors => errors.map BuildError.pos) = [⟨1, 4⟩, ⟨1, 14⟩, ⟨1, 14⟩] := by
    decide +kernel
  cases hcompile : compile "to sum fd (1 sum" with
  | ok p =>
      simp [hcompile] at hpositions
  | error errors =>
      rw [hcompile] at hpositions
      exact ⟨errors, rfl, hpositions, build_errors_in_source_order hcompile⟩

end Program
end TurtleLogo
