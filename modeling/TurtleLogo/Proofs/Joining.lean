import TurtleLogo.Proofs.Parentheses
import TurtleLogo.Proofs.Relocation

/-!
# Texts one below the other

Nothing separates statements, so that what follows the last statement of a text could be taken for a part of it. But a
statement begins with a word that neither begins nor continues an expression (`Ends`), and so the productions read from the
tokens of a text what they read when those of another one follow:

* `Carries`: what a production reads it reads with all positions moved and with more tokens after the last one;
* `Agree`: two environments know the same number of parameters for each call of some statements;
* `statements_joined` and `Program.joined_texts_compile_separately`: the statements of two texts that do not call each
  other's procedures are the statements of both.
-/

namespace TurtleLogo
namespace Grammar

open Surface

/-! ## More tokens at the end -/

/-- The tokens with their positions moved, and more tokens after them. -/
def joined (f : Position → Position) (more tokens : List Token) : List Token :=
  tokens.map (Token.relocated f) ++ more

section

variable {f : Position → Position} {more tokens : List Token}

theorem ahead_joined_of_some {lexeme : Lexeme} (h : ahead tokens = some lexeme) :
    ahead (joined f more tokens) = some lexeme := by
  rcases exists_cons_of_ahead h with ⟨pos, rest, rfl⟩
  rfl

theorem ahead_joined_ne {lexeme : Lexeme} (h : ahead tokens ≠ some lexeme) (hmore : ahead more ≠ some lexeme) :
    ahead (joined f more tokens) ≠ some lexeme := by
  cases tokens with
  | nil => exact hmore
  | cons token tokens => exact h

/-- No operand and no sign follows where statements end. -/
theorem Ends.ahead_ne (h : Ends tokens) :
    ahead tokens ≠ some .minus ∧ ahead tokens ≠ some .negate ∧ ahead tokens ≠ some .caret := by
  refine ⟨fun hahead => ?_, fun hahead => ?_, fun hahead => ?_⟩
  · simpa [startsExpression, hahead] using h.starts
  · simpa [startsExpression, hahead] using h.starts
  · exact h.stops .pow hahead (Nat.zero_le _)

theorem Ends.ahead_ne_var (h : Ends tokens) (name : String) : ahead tokens ≠ some (.var name) := by
  intro hahead
  simpa [startsExpression, hahead] using h.starts

theorem ahead_ne_var_of_params {names : List String} {rest : List Token} (h : params tokens = .ok names rest)
    (name : String) : ahead rest ≠ some (.var name) := by
  cases h
  intro hahead
  rcases exists_cons_of_ahead hahead with ⟨pos, tail, htail⟩
  have hhead := List.head?_dropWhile_not isVar tokens
  simp [htail, isVar] at hhead

theorem operatorAhead?_of_ends (h : Ends tokens) : operatorAhead? tokens = none := by
  have hstarts := h.starts
  unfold operatorAhead?
  unfold startsExpression at hstarts
  split
  · rename_i name hahead
    simpa [hahead] using hstarts
  · rfl

theorem operatorAhead?_joined (hmore : Ends more) (tokens : List Token) :
    operatorAhead? (joined f more tokens) = operatorAhead? tokens := by
  cases tokens with
  | nil => exact operatorAhead?_of_ends hmore
  | cons token tokens => rfl

theorem startsExpression_joined (hmore : Ends more) (tokens : List Token) :
    startsExpression (joined f more tokens) = startsExpression tokens := by
  cases tokens with
  | nil => exact hmore.starts
  | cons token tokens => rfl

end

/-! ## Expressions carried over -/

section

variable (f : Position → Position) (more : List Token)

/-- What the parser reads the production reads with the positions moved and more tokens at the end. -/
def Carries {α : Type} (move : α → α) (p : Parser α) (production : Nat → Parser α) : Prop :=
  ∀ tokens a rest, p tokens = .ok a rest → Takes production (joined f more tokens) (move a) (joined f more rest)

/-- The same for a production that goes on to a certain token, if it has found one. -/
def CarriesTo {α : Type} (closing : Lexeme) (move : α → α) (p : Parser α) (production : Nat → Parser α) : Prop :=
  ∀ tokens a last rest, p tokens = .ok a (⟨closing, last⟩ :: rest) →
    Takes production (joined f more tokens) (move a) (joined f more (⟨closing, last⟩ :: rest))

/-- What holds of the expression productions with a certain depth. -/
structure ExpressionsCarry (env env' : Env) (depth : Nat) : Prop where
  chain (level : Level) : Carries f more (Expr.relocated f) (chain env depth level) (chain env' · level)
  chainFrom (level : Level) (left : Expr) :
    Carries f more (Expr.relocated f) (chainFrom env depth level left) (chainFrom env' · level (left.relocated f))
  operand (level : Level) : Carries f more (Expr.relocated f) (operand env depth level) (operand env' · level)
  signed : Carries f more (Expr.relocated f) (signed env depth) (signed env')
  power : Carries f more (Expr.relocated f) (power env depth) (power env')
  primary : Carries f more (Expr.relocated f) (primary env depth) (primary env')
  expressions (count : Nat) :
    Carries f more (Expr.listRelocated f) (expressions env depth count) (expressions env' · count)
  expressionsToParen :
    CarriesTo f more .closeParen (Expr.listRelocated f) (expressionsToParen env depth) (expressionsToParen env')

end

namespace ExpressionsCarry

variable {f : Position → Position} {more : List Token} {env env' : Env} {depth : Nat}

theorem zero : ExpressionsCarry f more env env' 0 where
  chain _ := fun _ _ _ h => nomatch h
  chainFrom _ _ := fun _ _ _ h => nomatch h
  operand _ := fun _ _ _ h => nomatch h
  signed := fun _ _ _ h => nomatch h
  power := fun _ _ _ h => nomatch h
  primary := fun _ _ _ h => nomatch h
  expressions _ := fun _ _ _ h => nomatch h
  expressionsToParen := fun _ _ _ _ h => nomatch h

theorem chain_succ (h : ExpressionsCarry f more env env' depth) (level : Level) :
    Carries f more (Expr.relocated f) (Grammar.chain env (depth + 1) level) (Grammar.chain env' · level) := by
  intro tokens e rest hok
  rcases exists_of_bind_ok hok with ⟨first, mid, hfirst, hrest⟩
  exact takes_chain (h.operand level tokens first mid hfirst) (h.chainFrom level first mid e rest hrest)

theorem chainFrom_succ (hmore : Ends more) (h : ExpressionsCarry f more env env' depth) (level : Level) (left : Expr) :
    Carries f more (Expr.relocated f) (Grammar.chainFrom env (depth + 1) level left)
      (Grammar.chainFrom env' · level (left.relocated f)) := by
  intro tokens e rest hok
  simp only [Grammar.chainFrom] at hok
  split at hok
  · rename_i hnone
    cases hok
    refine takes_chainFrom_none (left.relocated f) ?_
    cases tokens with
    | nil => exact operator?_eq_none_of_stops (hmore.stops.mono (Nat.zero_le _))
    | cons token tokens => exact hnone
  · rename_i op hop
    rcases Option.bind_eq_some_iff.1 hop with ⟨sign, hahead, hoperator⟩
    rcases exists_cons_of_ahead hahead with ⟨place, tail, rfl⟩
    rcases exists_of_bind_ok hok with ⟨right, mid, hright, hrest⟩
    have hjoined := h.chainFrom level _ mid e rest hrest
    simp only [Expr.relocated, ← Expr.pos_relocated f left] at hjoined
    exact takes_chainFrom_some (f place) hoperator (h.operand level tail right mid hright) hjoined

theorem operand_succ (h : ExpressionsCarry f more env env' depth) (level : Level) :
    Carries f more (Expr.relocated f) (Grammar.operand env (depth + 1) level) (Grammar.operand env' · level) := by
  intro tokens e rest hok
  cases level with
  | comparison => exact takes_operand_comparison (h.chain .additive tokens e rest hok)
  | additive => exact takes_operand_additive (h.chain .multiplicative tokens e rest hok)
  | multiplicative => exact takes_operand_multiplicative (h.signed tokens e rest hok)

theorem signed_succ (hmore : Ends more) (h : ExpressionsCarry f more env env' depth) :
    Carries f more (Expr.relocated f) (Grammar.signed env (depth + 1)) (Grammar.signed env') := by
  intro tokens e rest hok
  simp only [Grammar.signed] at hok
  split at hok
  · rename_i hsign
    obtain ⟨sign, hminus, hahead⟩ : ∃ sign, (sign = .minus ∨ sign = .negate) ∧ ahead tokens = some sign := by
      rcases hsign with hahead | hahead
      · exact ⟨.minus, .inl rfl, hahead⟩
      · exact ⟨.negate, .inr rfl, hahead⟩
    rcases exists_cons_of_ahead hahead with ⟨pos, tail, rfl⟩
    rcases exists_of_map_ok hok with ⟨inner, hinner, rfl⟩
    simp only [Expr.relocated]
    exact takes_signed_negate (f pos) hminus (h.signed tail inner rest hinner)
  · rename_i hsign
    rcases not_or.1 hsign with ⟨hminus, hnegate⟩
    rcases hmore.ahead_ne with ⟨hmoreMinus, hmoreNegate, -⟩
    exact takes_signed_power (ahead_joined_ne hminus hmoreMinus) (ahead_joined_ne hnegate hmoreNegate)
      (h.power tokens e rest hok)

theorem power_succ (hmore : Ends more) (h : ExpressionsCarry f more env env' depth) :
    Carries f more (Expr.relocated f) (Grammar.power env (depth + 1)) (Grammar.power env') := by
  intro tokens e rest hok
  rcases exists_of_bind_ok hok with ⟨base, mid, hbase, hrest⟩
  have htaken := h.primary tokens base mid hbase
  split at hrest
  · rename_i hahead
    rcases exists_cons_of_ahead hahead with ⟨place, tail, rfl⟩
    rcases exists_of_map_ok hrest with ⟨exponent, hexponent, rfl⟩
    simp only [Expr.relocated, ← Expr.pos_relocated f base]
    exact takes_power_caret (f place) htaken (h.signed tail exponent rest hexponent)
  · rename_i hahead
    cases hrest
    exact takes_power_primary htaken (ahead_joined_ne hahead hmore.ahead_ne.2.2)

theorem primary_succ (hmore : Ends more) (h : ExpressionsCarry f more env env' depth) :
    Carries f more (Expr.relocated f) (Grammar.primary env (depth + 1)) (Grammar.primary env') := by
  intro tokens e rest hok
  simp only [Grammar.primary] at hok
  split at hok
  · -- A number.
    rename_i text pos tail
    cases hok
    simp only [Expr.relocated]
    exact takes_number text (f pos) (joined f more rest)
  · -- A variable.
    rename_i name pos tail
    cases hok
    simp only [Expr.relocated]
    exact takes_var name (f pos) (joined f more rest)
  · -- A variable named by a word.
    rename_i pos word place tail
    cases hok
    simp only [Expr.relocated]
    exact takes_thing word (f pos) (f place) (joined f more rest)
  · cases hok
  · rename_i pos tail
    split at hok
    · -- An operator with any number of operands in parentheses.
      rename_i op hop
      rcases exists_ident_of_operatorAhead? hop with ⟨word, place, inside, hword, rfl⟩
      rcases exists_of_closing_ok hok with ⟨operands, last, hoperands, rfl⟩
      simp only [Expr.relocated]
      exact takes_parenthesised (f pos) (f place) (f last) hword (h.expressionsToParen inside operands last rest hoperands)
    · -- An expression in parentheses.
      rename_i hop
      rcases exists_of_closing_ok hok with ⟨inner, last, hinner, rfl⟩
      have hop' := (operatorAhead?_joined (f := f) hmore tail).trans hop
      simp only [Expr.relocated]
      exact takes_group (f pos) (f last) hop' (h.chain .comparison tail inner _ hinner)
  · rename_i word pos tail
    split at hok
    · -- An operator with the number of operands that it takes without parentheses.
      rename_i op hword
      rcases exists_of_map_ok hok with ⟨operands, hoperands, rfl⟩
      simp only [Expr.relocated]
      exact takes_bare (f pos) hword (h.expressions op.bareCount tail operands rest hoperands)
    · split at hok <;> cases hok
  · cases hok

theorem expressions_succ (h : ExpressionsCarry f more env env' depth) (count : Nat) :
    Carries f more (Expr.listRelocated f) (Grammar.expressions env (depth + 1) count)
      (Grammar.expressions env' · count) := by
  intro tokens list rest hok
  cases count with
  | zero =>
      cases hok
      simp only [Expr.listRelocated]
      exact takes_expressions_zero (joined f more tokens)
  | succ count =>
      rcases exists_of_bind_ok hok with ⟨first, mid, hfirst, hrest⟩
      rcases exists_of_map_ok hrest with ⟨others, hothers, rfl⟩
      simp only [Expr.listRelocated]
      exact takes_expressions_succ (h.chain .comparison tokens first mid hfirst)
        (h.expressions count mid others rest hothers)

theorem expressionsToParen_succ (h : ExpressionsCarry f more env env' depth) :
    CarriesTo f more .closeParen (Expr.listRelocated f) (Grammar.expressionsToParen env (depth + 1))
      (Grammar.expressionsToParen env') := by
  intro tokens list last rest hok
  simp only [Grammar.expressionsToParen] at hok
  split at hok
  · cases hok
    simp only [Expr.listRelocated]
    exact takes_expressionsToParen_nil (.inl rfl)
  · rename_i hgoes
    rcases exists_of_bind_ok hok with ⟨first, mid, hfirst, hrest⟩
    rcases exists_of_map_ok hrest with ⟨others, hothers, rfl⟩
    rcases not_or.1 hgoes with ⟨hparen, hend⟩
    rcases Option.ne_none_iff_exists'.1 hend with ⟨lexeme, hahead⟩
    have hahead' : ahead (joined f more tokens) = some lexeme := ahead_joined_of_some hahead
    simp only [Expr.listRelocated]
    refine takes_expressionsToParen_cons ?_ (by simp [hahead']) (h.chain .comparison tokens first mid hfirst)
      (h.expressionsToParen mid others last rest hothers)
    rwa [hahead', ← hahead]

theorem all (hmore : Ends more) (f : Position → Position) (env env' : Env) (depth : Nat) :
    ExpressionsCarry f more env env' depth := by
  induction depth with
  | zero =>
      exact zero
  | succ depth h =>
      exact
        { chain := h.chain_succ
          chainFrom := h.chainFrom_succ hmore
          operand := h.operand_succ
          signed := h.signed_succ hmore
          power := h.power_succ hmore
          primary := h.primary_succ hmore
          expressions := h.expressions_succ
          expressionsToParen := h.expressionsToParen_succ }

end ExpressionsCarry

section

variable {f : Position → Position} {more : List Token} {env env' : Env}

theorem expression_carries (hmore : Ends more) (depth : Nat) :
    Carries f more (Expr.relocated f) (expression env depth) (expression env') :=
  (ExpressionsCarry.all hmore f env env' depth).chain .comparison

theorem expressionsAhead_carries (hmore : Ends more) (depth : Nat) :
    Carries f more (Expr.listRelocated f) (expressionsAhead env depth) (expressionsAhead env') := by
  induction depth with
  | zero =>
      exact fun _ _ _ h => nomatch h
  | succ depth ih =>
      intro tokens list rest hok
      simp only [expressionsAhead] at hok
      split at hok
      · rename_i hstarts
        rcases exists_of_bind_ok hok with ⟨first, mid, hfirst, hrest⟩
        rcases exists_of_map_ok hrest with ⟨others, hothers, rfl⟩
        simp only [Expr.listRelocated]
        exact takes_expressionsAhead_cons ((startsExpression_joined hmore tokens).trans hstarts)
          (expression_carries hmore depth tokens first mid hfirst) (ih mid others rest hothers)
      · rename_i hstarts
        cases hok
        simp only [Expr.listRelocated]
        exact takes_expressionsAhead_nil ((startsExpression_joined hmore tokens).trans (by simpa using hstarts))

/-! ## Arguments carried over -/

theorem callArguments_carries (hmore : Ends more) {name : String} (hcount : env'.paramCount? name = env.paramCount? name)
    (depth : Nat) :
    Carries f more (Expr.listRelocated f) (callArguments env depth name) (callArguments env' · name) := by
  intro tokens list rest hok
  cases hknown : env.paramCount? name with
  | some count =>
      simp only [callArguments, hknown] at hok
      exact takes_callArguments_some (hcount.trans hknown)
        ((ExpressionsCarry.all hmore f env env' depth).expressions count tokens list rest hok)
  | none =>
      simp only [callArguments, hknown] at hok
      exact takes_callArguments_none (hcount.trans hknown) (expressionsAhead_carries hmore depth tokens list rest hok)

theorem wordArgument_carries :
    Carries f more (Argument.relocated f) (wordArgument env) (fun _ => wordArgument env') := by
  intro tokens a rest hok
  simp only [wordArgument] at hok
  split at hok
  · cases hok
    simp only [Argument.relocated]
    exact .of_ok fun _ => rfl
  · cases hok

theorem exists_of_expect_ok {lexeme : Lexeme} {tokens rest : List Token} (h : expect env lexeme tokens = .ok () rest) :
    ∃ pos, tokens = ⟨lexeme, pos⟩ :: rest := by
  rcases (Reads.expect env lexeme).exists_used h with ⟨used, rfl, pos, rfl⟩
  exact ⟨pos, rfl⟩

theorem pointArgument_carries (hmore : Ends more) (depth : Nat) :
    Carries f more (Argument.relocated f) (pointArgument env depth) (pointArgument env') := by
  intro tokens a rest hok
  rcases exists_of_bind_ok hok with ⟨_, inside, hopening, hpoint⟩
  rcases exists_of_expect_ok hopening with ⟨first, rfl⟩
  rcases exists_of_bind_ok hpoint with ⟨x, mid, hx, hrest⟩
  rcases exists_of_closing_ok hrest with ⟨y, last, hy, rfl⟩
  simp only [Argument.relocated]
  exact takes_point (f first) (f last) (expression_carries hmore depth inside x mid hx)
    (expression_carries hmore depth mid y _ hy)

theorem exists_cons_of_expression {depth : Nat} {tokens rest : List Token} {e : Expr}
    (h : expression env depth tokens = .ok e rest) : ∃ token tail, tokens = token :: tail := by
  have hshorter := expression_shorter h
  cases tokens with
  | nil => simp at hshorter
  | cons token tail => exact ⟨token, tail, rfl⟩

theorem conditionArgument_carries (hmore : Ends more) (depth : Nat) :
    Carries f more (Argument.relocated f) (conditionArgument env depth) (conditionArgument env') := by
  intro tokens a rest hok
  simp only [conditionArgument] at hok
  split at hok
  · rename_i hahead
    rcases exists_cons_of_ahead hahead with ⟨first, inside, rfl⟩
    rcases exists_of_closing_ok hok with ⟨e, last, he, rfl⟩
    simp only [Argument.relocated]
    exact takes_bracketed (f first) (f last) (expression_carries hmore depth inside e _ he)
  · rename_i hahead
    rcases exists_of_map_ok hok with ⟨e, he, rfl⟩
    rcases exists_cons_of_expression he with ⟨token, tail, rfl⟩
    simp only [Argument.relocated]
    exact .of_eq (fun _ => if_neg hahead) ((expression_carries hmore depth _ e rest he).map Argument.value)

theorem colourArgument_carries (hmore : Ends more) (depth : Nat) :
    Carries f more (Argument.relocated f) (colourArgument env depth) (colourArgument env') := by
  intro tokens a rest hok
  simp only [colourArgument] at hok
  split at hok
  · rename_i text pos tail
    cases hok
    simp only [Argument.relocated, ColourArgument.relocated]
    exact takes_colour_word text (f pos) (joined f more rest)
  · rename_i first inside
    rcases exists_of_bind_ok hok with ⟨red, afterRed, hred, hgreenBlue⟩
    rcases exists_of_bind_ok hgreenBlue with ⟨green, afterGreen, hgreen, hrest⟩
    rcases exists_of_closing_ok hrest with ⟨blue, last, hblue, rfl⟩
    simp only [Argument.relocated, ColourArgument.relocated]
    exact takes_colour_rgb (f first) (f last) (expression_carries hmore depth inside red afterRed hred)
      (expression_carries hmore depth afterRed green afterGreen hgreen) (expression_carries hmore depth afterGreen blue _ hblue)
  · rename_i hword hbracket
    rcases exists_of_map_ok hok with ⟨index, hindex, rfl⟩
    rcases exists_cons_of_expression hindex with ⟨⟨lexeme, pos⟩, tail, rfl⟩
    simp only [Argument.relocated, ColourArgument.relocated]
    have hcarries : Carries f more (Expr.relocated f) (expression env depth) (expression env') :=
      expression_carries hmore depth
    refine .of_eq (fun _ => ?_) ((hcarries _ index rest hindex).map fun e => Argument.colour (.index e))
    -- The same token stands ahead, neither a quoted word nor a bracket.
    cases lexeme with
    | word text => exact (hword text pos tail rfl).elim
    | openBracket => exact (hbracket pos tail rfl).elim
    | _ => rfl

/-! ## Statements carried over -/

/-- The environments know the same number of parameters for each procedure that the statements call, at any depth. -/
def Agree (env env' : Env) (body : List Statement) : Prop :=
  ∀ name arguments pos, Within Statement.bodies (.call name arguments pos) body →
    env'.paramCount? name = env.paramCount? name

theorem Agree.of_cons {s : Statement} {body : List Statement} (h : Agree env env' (s :: body)) :
    Agree env env' [s] ∧ Agree env env' body :=
  ⟨fun name arguments pos hwithin => h name arguments pos (Within.cons_iff.2 (.inl hwithin)),
    fun name arguments pos hwithin => h name arguments pos (Within.cons_iff.2 (.inr hwithin))⟩

theorem Agree.of_bodies {s : Statement} (h : Agree env env' [s]) : ∀ body ∈ s.bodies, Agree env env' body :=
  fun _ hbody name arguments pos hwithin => h name arguments pos (.inside List.mem_cons_self hbody hwithin)

end

/-- What holds of the statement productions with a certain depth. -/
structure StatementsCarry (f : Position → Position) (more : List Token) (env env' : Env) (depth : Nat) : Prop where
  statement : ∀ tokens s rest, statement env depth tokens = .ok s rest → Agree env env' [s] →
    Takes (statement env') (joined f more tokens) (s.relocated f) (joined f more rest)
  statementsTo (closing : Lexeme) : ∀ tokens body last rest,
    statementsTo env closing depth tokens = .ok body (⟨closing, last⟩ :: rest) → Agree env env' body →
      Takes (statementsTo env' closing) (joined f more tokens) (Statement.listRelocated f body)
        (joined f more (⟨closing, last⟩ :: rest))
  block : ∀ tokens a rest, block env depth tokens = .ok a rest → (∀ body, a.body? = some body → Agree env env' body) →
    Takes (block env') (joined f more tokens) (a.relocated f) (joined f more rest)
  argument (form : ArgumentForm) : ∀ tokens a rest, argument env depth form tokens = .ok a rest →
    (∀ body, a.body? = some body → Agree env env' body) →
      Takes (argument env' · form) (joined f more tokens) (a.relocated f) (joined f more rest)
  arguments (forms : List ArgumentForm) : ∀ tokens list rest, arguments env depth forms tokens = .ok list rest →
    (∀ body ∈ list.filterMap Argument.body?, Agree env env' body) →
      Takes (arguments env' · forms) (joined f more tokens) (Argument.listRelocated f list) (joined f more rest)

namespace StatementsCarry

variable {f : Position → Position} {more : List Token} {env env' : Env} {depth : Nat}

theorem zero : StatementsCarry f more env env' 0 where
  statement := fun _ _ _ h => nomatch h
  statementsTo _ := fun _ _ _ _ h => nomatch h
  block := fun _ _ _ h => nomatch h
  argument _ := fun _ _ _ h => nomatch h
  arguments _ := fun _ _ _ h => nomatch h

theorem statement_succ (hmore : Ends more) (h : StatementsCarry f more env env' depth) :
    ∀ tokens s rest, Grammar.statement env (depth + 1) tokens = .ok s rest → Agree env env' [s] →
      Takes (Grammar.statement env') (joined f more tokens) (s.relocated f) (joined f more rest) := by
  intro tokens s rest hok hagree
  simp only [Grammar.statement] at hok
  split at hok
  · cases hok
  · rename_i word pos tail
    split at hok
    · rename_i b hword
      rcases exists_of_map_ok hok with ⟨list, hlist, rfl⟩
      simp only [Statement.relocated]
      exact takes_command (f pos) hword (h.arguments b.signature tail list rest hlist hagree.of_bodies)
    · rename_i hbuiltin
      split at hok
      · cases hok
      · rename_i hoperator
        rcases exists_of_map_ok hok with ⟨list, hlist, rfl⟩
        have hfree : isReserved word = false := by
          simp [isReserved, hbuiltin, hoperator]
        have hcount := hagree word list pos (.here List.mem_cons_self)
        simp only [Statement.relocated]
        exact takes_call (f pos) hfree (callArguments_carries hmore hcount depth tail list rest hlist)
  · cases hok

theorem statementsTo_succ (h : StatementsCarry f more env env' depth) (closing : Lexeme) :
    ∀ tokens body last rest, Grammar.statementsTo env closing (depth + 1) tokens = .ok body (⟨closing, last⟩ :: rest) →
      Agree env env' body →
        Takes (Grammar.statementsTo env' closing) (joined f more tokens) (Statement.listRelocated f body)
          (joined f more (⟨closing, last⟩ :: rest)) := by
  intro tokens body last rest hok hagree
  simp only [Grammar.statementsTo] at hok
  split at hok
  · cases hok
    simp only [Statement.listRelocated]
    exact takes_statementsTo_nil (.inl rfl)
  · rename_i hgoes
    rcases exists_of_bind_ok hok with ⟨first, mid, hfirst, hrest⟩
    rcases exists_of_map_ok hrest with ⟨others, hothers, rfl⟩
    rcases not_or.1 hgoes with ⟨hclosing, hend⟩
    rcases Option.ne_none_iff_exists'.1 hend with ⟨lexeme, hahead⟩
    have hahead' : ahead (joined f more tokens) = some lexeme := ahead_joined_of_some hahead
    simp only [Statement.listRelocated]
    refine takes_statementsTo_cons ?_ (by simp [hahead']) (h.statement tokens first mid hfirst hagree.of_cons.1)
      (h.statementsTo closing mid others last rest hothers hagree.of_cons.2)
    rwa [hahead', ← hahead]

theorem block_succ (h : StatementsCarry f more env env' depth) :
    ∀ tokens a rest, Grammar.block env (depth + 1) tokens = .ok a rest →
      (∀ body, a.body? = some body → Agree env env' body) →
        Takes (Grammar.block env') (joined f more tokens) (a.relocated f) (joined f more rest) := by
  intro tokens a rest hok hagree
  rcases exists_of_bind_ok hok with ⟨_, inside, hopening, hblock⟩
  rcases exists_of_expect_ok hopening with ⟨first, rfl⟩
  rcases exists_of_closing_ok hblock with ⟨body, last, hbody, rfl⟩
  simp only [Argument.relocated]
  exact takes_block (f first) (f last) (h.statementsTo .closeBracket inside body last rest hbody (hagree body rfl))

theorem argument_succ (hmore : Ends more) (h : StatementsCarry f more env env' depth) (form : ArgumentForm) :
    ∀ tokens a rest, Grammar.argument env (depth + 1) form tokens = .ok a rest →
      (∀ body, a.body? = some body → Agree env env' body) →
        Takes (Grammar.argument env' · form) (joined f more tokens) (a.relocated f) (joined f more rest) := by
  intro tokens a rest hok hagree
  refine .succ ?_
  cases form with
  | value =>
      rcases exists_of_map_ok hok with ⟨e, he, rfl⟩
      simp only [Argument.relocated]
      exact (expression_carries hmore depth tokens e rest he).map Argument.value
  | condition => exact conditionArgument_carries hmore depth tokens a rest hok
  | block => exact h.block tokens a rest hok hagree
  | point => exact pointArgument_carries hmore depth tokens a rest hok
  | colour => exact colourArgument_carries hmore depth tokens a rest hok
  | word => exact wordArgument_carries tokens a rest hok

theorem arguments_succ (h : StatementsCarry f more env env' depth) (forms : List ArgumentForm) :
    ∀ tokens list rest, Grammar.arguments env (depth + 1) forms tokens = .ok list rest →
      (∀ body ∈ list.filterMap Argument.body?, Agree env env' body) →
        Takes (Grammar.arguments env' · forms) (joined f more tokens) (Argument.listRelocated f list)
          (joined f more rest) := by
  intro tokens list rest hok hagree
  cases forms with
  | nil =>
      cases hok
      simp only [Argument.listRelocated]
      exact takes_arguments_nil (joined f more tokens)
  | cons form forms =>
      rcases exists_of_bind_ok hok with ⟨first, mid, hfirst, hrest⟩
      rcases exists_of_map_ok hrest with ⟨others, hothers, rfl⟩
      have hhead : ∀ body, first.body? = some body → Agree env env' body := fun body hbody =>
        hagree body (List.mem_filterMap.2 ⟨first, List.mem_cons_self, hbody⟩)
      have htail : ∀ body ∈ others.filterMap Argument.body?, Agree env env' body := by
        intro body hbody
        rcases List.mem_filterMap.1 hbody with ⟨a, ha, hbody⟩
        exact hagree body (List.mem_filterMap.2 ⟨a, List.mem_cons_of_mem first ha, hbody⟩)
      simp only [Argument.listRelocated]
      exact takes_arguments_cons (h.argument form tokens first mid hfirst hhead)
        (h.arguments forms mid others rest hothers htail)

theorem all (hmore : Ends more) (f : Position → Position) (env env' : Env) (depth : Nat) :
    StatementsCarry f more env env' depth := by
  induction depth with
  | zero =>
      exact zero
  | succ depth h =>
      exact
        { statement := h.statement_succ hmore
          statementsTo := h.statementsTo_succ
          block := h.block_succ
          argument := h.argument_succ hmore
          arguments := h.arguments_succ }

end StatementsCarry

/-! ## Texts -/

section

variable {f : Position → Position} {more : List Token} {env env' : Env}

theorem definition_carries (hmore : Ends more) {depth : Nat} {pos : Position} {tokens rest : List Token} {s : Statement}
    (h : definition env depth pos tokens = .ok s rest) (hagree : Agree env env' [s]) :
    Takes (topStatement env') (joined f more (⟨.toKeyword, pos⟩ :: tokens)) (s.relocated f) (joined f more rest) := by
  rcases exists_of_bind_ok h with ⟨name, afterName, hname, hparams⟩
  rcases (procedureName_reads env).exists_used hname with ⟨used, rfl, hfree, place, rfl⟩
  rcases exists_of_bind_ok hparams with ⟨names, inside, hnames, hbody⟩
  rcases params_reads.exists_used hnames with ⟨vars, rfl, hvars⟩
  rcases exists_of_closing_ok hbody with ⟨body, last, hstatements, rfl⟩
  have hagree' : Agree env env' body := hagree.of_bodies body List.mem_cons_self
  have htaken := (StatementsCarry.all hmore f env env' depth).statementsTo .endKeyword inside body last rest hstatements
    hagree'
  have hvars' : (vars.map (Token.relocated f)).map Token.lexeme = names.map Lexeme.var := by
    rw [List.map_map, ← hvars]
    rfl
  have hstop (name : String) : ahead (joined f more inside) ≠ some (.var name) :=
    ahead_joined_ne (ahead_ne_var_of_params hnames name) (hmore.ahead_ne_var name)
  have htokens : joined f more (⟨.toKeyword, pos⟩ :: ([⟨.ident name, place⟩] ++ (vars ++ inside))) =
      ⟨.toKeyword, f pos⟩ :: ⟨.ident name, f place⟩ :: (vars.map (Token.relocated f) ++ joined f more inside) := by
    simp [joined, Token.relocated]
  rw [htokens]
  simp only [Statement.relocated]
  exact takes_definition (f pos) (f place) (f last) hfree hvars' hstop htaken

theorem topStatement_carries (hmore : Ends more) {depth : Nat} {tokens rest : List Token} {s : Statement}
    (h : topStatement env depth tokens = .ok s rest) (hagree : Agree env env' [s]) :
    Takes (topStatement env') (joined f more tokens) (s.relocated f) (joined f more rest) := by
  unfold topStatement at h
  split at h
  · exact definition_carries hmore h hagree
  · rename_i hto
    have htaken := (StatementsCarry.all hmore f env env' depth).statement tokens s rest h hagree
    refine .of_eq (fun _ => ?_) htaken
    cases tokens with
    | nil =>
        have hshorter := (StatementsRead.all env depth).statement.shorter (fun _ _ hread => hread.1.ne_nil) h
        simp at hshorter
    | cons token tail =>
        rcases token with ⟨lexeme, pos⟩
        cases lexeme with
        | toKeyword => exact (hto pos tail rfl).elim
        | _ => rfl

/-- The statements of a text without an error are read from it, and then those of what follows. -/
theorem statements_joined (hmore : Ends more) {tokens : List Token} (h : (statements env tokens).filterMap error? = [])
    (hagree : Agree env env' ((statements env tokens).filterMap value?)) :
    statements env' (joined f more tokens) =
      ((statements env tokens).filterMap value?).map (fun s => .ok (s.relocated f)) ++ statements env' more := by
  fun_induction statements env tokens with
  | case1 =>
      rfl
  | case2 first rest result left hpair hle ih =>
      cases result with
      | error e =>
          simp [error?] at h
      | ok s =>
          split at hpair
          · rename_i htop
            cases hpair
            have hagree' : Agree env env' (s :: (statements env left).filterMap value?) := hagree
            have htaken := (topStatement_carries (f := f) hmore htop hagree'.of_cons.1).at_depthFor
              (topStatement_settles env') (by decide)
            rw [statements_of_ok htaken, ih (by simpa [error?] using h) hagree'.of_cons.2]
            rfl
          · cases hpair
  | case3 first rest result left hpair hle ih =>
      -- A statement consumes a token, so that this case is left to errors.
      cases result with
      | error e =>
          simp [error?] at h
      | ok s =>
          split at hpair
          · rename_i htop
            cases hpair
            have hshorter := (topStatement_reads env _).shorter (fun _ _ hread => hread.1.ne_nil) htop
            exact absurd (Nat.le_of_lt_succ hshorter) hle
          · cases hpair

end

/-! ## Where a text begins -/

theorem Ends.congr {tokens tokens' : List Token} (h : Ends tokens) (hahead : ahead tokens' = ahead tokens) :
    Ends tokens' where
  starts := by
    unfold startsExpression
    rw [hahead]
    exact h.starts
  stops op hop := h.stops op (hahead ▸ hop)

theorem ofWord?_eq_none_of_builtin {word : String} {b : Builtin} (h : Builtin.ofWord? word = some b) :
    Operator.ofWord? word = none := by
  have hwords : ∀ entry ∈ Builtin.words, Operator.ofWord? entry.1 = none := by
    decide
  rcases List.lookup_eq_some_iff.1 h with ⟨before, after, hsplit, -⟩
  exact hwords (word, b) (by simp [hsplit])

/-- A text that is read without an error begins where statements can end. -/
theorem ends_of_yields {table : List (String × Nat)} {tree : List Statement} {tokens : List Token}
    (h : Statement.ListYields tree tokens) (hformed : ∀ s ∈ tree, s.TopWellFormed table) : Ends tokens := by
  cases h with
  | nil => exact ends_nil
  | @cons s tree ts us hfirst hrest =>
      have hs := hformed s List.mem_cons_self
      cases hfirst with
      | definition pos => exact ends_toKeyword pos _
      | command pos hword => exact ends_ident (ofWord?_eq_none_of_builtin hword) pos _
      | call pos =>
          have hfree := (Bool.or_eq_false_iff.1 hs.1).2
          exact ends_ident (by simpa using hfree) pos _

theorem statements_of_parse {tokens : Tokens} {tree : List Statement} (h : parse tokens = .ok tree) :
    (statements (Env.ofTokens tokens) tokens.list).filterMap error? = [] ∧
      (statements (Env.ofTokens tokens) tokens.list).filterMap value? = tree := by
  simp only [parse] at h
  split at h
  · rename_i herrors
    cases h
    exact ⟨herrors, rfl⟩
  · cases h

/-- Two trees are read one after the other, if neither calls a procedure that the other one defines. -/
theorem parse_below {first second : Tokens} {tree tree' : List Statement} (hfirst : parse first = .ok tree)
    (hsecond : parse second = .ok tree')
    (hcalls : ∀ name arguments pos, Within Statement.bodies (.call name arguments pos) tree →
      (tree'.filterMap header?).lookup name = none)
    (hcalls' : ∀ name arguments pos, Within Statement.bodies (.call name arguments pos) tree' →
      (tree.filterMap header?).lookup name = none) (lines : Nat) :
    parse (first.below second lines) = .ok (tree ++ Statement.listRelocated (Position.down lines) tree') := by
  let f := Position.down lines
  let known : Env := ⟨tree.filterMap header? ++ tree'.filterMap header?, (first.below second lines).finish⟩
  rcases statements_of_parse hfirst with ⟨herrors, hvalues⟩
  rcases statements_of_parse hsecond with ⟨herrors', hvalues'⟩
  rcases treeRead_of_parse hfirst with ⟨hyields, hformed⟩
  rcases treeRead_of_parse hsecond with ⟨hyields', hformed'⟩
  have hheaders := headers_of_yields hyields hformed
  have hheaders' := headers_of_yields hyields' hformed'
  -- With the headers of both trees each text is read as it is alone.
  have hagree : Agree (Env.ofTokens first) known tree := by
    intro name arguments pos hwithin
    simp [known, Env.paramCount?, Env.ofTokens, hheaders, List.lookup_append, hcalls name arguments pos hwithin]
  have hagree' : Agree (Env.ofTokens second) known tree' := by
    intro name arguments pos hwithin
    simp [known, Env.paramCount?, Env.ofTokens, hheaders', List.lookup_append, hcalls' name arguments pos hwithin]
  have hends : Ends (second.list.map (Token.relocated f)) :=
    (ends_of_yields hyields' hformed').congr (by cases second.list <;> rfl)
  have hupper := statements_joined (f := id) hends herrors (hvalues.symm ▸ hagree)
  have hlower := statements_joined (f := f) ends_nil herrors' (hvalues'.symm ▸ hagree')
  simp only [joined, Token.map_relocated_id, hvalues, Statement.relocated_id] at hupper
  simp only [joined, List.append_nil, hvalues'] at hlower
  have hstatements : statements known (first.below second lines).list =
      (tree ++ Statement.listRelocated f tree').map Except.ok := by
    rw [Tokens.below, hupper, hlower, Statement.listRelocated_eq_map]
    simp [statements]
  have hnone : (statements known (first.below second lines).list).filterMap error? = [] := by
    simp [hstatements, error?]
  have hall : (statements known (first.below second lines).list).filterMap value? =
      tree ++ Statement.listRelocated f tree' := by
    simp [hstatements, Function.comp_def, value?]
  -- And these are the headers of the joined text, since the trees spell all its tokens.
  rcases treeRead_of_statements hnone with ⟨hspelled, htop⟩
  have hknown : Env.ofTokens (first.below second lines) = known := by
    have hboth := headers_of_yields hspelled htop
    rw [hall, List.filterMap_append, Statement.listRelocated_eq_map, List.filterMap_map] at hboth
    simp only [Function.comp_def, header?_relocated] at hboth
    simp only [Env.ofTokens, hboth, known]
  simp only [parse, hknown, hnone, hall, f]

end Grammar

/-! ## Programs -/

namespace Program

/-- Some command of the program, at any depth, calls the procedure of a name. -/
def CallsName (p : Program) (name : String) : Prop :=
  ∃ command, p.Holds command ∧ command.head = .call name

/-- The second program calls no procedure that the first one defines. -/
def Apart (p q : Program) : Prop :=
  ∀ d, p.Defines d → ¬ q.CallsName d.name

end Program

/-- A block of a statement has become a block of its command. -/
theorem Command.exists_body_of_ok {s : Surface.Statement} {command : Command} (h : Command.ofSurface s = .ok command)
    {inner : List Surface.Statement} (hinner : inner ∈ s.bodies) :
    ∃ body ∈ command.bodies, Command.listOfSurface inner = .ok body := by
  cases s with
  | definition name params body pos =>
      cases List.mem_singleton.1 hinner
      rw [ofSurface] at h
      rcases Checked.ok_of_map h with ⟨commands, hbody, rfl⟩
      exact ⟨commands, List.mem_filterMap.2 ⟨_, List.mem_cons_self, rfl⟩, hbody⟩
  | command b arguments pos =>
      rw [ofSurface] at h
      rcases Checked.ok_of_map h with ⟨operands, hoperands, rfl⟩
      have hblock := Surface.Argument.mem_bodies_iff.1 hinner
      rcases exists_left_of_mem (Operand.forall₂_of_ok hoperands).flip hblock with ⟨operand, hmem, hbuilt⟩
      rw [Operand.ofSurface] at hbuilt
      rcases Checked.ok_of_map hbuilt with ⟨body, hbody, rfl⟩
      exact ⟨body, Command.mem_bodies_of_block hmem, hbody⟩
  | call =>
      cases hinner

/-- Every statement of a tree has become a command of the program. -/
theorem Command.exists_command {tree : List Surface.Statement} {p : Program} (h : Command.listOfSurface tree = .ok p)
    {s : Surface.Statement} (hs : Within Surface.Statement.bodies s tree) :
    ∃ command, p.Holds command ∧ Command.ofSurface s = .ok command := by
  induction hs generalizing p with
  | here mem =>
      rcases exists_left_of_mem (Command.forall₂_of_ok h).flip mem with ⟨command, hmem, hbuilt⟩
      exact ⟨command, .here hmem, hbuilt⟩
  | inside mem part _ ih =>
      rcases exists_left_of_mem (Command.forall₂_of_ok h).flip mem with ⟨outer, houter, hbuilt⟩
      rcases exists_body_of_ok hbuilt part with ⟨body, hbody, hlist⟩
      rcases ih hlist with ⟨command, hholds, hbuilt⟩
      exact ⟨command, .inside houter hbody hholds, hbuilt⟩

namespace Program

theorem callsName_of_within {tree : List Surface.Statement} {p : Program} (h : Command.listOfSurface tree = .ok p)
    {name : String} {arguments : List Surface.Expr} {pos : Position}
    (hwithin : Within Surface.Statement.bodies (.call name arguments pos) tree) : p.CallsName name := by
  rcases Command.exists_command h hwithin with ⟨command, hholds, hbuilt⟩
  refine ⟨command, hholds, ?_⟩
  rw [Command.ofSurface] at hbuilt
  rcases Checked.ok_of_map hbuilt with ⟨values, -, rfl⟩
  rfl

/-- What a tree calls is not among the headers of another tree if their programs are apart. -/
theorem lookup_eq_none_of_apart {tree tree' : List Surface.Statement} {p q : Program}
    (hp : Command.listOfSurface tree = .ok p) (hq : Command.listOfSurface tree' = .ok q) (hapart : q.Apart p)
    {name : String} {arguments : List Surface.Expr} {pos : Position}
    (hwithin : Within Surface.Statement.bodies (.call name arguments pos) tree) :
    (tree'.filterMap Grammar.header?).lookup name = none := by
  have hcalled := callsName_of_within hp hwithin
  rw [← headers_eq (Command.forall₂_of_ok hq), lookup_headers, Option.map_eq_none_iff, List.find?_eq_none]
  intro d hd hname
  rw [beq_iff_eq.1 hname] at hcalled
  exact hapart d (defines_of_mem_definitions hd) hcalled

theorem exists_tree_of_compile {source : String} {p : Program} (h : compile source = .ok p) :
    ∃ tokens tree, Tokens.scan source = .ok tokens ∧ Grammar.parse tokens = .ok tree ∧
      Command.listOfSurface tree = .ok p := by
  simp only [compile, Surface.parse] at h
  cases hscan : Tokens.scan source with
  | error errors =>
      simp [hscan, Bind.bind, Except.bind] at h
  | ok tokens =>
      cases hparse : Grammar.parse tokens with
      | error errors =>
          simp [hscan, hparse, Bind.bind, Except.bind] at h
      | ok tree =>
          simp only [hscan, hparse, Bind.bind, Except.bind] at h
          exact ⟨tokens, tree, rfl, hparse, h⟩

theorem listOfSurface_append {tree tree' : List Surface.Statement} {p q : Program}
    (hp : Command.listOfSurface tree = .ok p) (hq : Command.listOfSurface tree' = .ok q) :
    Command.listOfSurface (tree ++ tree') = .ok (p ++ q) := by
  induction tree generalizing p with
  | nil =>
      rw [Command.listOfSurface] at hp
      cases hp
      exact hq
  | cons s tree ih =>
      rw [Command.listOfSurface] at hp
      rcases Checked.ok_of_map₂ hp with ⟨command, rest, hs, hrest, rfl⟩
      rw [List.cons_append, Command.listOfSurface, hs, ih hrest]
      rfl

/-- Two texts with a line break between them have the commands of the first and then those of the second, these so many
lines further down, if neither program calls a procedure that the other one defines. -/
theorem joined_texts_compile_separately {first second : String} {p q : Program} (hp : compile first = .ok p)
    (hq : compile second = .ok q) (hpq : p.Apart q) (hqp : q.Apart p) :
    compile (first ++ "\n" ++ second) =
      .ok (p ++ q.map (Command.relocated (Position.down (1 + first.toList.count '\n')))) := by
  rcases exists_tree_of_compile hp with ⟨tokens, tree, hscan, hparse, hbuild⟩
  rcases exists_tree_of_compile hq with ⟨tokens', tree', hscan', hparse', hbuild'⟩
  have htree := Grammar.parse_below hparse hparse'
    (fun _ _ _ hwithin => lookup_eq_none_of_apart hbuild hbuild' hqp hwithin)
    (fun _ _ _ hwithin => lookup_eq_none_of_apart hbuild' hbuild hpq hwithin) (1 + first.toList.count '\n')
  have hmoved : Command.listOfSurface
      (Surface.Statement.listRelocated (Position.down (1 + first.toList.count '\n')) tree') =
        .ok (q.map (Command.relocated (Position.down (1 + first.toList.count '\n')))) := by
    rw [Command.listOfSurface_relocated, hbuild', ← Command.listRelocated_eq_map]
    rfl
  simp only [compile, Surface.parse, Tokens.scan_joined hscan hscan', Bind.bind, Except.bind, htree]
  exact listOfSurface_append hbuild hmoved

/-- Whether no command of the second program, at any depth, calls a procedure that the first one defines at its top. -/
def apart (p q : Program) : Bool :=
  Command.listPasses (fun command => p.definitions.all fun d => command.head != .call d.name) q

theorem WellFormed.apart_of_check {p q : Program} (hp : p.WellFormed) (h : p.apart q = true) : p.Apart q := by
  rintro d hd ⟨command, hholds, head⟩
  have hpasses := Command.listPasses_iff.1 h command hholds
  simpa [head] using List.all_eq_true.1 hpasses d (hp.top d hd)

/-- A call with any number of arguments at the end of the upper text, which has two lines, and a definition at the beginning
of the lower one. -/
theorem joined_at_open_call :
    ∃ p q, compile "to f :x fd :x end f 1\ng 2 -:y ;-" = .ok p ∧ compile "to h rt -1 repeat 3 [h] end h" = .ok q ∧
      p.Apart q ∧ q.Apart p ∧ p.length = 3 ∧ q.length = 2 ∧
      compile ("to f :x fd :x end f 1\ng 2 -:y ;-" ++ "\n" ++ "to h rt -1 repeat 3 [h] end h") =
        .ok (p ++ q.map (Command.relocated (Position.down 2))) := by
  let upper := "to f :x fd :x end f 1\ng 2 -:y ;-"
  let lower := "to h rt -1 repeat 3 [h] end h"
  have hchecks : (compile upper).toOption.map (fun p : Program => (compile lower).toOption.map fun q : Program =>
      (p.apart q, q.apart p, p.length, q.length)) = some (some (true, true, 3, 2)) := by
    decide +kernel
  rcases Checked.exists_ok_of_toOption hchecks with ⟨p, hp, hinner⟩
  rcases Checked.exists_ok_of_toOption hinner with ⟨q, hq, hall⟩
  simp only [Prod.mk.injEq] at hall
  rcases hall with ⟨hpq, hqp, hupper, hlower⟩
  have hapart := (compile_wellFormed hp).apart_of_check hpq
  have hapart' := (compile_wellFormed hq).apart_of_check hqp
  exact ⟨p, q, hp, hq, hapart, hapart', hupper, hlower, joined_texts_compile_separately hp hq hapart hapart'⟩

end Program
end TurtleLogo
