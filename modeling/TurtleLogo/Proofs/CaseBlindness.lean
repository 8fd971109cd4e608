import TurtleLogo.Proofs.Building
import TurtleLogo.Proofs.LetterCase

/-!
# The case of letters has no meaning

Two texts that differ only in the case of their letters have the same program, or errors with the same codes at the same
positions. Small letters can be made at any stage with the same outcome: in the text, in its tokens, in its trees, or in
what its errors quote. `Folds` says so for a production, and sequences of productions add up by `Folds.bind`:

* `ExpressionsFold.all` and `StatementsFold.all`: every production reads folded tokens as it reads the tokens themselves;
* `Command.listOfSurface_folded`: literals have their values in any case;
* `Program.compile_toLower`: so a text in small letters has the program of the text.
-/

namespace TurtleLogo

open Surface

/-! ## Trees -/

def Surface.ColourArgument.folded : ColourArgument → ColourArgument
  | .word text pos => .word text.toLower pos
  | .rgb red green blue => .rgb red green blue
  | .index i => .index i

mutual

/-- The statement with its quoted words in small letters. -/
def Surface.Statement.folded : Statement → Statement
  | .definition name params body pos => .definition name params (Statement.listFolded body) pos
  | .command builtin arguments pos => .command builtin (Argument.listFolded arguments) pos
  | .call name arguments pos => .call name arguments pos

def Surface.Argument.folded : Argument → Argument
  | .value e => .value e
  | .block body => .block (Statement.listFolded body)
  | .point x y => .point x y
  | .colour c => .colour c.folded
  | .word text pos => .word text.toLower pos

def Surface.Argument.listFolded : List Argument → List Argument
  | [] => []
  | a :: rest => a.folded :: Argument.listFolded rest

def Surface.Statement.listFolded : List Statement → List Statement
  | [] => []
  | s :: rest => s.folded :: Statement.listFolded rest

end

namespace Grammar

/-! ## Productions -/

section

variable {α β : Type}

/-- A result with its error and the tokens that are left folded, and `f` applied to its value. -/
def foldedResult (f : α → β) : EStateM.Result BuildError (List Token) α → EStateM.Result BuildError (List Token) β
  | .ok a rest => .ok (f a) (rest.map Token.folded)
  | .error e rest => .error e.folded (rest.map Token.folded)

/-- The first production does on folded tokens what the second one does on the tokens themselves. -/
def Folds (f : α → α) (p q : Parser α) : Prop :=
  ∀ tokens, p (tokens.map Token.folded) = foldedResult f (q tokens)

/-- A production that reads tokens in any case. -/
def CaseBlind (f : α → α) (p : Parser α) : Prop :=
  Folds f p p

theorem ahead_folded (tokens : List Token) : ahead (tokens.map Token.folded) = (ahead tokens).map Lexeme.folded := by
  cases tokens <;> rfl

theorem Env.here_folded (env : Env) (tokens : List Token) : env.here (tokens.map Token.folded) = env.here tokens := by
  cases tokens <;> rfl

/-- A token that carries no text is ahead in any case. -/
theorem ahead_folded_eq_some_iff {lexeme : Lexeme} (hlexeme : lexeme.text? = none) (tokens : List Token) :
    ahead (tokens.map Token.folded) = some lexeme ↔ ahead tokens = some lexeme := by
  rw [ahead_folded]
  cases ahead tokens with
  | none =>
      simp
  | some found =>
      cases found with
      | word text => cases lexeme <;> simp [Lexeme.folded, Lexeme.text?] at hlexeme ⊢
      | _ => rfl

theorem ahead_folded_eq_none_iff (tokens : List Token) : ahead (tokens.map Token.folded) = none ↔ ahead tokens = none := by
  rw [ahead_folded, Option.map_eq_none_iff]

namespace Folds

variable {f : α → α} {g : β → β}

theorem pure {a b : α} (h : a = f b) : Folds f (Pure.pure a) (Pure.pure b) := by
  intro tokens
  subst h
  rfl

theorem bind {p q : Parser α} {k l : α → Parser β} (hp : Folds f p q) (hk : ∀ a, Folds g (k (f a)) (l a)) :
    Folds g (p >>= k) (q >>= l) := by
  intro tokens
  simp only [Bind.bind, EStateM.bind, hp tokens]
  cases q tokens with
  | error e rest => rfl
  | ok a rest => exact hk a rest

theorem fail {env : Env} {cause : Option Lexeme → BuildError.Cause}
    (hcause : ∀ found, cause (found.map Lexeme.folded) = (cause found).folded) :
    CaseBlind f (Grammar.fail env cause) := by
  intro tokens
  simp [Grammar.fail, foldedResult, BuildError.folded, Env.here_folded, ahead_folded, hcause]

theorem expect (env : Env) {wanted : Lexeme} (hwanted : wanted.text? = none) :
    CaseBlind id (Grammar.expect env wanted) := by
  intro tokens
  simp only [Grammar.expect, ahead_folded_eq_some_iff hwanted]
  split
  · simp [foldedResult]
  · exact fail (fun _ => rfl) tokens

/-- A certain token is read last. -/
theorem closing {env : Env} {wanted : Lexeme} (hwanted : wanted.text? = none) {a b : α} (h : a = f b) :
    Folds f (Grammar.expect env wanted >>= fun _ => Pure.pure a) (Grammar.expect env wanted >>= fun _ => Pure.pure b) :=
  (expect env hwanted).bind fun _ => .pure h

/-- A test of the tokens ahead has the same outcome on folded ones. -/
theorem ite {condition : List Token → Prop} [DecidablePred condition]
    (hcondition : ∀ tokens, condition (tokens.map Token.folded) ↔ condition tokens) {p q p' q' : Parser α}
    (hp : Folds f p p') (hq : Folds f q q') :
    Folds f (fun tokens => if condition tokens then p tokens.tail else q tokens)
      (fun tokens => if condition tokens then p' tokens.tail else q' tokens) := by
  intro tokens
  simp only [hcondition]
  split
  · rw [← List.map_tail]
    exact hp _
  · exact hq _

end Folds
end

/-! ## Expressions -/

theorem operatorAhead?_folded (tokens : List Token) :
    operatorAhead? (tokens.map Token.folded) = operatorAhead? tokens := by
  unfold operatorAhead?
  rw [ahead_folded]
  cases ahead tokens with
  | none => rfl
  | some lexeme => cases lexeme <;> rfl

theorem startsExpression_folded (tokens : List Token) :
    startsExpression (tokens.map Token.folded) = startsExpression tokens := by
  unfold startsExpression
  rw [ahead_folded]
  cases ahead tokens with
  | none => rfl
  | some lexeme => cases lexeme <;> rfl

theorem Level.operator?_folded (level : Level) (lexeme : Lexeme) :
    level.operator? lexeme.folded = level.operator? lexeme := by
  cases lexeme with
  | word text => cases level <;> rfl
  | _ => rfl

/-- What holds of the expression productions with a certain depth: names of variables are in small letters anyway, so that
the trees are the same. -/
structure ExpressionsFold (env : Env) (depth : Nat) : Prop where
  chain (level : Level) : CaseBlind id (chain env depth level)
  chainFrom (level : Level) (left : Expr) : CaseBlind id (chainFrom env depth level left)
  operand (level : Level) : CaseBlind id (operand env depth level)
  signed : CaseBlind id (signed env depth)
  power : CaseBlind id (power env depth)
  primary : CaseBlind id (primary env depth)
  expressions (count : Nat) : CaseBlind id (expressions env depth count)
  expressionsToParen : CaseBlind id (expressionsToParen env depth)

namespace ExpressionsFold

variable {env : Env} {depth : Nat}

theorem zero : ExpressionsFold env 0 where
  chain _ := .fail fun _ => rfl
  chainFrom _ _ := .fail fun _ => rfl
  operand _ := .fail fun _ => rfl
  signed := .fail fun _ => rfl
  power := .fail fun _ => rfl
  primary := .fail fun _ => rfl
  expressions _ := .fail fun _ => rfl
  expressionsToParen := .fail fun _ => rfl

theorem chain_succ (h : ExpressionsFold env depth) (level : Level) :
    CaseBlind id (Grammar.chain env (depth + 1) level) :=
  (h.operand level).bind fun first => h.chainFrom level first

theorem chainFrom_succ (h : ExpressionsFold env depth) (level : Level) (left : Expr) :
    CaseBlind id (Grammar.chainFrom env (depth + 1) level left) := by
  intro tokens
  have hsign : (ahead (tokens.map Token.folded)).bind level.operator? = (ahead tokens).bind level.operator? := by
    rw [ahead_folded]
    cases ahead tokens with
    | none => rfl
    | some lexeme => exact level.operator?_folded lexeme
  simp only [Grammar.chainFrom, hsign]
  split
  · rfl
  · rw [← List.map_tail]
    refine Folds.bind (h.operand level) (fun right => ?_) tokens.tail
    exact h.chainFrom level _

theorem operand_succ (h : ExpressionsFold env depth) (level : Level) :
    CaseBlind id (Grammar.operand env (depth + 1) level) := by
  cases level with
  | comparison => exact h.chain .additive
  | additive => exact h.chain .multiplicative
  | multiplicative => exact h.signed

theorem signed_succ (h : ExpressionsFold env depth) :
    CaseBlind id (Grammar.signed env (depth + 1)) := by
  intro tokens
  simp only [Grammar.signed, ahead_folded_eq_some_iff (show Lexeme.minus.text? = none from rfl),
    ahead_folded_eq_some_iff (show Lexeme.negate.text? = none from rfl), Env.here_folded]
  split
  · rw [← List.map_tail]
    refine Folds.bind h.signed (fun inner => ?_) tokens.tail
    exact .pure rfl
  · exact h.power tokens

theorem power_succ (h : ExpressionsFold env depth) :
    CaseBlind id (Grammar.power env (depth + 1)) := by
  refine h.primary.bind fun base => ?_
  exact .ite (ahead_folded_eq_some_iff rfl) (h.signed.bind fun _ => .pure rfl) (q := Pure.pure base) (.pure rfl)

theorem primary_succ (h : ExpressionsFold env depth) :
    CaseBlind id (Grammar.primary env (depth + 1)) := by
  intro tokens
  rcases tokens with - | ⟨⟨lexeme, pos⟩, rest⟩
  · rfl
  cases lexeme with
  | thingKeyword =>
      rcases rest with - | ⟨⟨lexeme, place⟩, rest⟩
      · rfl
      cases lexeme with
      | word name =>
          -- The one place where a production makes letters small itself.
          simp [Grammar.primary, Token.folded, Lexeme.folded, foldedResult, toLower_toLower]
      | _ => rfl
  | openParen =>
      -- Whether an operator or a whole expression follows is the same in any case.
      simp only [Grammar.primary, List.map_cons, Token.folded, Lexeme.folded, operatorAhead?_folded]
      split
      · rw [← List.map_tail]
        refine Folds.bind h.expressionsToParen (fun operands => ?_) rest.tail
        exact .closing rfl rfl
      · refine Folds.bind (h.chain .comparison) (fun inner => ?_) rest
        exact .closing rfl rfl
  | ident name =>
      simp only [Grammar.primary, List.map_cons, Token.folded, Lexeme.folded]
      split
      · refine Folds.bind (h.expressions _) (fun operands => ?_) rest
        exact .pure rfl
      · split <;> rfl
  | _ => rfl

theorem expressions_succ (h : ExpressionsFold env depth) (count : Nat) :
    CaseBlind id (Grammar.expressions env (depth + 1) count) := by
  cases count with
  | zero => exact .pure rfl
  | succ count => exact (h.chain .comparison).bind fun first => (h.expressions count).bind fun rest => .pure rfl

theorem expressionsToParen_succ (h : ExpressionsFold env depth) :
    CaseBlind id (Grammar.expressionsToParen env (depth + 1)) := by
  intro tokens
  simp only [Grammar.expressionsToParen, ahead_folded_eq_some_iff (show Lexeme.closeParen.text? = none from rfl),
    ahead_folded_eq_none_iff]
  split
  · rfl
  · refine Folds.bind (h.chain .comparison) (fun first => ?_) tokens
    exact h.expressionsToParen.bind fun rest => .pure rfl

theorem all (env : Env) (depth : Nat) : ExpressionsFold env depth := by
  -- The productions call each other with one level less.
  induction depth with
  | zero =>
      exact zero
  | succ depth h =>
      exact
        { chain := h.chain_succ
          chainFrom := h.chainFrom_succ
          operand := h.operand_succ
          signed := h.signed_succ
          power := h.power_succ
          primary := h.primary_succ
          expressions := h.expressions_succ
          expressionsToParen := h.expressionsToParen_succ }

end ExpressionsFold

theorem expression_caseBlind (env : Env) (depth : Nat) : CaseBlind id (expression env depth) :=
  (ExpressionsFold.all env depth).chain .comparison

theorem expressionsAhead_caseBlind (env : Env) (depth : Nat) :
    CaseBlind id (expressionsAhead env depth) := by
  induction depth with
  | zero =>
      exact .fail fun _ => rfl
  | succ depth ih =>
      intro tokens
      simp only [expressionsAhead, startsExpression_folded]
      split
      · refine Folds.bind (expression_caseBlind env depth) (fun first => ?_) tokens
        exact ih.bind fun rest => .pure rfl
      · rfl

/-! ## Arguments -/

theorem callArguments_caseBlind (env : Env) (depth : Nat) (name : String) :
    CaseBlind id (callArguments env depth name) := by
  unfold callArguments
  cases env.paramCount? name with
  | some count => exact (ExpressionsFold.all env depth).expressions count
  | none => exact expressionsAhead_caseBlind env depth

theorem wordArgument_caseBlind (env : Env) : CaseBlind Argument.folded (wordArgument env) := by
  intro tokens
  rcases tokens with - | ⟨⟨lexeme, pos⟩, rest⟩
  · rfl
  cases lexeme <;> rfl

theorem pointArgument_caseBlind (env : Env) (depth : Nat) :
    CaseBlind Argument.folded (pointArgument env depth) := by
  refine (Folds.expect env rfl).bind fun _ => ?_
  refine (expression_caseBlind env depth).bind fun x => ?_
  refine (expression_caseBlind env depth).bind fun y => ?_
  exact .closing rfl rfl

theorem conditionArgument_caseBlind (env : Env) (depth : Nat) :
    CaseBlind Argument.folded (conditionArgument env depth) := by
  refine .ite (ahead_folded_eq_some_iff rfl) ?_ ?_
  · refine (expression_caseBlind env depth).bind fun condition => ?_
    exact .closing rfl rfl
  · refine (expression_caseBlind env depth).bind fun condition => ?_
    exact .pure rfl

theorem colourArgument_caseBlind (env : Env) (depth : Nat) :
    CaseBlind Argument.folded (colourArgument env depth) := by
  -- Without a word or a bracket there is an index.
  have hindex : CaseBlind Argument.folded (expression env depth >>= fun index => pure (Argument.colour (.index index))) := by
    refine (expression_caseBlind env depth).bind fun index => ?_
    exact .pure rfl
  intro tokens
  rcases tokens with - | ⟨⟨lexeme, pos⟩, rest⟩
  · exact hindex []
  cases lexeme with
  | word text => rfl
  | openBracket =>
      refine Folds.bind (expression_caseBlind env depth) (fun red => ?_) rest
      refine (expression_caseBlind env depth).bind fun green => ?_
      refine (expression_caseBlind env depth).bind fun blue => ?_
      exact .closing rfl rfl
  | _ => exact hindex (_ :: rest)

/-! ## Statements -/

/-- What holds of the statement productions with a certain depth. -/
structure StatementsFold (env : Env) (depth : Nat) : Prop where
  statement : CaseBlind Statement.folded (statement env depth)
  statementsTo (closing : Lexeme) (hclosing : closing.text? = none) :
    CaseBlind Statement.listFolded (statementsTo env closing depth)
  block : CaseBlind Argument.folded (block env depth)
  argument (form : ArgumentForm) : CaseBlind Argument.folded (argument env depth form)
  arguments (forms : List ArgumentForm) :
    CaseBlind Argument.listFolded (arguments env depth forms)

namespace StatementsFold

variable {env : Env} {depth : Nat}

theorem zero : StatementsFold env 0 where
  statement := .fail fun _ => rfl
  statementsTo _ _ := .fail fun _ => rfl
  block := .fail fun _ => rfl
  argument _ := .fail fun _ => rfl
  arguments _ := .fail fun _ => rfl

theorem statement_succ (h : StatementsFold env depth) :
    CaseBlind Statement.folded (Grammar.statement env (depth + 1)) := by
  intro tokens
  rcases tokens with - | ⟨⟨lexeme, pos⟩, rest⟩
  · rfl
  cases lexeme with
  | ident name =>
      simp only [Grammar.statement, List.map_cons, Token.folded, Lexeme.folded]
      split
      · refine Folds.bind (h.arguments _) (fun list => ?_) rest
        exact .pure rfl
      · split
        · rfl
        · refine Folds.bind (callArguments_caseBlind env depth name) (fun list => ?_) rest
          exact .pure rfl
  | _ => rfl

theorem statementsTo_succ (h : StatementsFold env depth) (closing : Lexeme) (hclosing : closing.text? = none) :
    CaseBlind Statement.listFolded (Grammar.statementsTo env closing (depth + 1)) := by
  intro tokens
  simp only [Grammar.statementsTo, ahead_folded_eq_some_iff hclosing, ahead_folded_eq_none_iff]
  split
  · rfl
  · refine Folds.bind h.statement (fun first => ?_) tokens
    refine (h.statementsTo closing hclosing).bind fun rest => ?_
    exact .pure rfl

theorem block_succ (h : StatementsFold env depth) :
    CaseBlind Argument.folded (Grammar.block env (depth + 1)) := by
  refine (Folds.expect env rfl).bind fun _ => ?_
  refine (h.statementsTo .closeBracket rfl).bind fun body => ?_
  exact .closing rfl rfl

theorem argument_succ (h : StatementsFold env depth) (form : ArgumentForm) :
    CaseBlind Argument.folded (Grammar.argument env (depth + 1) form) := by
  cases form with
  | value => exact (expression_caseBlind env depth).bind fun e => .pure rfl
  | condition => exact conditionArgument_caseBlind env depth
  | block => exact h.block
  | point => exact pointArgument_caseBlind env depth
  | colour => exact colourArgument_caseBlind env depth
  | word => exact wordArgument_caseBlind env

theorem arguments_succ (h : StatementsFold env depth) (forms : List ArgumentForm) :
    CaseBlind Argument.listFolded (Grammar.arguments env (depth + 1) forms) := by
  cases forms with
  | nil => exact .pure rfl
  | cons form forms =>
      refine (h.argument form).bind fun first => (h.arguments forms).bind fun rest => ?_
      exact .pure rfl

theorem all (env : Env) (depth : Nat) : StatementsFold env depth := by
  induction depth with
  | zero =>
      exact zero
  | succ depth h =>
      exact
        { statement := h.statement_succ
          statementsTo := h.statementsTo_succ
          block := h.block_succ
          argument := h.argument_succ
          arguments := h.arguments_succ }

end StatementsFold

/-! ## Definitions -/

theorem procedureName_caseBlind (env : Env) : CaseBlind id (procedureName env) := by
  intro tokens
  rcases tokens with - | ⟨⟨lexeme, pos⟩, rest⟩
  · rfl
  cases lexeme with
  | ident name =>
      simp only [procedureName, ahead, List.map_cons, List.head?_cons, Option.map_some, Token.folded, Lexeme.folded]
      split <;> rfl
  | _ => rfl

theorem isVar_folded (token : Token) : isVar token.folded = isVar token := by
  rcases token with ⟨lexeme, pos⟩
  cases lexeme <;> rfl

theorem params_caseBlind : CaseBlind id params := by
  intro tokens
  have hvars : isVar ∘ Token.folded = isVar := funext isVar_folded
  have hnames : (tokens.takeWhile isVar).map Token.folded = tokens.takeWhile isVar := by
    refine (List.map_congr_left fun token hmem => ?_).trans (List.map_id _)
    rcases lexeme_of_isVar (List.mem_takeWhile_imp hmem) with ⟨name, hname⟩
    rcases token with ⟨lexeme, pos⟩
    cases hname
    rfl
  simp only [params, foldedResult, id, List.takeWhile_map, List.dropWhile_map, hvars, hnames]

theorem definition_caseBlind (env : Env) (depth : Nat) (pos : Position) :
    CaseBlind Statement.folded (definition env depth pos) := by
  refine (procedureName_caseBlind env).bind fun name => ?_
  refine params_caseBlind.bind fun names => ?_
  refine ((StatementsFold.all env depth).statementsTo .endKeyword rfl).bind fun body => ?_
  exact .closing rfl rfl

theorem topStatement_caseBlind (env : Env) (depth : Nat) :
    CaseBlind Statement.folded (topStatement env depth) := by
  intro tokens
  rcases tokens with - | ⟨⟨lexeme, pos⟩, rest⟩
  · exact (StatementsFold.all env depth).statement []
  cases lexeme with
  | toKeyword => exact definition_caseBlind env depth pos rest
  | _ => exact (StatementsFold.all env depth).statement (_ :: rest)

/-! ## Texts -/

theorem headers_folded (tokens : List Token) : headers (tokens.map Token.folded) = headers tokens := by
  have hvars : isVar ∘ Token.folded = isVar := funext isVar_folded
  fun_induction headers tokens with
  | case1 => rfl
  | case2 pos name place rest ih =>
      simp [headers, Token.folded, Lexeme.folded, List.takeWhile_map, hvars, ih]
  | case3 token rest hheader ih =>
      -- The word `to` begins a header only if a name follows, which is then a name in any case.
      rcases token with ⟨lexeme, pos⟩
      cases lexeme with
      | toKeyword =>
          rcases rest with - | ⟨⟨lexeme, place⟩, rest⟩
          · rfl
          cases lexeme with
          | ident name => exact (hheader pos name place rest rfl rfl).elim
          | _ => exact ih
      | _ => exact ih

theorem Env.ofTokens_folded (tokens : Tokens) : Env.ofTokens tokens.folded = Env.ofTokens tokens := by
  simp [Env.ofTokens, Tokens.folded, headers_folded]

theorem resumes_folded (env : Env) (token : Token) : resumes env token.folded = resumes env token := by
  rcases token with ⟨lexeme, pos⟩
  cases lexeme <;> rfl

theorem recover_folded (env : Env) (tokens : List Token) :
    recover env (tokens.map Token.folded) = (recover env tokens).map Token.folded := by
  simp only [recover, List.dropWhile_map, Function.comp_def, resumes_folded]

/-- A statement or an error, folded. -/
def foldedOutcome (outcome : Except BuildError Statement) : Except BuildError Statement :=
  (outcome.map Statement.folded).mapError BuildError.folded

/-- What is read first, and the tokens from which reading goes on. -/
def firstOutcome (env : Env) (tokens : List Token) : Except BuildError Statement × List Token :=
  match topStatement env (depthFor tokens) tokens with
  | .ok statement left => (.ok statement, left)
  | .error error left => (.error error, recover env left)

theorem statements_cons (env : Env) (first : Token) (rest : List Token) :
    statements env (first :: rest) =
      (firstOutcome env (first :: rest)).1 ::
        statements env
          (if (firstOutcome env (first :: rest)).2.length ≤ rest.length then (firstOutcome env (first :: rest)).2
            else rest) := by
  rw [statements, firstOutcome]
  cases topStatement env (depthFor (first :: rest)) (first :: rest) with
  | ok statement left =>
      dsimp only
      split <;> rfl
  | error error left =>
      dsimp only
      split <;> rfl

theorem firstOutcome_folded (env : Env) (tokens : List Token) :
    firstOutcome env (tokens.map Token.folded) =
      Prod.map foldedOutcome (List.map Token.folded) (firstOutcome env tokens) := by
  have hdepth : depthFor (tokens.map Token.folded) = depthFor tokens := by
    simp [depthFor]
  rw [firstOutcome, hdepth, topStatement_caseBlind, firstOutcome]
  cases topStatement env (depthFor tokens) tokens with
  | ok statement left => rfl
  | error error left => simp [foldedResult, foldedOutcome, Except.map, Except.mapError, recover_folded]

theorem statements_folded (env : Env) (tokens : List Token) :
    statements env (tokens.map Token.folded) = (statements env tokens).map foldedOutcome := by
  -- What is left is shorter: the induction is on the number of tokens.
  induction hlength : tokens.length using Nat.strong_induction_on generalizing tokens with
  | _ n ih =>
      subst hlength
      cases tokens with
      | nil =>
          simp [statements]
      | cons first rest =>
          have hfirst := firstOutcome_folded env (first :: rest)
          rw [List.map_cons] at hfirst
          rw [List.map_cons, statements_cons, statements_cons, hfirst, List.map_cons, Prod.map_fst, Prod.map_snd,
            List.length_map, List.length_map]
          split
          · rename_i hle
            rw [ih _ (Nat.lt_succ_of_le hle) _ rfl]
          · rw [ih _ (Nat.lt_succ_self _) _ rfl]

theorem listFolded_eq_map (list : List Statement) : Statement.listFolded list = list.map Statement.folded := by
  induction list with
  | nil => simp [Statement.listFolded]
  | cons s list ih => simp [Statement.listFolded, ih]

theorem parse_folded (tokens : Tokens) :
    parse tokens.folded = ((parse tokens).map Statement.listFolded).mapError (List.map BuildError.folded) := by
  have herrors (results : List (Except BuildError Statement)) :
      (results.map foldedOutcome).filterMap error? = (results.filterMap error?).map BuildError.folded := by
    rw [List.filterMap_map, List.map_filterMap]
    congr 1
    funext result
    cases result <;> rfl
  have hvalues (results : List (Except BuildError Statement)) :
      (results.map foldedOutcome).filterMap value? = (results.filterMap value?).map Statement.folded := by
    rw [List.filterMap_map, List.map_filterMap]
    congr 1
    funext result
    cases result <;> rfl
  simp only [parse, Env.ofTokens_folded]
  rw [show tokens.folded.list = tokens.list.map Token.folded from rfl, statements_folded, herrors, hvalues]
  cases (statements (Env.ofTokens tokens) tokens.list).filterMap error? with
  | nil => simp [Except.map, Except.mapError, listFolded_eq_map]
  | cons => rfl

theorem parseExpression_folded (tokens : Tokens) :
    parseExpression tokens.folded = (parseExpression tokens).mapError (List.map BuildError.folded) := by
  have hdepth : depthFor (tokens.list.map Token.folded) = depthFor tokens.list := by
    simp [depthFor]
  simp only [parseExpression, Env.ofTokens_folded]
  rw [show tokens.folded.list = tokens.list.map Token.folded from rfl, hdepth, expression_caseBlind]
  cases expression (Env.ofTokens tokens) (depthFor tokens.list) tokens.list with
  | error => rfl
  | ok e rest => cases rest <;> rfl

end Grammar

/-! ## Literals -/

theorem Colour.hexValue?_toLower (c : Char) : hexValue? c.toLower = hexValue? c := by
  cases hc : c.isUpper with
  | false =>
      rw [Char.toLower_eq_of_not_isUpper (by simp [hc])]
  | true =>
      have hcapitals : ∀ n ∈ List.range' 65 26, hexValue? (Char.ofNat n).toLower = hexValue? (Char.ofNat n) := by
        decide
      have hmem : c.toNat ∈ List.range' 65 26 := by
        simp only [Char.isUpper, decide_eq_true_eq, UInt32.le_iff_toNat_le, ge_iff_le] at hc
        simpa using ⟨hc.1, Nat.lt_succ_of_le hc.2⟩
      simpa using hcapitals c.toNat hmem

theorem Colour.ofHex?_toLower (word : String) : ofHex? word.toLower = ofHex? word := by
  have hchars : word.toLower.toList = word.toList.map Char.toLower := String.toList_map
  have hdigits (high low : Char) : channelOfDigits? high.toLower low.toLower = channelOfDigits? high low := by
    simp only [channelOfDigits?, hexValue?_toLower]
  simp only [ofHex?, hchars]
  split
  · rename_i hsmall
    simp only [List.map_eq_cons_iff, List.map_eq_nil_iff] at hsmall
    rcases hsmall with ⟨sharp, _, hword, hsharp, r₁, _, rfl, rfl, r₀, _, rfl, rfl, g₁, _, rfl, rfl, g₀, _, rfl, rfl, b₁, _,
      rfl, rfl, b₀, _, rfl, rfl, rfl⟩
    rw [hword, (toLower_eq_iff rfl sharp).1 hsharp]
    simp only [hdigits]
  · rename_i hother
    split
    · rename_i hword
      exact (hother _ _ _ _ _ _ (by rw [hword]; rfl)).elim
    · rfl

theorem colourWord_toLower (word : String) (pos : Position) :
    colourWord word.toLower pos = (colourWord word pos).mapError BuildError.folded := by
  have hhead : word.toLower.toList.head? = some '#' ↔ word.toList.head? = some '#' := by
    rw [show word.toLower.toList = word.toList.map Char.toLower from String.toList_map]
    cases word.toList <;> simp [toLower_eq_iff]
  have hnamed : Colour.named? word.toLower = Colour.named? word := by
    rw [Colour.named?, Grammar.toLower_toLower, Colour.named?]
  simp only [colourWord, hhead, hnamed, Colour.ofHex?_toLower]
  split
  · cases Colour.ofHex? word <;> rfl
  · cases Colour.named? word <;> rfl

/-! ## Building -/

namespace Checked

theorem map₂_mapError {α β γ : Type} (f : α → β → γ) (g : BuildError → BuildError) (a : Checked α) (b : Checked β) :
    map₂ f (a.mapError (List.map g)) (b.mapError (List.map g)) = (map₂ f a b).mapError (List.map g) := by
  cases a <;> cases b <;> simp [map₂, Except.mapError]

theorem map_mapError {α β : Type} (f : α → β) (g : List BuildError → List BuildError) (a : Checked α) :
    (a.mapError g).map f = (a.map f).mapError g := by
  cases a <;> rfl

end Checked

mutual

/-- The errors in an expression are about numbers, which have no letters. -/
theorem Expression.ofSurface_mapError (e : Surface.Expr) :
    (Expression.ofSurface e).mapError (List.map BuildError.folded) = Expression.ofSurface e := by
  cases e with
  | number text pos =>
      rw [Expression.ofSurface, numberLiteral]
      cases Number.read? text.toList <;> rfl
  | var => rfl
  | thing => rfl
  | binary op left right pos =>
      rw [Expression.ofSurface, ← Checked.map₂_mapError, Expression.ofSurface_mapError left,
        Expression.ofSurface_mapError right]
  | negate operand pos =>
      rw [Expression.ofSurface, ← Checked.map_mapError, Expression.ofSurface_mapError operand]
  | apply op operands pos =>
      rw [Expression.ofSurface, ← Checked.map_mapError, Expression.listOfSurface_mapError operands]
  | group inner pos =>
      rw [Expression.ofSurface, Expression.ofSurface_mapError inner]

theorem Expression.listOfSurface_mapError (list : List Surface.Expr) :
    (Expression.listOfSurface list).mapError (List.map BuildError.folded) = Expression.listOfSurface list := by
  cases list with
  | nil => rfl
  | cons e rest =>
      rw [Expression.listOfSurface, ← Checked.map₂_mapError, Expression.ofSurface_mapError e,
        Expression.listOfSurface_mapError rest]

end

theorem ColourExpression.ofSurface_folded (c : Surface.ColourArgument) :
    ColourExpression.ofSurface c.folded = (ColourExpression.ofSurface c).mapError (List.map BuildError.folded) := by
  cases c with
  | word text pos =>
      rw [Surface.ColourArgument.folded, ColourExpression.ofSurface, colourWord_toLower, ColourExpression.ofSurface]
      cases colourWord text pos <;> rfl
  | rgb red green blue =>
      rw [Surface.ColourArgument.folded, ColourExpression.ofSurface, ← Checked.map₂_mapError, ← Checked.map₂_mapError,
        Expression.ofSurface_mapError, Expression.ofSurface_mapError, Expression.ofSurface_mapError]
  | index index =>
      rw [Surface.ColourArgument.folded, ColourExpression.ofSurface, ← Checked.map_mapError, Expression.ofSurface_mapError]

mutual

theorem Command.ofSurface_folded (s : Surface.Statement) :
    Command.ofSurface s.folded = (Command.ofSurface s).mapError (List.map BuildError.folded) := by
  cases s with
  | definition name params body pos =>
      rw [Surface.Statement.folded, Command.ofSurface, Command.listOfSurface_folded body, Checked.map_mapError,
        Command.ofSurface]
  | command builtin arguments pos =>
      rw [Surface.Statement.folded, Command.ofSurface, Operand.listOfSurface_folded arguments, Checked.map_mapError,
        Command.ofSurface]
  | call name arguments pos =>
      rw [Surface.Statement.folded, Command.ofSurface, ← Checked.map_mapError, Expression.listOfSurface_mapError]

theorem Operand.ofSurface_folded (a : Surface.Argument) :
    Operand.ofSurface a.folded = (Operand.ofSurface a).mapError (List.map BuildError.folded) := by
  cases a with
  | value e =>
      rw [Surface.Argument.folded, Operand.ofSurface, ← Checked.map_mapError, Expression.ofSurface_mapError]
  | block body =>
      rw [Surface.Argument.folded, Operand.ofSurface, Command.listOfSurface_folded body, Checked.map_mapError,
        Operand.ofSurface]
  | point x y =>
      rw [Surface.Argument.folded, Operand.ofSurface, ← Checked.map₂_mapError, Expression.ofSurface_mapError,
        Expression.ofSurface_mapError]
  | colour c =>
      rw [Surface.Argument.folded, Operand.ofSurface, ColourExpression.ofSurface_folded, Checked.map_mapError,
        Operand.ofSurface]
  | word text pos =>
      rw [Surface.Argument.folded, Operand.ofSurface, Grammar.toLower_toLower, Operand.ofSurface]
      rfl

theorem Operand.listOfSurface_folded (list : List Surface.Argument) :
    Operand.listOfSurface (Surface.Argument.listFolded list) =
      (Operand.listOfSurface list).mapError (List.map BuildError.folded) := by
  cases list with
  | nil =>
      rw [Surface.Argument.listFolded, Operand.listOfSurface]
      rfl
  | cons a rest =>
      rw [Surface.Argument.listFolded, Operand.listOfSurface, Operand.ofSurface_folded a,
        Operand.listOfSurface_folded rest, Checked.map₂_mapError, Operand.listOfSurface]

theorem Command.listOfSurface_folded (list : List Surface.Statement) :
    Command.listOfSurface (Surface.Statement.listFolded list) =
      (Command.listOfSurface list).mapError (List.map BuildError.folded) := by
  cases list with
  | nil =>
      rw [Surface.Statement.listFolded, Command.listOfSurface]
      rfl
  | cons s rest =>
      rw [Surface.Statement.listFolded, Command.listOfSurface, Command.ofSurface_folded s,
        Command.listOfSurface_folded rest, Checked.map₂_mapError, Command.listOfSurface]

end

/-! ## Compiling -/

theorem Program.compile_toLower (source : String) :
    Program.compile source.toLower = (Program.compile source).mapError (List.map BuildError.folded) := by
  simp only [Program.compile, Surface.parse, Tokens.scan_toLower]
  cases Tokens.scan source with
  | error errors =>
      rfl
  | ok tokens =>
      simp only [Except.map, Except.mapError, Bind.bind, Except.bind, Grammar.parse_folded]
      cases Grammar.parse tokens with
      | error errors => rfl
      | ok tree => exact Command.listOfSurface_folded tree

theorem Expression.compile_toLower (source : String) :
    Expression.compile source.toLower = (Expression.compile source).mapError (List.map BuildError.folded) := by
  simp only [Expression.compile, Tokens.scan_toLower]
  cases Tokens.scan source with
  | error errors =>
      rfl
  | ok tokens =>
      simp only [Except.map, Except.mapError, Bind.bind, Except.bind, Grammar.parseExpression_folded]
      cases Grammar.parseExpression tokens with
      | error errors => rfl
      | ok tree => exact (Expression.ofSurface_mapError tree).symm

/-- Outcomes that agree: the same value, or as many errors with the same codes at the same positions. -/
def Checked.Agree {α : Type} : Checked α → Checked α → Prop
  | .ok a, .ok b => a = b
  | .error errors, .error more => errors.map (fun e => (e.cause.code, e.pos)) = more.map fun e => (e.cause.code, e.pos)
  | _, _ => False

theorem Checked.agree_of_folded {α : Type} {a b : Checked α}
    (h : a.mapError (List.map BuildError.folded) = b.mapError (List.map BuildError.folded)) : a.Agree b := by
  have hfolded (errors : List BuildError) :
      (errors.map BuildError.folded).map (fun e => (e.cause.code, e.pos)) = errors.map fun e => (e.cause.code, e.pos) := by
    simp [BuildError.folded, BuildError.Cause.code_folded]
  cases a with
  | ok a =>
      cases b with
      | ok b => exact Except.ok.inj h
      | error => cases h
  | error errors =>
      cases b with
      | ok => cases h
      | error more =>
          have herrors := congrArg (List.map fun e => (e.cause.code, e.pos)) (Except.error.inj h)
          rwa [hfolded, hfolded] at herrors

/-- Texts that are the same in small letters have the same program with the same positions, or as many errors, of the same
codes at the same lines and columns; and so for the expression that a text consists of. -/
theorem letter_case_has_no_meaning {s t : String} (h : s.toLower = t.toLower) :
    (Program.compile s).Agree (Program.compile t) ∧ (Expression.compile s).Agree (Expression.compile t) := by
  -- Folded errors are the errors of the text in small letters, which the two texts share.
  have hprogram : (Program.compile s).mapError (List.map BuildError.folded) =
      (Program.compile t).mapError (List.map BuildError.folded) := by
    calc
      (Program.compile s).mapError (List.map BuildError.folded) = Program.compile s.toLower :=
        (Program.compile_toLower s).symm
      _ = Program.compile t.toLower := by rw [h]
      _ = (Program.compile t).mapError (List.map BuildError.folded) := Program.compile_toLower t
  have hexpression : (Expression.compile s).mapError (List.map BuildError.folded) =
      (Expression.compile t).mapError (List.map BuildError.folded) := by
    calc
      (Expression.compile s).mapError (List.map BuildError.folded) = Expression.compile s.toLower :=
        (Expression.compile_toLower s).symm
      _ = Expression.compile t.toLower := by rw [h]
      _ = (Expression.compile t).mapError (List.map BuildError.folded) := Expression.compile_toLower t
  exact ⟨Checked.agree_of_folded hprogram, Checked.agree_of_folded hexpression⟩

/-- An instance with a definition, words that name variables, and colours by name and by channels. -/
theorem capitals_have_no_meaning :
    ∃ p,
      Program.compile "To F :X MAKE \"Y thing \"x End SetPC \"#FF00aa SETPC \"Red F 1" = .ok p ∧
        Program.compile "to f :x make \"y THING \"X end setpc \"#ff00AA setpc \"rED f 1" = .ok p := by
  let capitals := "To F :X MAKE \"Y thing \"x End SetPC \"#FF00aa SETPC \"Red F 1"
  let small := "to f :x make \"y THING \"X end setpc \"#ff00AA setpc \"rED f 1"
  have hsame : capitals.toLower = small.toLower := by
    rw [← String.toList_inj, String.toLower, String.toLower, String.toList_map, String.toList_map]
    decide
  have hagree := (letter_case_has_no_meaning hsame).1
  have hok : (Program.compile capitals).isOk = true := by
    decide +kernel
  cases hcapitals : Program.compile capitals with
  | error =>
      simp [hcapitals, Except.isOk, Except.toBool] at hok
  | ok p =>
      cases hsmall : Program.compile small with
      | error =>
          simp [hcapitals, hsmall, Checked.Agree] at hagree
      | ok q =>
          rw [hcapitals, hsmall] at hagree
          exact ⟨p, rfl, congrArg Except.ok hagree.symm⟩

end TurtleLogo
