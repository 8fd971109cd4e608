import TurtleLogo.Proofs.Depth

/-!
# The rules of the grammar

`Takes production tokens a rest` says that a production reads `a` from the tokens and leaves the rest, with every depth
from some one on. Such readings add up without a word about depths, so that each production has a few rules which say
when it succeeds; they are the grammar as a reader of it would follow it. `Takes.at_depthFor` goes back to the depth that
texts are read with.
-/

namespace TurtleLogo
namespace Grammar

open Surface

/-- From some depth on the production reads a value from the tokens and leaves the rest. -/
def Takes {α : Type} (production : Nat → Parser α) (tokens : List Token) (a : α) (rest : List Token) : Prop :=
  ∃ least, ∀ depth, least ≤ depth → production depth tokens = .ok a rest

namespace Takes

variable {α β : Type} {tokens mid rest : List Token} {a : α} {b : β}

theorem of_ok {p : Nat → Parser α} (h : ∀ depth, p depth tokens = .ok a rest) : Takes p tokens a rest :=
  ⟨0, fun depth _ => h depth⟩

theorem of_eq {p q : Nat → Parser α} {tokens' : List Token} (h : ∀ depth, p depth tokens = q depth tokens')
    (hq : Takes q tokens' a rest) : Takes p tokens a rest := by
  rcases hq with ⟨least, hleast⟩
  exact ⟨least, fun depth hle => (h depth).trans (hleast depth hle)⟩

theorem bind {p : Nat → Parser α} {f : Nat → α → Parser β} (hp : Takes p tokens a mid)
    (hf : Takes (f · a) mid b rest) : Takes (fun depth => p depth >>= f depth) tokens b rest := by
  rcases hp with ⟨least, hleast⟩
  rcases hf with ⟨least', hleast'⟩
  refine ⟨max least least', fun depth hle => ?_⟩
  have hfirst := hleast depth (Nat.le_trans (Nat.le_max_left _ _) hle)
  have hsecond := hleast' depth (Nat.le_trans (Nat.le_max_right _ _) hle)
  simp only [Bind.bind, EStateM.bind, hfirst, hsecond]

theorem map {p : Nat → Parser α} (hp : Takes p tokens a rest) (f : α → β) :
    Takes (fun depth => p depth >>= fun a => Pure.pure (f a)) tokens (f a) rest :=
  hp.bind (.of_ok fun _ => rfl)

/-- A production that leaves one level less to those it calls. -/
theorem succ {p : Nat → Parser α} (h : Takes (fun depth => p (depth + 1)) tokens a rest) : Takes p tokens a rest := by
  rcases h with ⟨least, hleast⟩
  refine ⟨least + 1, fun depth hle => ?_⟩
  obtain ⟨depth, rfl⟩ : ∃ less, depth = less + 1 := ⟨depth - 1, by omega⟩
  exact hleast depth (Nat.le_of_succ_le_succ hle)

theorem at_depthFor {weight : Nat} {p : Nat → Parser α} (h : Takes p tokens a rest)
    (hsettles : ∀ depth, SettlesAt weight p depth) (hweight : weight ≤ 16) :
    p (depthFor tokens) tokens = .ok a rest := by
  rcases h with ⟨least, hleast⟩
  have hdepth : 16 * tokens.length + weight ≤ depthFor tokens := by
    unfold depthFor
    omega
  have hsettled := hsettles _ tokens (max least (depthFor tokens)) hdepth (Nat.le_max_right _ _)
  exact hsettled.symm.trans (hleast _ (Nat.le_max_left _ _))

end Takes

variable {env : Env} {tokens mid rest : List Token}

theorem expect_cons (env : Env) (lexeme : Lexeme) (pos : Position) (rest : List Token) :
    expect env lexeme (⟨lexeme, pos⟩ :: rest) = .ok () rest :=
  if_pos rfl

/-- A certain token is taken last. -/
theorem Takes.closing {α β : Type} {p : Nat → Parser α} {a : α} {lexeme : Lexeme} {pos : Position}
    (h : Takes p tokens a (⟨lexeme, pos⟩ :: rest)) (env : Env) (f : α → β) :
    Takes (fun depth => p depth >>= fun a => expect env lexeme >>= fun _ => pure (f a)) tokens (f a) rest :=
  h.bind (.bind (.of_ok fun _ => expect_cons env lexeme pos rest) (.of_ok fun _ => rfl))

/-! ## Expressions -/

theorem takes_chain {level : Level} {first e : Expr} (hfirst : Takes (operand env · level) tokens first mid)
    (hrest : Takes (chainFrom env · level first) mid e rest) : Takes (chain env · level) tokens e rest :=
  .succ (hfirst.bind hrest)

theorem takes_chainFrom_none {level : Level} (left : Expr) (h : (ahead tokens).bind level.operator? = none) :
    Takes (chainFrom env · level left) tokens left tokens := by
  refine .succ (.of_ok fun depth => ?_)
  simp only [chainFrom, h]

theorem takes_chainFrom_some {level : Level} {sign : Lexeme} {op : BinaryOp} {left right e : Expr} (place : Position)
    (hop : level.operator? sign = some op) (hright : Takes (operand env · level) tokens right mid)
    (hrest : Takes (chainFrom env · level (.binary op left right left.pos)) mid e rest) :
    Takes (chainFrom env · level left) (⟨sign, place⟩ :: tokens) e rest := by
  have hjoined := hright.bind (f := fun depth right => chainFrom env depth level (.binary op left right left.pos)) hrest
  refine .succ (.of_eq (fun depth => ?_) hjoined)
  have hahead : (ahead (⟨sign, place⟩ :: tokens)).bind level.operator? = some op := hop
  simp only [chainFrom, hahead, List.tail_cons]

theorem takes_operand_comparison {e : Expr} (h : Takes (chain env · .additive) tokens e rest) :
    Takes (operand env · .comparison) tokens e rest :=
  .succ h

theorem takes_operand_additive {e : Expr} (h : Takes (chain env · .multiplicative) tokens e rest) :
    Takes (operand env · .additive) tokens e rest :=
  .succ h

theorem takes_operand_multiplicative {e : Expr} (h : Takes (signed env) tokens e rest) :
    Takes (operand env · .multiplicative) tokens e rest :=
  .succ h

theorem takes_signed_negate {sign : Lexeme} {e : Expr} (pos : Position) (hsign : sign = .minus ∨ sign = .negate)
    (h : Takes (signed env) tokens e rest) :
    Takes (signed env) (⟨sign, pos⟩ :: tokens) (.negate e pos) rest := by
  refine .succ (.of_eq (fun depth => ?_) (h.map (Expr.negate · pos)))
  have hahead : ahead (⟨sign, pos⟩ :: tokens) = some .minus ∨ ahead (⟨sign, pos⟩ :: tokens) = some .negate :=
    hsign.imp (congrArg some) (congrArg some)
  simp only [signed, if_pos hahead, List.tail_cons]
  rfl

theorem takes_signed_power {e : Expr} (hminus : ahead tokens ≠ some .minus) (hnegate : ahead tokens ≠ some .negate)
    (h : Takes (power env) tokens e rest) : Takes (signed env) tokens e rest := by
  refine .succ (.of_eq (fun depth => ?_) h)
  have hahead : ¬ (ahead tokens = some .minus ∨ ahead tokens = some .negate) :=
    not_or.2 ⟨hminus, hnegate⟩
  simp only [signed, if_neg hahead]

theorem takes_power_primary {base : Expr} (h : Takes (primary env) tokens base rest)
    (hahead : ahead rest ≠ some .caret) : Takes (power env) tokens base rest :=
  .succ (h.bind (.of_ok fun _ => if_neg hahead))

theorem takes_power_caret {base exponent : Expr} (place : Position)
    (hbase : Takes (primary env) tokens base (⟨.caret, place⟩ :: mid))
    (hexponent : Takes (signed env) mid exponent rest) :
    Takes (power env) tokens (.binary .pow base exponent base.pos) rest :=
  .succ (hbase.bind (.of_eq (fun _ => if_pos rfl) (hexponent.map (Expr.binary .pow base · base.pos))))

theorem takes_number (text : String) (pos : Position) (rest : List Token) :
    Takes (primary env) (⟨.number text, pos⟩ :: rest) (.number text pos) rest :=
  .succ (.of_ok fun _ => rfl)

theorem takes_var (name : String) (pos : Position) (rest : List Token) :
    Takes (primary env) (⟨.var name, pos⟩ :: rest) (.var name pos) rest :=
  .succ (.of_ok fun _ => rfl)

theorem takes_thing (word : String) (pos place : Position) (rest : List Token) :
    Takes (primary env) (⟨.thingKeyword, pos⟩ :: ⟨.word word, place⟩ :: rest) (.thing word.toLower pos) rest :=
  .succ (.of_ok fun _ => rfl)

theorem takes_parenthesised {word : String} {op : Operator} {operands : List Expr} (pos place last : Position)
    (hword : Operator.ofWord? word = some op)
    (h : Takes (expressionsToParen env) tokens operands (⟨.closeParen, last⟩ :: rest)) :
    Takes (primary env) (⟨.openParen, pos⟩ :: ⟨.ident word, place⟩ :: tokens) (.apply op operands pos) rest := by
  refine .succ (.of_eq (fun depth => ?_) (h.closing env (Expr.apply op · pos)))
  have hop : operatorAhead? (⟨.ident word, place⟩ :: tokens) = some op := hword
  simp only [primary, hop, List.tail_cons]

theorem takes_group {inner : Expr} (pos last : Position) (hop : operatorAhead? tokens = none)
    (h : Takes (expression env) tokens inner (⟨.closeParen, last⟩ :: rest)) :
    Takes (primary env) (⟨.openParen, pos⟩ :: tokens) (.group inner pos) rest := by
  refine .succ (.of_eq (fun depth => ?_) (h.closing env (Expr.group · pos)))
  simp only [primary, hop]
  rfl

theorem takes_bare {word : String} {op : Operator} {operands : List Expr} (pos : Position)
    (hword : Operator.ofWord? word = some op) (h : Takes (expressions env · op.bareCount) tokens operands rest) :
    Takes (primary env) (⟨.ident word, pos⟩ :: tokens) (.apply op operands pos) rest := by
  refine .succ (.of_eq (fun depth => ?_) (h.map (Expr.apply op · pos)))
  simp only [primary, hword]

theorem takes_expressions_zero (tokens : List Token) : Takes (expressions env · 0) tokens [] tokens :=
  .succ (.of_ok fun _ => rfl)

theorem takes_expressions_succ {count : Nat} {first : Expr} {list : List Expr}
    (hfirst : Takes (expression env) tokens first mid) (hrest : Takes (expressions env · count) mid list rest) :
    Takes (expressions env · (count + 1)) tokens (first :: list) rest :=
  .succ (hfirst.bind (hrest.map (first :: ·)))

theorem takes_expressionsToParen_nil (h : ahead tokens = some .closeParen ∨ ahead tokens = none) :
    Takes (expressionsToParen env) tokens [] tokens :=
  .succ (.of_ok fun _ => if_pos h)

theorem takes_expressionsToParen_cons {first : Expr} {list : List Expr} (hparen : ahead tokens ≠ some .closeParen)
    (hend : ahead tokens ≠ none) (hfirst : Takes (expression env) tokens first mid)
    (hrest : Takes (expressionsToParen env) mid list rest) :
    Takes (expressionsToParen env) tokens (first :: list) rest :=
  .succ (.of_eq (fun _ => if_neg (not_or.2 ⟨hparen, hend⟩)) (hfirst.bind (hrest.map (first :: ·))))

theorem takes_expressionsAhead_nil (h : startsExpression tokens = false) :
    Takes (expressionsAhead env) tokens [] tokens := by
  refine .succ (.of_ok fun _ => if_neg ?_)
  simp [h]

theorem takes_expressionsAhead_cons {first : Expr} {list : List Expr} (h : startsExpression tokens = true)
    (hfirst : Takes (expression env) tokens first mid) (hrest : Takes (expressionsAhead env) mid list rest) :
    Takes (expressionsAhead env) tokens (first :: list) rest :=
  .succ (.of_eq (fun _ => if_pos h) (hfirst.bind (hrest.map (first :: ·))))

/-! ## Arguments -/

theorem takes_callArguments_some {name : String} {count : Nat} {list : List Expr}
    (hcount : env.paramCount? name = some count) (h : Takes (expressions env · count) tokens list rest) :
    Takes (callArguments env · name) tokens list rest := by
  simpa only [callArguments, hcount] using h

theorem takes_callArguments_none {name : String} {list : List Expr} (hcount : env.paramCount? name = none)
    (h : Takes (expressionsAhead env) tokens list rest) : Takes (callArguments env · name) tokens list rest := by
  simpa only [callArguments, hcount] using h

theorem takes_opening {α : Type} {p : Nat → Parser α} {a : α} {lexeme : Lexeme} (pos : Position)
    (h : Takes p tokens a rest) :
    Takes (fun depth => expect env lexeme >>= fun _ => p depth) (⟨lexeme, pos⟩ :: tokens) a rest :=
  .bind (.of_ok fun _ => expect_cons env lexeme pos tokens) h

theorem takes_point {x y : Expr} (first last : Position) (hx : Takes (expression env) tokens x mid)
    (hy : Takes (expression env) mid y (⟨.closeBracket, last⟩ :: rest)) :
    Takes (pointArgument env) (⟨.openBracket, first⟩ :: tokens) (.point x y) rest :=
  takes_opening first (hx.bind (hy.closing env (Argument.point x)))

theorem takes_bracketed {e : Expr} (first last : Position)
    (h : Takes (expression env) tokens e (⟨.closeBracket, last⟩ :: rest)) :
    Takes (conditionArgument env) (⟨.openBracket, first⟩ :: tokens) (.value e) rest :=
  .of_eq (fun _ => if_pos rfl) (h.closing env Argument.value)

theorem takes_colour_word (text : String) (pos : Position) (rest : List Token) :
    Takes (colourArgument env) (⟨.word text, pos⟩ :: rest) (.colour (.word text pos)) rest :=
  .of_ok fun _ => rfl

theorem takes_colour_rgb {red green blue : Expr} {afterRed afterGreen : List Token} (first last : Position)
    (hred : Takes (expression env) tokens red afterRed) (hgreen : Takes (expression env) afterRed green afterGreen)
    (hblue : Takes (expression env) afterGreen blue (⟨.closeBracket, last⟩ :: rest)) :
    Takes (colourArgument env) (⟨.openBracket, first⟩ :: tokens) (.colour (.rgb red green blue)) rest := by
  have hclosed := hblue.closing env fun blue => Argument.colour (.rgb red green blue)
  exact .of_eq (fun _ => rfl) (hred.bind (hgreen.bind hclosed))

theorem takes_colour_index {e : Expr} (hstart : startsExpression tokens = true)
    (h : Takes (expression env) tokens e rest) : Takes (colourArgument env) tokens (.colour (.index e)) rest := by
  refine .of_eq (fun depth => ?_) (h.map fun e => Argument.colour (.index e))
  -- Neither a quoted word nor a bracket can begin an expression.
  unfold colourArgument
  split
  · cases hstart
  · cases hstart
  · rfl

/-! ## Statements -/

theorem takes_command {word : String} {b : Builtin} {list : List Argument} (pos : Position)
    (hword : Builtin.ofWord? word = some b) (h : Takes (arguments env · b.signature) tokens list rest) :
    Takes (statement env) (⟨.ident word, pos⟩ :: tokens) (.command b list pos) rest := by
  refine .succ (.of_eq (fun depth => ?_) (h.map (Statement.command b · pos)))
  simp only [statement, hword]

theorem takes_call {name : String} {list : List Expr} (pos : Position) (hname : isReserved name = false)
    (h : Takes (callArguments env · name) tokens list rest) :
    Takes (statement env) (⟨.ident name, pos⟩ :: tokens) (.call name list pos) rest := by
  refine .succ (.of_eq (fun depth => ?_) (h.map (Statement.call name · pos)))
  simp only [isReserved, Bool.or_eq_false_iff, Option.isSome_eq_false_iff, Option.isNone_iff_eq_none] at hname
  simp only [statement, hname.1, hname.2]

theorem takes_statementsTo_nil {closing : Lexeme} (h : ahead tokens = some closing ∨ ahead tokens = none) :
    Takes (statementsTo env closing) tokens [] tokens :=
  .succ (.of_ok fun _ => if_pos h)

theorem takes_statementsTo_cons {closing : Lexeme} {first : Statement} {list : List Statement}
    (hclosing : ahead tokens ≠ some closing) (hend : ahead tokens ≠ none)
    (hfirst : Takes (statement env) tokens first mid) (hrest : Takes (statementsTo env closing) mid list rest) :
    Takes (statementsTo env closing) tokens (first :: list) rest :=
  .succ (.of_eq (fun _ => if_neg (not_or.2 ⟨hclosing, hend⟩)) (hfirst.bind (hrest.map (first :: ·))))

theorem takes_block {body : List Statement} (first last : Position)
    (h : Takes (statementsTo env .closeBracket) tokens body (⟨.closeBracket, last⟩ :: rest)) :
    Takes (block env) (⟨.openBracket, first⟩ :: tokens) (.block body) rest :=
  .succ (takes_opening first (h.closing env Argument.block))

theorem takes_arguments_nil (tokens : List Token) : Takes (arguments env · []) tokens [] tokens :=
  .succ (.of_ok fun _ => rfl)

theorem takes_arguments_cons {form : ArgumentForm} {forms : List ArgumentForm} {first : Argument}
    {list : List Argument} (hfirst : Takes (argument env · form) tokens first mid)
    (hrest : Takes (arguments env · forms) mid list rest) :
    Takes (arguments env · (form :: forms)) tokens (first :: list) rest :=
  .succ (hfirst.bind (hrest.map (first :: ·)))

/-! ## Texts -/

theorem params_append {vars : List Token} {names : List String} (hvars : vars.map Token.lexeme = names.map Lexeme.var)
    (hstop : ∀ name, ahead rest ≠ some (.var name)) : params (vars ++ rest) = .ok names rest := by
  have hisVar := isVar_of_lexemes hvars
  have hrest : rest.takeWhile isVar = [] ∧ rest.dropWhile isVar = rest := by
    cases rest with
    | nil =>
        exact ⟨rfl, rfl⟩
    | cons token rest =>
        have htoken : isVar token = false := by
          refine Bool.eq_false_iff.2 fun hvar => ?_
          rcases lexeme_of_isVar hvar with ⟨name, hname⟩
          exact hstop name (congrArg some hname)
        simp [htoken]
  have hnames : (vars.filterMap fun token => token.lexeme.text?) = names := by
    have hmap := (map_var_filterMap_text? hisVar).trans hvars
    exact (List.map_inj_right fun _ _ h => Lexeme.var.inj h).1 hmap
  simp only [params, List.takeWhile_append_of_pos hisVar, List.dropWhile_append_of_pos hisVar, hrest, List.append_nil,
    hnames]

theorem takes_definition {name : String} {names : List String} {vars : List Token} {body : List Statement}
    (pos place last : Position) (hname : isReserved name = false)
    (hvars : vars.map Token.lexeme = names.map Lexeme.var) (hstop : ∀ name, ahead tokens ≠ some (.var name))
    (h : Takes (statementsTo env .endKeyword) tokens body (⟨.endKeyword, last⟩ :: rest)) :
    Takes (topStatement env) (⟨.toKeyword, pos⟩ :: ⟨.ident name, place⟩ :: (vars ++ tokens))
      (.definition name names body pos) rest := by
  have hprocedure : procedureName env (⟨.ident name, place⟩ :: (vars ++ tokens)) = .ok name (vars ++ tokens) := by
    simp [procedureName, ahead, hname]
  have hbody := h.closing env (Statement.definition name names · pos)
  have hdefinition := (Takes.of_ok fun _ => params_append hvars hstop).bind (f := fun depth names =>
    statementsTo env .endKeyword depth >>= fun body => expect env .endKeyword >>= fun _ =>
      pure (Statement.definition name names body pos)) hbody
  exact .bind (.of_ok fun _ => hprocedure) hdefinition

end Grammar
end TurtleLogo
