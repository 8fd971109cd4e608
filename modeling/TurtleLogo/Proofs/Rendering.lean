import TurtleLogo.Proofs.Rules

/-!
# Rendering surface trees

Every tree has one canonical row of lexemes: conditions in brackets, operators in parentheses with their operands, minus
signs that begin their operands, and words as they are named. Well-formed trees are read back from it, wherever the
tokens of the row stand in the text. Trees are compared by `unplaced`, which forgets positions.

Nothing separates one operand, argument or statement from the next, so that each production must stop where its own
tokens end. `Stops rank rest` is what an expression of a rank needs for that: no sign ahead that would take it as its
left operand. A statement needs more, `Ends rest`, since a call to an unknown procedure takes all expressions that
follow.

* `returned_of_wellFormed`: expressions, by recursion on the tree. A chain that groups to the left is read from its
  first operand on, which is not the way it is nested; `Continues` carries what has been read so far;
* `statementReturns_of_wellFormed`: statements and their arguments;
* `exists_statements`: whole texts, at whose top definitions stand.
-/

namespace TurtleLogo

/-- The word for an operator in source texts. -/
def Operator.word (op : Operator) : String :=
  op.name.toLower

theorem Operator.ofWord?_word (op : Operator) : ofWord? op.word = some op := by
  cases op <;> decide +kernel

theorem Builtin.ofWord?_name (b : Builtin) : ofWord? b.name = some b := by
  cases b <;> decide

namespace Surface

/-! ## Lexemes -/

mutual

/-- The canonical lexemes of an expression. -/
def Expr.lexemes : Expr → List Lexeme
  | .number text _ => [.number text]
  | .var name _ => [.var name]
  | .thing name _ => [.thingKeyword, .word name]
  | .binary op left right _ => left.lexemes ++ op.sign :: right.lexemes
  | .negate operand _ => .negate :: operand.lexemes
  | .apply op operands _ => .openParen :: .ident op.word :: (Expr.listLexemes operands ++ [.closeParen])
  | .group inner _ => .openParen :: (inner.lexemes ++ [.closeParen])

def Expr.listLexemes : List Expr → List Lexeme
  | [] => []
  | e :: rest => e.lexemes ++ Expr.listLexemes rest

end

def ColourArgument.lexemes : ColourArgument → List Lexeme
  | .word text _ => [.word text]
  | .rgb red green blue => .openBracket :: (red.lexemes ++ (green.lexemes ++ (blue.lexemes ++ [.closeBracket])))
  | .index e => e.lexemes

mutual

/-- The canonical lexemes of a statement. -/
def Statement.lexemes : Statement → List Lexeme
  | .definition name params body _ =>
      .toKeyword :: .ident name :: (params.map Lexeme.var ++ (Statement.listLexemes body ++ [.endKeyword]))
  | .command b arguments _ => .ident b.name :: Argument.listLexemes b.signature arguments
  | .call name arguments _ => .ident name :: Expr.listLexemes arguments

def Statement.listLexemes : List Statement → List Lexeme
  | [] => []
  | s :: rest => s.lexemes ++ Statement.listLexemes rest

/-- The canonical lexemes of an argument in the form that a signature demands. -/
def Argument.lexemes : ArgumentForm → Argument → List Lexeme
  | .condition, .value e => .openBracket :: (e.lexemes ++ [.closeBracket])
  | _, .value e => e.lexemes
  | _, .block body => .openBracket :: (Statement.listLexemes body ++ [.closeBracket])
  | _, .point x y => .openBracket :: (x.lexemes ++ (y.lexemes ++ [.closeBracket]))
  | _, .colour c => c.lexemes
  | _, .word text _ => [.word text]

def Argument.listLexemes : List ArgumentForm → List Argument → List Lexeme
  | form :: forms, a :: rest => a.lexemes form ++ Argument.listLexemes forms rest
  | _, _ => []

end

/-! ## Positions forgotten -/

mutual

/-- The expression without its positions. -/
def Expr.unplaced : Expr → Expr
  | .number text _ => .number text .start
  | .var name _ => .var name .start
  | .thing name _ => .thing name .start
  | .binary op left right _ => .binary op left.unplaced right.unplaced .start
  | .negate operand _ => .negate operand.unplaced .start
  | .apply op operands _ => .apply op (Expr.listUnplaced operands) .start
  | .group inner _ => .group inner.unplaced .start

def Expr.listUnplaced : List Expr → List Expr
  | [] => []
  | e :: rest => e.unplaced :: Expr.listUnplaced rest

end

def ColourArgument.unplaced : ColourArgument → ColourArgument
  | .word text _ => .word text .start
  | .rgb red green blue => .rgb red.unplaced green.unplaced blue.unplaced
  | .index e => .index e.unplaced

mutual

/-- The statement without its positions. -/
def Statement.unplaced : Statement → Statement
  | .definition name params body _ => .definition name params (Statement.listUnplaced body) .start
  | .command b arguments _ => .command b (Argument.listUnplaced arguments) .start
  | .call name arguments _ => .call name (Expr.listUnplaced arguments) .start

def Statement.listUnplaced : List Statement → List Statement
  | [] => []
  | s :: rest => s.unplaced :: Statement.listUnplaced rest

def Argument.unplaced : Argument → Argument
  | .value e => .value e.unplaced
  | .block body => .block (Statement.listUnplaced body)
  | .point x y => .point x.unplaced y.unplaced
  | .colour c => .colour c.unplaced
  | .word text _ => .word text .start

def Argument.listUnplaced : List Argument → List Argument
  | [] => []
  | a :: rest => a.unplaced :: Argument.listUnplaced rest

end

theorem Expr.length_listUnplaced (list : List Expr) : (Expr.listUnplaced list).length = list.length := by
  induction list with
  | nil => rfl
  | cons e rest ih => simp [Expr.listUnplaced, ih]

/-! ## First lexemes -/

/-- Whether a canonical expression can begin with this lexeme. -/
def begins : Lexeme → Bool
  | .number _ | .var _ | .thingKeyword | .negate | .openParen => true
  | _ => false

theorem Expr.exists_begins : (e : Expr) → ∃ first more, e.lexemes = first :: more ∧ begins first = true
  | .number _ _ | .var _ _ | .thing _ _ | .negate _ _ | .apply _ _ _ | .group _ _ => by
      simp [Expr.lexemes, begins]
  | .binary op left right _ => by
      rcases left.exists_begins with ⟨first, more, hleft, hfirst⟩
      exact ⟨first, more ++ op.sign :: right.lexemes, by simp [Expr.lexemes, hleft], hfirst⟩

theorem BinaryOp.eq_pow_of_rank {op : BinaryOp} (h : Rank.signed ≤ op.rank) : op = .pow := by
  revert h
  cases op <;> decide

theorem BinaryOp.not_primary_le_rank (op : BinaryOp) : ¬ Rank.primary ≤ op.rank := by
  cases op <;> decide

theorem Rank.not_power_le_signed : ¬ Rank.power ≤ Rank.signed := by
  decide

theorem Rank.signed_le_power : Rank.signed ≤ Rank.power := by
  decide

theorem Rank.signed_le_primary : Rank.signed ≤ Rank.primary := by
  decide

/-- What holds together more tightly than a sign does not begin with one. -/
theorem Expr.head_ne_negate {e : Expr} (hformed : e.WellFormed) (hrank : Rank.power ≤ e.rank) :
    e.lexemes.head? ≠ some .negate := by
  cases e with
  | negate => exact absurd hrank Rank.not_power_le_signed
  | binary op left right =>
      cases op.eq_pow_of_rank (Rank.le_trans Rank.signed_le_power hrank)
      -- The base of a power is a primary expression, and none of these begins with a sign.
      have hleft : Rank.primary ≤ left.rank := hformed.1
      cases left with
      | binary op => exact absurd hleft op.not_primary_le_rank
      | negate => exact absurd (Rank.le_trans (show Rank.power ≤ Rank.primary by decide) hleft) Rank.not_power_le_signed
      | _ => simp [Expr.lexemes]
  | _ => simp [Expr.lexemes]

end Surface

namespace Grammar

open Surface

/-! ## Where productions stop -/

/-- No sign ahead takes an expression of the rank as its left operand. -/
def Stops (rank : Rank) (tokens : List Token) : Prop :=
  ∀ op : BinaryOp, ahead tokens = some op.sign → ¬ rank ≤ op.rank

theorem Stops.mono {low high : Rank} (hle : low ≤ high) {tokens : List Token} (h : Stops low tokens) :
    Stops high tokens :=
  fun op hahead hrank => h op hahead (Rank.le_trans hle hrank)

/-! ## Tokens ahead of an expression -/

/-- A canonical expression can begin with the token ahead. -/
def Begins (tokens : List Token) : Prop :=
  ∃ first, ahead tokens = some first ∧ begins first = true

theorem ahead_of_lexemes {used : List Token} {first : Lexeme} {more : List Lexeme}
    (h : used.map Token.lexeme = first :: more) (rest : List Token) : ahead (used ++ rest) = some first := by
  rcases List.map_eq_cons_iff.1 h with ⟨token, tail, rfl, rfl, -⟩
  rfl

theorem begins_of_lexemes {e : Expr} {used : List Token} (h : used.map Token.lexeme = e.lexemes) (rest : List Token) :
    Begins (used ++ rest) := by
  rcases e.exists_begins with ⟨first, more, hlexemes, hfirst⟩
  exact ⟨first, ahead_of_lexemes (h.trans hlexemes) rest, hfirst⟩

namespace Begins

variable {tokens : List Token}

theorem ahead_ne (h : Begins tokens) {lexeme : Lexeme} (hlexeme : begins lexeme = false) :
    ahead tokens ≠ some lexeme := by
  rcases h with ⟨first, hahead, hfirst⟩
  intro hlexeme'
  cases Option.some.inj (hahead.symm.trans hlexeme')
  exact Bool.false_ne_true (hlexeme.symm.trans hfirst)

theorem stops (h : Begins tokens) (rank : Rank) : Stops rank tokens := by
  intro op hahead
  have hsign : begins op.sign = false := by
    cases op <;> rfl
  exact absurd hahead (h.ahead_ne hsign)

theorem startsExpression (h : Begins tokens) : startsExpression tokens = true := by
  rcases h with ⟨first, hahead, hfirst⟩
  unfold Grammar.startsExpression
  cases first with
  | number | var | thingKeyword | negate | openParen => simp only [hahead]
  | _ => cases hfirst

theorem operatorAhead?_eq_none (h : Begins tokens) : operatorAhead? tokens = none := by
  rcases h with ⟨first, hahead, hfirst⟩
  unfold operatorAhead?
  cases first with
  | number | var | thingKeyword | negate | openParen => simp only [hahead]
  | _ => cases hfirst

end Begins

/-! ## Ranks as productions -/

/-- The production for the expressions of at least a rank. -/
def produce (env : Env) : Rank → Nat → Parser Expr
  | .comparison => (chain env · .comparison)
  | .additive => (chain env · .additive)
  | .multiplicative => (chain env · .multiplicative)
  | .signed => signed env
  | .power => power env
  | .primary => primary env

section

variable {env : Env} {tokens rest : List Token} {e : Expr}

theorem operator?_eq_none_of_stops {level : Level} (h : Stops level.rank rest) :
    (ahead rest).bind level.operator? = none := by
  refine Option.eq_none_iff_forall_ne_some.2 fun op hop => ?_
  rcases Option.bind_eq_some_iff.1 hop with ⟨lexeme, hahead, hoperator⟩
  rcases Level.operator?_eq_some hoperator with ⟨rfl, hrank, -⟩
  exact h op hahead (hrank ▸ Rank.le_refl _)

theorem takes_chain_of_stops {level : Level} (h : Takes (operand env · level) tokens e rest)
    (hstops : Stops level.rank rest) : Takes (chain env · level) tokens e rest :=
  takes_chain h (takes_chainFrom_none e (operator?_eq_none_of_stops hstops))

theorem takes_operand {level : Level} (h : Takes (produce env level.operandRank) tokens e rest) :
    Takes (operand env · level) tokens e rest := by
  cases level with
  | comparison => exact takes_operand_comparison h
  | additive => exact takes_operand_additive h
  | multiplicative => exact takes_operand_multiplicative h

/-- The rank after this one. -/
def nextRank : Rank → Rank
  | .comparison => .additive
  | .additive => .multiplicative
  | .multiplicative => .signed
  | .signed => .power
  | .power | .primary => .primary

theorem eq_or_nextRank_le {low high : Rank} (h : low ≤ high) :
    low = high ∨ low ≠ .primary ∧ nextRank low ≤ high := by
  revert h
  cases low <;> cases high <;> decide

theorem le_nextRank (rank : Rank) : rank ≤ nextRank rank := by
  cases rank <;> decide

theorem takes_of_next {rank : Rank} (hrank : rank ≠ .primary) (hstops : Stops rank rest)
    (hsign : rank = .signed → ahead tokens ≠ some .minus ∧ ahead tokens ≠ some .negate)
    (h : Takes (produce env (nextRank rank)) tokens e rest) : Takes (produce env rank) tokens e rest := by
  cases rank with
  | comparison => exact takes_chain_of_stops (takes_operand_comparison h) hstops
  | additive => exact takes_chain_of_stops (takes_operand_additive h) hstops
  | multiplicative => exact takes_chain_of_stops (takes_operand_multiplicative h) hstops
  | signed => exact takes_signed_power (hsign rfl).1 (hsign rfl).2 h
  | power => exact takes_power_primary h fun hcaret => hstops .pow hcaret (Rank.le_refl _)
  | primary => exact absurd rfl hrank

/-- What a production for a high rank takes is taken for a low rank too, if nothing goes on there. -/
theorem takes_of_rank_le {low high : Rank} (hle : low ≤ high) (h : Takes (produce env high) tokens e rest)
    (hsign : Rank.power ≤ high → ahead tokens ≠ some .minus ∧ ahead tokens ≠ some .negate) (hstops : Stops low rest) :
    Takes (produce env low) tokens e rest := by
  rcases eq_or_nextRank_le hle with rfl | ⟨hprimary, hnext⟩
  · exact h
  · have htaken := takes_of_rank_le hnext h hsign (hstops.mono (le_nextRank low))
    refine takes_of_next hprimary hstops (fun hlow => ?_) htaken
    subst hlow
    exact hsign hnext
termination_by 5 - low.ctorIdx
decreasing_by
  cases low with
  | primary => exact absurd rfl hprimary
  | _ => decide

end

/-! ## Expressions read back -/

/-- From the canonical lexemes of the expression, up to where the production stops, it is taken. -/
def Returns (env : Env) (rank : Rank) (e : Expr) : Prop :=
  ∀ used rest, used.map Token.lexeme = e.lexemes → Stops rank rest →
    ∃ e', e'.unplaced = e.unplaced ∧ Takes (produce env rank) (used ++ rest) e' rest

/-- From the canonical lexemes of the expression on, a chain goes on as if the expression had been read. -/
def Continues (env : Env) (level : Level) (e : Expr) : Prop :=
  ∀ used mid, used.map Token.lexeme = e.lexemes → Stops level.operandRank mid →
    ∃ e', e'.unplaced = e.unplaced ∧
      ∀ whole rest, Takes (chainFrom env · level e') mid whole rest →
        Takes (chain env · level) (used ++ mid) whole rest

/-- What holds of an expression at all ranks. -/
structure Returned (env : Env) (e : Expr) : Prop where
  returns (rank : Rank) (hle : rank ≤ e.rank) : Returns env rank e
  continues (level : Level) (hle : level.rank ≤ e.rank) : Continues env level e

section

variable {env : Env} {e : Expr}

theorem Continues.of_returns {level : Level} (h : Returns env level.operandRank e) : Continues env level e := by
  intro used mid hused hstops
  rcases h used mid hused hstops with ⟨e', hsame, htaken⟩
  exact ⟨e', hsame, fun whole rest hrest => takes_chain (takes_operand htaken) hrest⟩

theorem Continues.returns {level : Level} (h : Continues env level e) : Returns env level.rank e := by
  intro used rest hused hstops
  rcases h used rest hused (hstops.mono level.rank_le_operandRank) with ⟨e', hsame, hcontinues⟩
  refine ⟨e', hsame, ?_⟩
  have hnone : (ahead rest).bind level.operator? = none := operator?_eq_none_of_stops hstops
  have htaken := hcontinues e' rest (takes_chainFrom_none e' hnone)
  cases level <;> exact htaken

theorem Returned.of_returns (hformed : e.WellFormed) (h : Returns env e.rank e)
    (hcontinues : ∀ level : Level, level.rank = e.rank → Continues env level e) : Returned env e := by
  have hreturns (rank : Rank) (hle : rank ≤ e.rank) : Returns env rank e := by
    intro used rest hused hstops
    rcases h used rest hused (hstops.mono hle) with ⟨e', hsame, htaken⟩
    refine ⟨e', hsame, takes_of_rank_le hle htaken (fun hpower => ?_) hstops⟩
    refine ⟨(begins_of_lexemes hused rest).ahead_ne rfl, ?_⟩
    have hhead := e.head_ne_negate hformed hpower
    rcases e.exists_begins with ⟨first, more, hlexemes, -⟩
    rw [ahead_of_lexemes (hused.trans hlexemes) rest]
    simpa [hlexemes] using hhead
  refine ⟨hreturns, fun level hle => ?_⟩
  rcases eq_or_nextRank_le hle with heq | ⟨-, hnext⟩
  · exact hcontinues level heq
  · have hoperand : nextRank level.rank = level.operandRank := by
      cases level <;> rfl
    exact .of_returns (hreturns _ (hoperand ▸ hnext))

/-- An expression without an operator of a chain at its root. -/
theorem Returned.of_tight (hformed : e.WellFormed) (hrank : Rank.signed ≤ e.rank) (h : Returns env e.rank e) :
    Returned env e := by
  refine .of_returns hformed h fun level heq => ?_
  have hloose : ¬ Rank.signed ≤ level.rank := by
    cases level <;> decide
  exact absurd (heq ▸ hrank) hloose

theorem exists_cons_of_lexemes {tokens : List Token} {lexeme : Lexeme} {more : List Lexeme}
    (h : tokens.map Token.lexeme = lexeme :: more) :
    ∃ pos rest, tokens = ⟨lexeme, pos⟩ :: rest ∧ rest.map Token.lexeme = more := by
  rcases List.map_eq_cons_iff.1 h with ⟨⟨found, pos⟩, rest, rfl, rfl, hrest⟩
  exact ⟨pos, rest, rfl, hrest⟩

theorem exists_append_of_lexemes {tokens : List Token} {first more : List Lexeme}
    (h : tokens.map Token.lexeme = first ++ more) :
    ∃ used rest, tokens = used ++ rest ∧ used.map Token.lexeme = first ∧ rest.map Token.lexeme = more :=
  List.map_eq_append_iff.1 h

theorem exists_closed_of_lexemes {tokens : List Token} {first : List Lexeme} {lexeme : Lexeme}
    (h : tokens.map Token.lexeme = first ++ [lexeme]) :
    ∃ used pos, tokens = used ++ [⟨lexeme, pos⟩] ∧ used.map Token.lexeme = first := by
  rcases exists_append_of_lexemes h with ⟨used, last, rfl, hused, hlast⟩
  rcases exists_cons_of_lexemes hlast with ⟨pos, rest, rfl, hrest⟩
  cases List.map_eq_nil_iff.1 hrest
  exact ⟨used, pos, rfl, hused⟩

theorem stops_nil (rank : Rank) : Stops rank [] :=
  fun _ hahead => nomatch hahead

theorem stops_cons {lexeme : Lexeme} (h : ∀ op : BinaryOp, op.sign ≠ lexeme) (rank : Rank) (pos : Position)
    (rest : List Token) : Stops rank (⟨lexeme, pos⟩ :: rest) :=
  fun op hahead => absurd (Option.some.inj hahead).symm (h op)

theorem stops_closeParen (rank : Rank) (pos : Position) (rest : List Token) :
    Stops rank (⟨.closeParen, pos⟩ :: rest) :=
  stops_cons (fun op => by cases op <;> decide) rank pos rest

theorem stops_closeBracket (rank : Rank) (pos : Position) (rest : List Token) :
    Stops rank (⟨.closeBracket, pos⟩ :: rest) :=
  stops_cons (fun op => by cases op <;> decide) rank pos rest

theorem BinaryOp.sign_injective {op op' : BinaryOp} (h : op.sign = op'.sign) : op = op' := by
  revert h
  cases op <;> cases op' <;> decide

/-- A sign between operands ends the operand before it. -/
theorem stops_sign {op : BinaryOp} {rank : Rank} (h : ¬ rank ≤ op.rank) (pos : Position) (rest : List Token) :
    Stops rank (⟨op.sign, pos⟩ :: rest) := by
  intro op' hahead
  rwa [← BinaryOp.sign_injective (Option.some.inj hahead)]

/-- All operators but powers make up chains. -/
theorem exists_level {op : BinaryOp} (h : op ≠ .pow) : ∃ level : Level, level.operator? op.sign = some op := by
  cases op with
  | pow => exact absurd rfl h
  | add | sub => exact ⟨.additive, rfl⟩
  | mul | div | rem => exact ⟨.multiplicative, rfl⟩
  | _ => exact ⟨.comparison, rfl⟩

/-! ### One node -/

theorem Returned.expression (h : Returned env e) {used : List Token} (hused : used.map Token.lexeme = e.lexemes)
    {rest : List Token} (hstops : Stops .comparison rest) :
    ∃ e', e'.unplaced = e.unplaced ∧ Takes (expression env) (used ++ rest) e' rest :=
  h.returns .comparison (Nat.zero_le _) used rest hused hstops

theorem returns_number (text : String) (pos : Position) : Returns env .primary (.number text pos) := by
  intro used rest hused _
  rcases exists_cons_of_lexemes hused with ⟨pos', tail, rfl, htail⟩
  cases List.map_eq_nil_iff.1 htail
  exact ⟨.number text pos', rfl, takes_number text pos' rest⟩

theorem returns_var (name : String) (pos : Position) : Returns env .primary (.var name pos) := by
  intro used rest hused _
  rcases exists_cons_of_lexemes hused with ⟨pos', tail, rfl, htail⟩
  cases List.map_eq_nil_iff.1 htail
  exact ⟨.var name pos', rfl, takes_var name pos' rest⟩

theorem returns_thing {name : String} (hname : name.toLower = name) (pos : Position) :
    Returns env .primary (.thing name pos) := by
  intro used rest hused _
  rcases exists_cons_of_lexemes hused with ⟨pos', tail, rfl, htail⟩
  rcases exists_cons_of_lexemes htail with ⟨place, more, rfl, hmore⟩
  cases List.map_eq_nil_iff.1 hmore
  refine ⟨.thing name pos', rfl, ?_⟩
  have htaken : Takes (primary env) _ (.thing name.toLower pos') rest := takes_thing name pos' place rest
  rwa [hname] at htaken

theorem returns_negate {operand : Expr} (hrank : Rank.signed ≤ operand.rank) (h : Returned env operand)
    (pos : Position) : Returns env .signed (.negate operand pos) := by
  intro used rest hused hstops
  rcases exists_cons_of_lexemes hused with ⟨pos', tail, rfl, htail⟩
  rcases h.returns .signed hrank tail rest htail hstops with ⟨operand', hsame, htaken⟩
  exact ⟨.negate operand' pos', by simp only [Expr.unplaced, hsame], takes_signed_negate pos' (.inr rfl) htaken⟩

theorem returns_pow {left right : Expr} (hleft : Rank.primary ≤ left.rank) (hright : Rank.signed ≤ right.rank)
    (hl : Returned env left) (hr : Returned env right) (pos : Position) :
    Returns env .power (.binary .pow left right pos) := by
  intro used rest hused hstops
  rcases exists_append_of_lexemes hused with ⟨base, tail, rfl, hbase, htail⟩
  rcases exists_cons_of_lexemes htail with ⟨place, exponent, rfl, hexponent⟩
  have hmid : Stops .primary (⟨BinaryOp.pow.sign, place⟩ :: (exponent ++ rest)) :=
    stops_sign (BinaryOp.not_primary_le_rank .pow) place _
  rcases hl.returns .primary hleft base _ hbase hmid with ⟨left', hsameLeft, htakenLeft⟩
  -- After the exponent no second caret may follow, and that is what a power stops at anyway.
  have hend : Stops .signed rest := by
    intro op hahead hrank
    cases op.eq_pow_of_rank hrank
    exact hstops .pow hahead (Rank.le_refl _)
  rcases hr.returns .signed hright exponent rest hexponent hend with ⟨right', hsameRight, htakenRight⟩
  refine ⟨.binary .pow left' right' left'.pos, by simp only [Expr.unplaced, hsameLeft, hsameRight], ?_⟩
  have htaken := takes_power_caret place htakenLeft htakenRight
  simpa only [produce, BinaryOp.sign, List.append_assoc, List.cons_append] using htaken

theorem continues_binary {level : Level} {op : BinaryOp} {left right : Expr}
    (hop : level.operator? op.sign = some op) (hleft : level.rank ≤ left.rank)
    (hright : level.operandRank ≤ right.rank) (hl : Returned env left) (hr : Returned env right) (pos : Position) :
    Continues env level (.binary op left right pos) := by
  intro used mid hused hstops
  rcases exists_append_of_lexemes hused with ⟨before, tail, rfl, hbefore, htail⟩
  rcases exists_cons_of_lexemes htail with ⟨place, after, rfl, hafter⟩
  -- The left operand is a part of the same chain, which goes on with the sign.
  have hrank : ¬ level.operandRank ≤ op.rank := by
    rw [(Level.operator?_eq_some hop).2.1]
    cases level <;> decide
  rcases hl.continues level hleft before _ hbefore (stops_sign hrank place (after ++ mid)) with
    ⟨left', hsameLeft, hcontinues⟩
  rcases hr.returns _ hright after mid hafter hstops with ⟨right', hsameRight, htaken⟩
  refine ⟨.binary op left' right' left'.pos, by simp only [Expr.unplaced, hsameLeft, hsameRight], ?_⟩
  intro whole rest hrest
  have hchain := hcontinues whole rest (takes_chainFrom_some place hop (takes_operand htaken) hrest)
  simpa only [List.append_assoc, List.cons_append] using hchain

theorem returns_group {inner : Expr} (h : Returned env inner) (pos : Position) :
    Returns env .primary (.group inner pos) := by
  intro used rest hused _
  rcases exists_cons_of_lexemes hused with ⟨pos', tail, rfl, htail⟩
  rcases exists_closed_of_lexemes htail with ⟨ts, last, rfl, hts⟩
  rcases h.expression hts (stops_closeParen .comparison last rest) with ⟨inner', hsame, htaken⟩
  have hop := (begins_of_lexemes hts (⟨.closeParen, last⟩ :: rest)).operatorAhead?_eq_none
  refine ⟨.group inner' pos', by simp only [Expr.unplaced, hsame], ?_⟩
  simpa only [produce, List.append_assoc, List.cons_append, List.nil_append] using takes_group pos' last hop htaken

/-! ### Rows of expressions -/

/-- The expressions are taken from the tokens by each of the productions that read several. -/
structure ListTaken (env : Env) (tokens : List Token) (list : List Expr) (rest : List Token) : Prop where
  counted : Takes (expressions env · list.length) tokens list rest
  toParen (hparen : ahead rest = some .closeParen) : Takes (expressionsToParen env) tokens list rest
  ahead (hend : startsExpression rest = false) : Takes (expressionsAhead env) tokens list rest

theorem ListTaken.nil (env : Env) (tokens : List Token) : ListTaken env tokens [] tokens where
  counted := takes_expressions_zero tokens
  toParen hparen := takes_expressionsToParen_nil (.inl hparen)
  ahead hend := takes_expressionsAhead_nil hend

theorem ListTaken.cons {tokens mid rest : List Token} {first : Expr} {list : List Expr} (hbegins : Begins tokens)
    (hfirst : Takes (Grammar.expression env) tokens first mid) (h : ListTaken env mid list rest) :
    ListTaken env tokens (first :: list) rest where
  counted := takes_expressions_succ hfirst h.counted
  toParen hparen := by
    rcases hbegins with ⟨lexeme, hahead, hlexeme⟩
    refine takes_expressionsToParen_cons ?_ (by simp [hahead]) hfirst (h.toParen hparen)
    exact Begins.ahead_ne ⟨lexeme, hahead, hlexeme⟩ rfl
  ahead hend := takes_expressionsAhead_cons hbegins.startsExpression hfirst (h.ahead hend)

def ListReturns (env : Env) (list : List Expr) : Prop :=
  ∀ used rest, used.map Token.lexeme = Expr.listLexemes list → Stops .comparison rest →
    ∃ list', Expr.listUnplaced list' = Expr.listUnplaced list ∧ ListTaken env (used ++ rest) list' rest

theorem listReturns_nil : ListReturns env [] := by
  intro used rest hused _
  cases List.map_eq_nil_iff.1 hused
  exact ⟨[], rfl, .nil env rest⟩

theorem listReturns_cons {list : List Expr} (he : Returned env e) (h : ListReturns env list) :
    ListReturns env (e :: list) := by
  intro used rest hused hstops
  rcases exists_append_of_lexemes hused with ⟨ts, us, rfl, hts, hus⟩
  -- What follows the first expression is the end of the row, or another expression.
  have hmid : Stops .comparison (us ++ rest) := by
    cases list with
    | nil =>
        cases List.map_eq_nil_iff.1 hus
        exact hstops
    | cons next list =>
        rcases exists_append_of_lexemes hus with ⟨vs, ws, rfl, hvs, -⟩
        rw [List.append_assoc]
        exact (begins_of_lexemes hvs (ws ++ rest)).stops .comparison
  rcases he.expression hts hmid with ⟨e', hsame, htaken⟩
  rcases h us rest hus hstops with ⟨list', hsameList, hlist⟩
  refine ⟨e' :: list', by simp only [Expr.listUnplaced, hsame, hsameList], ?_⟩
  rw [List.append_assoc]
  exact .cons (begins_of_lexemes hts (us ++ rest)) htaken hlist

theorem returns_apply {operands : List Expr} (h : ListReturns env operands) (op : Operator) (pos : Position) :
    Returns env .primary (.apply op operands pos) := by
  intro used rest hused _
  rcases exists_cons_of_lexemes hused with ⟨pos', tail, rfl, htail⟩
  rcases exists_cons_of_lexemes htail with ⟨place, more, rfl, hmore⟩
  rcases exists_closed_of_lexemes hmore with ⟨ts, last, rfl, hts⟩
  rcases h ts _ hts (stops_closeParen .comparison last rest) with ⟨operands', hsame, htaken⟩
  refine ⟨.apply op operands' pos', by simp only [Expr.unplaced, hsame], ?_⟩
  have happly := takes_parenthesised pos' place last op.ofWord?_word (htaken.toParen rfl)
  simpa only [produce, List.append_assoc, List.cons_append, List.nil_append] using happly

/-! ### All nodes -/

mutual

/-- Well-formed expressions are read back from their canonical lexemes. -/
theorem returned_of_wellFormed (env : Env) : (e : Expr) → e.WellFormed → Returned env e
  | .number text pos, hformed => .of_tight hformed Rank.signed_le_primary (returns_number text pos)
  | .var name pos, hformed => .of_tight hformed Rank.signed_le_primary (returns_var name pos)
  | .thing name pos, hformed => .of_tight hformed Rank.signed_le_primary (returns_thing hformed pos)
  | .negate operand pos, hformed =>
      .of_tight hformed (Rank.le_refl _) (returns_negate hformed.1 (returned_of_wellFormed env operand hformed.2) pos)
  | .apply op operands pos, hformed =>
      .of_tight hformed Rank.signed_le_primary (returns_apply (listReturns_of_wellFormed env operands hformed) op pos)
  | .group inner pos, hformed =>
      .of_tight hformed Rank.signed_le_primary (returns_group (returned_of_wellFormed env inner hformed) pos)
  | .binary op left right pos, hformed => by
      have hleft := returned_of_wellFormed env left hformed.2.2.1
      have hright := returned_of_wellFormed env right hformed.2.2.2
      by_cases hpow : op = .pow
      · subst hpow
        exact .of_tight hformed Rank.signed_le_power (returns_pow hformed.1 hformed.2.1 hleft hright pos)
      · rcases exists_level hpow with ⟨level, hlevel⟩
        rcases Level.operator?_eq_some hlevel with ⟨-, hrank, hleftRank, hrightRank⟩
        have hcontinues : Continues env level (.binary op left right pos) :=
          continues_binary hlevel (hleftRank ▸ hformed.1) (hrightRank ▸ hformed.2.1) hleft hright pos
        refine .of_returns hformed ?_ fun level' hlevel' => ?_
        · have hreturns := hcontinues.returns
          rwa [← hrank] at hreturns
        · have heq : level' = level := by
            have hranks : level'.rank = level.rank := hlevel'.trans hrank
            revert hranks
            cases level <;> cases level' <;> decide
          exact heq ▸ hcontinues

theorem listReturns_of_wellFormed (env : Env) : (list : List Expr) → Expr.ListWellFormed list → ListReturns env list
  | [], _ => listReturns_nil
  | e :: rest, hformed =>
      listReturns_cons (returned_of_wellFormed env e hformed.1) (listReturns_of_wellFormed env rest hformed.2)

end

end

/-! ## Where statements end -/

/-- Neither does the token ahead begin an expression, nor does it go on with one. -/
structure Ends (tokens : List Token) : Prop where
  starts : startsExpression tokens = false
  stops : Stops .comparison tokens

theorem ends_nil : Ends [] :=
  ⟨rfl, stops_nil .comparison⟩

theorem ends_ident {name : String} (h : Operator.ofWord? name = none) (pos : Position) (rest : List Token) :
    Ends (⟨.ident name, pos⟩ :: rest) where
  starts := by simp [startsExpression, ahead, h]
  stops := stops_cons (fun op => by cases op <;> simp [BinaryOp.sign]) .comparison pos rest

theorem ends_toKeyword (pos : Position) (rest : List Token) : Ends (⟨.toKeyword, pos⟩ :: rest) :=
  ⟨rfl, stops_cons BinaryOp.sign_ne_toKeyword .comparison pos rest⟩

theorem ends_closing {closing : Lexeme} (h : closing = .closeBracket ∨ closing = .endKeyword) {tokens : List Token}
    (hahead : ahead tokens = some closing) : Ends tokens := by
  rcases exists_cons_of_ahead hahead with ⟨pos, rest, rfl⟩
  rcases h with rfl | rfl
  · exact ⟨rfl, stops_closeBracket .comparison pos rest⟩
  · exact ⟨rfl, stops_cons (fun op => by cases op <;> decide) .comparison pos rest⟩

theorem ofWord?_name_eq_none (b : Builtin) : Operator.ofWord? b.name = none := by
  cases b <;> decide

/-- The statement before ends where a statement begins. -/
theorem ends_of_lexemes {table : List (String × Nat)} {s : Statement} (hformed : s.TopWellFormed table)
    {used : List Token} (hused : used.map Token.lexeme = s.lexemes) (rest : List Token) : Ends (used ++ rest) := by
  cases s with
  | definition =>
      rcases exists_cons_of_lexemes hused with ⟨pos, tail, rfl, -⟩
      exact ends_toKeyword pos (tail ++ rest)
  | command b =>
      rcases exists_cons_of_lexemes hused with ⟨pos, tail, rfl, -⟩
      exact ends_ident (ofWord?_name_eq_none b) pos (tail ++ rest)
  | call name =>
      rcases exists_cons_of_lexemes hused with ⟨pos, tail, rfl, -⟩
      have hfree : isReserved name = false := hformed.1
      have hword : Operator.ofWord? name = none := by
        simpa [isReserved] using (Bool.or_eq_false_iff.1 hfree).2
      exact ends_ident hword pos (tail ++ rest)

/-- Only a definition does not begin with a name. -/
theorem exists_ident_of_lexemes {table : List (String × Nat)} {s : Statement} (hformed : s.WellFormed table)
    {used : List Token} (hused : used.map Token.lexeme = s.lexemes) (rest : List Token) :
    ∃ name, ahead (used ++ rest) = some (.ident name) := by
  cases s with
  | definition => exact hformed.elim
  | command b => exact ⟨b.name, ahead_of_lexemes hused rest⟩
  | call name => exact ⟨name, ahead_of_lexemes hused rest⟩

/-! ## Statements read back -/

section

variable (env : Env)

def ArgumentReturns (form : ArgumentForm) (a : Argument) : Prop :=
  ∀ used rest, used.map Token.lexeme = a.lexemes form → Stops .comparison rest →
    ∃ a', a'.unplaced = a.unplaced ∧ Takes (argument env · form) (used ++ rest) a' rest

def ArgumentsReturn (forms : List ArgumentForm) (list : List Argument) : Prop :=
  ∀ used rest, used.map Token.lexeme = Argument.listLexemes forms list → Stops .comparison rest →
    ∃ list', Argument.listUnplaced list' = Argument.listUnplaced list ∧
      Takes (arguments env · forms) (used ++ rest) list' rest

def StatementReturns (s : Statement) : Prop :=
  ∀ used rest, used.map Token.lexeme = s.lexemes → Ends rest →
    ∃ s', s'.unplaced = s.unplaced ∧ Takes (statement env) (used ++ rest) s' rest

def StatementsReturn (body : List Statement) : Prop :=
  ∀ closing, closing = .closeBracket ∨ closing = .endKeyword →
    ∀ used rest, used.map Token.lexeme = Statement.listLexemes body → ahead rest = some closing →
      ∃ body', Statement.listUnplaced body' = Statement.listUnplaced body ∧
        Takes (statementsTo env closing) (used ++ rest) body' rest

end

section

variable {env : Env}

/-! ### Arguments -/

theorem argumentReturns_value {e : Expr} (h : Returned env e) : ArgumentReturns env .value (.value e) := by
  intro used rest hused hstops
  rcases h.expression hused hstops with ⟨e', hsame, htaken⟩
  exact ⟨.value e', by simp only [Argument.unplaced, hsame], .succ (htaken.map Argument.value)⟩

theorem argumentReturns_condition {e : Expr} (h : Returned env e) : ArgumentReturns env .condition (.value e) := by
  intro used rest hused _
  rcases exists_cons_of_lexemes hused with ⟨first, tail, rfl, htail⟩
  rcases exists_closed_of_lexemes htail with ⟨ts, last, rfl, hts⟩
  rcases h.expression hts (stops_closeBracket .comparison last rest) with ⟨e', hsame, htaken⟩
  refine ⟨.value e', by simp only [Argument.unplaced, hsame], .succ ?_⟩
  simpa only [argument, List.append_assoc, List.cons_append, List.nil_append] using takes_bracketed first last htaken

theorem argumentReturns_block {body : List Statement} (h : StatementsReturn env body) :
    ArgumentReturns env .block (.block body) := by
  intro used rest hused _
  rcases exists_cons_of_lexemes hused with ⟨first, tail, rfl, htail⟩
  rcases exists_closed_of_lexemes htail with ⟨ts, last, rfl, hts⟩
  rcases h .closeBracket (.inl rfl) ts (⟨.closeBracket, last⟩ :: rest) hts rfl with ⟨body', hsame, htaken⟩
  refine ⟨.block body', by simp only [Argument.unplaced, hsame], .succ ?_⟩
  simpa only [argument, List.append_assoc, List.cons_append, List.nil_append] using takes_block first last htaken

theorem argumentReturns_point {x y : Expr} (hx : Returned env x) (hy : Returned env y) :
    ArgumentReturns env .point (.point x y) := by
  intro used rest hused _
  rcases exists_cons_of_lexemes hused with ⟨first, tail, rfl, htail⟩
  rcases exists_append_of_lexemes htail with ⟨ts, more, rfl, hts, hmore⟩
  rcases exists_closed_of_lexemes hmore with ⟨us, last, rfl, hus⟩
  have hmid := (begins_of_lexemes hus (⟨.closeBracket, last⟩ :: rest)).stops .comparison
  rcases hx.expression hts hmid with ⟨x', hsameX, htakenX⟩
  rcases hy.expression hus (stops_closeBracket .comparison last rest) with ⟨y', hsameY, htakenY⟩
  refine ⟨.point x' y', by simp only [Argument.unplaced, hsameX, hsameY], .succ ?_⟩
  simpa only [argument, List.append_assoc, List.cons_append, List.nil_append] using
    takes_point first last htakenX htakenY

theorem argumentReturns_rgb {red green blue : Expr} (hred : Returned env red) (hgreen : Returned env green)
    (hblue : Returned env blue) : ArgumentReturns env .colour (.colour (.rgb red green blue)) := by
  intro used rest hused _
  rcases exists_cons_of_lexemes hused with ⟨first, tail, rfl, htail⟩
  rcases exists_append_of_lexemes htail with ⟨ts, more, rfl, hts, hmore⟩
  rcases exists_append_of_lexemes hmore with ⟨us, last, rfl, hus, hlast⟩
  rcases exists_closed_of_lexemes hlast with ⟨vs, last, rfl, hvs⟩
  have hafterGreen := begins_of_lexemes hvs (⟨.closeBracket, last⟩ :: rest)
  have hafterRed := begins_of_lexemes hus (vs ++ ⟨.closeBracket, last⟩ :: rest)
  rcases hred.expression hts (hafterRed.stops .comparison) with ⟨red', hsameRed, htakenRed⟩
  rcases hgreen.expression hus (hafterGreen.stops .comparison) with ⟨green', hsameGreen, htakenGreen⟩
  rcases hblue.expression hvs (stops_closeBracket .comparison last rest) with ⟨blue', hsameBlue, htakenBlue⟩
  refine ⟨.colour (.rgb red' green' blue'), ?_, .succ ?_⟩
  · simp only [Argument.unplaced, ColourArgument.unplaced, hsameRed, hsameGreen, hsameBlue]
  · simpa only [argument, List.append_assoc, List.cons_append, List.nil_append] using
      takes_colour_rgb first last htakenRed htakenGreen htakenBlue

theorem argumentReturns_colour {c : ColourArgument} (h : c.WellFormed) : ArgumentReturns env .colour (.colour c) := by
  cases c with
  | word text pos =>
      intro used rest hused _
      rcases exists_cons_of_lexemes hused with ⟨pos', tail, rfl, htail⟩
      cases List.map_eq_nil_iff.1 htail
      exact ⟨.colour (.word text pos'), rfl, .succ (takes_colour_word text pos' rest)⟩
  | rgb red green blue =>
      rcases h with ⟨hred, hgreen, hblue⟩
      exact argumentReturns_rgb (returned_of_wellFormed env red hred) (returned_of_wellFormed env green hgreen)
        (returned_of_wellFormed env blue hblue)
  | index e =>
      intro used rest hused hstops
      rcases (returned_of_wellFormed env e h).expression hused hstops with ⟨e', hsame, htaken⟩
      have hstart := (begins_of_lexemes hused rest).startsExpression
      refine ⟨.colour (.index e'), ?_, .succ (takes_colour_index hstart htaken)⟩
      simp only [Argument.unplaced, ColourArgument.unplaced, hsame]

theorem argumentReturns_word (text : String) (pos : Position) : ArgumentReturns env .word (.word text pos) := by
  intro used rest hused _
  rcases exists_cons_of_lexemes hused with ⟨pos', tail, rfl, htail⟩
  cases List.map_eq_nil_iff.1 htail
  exact ⟨.word text pos', rfl, .succ (.of_ok fun _ => rfl)⟩

/-- An argument begins with an expression, a bracket or a quoted word; none of them goes on with what stands before. -/
theorem stops_argument {table : List (String × Nat)} {form : ArgumentForm} {a : Argument}
    (hformed : a.WellFormed table form) {used : List Token} (hused : used.map Token.lexeme = a.lexemes form)
    (rest : List Token) : Stops .comparison (used ++ rest) := by
  have hbracket {more : List Lexeme} (h : used.map Token.lexeme = .openBracket :: more) :
      Stops .comparison (used ++ rest) := by
    rcases exists_cons_of_lexemes h with ⟨pos, tail, rfl, -⟩
    exact stops_cons (fun op => by cases op <;> decide) .comparison pos (tail ++ rest)
  have hword {text : String} (h : used.map Token.lexeme = [.word text]) : Stops .comparison (used ++ rest) := by
    rcases exists_cons_of_lexemes h with ⟨pos, tail, rfl, -⟩
    exact stops_cons (fun op => by cases op <;> simp [BinaryOp.sign]) .comparison pos (tail ++ rest)
  have hexpr {e : Expr} (h : used.map Token.lexeme = e.lexemes) : Stops .comparison (used ++ rest) :=
    (begins_of_lexemes h rest).stops .comparison
  cases form <;> cases a <;> first | exact hformed.elim | skip
  case value.value => exact hexpr hused
  case condition.value => exact hbracket hused
  case block.block => exact hbracket hused
  case point.point => exact hbracket hused
  case word.word => exact hword hused
  case colour.colour c =>
    cases c with
    | word => exact hword hused
    | rgb => exact hbracket hused
    | index => exact hexpr hused

theorem argumentsReturn_cons {table : List (String × Nat)} {form : ArgumentForm} {forms : List ArgumentForm}
    {a : Argument} {list : List Argument} (ha : ArgumentReturns env form a) (h : ArgumentsReturn env forms list)
    (hformed : Argument.ListWellFormed table forms list) : ArgumentsReturn env (form :: forms) (a :: list) := by
  intro used rest hused hstops
  rcases exists_append_of_lexemes hused with ⟨ts, us, rfl, hts, hus⟩
  have hmid : Stops .comparison (us ++ rest) := by
    cases forms with
    | nil =>
        cases list with
        | cons => exact hformed.elim
        | nil =>
            cases List.map_eq_nil_iff.1 hus
            exact hstops
    | cons next forms =>
        cases list with
        | nil => exact hformed.elim
        | cons b list =>
            rcases exists_append_of_lexemes hus with ⟨vs, ws, rfl, hvs, -⟩
            rw [List.append_assoc]
            exact stops_argument hformed.1 hvs (ws ++ rest)
  rcases ha ts (us ++ rest) hts hmid with ⟨a', hsame, htaken⟩
  rcases h us rest hus hstops with ⟨list', hsameList, htakenList⟩
  refine ⟨a' :: list', by simp only [Argument.listUnplaced, hsame, hsameList], ?_⟩
  rw [List.append_assoc]
  exact takes_arguments_cons htaken htakenList

/-! ### Statements -/

theorem statementReturns_command {b : Builtin} {list : List Argument} (h : ArgumentsReturn env b.signature list)
    (pos : Position) : StatementReturns env (.command b list pos) := by
  intro used rest hused hends
  rcases exists_cons_of_lexemes hused with ⟨pos', ts, rfl, hts⟩
  rcases h ts rest hts hends.stops with ⟨list', hsame, htaken⟩
  exact ⟨.command b list' pos', by simp only [Statement.unplaced, hsame], takes_command pos' b.ofWord?_name htaken⟩

theorem statementReturns_call {name : String} {list : List Expr} (hname : isReserved name = false)
    (hcount : ∀ count, env.paramCount? name = some count → list.length = count) (h : ListReturns env list)
    (pos : Position) : StatementReturns env (.call name list pos) := by
  intro used rest hused hends
  rcases exists_cons_of_lexemes hused with ⟨pos', ts, rfl, hts⟩
  rcases h ts rest hts hends.stops with ⟨list', hsame, htaken⟩
  refine ⟨.call name list' pos', by simp only [Statement.unplaced, hsame], takes_call pos' hname ?_⟩
  cases hheader : env.paramCount? name with
  | none =>
      exact takes_callArguments_none hheader (htaken.ahead hends.starts)
  | some count =>
      have hlength : list'.length = count := by
        rw [← Expr.length_listUnplaced, hsame, Expr.length_listUnplaced]
        exact hcount count hheader
      exact takes_callArguments_some hheader (hlength ▸ htaken.counted)

theorem statementsReturn_nil : StatementsReturn env [] := by
  intro closing _ used rest hused hahead
  cases List.map_eq_nil_iff.1 hused
  exact ⟨[], rfl, takes_statementsTo_nil (.inl hahead)⟩

theorem statementsReturn_cons {s : Statement} {body : List Statement}
    (hformed : Statement.ListWellFormed env.headers (s :: body)) (hs : StatementReturns env s)
    (h : StatementsReturn env body) : StatementsReturn env (s :: body) := by
  intro closing hclosing used rest hused hahead
  rcases exists_append_of_lexemes hused with ⟨ts, us, rfl, hts, hus⟩
  have hmid : Ends (us ++ rest) := by
    cases body with
    | nil =>
        cases List.map_eq_nil_iff.1 hus
        exact ends_closing hclosing hahead
    | cons next body =>
        rcases exists_append_of_lexemes hus with ⟨vs, ws, rfl, hvs, -⟩
        rw [List.append_assoc]
        exact ends_of_lexemes hformed.2.1.top hvs (ws ++ rest)
  rcases hs ts (us ++ rest) hts hmid with ⟨s', hsame, htaken⟩
  rcases h closing hclosing us rest hus hahead with ⟨body', hsameBody, htakenBody⟩
  refine ⟨s' :: body', by simp only [Statement.listUnplaced, hsame, hsameBody], ?_⟩
  rw [List.append_assoc]
  -- No name closes a block.
  rcases exists_ident_of_lexemes hformed.1 hts (us ++ rest) with ⟨name, hname⟩
  refine takes_statementsTo_cons ?_ (by simp [hname]) htaken htakenBody
  rcases hclosing with rfl | rfl <;> simp [hname]

mutual

theorem statementReturns_of_wellFormed : (s : Statement) → s.WellFormed env.headers → StatementReturns env s
  | .definition _ _ _ _, hformed => hformed.elim
  | .command b list pos, hformed =>
      statementReturns_command (argumentsReturn_of_wellFormed b.signature list hformed) pos
  | .call _ list pos, hformed =>
      statementReturns_call hformed.1 hformed.2.1 (listReturns_of_wellFormed env list hformed.2.2) pos

theorem statementsReturn_of_wellFormed :
    (body : List Statement) → Statement.ListWellFormed env.headers body → StatementsReturn env body
  | [], _ => statementsReturn_nil
  | s :: rest, hformed =>
      statementsReturn_cons hformed (statementReturns_of_wellFormed s hformed.1)
        (statementsReturn_of_wellFormed rest hformed.2)

theorem argumentReturns_of_wellFormed :
    (form : ArgumentForm) → (a : Argument) → a.WellFormed env.headers form → ArgumentReturns env form a
  | .value, .value e, hformed => argumentReturns_value (returned_of_wellFormed env e hformed)
  | .condition, .value e, hformed => argumentReturns_condition (returned_of_wellFormed env e hformed)
  | .block, .block body, hformed => argumentReturns_block (statementsReturn_of_wellFormed body hformed)
  | .point, .point x y, hformed =>
      argumentReturns_point (returned_of_wellFormed env x hformed.1) (returned_of_wellFormed env y hformed.2)
  | .colour, .colour _, hformed => argumentReturns_colour hformed
  | .word, .word text pos, _ => argumentReturns_word text pos

theorem argumentsReturn_of_wellFormed :
    (forms : List ArgumentForm) → (list : List Argument) → Argument.ListWellFormed env.headers forms list →
      ArgumentsReturn env forms list
  | [], [], _ => by
      intro used rest hused _
      cases List.map_eq_nil_iff.1 hused
      exact ⟨[], rfl, takes_arguments_nil rest⟩
  | form :: forms, a :: rest, hformed =>
      argumentsReturn_cons (argumentReturns_of_wellFormed form a hformed.1)
        (argumentsReturn_of_wellFormed forms rest hformed.2) hformed.2

end

/-! ## Texts read back -/

theorem exists_topStatement {s : Statement} (hformed : s.TopWellFormed env.headers) {used rest : List Token}
    (hused : used.map Token.lexeme = s.lexemes) (hends : Ends rest) :
    ∃ s', s'.unplaced = s.unplaced ∧ Takes (topStatement env) (used ++ rest) s' rest := by
  cases s with
  | definition name params body pos =>
      rcases exists_cons_of_lexemes hused with ⟨pos', tail, rfl, htail⟩
      rcases exists_cons_of_lexemes htail with ⟨place, more, rfl, hmore⟩
      rcases exists_append_of_lexemes hmore with ⟨vars, inner, rfl, hvars, hinner⟩
      rcases exists_closed_of_lexemes hinner with ⟨ts, last, rfl, hts⟩
      have hbody := statementsReturn_of_wellFormed body hformed.2
      rcases hbody .endKeyword (.inr rfl) ts (⟨.endKeyword, last⟩ :: rest) hts rfl with ⟨body', hsame, htaken⟩
      -- The parameters end at the first statement of the body, or at the word `end`.
      have hstop : ∀ name, ahead (ts ++ ⟨.endKeyword, last⟩ :: rest) ≠ some (.var name) := by
        intro name
        cases body with
        | nil =>
            cases List.map_eq_nil_iff.1 hts
            simp [ahead]
        | cons first body =>
            rcases exists_append_of_lexemes hts with ⟨us, vs, rfl, hus, -⟩
            rcases exists_ident_of_lexemes hformed.2.1 hus (vs ++ ⟨.endKeyword, last⟩ :: rest) with ⟨word, hword⟩
            simp [List.append_assoc, hword]
      refine ⟨.definition name params body' pos', by simp only [Statement.unplaced, hsame], ?_⟩
      simpa only [List.append_assoc, List.cons_append, List.nil_append] using
        takes_definition pos' place last hformed.1 hvars hstop htaken
  | command b list pos =>
      rcases statementReturns_of_wellFormed (.command b list pos) hformed used rest hused hends with
        ⟨s', hsame, htaken⟩
      refine ⟨s', hsame, .of_eq (fun depth => ?_) htaken⟩
      rcases exists_cons_of_lexemes hused with ⟨pos', tail, rfl, -⟩
      rfl
  | call name list pos =>
      rcases statementReturns_of_wellFormed (.call name list pos) hformed used rest hused hends with
        ⟨s', hsame, htaken⟩
      refine ⟨s', hsame, .of_eq (fun depth => ?_) htaken⟩
      rcases exists_cons_of_lexemes hused with ⟨pos', tail, rfl, -⟩
      rfl

theorem statements_of_ok {tokens rest : List Token} {s : Statement}
    (h : topStatement env (depthFor tokens) tokens = .ok s rest) :
    statements env tokens = .ok s :: statements env rest := by
  have hshorter := (topStatement_reads env _).shorter (fun _ _ hread => hread.1.ne_nil) h
  cases tokens with
  | nil =>
      simp at hshorter
  | cons first tail =>
      have hle : rest.length ≤ tail.length := Nat.le_of_lt_succ hshorter
      rw [statements]
      simp only [h, if_pos hle]

theorem exists_statements {tree : List Statement} (hformed : ∀ s ∈ tree, s.TopWellFormed env.headers)
    {tokens : List Token} (htokens : tokens.map Token.lexeme = Statement.listLexemes tree) :
    ∃ tree', Statement.listUnplaced tree' = Statement.listUnplaced tree ∧
      statements env tokens = tree'.map Except.ok := by
  induction tree generalizing tokens with
  | nil =>
      cases List.map_eq_nil_iff.1 htokens
      exact ⟨[], rfl, by simp [statements]⟩
  | cons s tree ih =>
      rcases List.forall_mem_cons.1 hformed with ⟨hs, htree⟩
      rcases exists_append_of_lexemes htokens with ⟨used, rest, rfl, hused, hrest⟩
      have hends : Ends rest := by
        cases tree with
        | nil =>
            cases List.map_eq_nil_iff.1 hrest
            exact ends_nil
        | cons next tree =>
            rcases exists_append_of_lexemes hrest with ⟨ts, us, rfl, hts, -⟩
            exact ends_of_lexemes (htree next List.mem_cons_self) hts us
      rcases exists_topStatement hs hused hends with ⟨s', hsame, htaken⟩
      rcases ih htree hrest with ⟨tree', hsameTree, hstatements⟩
      refine ⟨s' :: tree', by simp only [Statement.listUnplaced, hsame, hsameTree], ?_⟩
      have hok := htaken.at_depthFor (topStatement_settles env) (by decide)
      rw [statements_of_ok hok, hstatements, List.map_cons]

theorem filterMap_header?_unplaced (tree : List Statement) :
    (Statement.listUnplaced tree).filterMap header? = tree.filterMap header? := by
  induction tree with
  | nil => rfl
  | cons s tree ih =>
      have hheader : header? s.unplaced = header? s := by
        cases s <;> simp [Statement.unplaced, header?]
      simp only [Statement.listUnplaced, List.filterMap_cons, hheader, ih]

/-- A well-formed tree is read back from its canonical lexemes, whatever the positions of the tokens. -/
theorem rendered_trees_read_back {tree : List Statement} (hformed : WellFormedTree tree) {tokens : Tokens}
    (htokens : tokens.list.map Token.lexeme = Statement.listLexemes tree) :
    ∃ tree', parse tokens = .ok tree' ∧ Statement.listUnplaced tree' = Statement.listUnplaced tree := by
  -- With the headers of the tree the statements are read back.
  let known : Env := ⟨tree.filterMap header?, tokens.finish⟩
  have hknown : ∀ s ∈ tree, s.TopWellFormed known.headers := hformed
  rcases exists_statements hknown htokens with ⟨tree', hsame, hstatements⟩
  have herrors : (statements known tokens.list).filterMap error? = [] := by
    simp [hstatements, error?]
  have hvalues : (statements known tokens.list).filterMap value? = tree' := by
    simp [hstatements, Function.comp_def, value?]
  -- What has been read spells all tokens, so that these have the same headers.
  rcases treeRead_of_statements herrors with ⟨hyields, htop⟩
  rw [hvalues] at hyields htop
  have hheaders : headers tokens.list = tree.filterMap header? := by
    rw [headers_of_yields hyields htop, ← filterMap_header?_unplaced, hsame, filterMap_header?_unplaced]
  have henv : Env.ofTokens tokens = known := by
    simp only [Env.ofTokens, hheaders, known]
  refine ⟨tree', ?_, hsame⟩
  simp only [parse, henv, herrors, hvalues]

/-- An instance with a definition, a call to it and one to an unknown procedure. -/
theorem rendered_definition_reads_back :
    let p := Position.start
    let tree : List Statement :=
      [ .definition "f" ["x"]
          [ .command .ifElse
              [ .value (.binary .less (.var "x" p) (.negate (.binary .pow (.number "2" p) (.number "3" p) p) p) p),
                .block [.command .forward [.value (.apply .sum [.var "x" p, .number "1" p, .number "2" p] p)] p],
                .block [.call "g" [.number "1" p, .group (.negate (.number "2" p) p) p] p] ] p ] p,
        .call "f" [.thing "a" p] p ]
    let tokens : Tokens := ⟨(Statement.listLexemes tree).map (⟨·, p⟩), p⟩
    WellFormedTree tree ∧
      ∃ tree', parse tokens = .ok tree' ∧ Statement.listUnplaced tree' = Statement.listUnplaced tree := by
  intro p tree tokens
  have hformed : WellFormedTree tree := by
    have hf : isReserved "f" = false := by decide
    have hg : isReserved "g" = false := by decide
    have ha : "a".toLower = "a" := by decide +kernel
    simp [tree, WellFormedTree, Statement.TopWellFormed, Statement.WellFormed, Statement.ListWellFormed,
      Argument.WellFormed, Argument.ListWellFormed, Expr.WellFormed, Expr.ListWellFormed, Builtin.signature, header?,
      List.lookup_cons, hf, hg, ha]
    decide
  exact ⟨hformed, rendered_trees_read_back hformed (by simp [tokens, Function.comp_def])⟩

end

end Grammar
end TurtleLogo
