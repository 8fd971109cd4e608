import TurtleLogo.Proofs.Building
import TurtleLogo.Proofs.Compiling

/-!
# Parentheses around an expression

An operator word after an opening parenthesis takes all that follows up to the closing one as its operands. So a pair of
parentheses around an expression is not always read as such. It changes nothing if the expression begins with anything
but an operator word, and nothing if it begins with an operator that takes operands: those extend as far as they can, to
the end of the text, and the parentheses enclose the operator and its operands. But the words for truth values take no
operands, and what follows one of them in the text is not read as an operand of it, while it is inside parentheses.

* `ExpressionsPersist.all`: what a production reads from the tokens it reads from them with a closing parenthesis after
  them too;
* `exists_primary_of_expression`: an expression that begins with no minus sign begins with a primary one;
* `Expression.compile_parenthesised` and `Expression.compile_parenthesised_ne`: the parentheses keep the value of an
  expression, unless a truth value stands at its head with more after it.
-/

namespace TurtleLogo
namespace Grammar

open Surface

/-! ## Successful sequences -/

theorem exists_of_bind_ok {α β : Type} {p : Parser α} {f : α → Parser β} {b : β} {tokens rest : List Token}
    (h : (p >>= f) tokens = .ok b rest) : ∃ a mid, p tokens = .ok a mid ∧ f a mid = .ok b rest := by
  simp only [Bind.bind, EStateM.bind] at h
  cases hp : p tokens with
  | error =>
      simp [hp] at h
  | ok a mid =>
      exact ⟨a, mid, rfl, by simpa only [hp] using h⟩

theorem exists_of_map_ok {α β : Type} {p : Parser α} {f : α → β} {b : β} {tokens rest : List Token}
    (h : (p >>= fun a => pure (f a)) tokens = .ok b rest) : ∃ a, p tokens = .ok a rest ∧ f a = b := by
  rcases exists_of_bind_ok h with ⟨a, mid, ha, hb⟩
  cases hb
  exact ⟨a, ha, rfl⟩

theorem exists_of_closing_ok {α β : Type} {env : Env} {p : Parser α} {f : α → β} {lexeme : Lexeme} {b : β}
    {tokens rest : List Token} (h : (p >>= fun a => expect env lexeme >>= fun _ => pure (f a)) tokens = .ok b rest) :
    ∃ a last, p tokens = .ok a (⟨lexeme, last⟩ :: rest) ∧ f a = b := by
  rcases exists_of_bind_ok h with ⟨a, mid, ha, hmid⟩
  rcases exists_of_map_ok hmid with ⟨_, hexpect, hb⟩
  rcases (Reads.expect env lexeme).exists_used hexpect with ⟨used, rfl, last, rfl⟩
  exact ⟨a, last, ha, hb⟩

/-! ## A closing parenthesis more -/

/-- The same tokens, perhaps in other places, and a closing parenthesis after them. -/
def Closed (tokens tokens' : List Token) : Prop :=
  tokens'.map Token.lexeme = tokens.map Token.lexeme ++ [.closeParen]

namespace Closed

variable {tokens tokens' : List Token}

theorem exists_cons {token : Token} (h : Closed (token :: tokens) tokens') :
    ∃ pos rest', tokens' = ⟨token.lexeme, pos⟩ :: rest' ∧ Closed tokens rest' :=
  exists_cons_of_lexemes h

theorem exists_of_nil (h : Closed [] tokens') : ∃ pos, tokens' = [⟨.closeParen, pos⟩] := by
  rcases exists_cons_of_lexemes h with ⟨pos, rest, rfl, hrest⟩
  cases List.map_eq_nil_iff.1 hrest
  exact ⟨pos, rfl⟩

theorem ahead_eq (h : Closed tokens tokens') : ahead tokens' = (ahead tokens).or (some .closeParen) := by
  cases tokens with
  | nil =>
      rcases h.exists_of_nil with ⟨pos, rfl⟩
      rfl
  | cons token tokens =>
      rcases h.exists_cons with ⟨pos, rest, rfl, -⟩
      rfl

theorem ahead_eq_some (h : Closed tokens tokens') {lexeme : Lexeme} (hahead : ahead tokens = some lexeme) :
    ahead tokens' = some lexeme := by
  simp [h.ahead_eq, hahead]

theorem ahead_ne (h : Closed tokens tokens') {lexeme : Lexeme} (hparen : lexeme ≠ .closeParen)
    (hahead : ahead tokens ≠ some lexeme) : ahead tokens' ≠ some lexeme := by
  rw [h.ahead_eq]
  cases hfound : ahead tokens with
  | none => simpa using hparen.symm
  | some found => simpa [hfound] using hahead

theorem operatorAhead?_eq (h : Closed tokens tokens') : operatorAhead? tokens' = operatorAhead? tokens := by
  unfold operatorAhead?
  rw [h.ahead_eq]
  cases ahead tokens <;> rfl

end Closed

/-- With a closing parenthesis more, a production takes the same and leaves the parenthesis with what it left before. -/
def Persists {α : Type} (same : α → α → Prop) (p : Parser α) (production : Nat → Parser α) : Prop :=
  ∀ tokens a rest, p tokens = .ok a rest → ∀ tokens', Closed tokens tokens' →
    ∃ a' rest', same a' a ∧ Closed rest rest' ∧ Takes production tokens' a' rest'

def SameExpr (e' e : Expr) : Prop :=
  e'.unplaced = e.unplaced

def SameList (list' list : List Expr) : Prop :=
  Expr.listUnplaced list' = Expr.listUnplaced list

theorem SameList.cons {e' e : Expr} {list' list : List Expr} (h : SameExpr e' e) (hlist : SameList list' list) :
    SameList (e' :: list') (e :: list) := by
  unfold SameList SameExpr at *
  simp only [Expr.listUnplaced, h, hlist]

/-- What holds of the expression productions with a certain depth. -/
structure ExpressionsPersist (env env' : Env) (depth : Nat) : Prop where
  chain (level : Level) : Persists SameExpr (chain env depth level) (chain env' · level)
  chainFrom (level : Level) (left left' : Expr) (hleft : SameExpr left' left) :
    Persists SameExpr (chainFrom env depth level left) (chainFrom env' · level left')
  operand (level : Level) : Persists SameExpr (operand env depth level) (operand env' · level)
  signed : Persists SameExpr (signed env depth) (signed env')
  power : Persists SameExpr (power env depth) (power env')
  primary : Persists SameExpr (primary env depth) (primary env')
  expressions (count : Nat) : Persists SameList (expressions env depth count) (expressions env' · count)
  expressionsToParen : Persists SameList (expressionsToParen env depth) (expressionsToParen env')

namespace ExpressionsPersist

variable {env env' : Env} {depth : Nat}

theorem fail {α : Type} {same : α → α → Prop} (cause : Option Lexeme → BuildError.Cause)
    (production : Nat → Parser α) : Persists same (Grammar.fail env cause) production :=
  fun _ _ _ h => nomatch h

theorem zero : ExpressionsPersist env env' 0 where
  chain _ := fail _ _
  chainFrom _ _ _ _ := fail _ _
  operand _ := fail _ _
  signed := fail _ _
  power := fail _ _
  primary := fail _ _
  expressions _ := fail _ _
  expressionsToParen := fail _ _

theorem chain_succ (h : ExpressionsPersist env env' depth) (level : Level) :
    Persists SameExpr (Grammar.chain env (depth + 1) level) (Grammar.chain env' · level) := by
  intro tokens e rest hok tokens' hclosed
  rcases exists_of_bind_ok hok with ⟨first, mid, hfirst, hrest⟩
  rcases h.operand level tokens first mid hfirst tokens' hclosed with ⟨first', mid', hsame, hmid, htaken⟩
  rcases h.chainFrom level first first' hsame mid e rest hrest mid' hmid with ⟨e', rest', hsame', hrest', htaken'⟩
  exact ⟨e', rest', hsame', hrest', takes_chain htaken htaken'⟩

theorem chainFrom_succ (h : ExpressionsPersist env env' depth) (level : Level) (left left' : Expr)
    (hleft : SameExpr left' left) :
    Persists SameExpr (Grammar.chainFrom env (depth + 1) level left) (Grammar.chainFrom env' · level left') := by
  intro tokens e rest hok tokens' hclosed
  simp only [Grammar.chainFrom] at hok
  split at hok
  · rename_i hnone
    cases hok
    have hnone' : (ahead tokens').bind level.operator? = none := by
      rw [hclosed.ahead_eq]
      cases hahead : ahead tokens with
      | none => cases level <;> rfl
      | some lexeme => simpa [hahead] using hnone
    exact ⟨left', tokens', hleft, hclosed, takes_chainFrom_none left' hnone'⟩
  · rename_i op hop
    rcases Option.bind_eq_some_iff.1 hop with ⟨sign, hahead, hoperator⟩
    rcases exists_cons_of_ahead hahead with ⟨place, tail, rfl⟩
    rcases hclosed.exists_cons with ⟨place', tail', rfl, htail⟩
    rcases exists_of_bind_ok hok with ⟨right, mid, hright, hrest⟩
    rcases h.operand level tail right mid hright tail' htail with ⟨right', mid', hsame, hmid, htaken⟩
    have hjoined : SameExpr (.binary op left' right' left'.pos) (.binary op left right left.pos) := by
      unfold SameExpr at *
      simp only [Expr.unplaced, hleft, hsame]
    rcases h.chainFrom level _ _ hjoined mid e rest hrest mid' hmid with ⟨e', rest', hsame', hrest', htaken'⟩
    exact ⟨e', rest', hsame', hrest', takes_chainFrom_some place' hoperator htaken htaken'⟩

theorem operand_succ (h : ExpressionsPersist env env' depth) (level : Level) :
    Persists SameExpr (Grammar.operand env (depth + 1) level) (Grammar.operand env' · level) := by
  intro tokens e rest hok tokens' hclosed
  cases level with
  | comparison =>
      rcases h.chain .additive tokens e rest hok tokens' hclosed with ⟨e', rest', hsame, hrest, htaken⟩
      exact ⟨e', rest', hsame, hrest, takes_operand_comparison htaken⟩
  | additive =>
      rcases h.chain .multiplicative tokens e rest hok tokens' hclosed with ⟨e', rest', hsame, hrest, htaken⟩
      exact ⟨e', rest', hsame, hrest, takes_operand_additive htaken⟩
  | multiplicative =>
      rcases h.signed tokens e rest hok tokens' hclosed with ⟨e', rest', hsame, hrest, htaken⟩
      exact ⟨e', rest', hsame, hrest, takes_operand_multiplicative htaken⟩

theorem signed_succ (h : ExpressionsPersist env env' depth) :
    Persists SameExpr (Grammar.signed env (depth + 1)) (Grammar.signed env') := by
  intro tokens e rest hok tokens' hclosed
  simp only [Grammar.signed] at hok
  split at hok
  · rename_i hsign
    obtain ⟨sign, hminus, hahead⟩ : ∃ sign, (sign = .minus ∨ sign = .negate) ∧ ahead tokens = some sign := by
      rcases hsign with hahead | hahead
      · exact ⟨.minus, .inl rfl, hahead⟩
      · exact ⟨.negate, .inr rfl, hahead⟩
    rcases exists_cons_of_ahead hahead with ⟨pos, tail, rfl⟩
    rcases hclosed.exists_cons with ⟨pos', tail', rfl, htail⟩
    rcases exists_of_map_ok hok with ⟨inner, hinner, rfl⟩
    rcases h.signed tail inner rest hinner tail' htail with ⟨inner', rest', hsame, hrest, htaken⟩
    refine ⟨.negate inner' pos', rest', ?_, hrest, takes_signed_negate pos' hminus htaken⟩
    unfold SameExpr at *
    simp only [Expr.unplaced, hsame]
  · rename_i hsign
    rcases not_or.1 hsign with ⟨hminus, hnegate⟩
    rcases h.power tokens e rest hok tokens' hclosed with ⟨e', rest', hsame, hrest, htaken⟩
    have hminus' := hclosed.ahead_ne (by decide) hminus
    have hnegate' := hclosed.ahead_ne (by decide) hnegate
    exact ⟨e', rest', hsame, hrest, takes_signed_power hminus' hnegate' htaken⟩

theorem power_succ (h : ExpressionsPersist env env' depth) :
    Persists SameExpr (Grammar.power env (depth + 1)) (Grammar.power env') := by
  intro tokens e rest hok tokens' hclosed
  rcases exists_of_bind_ok hok with ⟨base, mid, hbase, hrest⟩
  rcases h.primary tokens base mid hbase tokens' hclosed with ⟨base', mid', hsame, hmid, htaken⟩
  split at hrest
  · rename_i hahead
    rcases exists_cons_of_ahead hahead with ⟨place, tail, rfl⟩
    rcases hmid.exists_cons with ⟨place', tail', rfl, htail⟩
    rcases exists_of_map_ok hrest with ⟨exponent, hexponent, rfl⟩
    rcases h.signed tail exponent rest hexponent tail' htail with ⟨exponent', rest', hsame', hrest', htaken'⟩
    refine ⟨.binary .pow base' exponent' base'.pos, rest', ?_, hrest', takes_power_caret place' htaken htaken'⟩
    unfold SameExpr at *
    simp only [Expr.unplaced, hsame, hsame']
  · rename_i hahead
    cases hrest
    exact ⟨base', mid', hsame, hmid, takes_power_primary htaken (hmid.ahead_ne (by decide) hahead)⟩

theorem primary_succ (h : ExpressionsPersist env env' depth) :
    Persists SameExpr (Grammar.primary env (depth + 1)) (Grammar.primary env') := by
  intro tokens e rest hok tokens' hclosed
  simp only [Grammar.primary] at hok
  split at hok
  · -- A number.
    rcases hclosed.exists_cons with ⟨pos', tail', rfl, htail⟩
    cases hok
    exact ⟨.number _ pos', tail', rfl, htail, takes_number _ pos' tail'⟩
  · -- A variable.
    rcases hclosed.exists_cons with ⟨pos', tail', rfl, htail⟩
    cases hok
    exact ⟨.var _ pos', tail', rfl, htail, takes_var _ pos' tail'⟩
  · -- A variable named by a word.
    rcases hclosed.exists_cons with ⟨pos', tail', rfl, htail⟩
    rcases htail.exists_cons with ⟨place', more', rfl, hmore⟩
    cases hok
    exact ⟨.thing _ pos', more', rfl, hmore, takes_thing _ pos' place' more'⟩
  · cases hok
  · rename_i pos tail
    rcases hclosed.exists_cons with ⟨pos', tail', rfl, htail⟩
    split at hok
    · -- An operator with any number of operands in parentheses.
      rename_i op hop
      rcases exists_ident_of_operatorAhead? hop with ⟨word, place, more, hword, rfl⟩
      rcases htail.exists_cons with ⟨place', more', rfl, hmore⟩
      rcases exists_of_closing_ok hok with ⟨operands, last, hoperands, rfl⟩
      rcases h.expressionsToParen more operands _ hoperands more' hmore with ⟨operands', mid', hsame, hmid, htaken⟩
      rcases hmid.exists_cons with ⟨last', rest', rfl, hrest⟩
      refine ⟨.apply op operands' pos', rest', ?_, hrest, takes_parenthesised pos' place' last' hword htaken⟩
      unfold SameExpr SameList at *
      simp only [Expr.unplaced, hsame]
    · -- An expression in parentheses.
      rename_i hop
      rcases exists_of_closing_ok hok with ⟨inner, last, hinner, rfl⟩
      rcases h.chain .comparison tail inner _ hinner tail' htail with ⟨inner', mid', hsame, hmid, htaken⟩
      rcases hmid.exists_cons with ⟨last', rest', rfl, hrest⟩
      have hop' := htail.operatorAhead?_eq.trans hop
      refine ⟨.group inner' pos', rest', ?_, hrest, takes_group pos' last' hop' htaken⟩
      unfold SameExpr at *
      simp only [Expr.unplaced, hsame]
  · rename_i word pos tail
    rcases hclosed.exists_cons with ⟨pos', tail', rfl, htail⟩
    split at hok
    · -- An operator with the number of operands that it takes without parentheses.
      rename_i op hword
      rcases exists_of_map_ok hok with ⟨operands, hoperands, rfl⟩
      rcases h.expressions op.bareCount tail operands rest hoperands tail' htail with
        ⟨operands', rest', hsame, hrest, htaken⟩
      refine ⟨.apply op operands' pos', rest', ?_, hrest, takes_bare pos' hword htaken⟩
      unfold SameExpr SameList at *
      simp only [Expr.unplaced, hsame]
    · split at hok <;> cases hok
  · cases hok

theorem expressions_succ (h : ExpressionsPersist env env' depth) (count : Nat) :
    Persists SameList (Grammar.expressions env (depth + 1) count) (Grammar.expressions env' · count) := by
  intro tokens list rest hok tokens' hclosed
  cases count with
  | zero =>
      cases hok
      exact ⟨[], tokens', rfl, hclosed, takes_expressions_zero tokens'⟩
  | succ count =>
      rcases exists_of_bind_ok hok with ⟨first, mid, hfirst, hrest⟩
      rcases exists_of_map_ok hrest with ⟨more, hmore, rfl⟩
      rcases h.chain .comparison tokens first mid hfirst tokens' hclosed with ⟨first', mid', hsame, hmid, htaken⟩
      rcases h.expressions count mid more rest hmore mid' hmid with ⟨more', rest', hsame', hrest', htaken'⟩
      exact ⟨first' :: more', rest', SameList.cons hsame hsame', hrest', takes_expressions_succ htaken htaken'⟩

theorem expressionsToParen_succ (h : ExpressionsPersist env env' depth) :
    Persists SameList (Grammar.expressionsToParen env (depth + 1)) (Grammar.expressionsToParen env') := by
  intro tokens list rest hok tokens' hclosed
  simp only [Grammar.expressionsToParen] at hok
  split at hok
  · rename_i hend
    cases hok
    -- Where the text ended there is a closing parenthesis now.
    have hparen : ahead tokens' = some .closeParen := by
      rw [hclosed.ahead_eq]
      rcases hend with hahead | hahead <;> rw [hahead] <;> rfl
    exact ⟨[], tokens', rfl, hclosed, takes_expressionsToParen_nil (.inl hparen)⟩
  · rename_i hgoes
    rcases exists_of_bind_ok hok with ⟨first, mid, hfirst, hrest⟩
    rcases exists_of_map_ok hrest with ⟨more, hmore, rfl⟩
    rcases h.chain .comparison tokens first mid hfirst tokens' hclosed with ⟨first', mid', hsame, hmid, htaken⟩
    rcases h.expressionsToParen mid more rest hmore mid' hmid with ⟨more', rest', hsame', hrest', htaken'⟩
    rcases not_or.1 hgoes with ⟨hparen, hend⟩
    rcases Option.ne_none_iff_exists'.1 hend with ⟨lexeme, hahead⟩
    have hahead' := hclosed.ahead_eq_some hahead
    refine ⟨first' :: more', rest', SameList.cons hsame hsame', hrest', ?_⟩
    refine takes_expressionsToParen_cons ?_ (by simp [hahead']) htaken htaken'
    rwa [hahead', ← hahead]

theorem all (env env' : Env) (depth : Nat) : ExpressionsPersist env env' depth := by
  induction depth with
  | zero =>
      exact zero
  | succ depth h =>
      exact
        { chain := h.chain_succ
          chainFrom := h.chainFrom_succ
          operand := h.operand_succ
          signed := h.signed_succ
          power := h.power_succ
          primary := h.primary_succ
          expressions := h.expressions_succ
          expressionsToParen := h.expressionsToParen_succ }

end ExpressionsPersist

theorem expression_persists {env env' : Env} {depth : Nat} :
    Persists SameExpr (expression env depth) (expression env') :=
  (ExpressionsPersist.all env env' depth).chain .comparison

/-! ## Where expressions have stopped -/

section

variable {env : Env}

/-- An expression is made of signed powers by chains, from the tightest level to the loosest one. -/
theorem expression_induction {motive : Rank → List Token → Expr → List Token → Prop}
    (hsigned : ∀ depth tokens e rest, signed env depth tokens = .ok e rest → motive .signed tokens e rest)
    (hchain : ∀ level : Level,
      (∀ depth tokens e rest, operand env depth level tokens = .ok e rest → motive level.operandRank tokens e rest) →
        ∀ depth tokens first mid e rest, motive level.operandRank tokens first mid →
          chainFrom env depth level first mid = .ok e rest → motive level.rank tokens e rest)
    {depth : Nat} {tokens rest : List Token} {e : Expr} (h : expression env depth tokens = .ok e rest) :
    motive .comparison tokens e rest := by
  have hjoin (level : Level)
      (hoperand : ∀ depth tokens e rest, operand env depth level tokens = .ok e rest →
        motive level.operandRank tokens e rest) :
      ∀ depth tokens e rest, chain env depth level tokens = .ok e rest → motive level.rank tokens e rest := by
    intro depth tokens e rest h
    cases depth with
    | zero =>
        cases h
    | succ depth =>
        rcases exists_of_bind_ok h with ⟨first, mid, hfirst, hrest⟩
        exact hchain level hoperand depth tokens first mid e rest (hoperand depth tokens first mid hfirst) hrest
  have hmultiplicative := hjoin .multiplicative fun depth tokens e rest h => by
    cases depth with
    | zero => cases h
    | succ depth => exact hsigned depth tokens e rest h
  have hadditive := hjoin .additive fun depth tokens e rest h => by
    cases depth with
    | zero => cases h
    | succ depth => exact hmultiplicative depth tokens e rest h
  have hcomparison := hjoin .comparison fun depth tokens e rest h => by
    cases depth with
    | zero => cases h
    | succ depth => exact hadditive depth tokens e rest h
  exact hcomparison depth tokens e rest h

theorem stops_of_no_caret {tokens : List Token} (h : ahead tokens ≠ some .caret) : Stops .signed tokens := by
  intro op hahead hrank
  cases op.eq_pow_of_rank hrank
  exact h hahead

theorem signed_and_power_stop (depth : Nat) :
    (∀ tokens e rest, signed env depth tokens = .ok e rest → Stops .signed rest) ∧
      ∀ tokens e rest, power env depth tokens = .ok e rest → Stops .signed rest := by
  induction depth with
  | zero =>
      exact ⟨fun _ _ _ h => (nomatch h), fun _ _ _ h => (nomatch h)⟩
  | succ depth ih =>
      rcases ih with ⟨hsigned, hpower⟩
      refine ⟨fun tokens e rest h => ?_, fun tokens e rest h => ?_⟩
      · simp only [signed] at h
        split at h
        · rcases exists_of_map_ok h with ⟨inner, hinner, -⟩
          exact hsigned tokens.tail inner rest hinner
        · exact hpower tokens e rest h
      · rcases exists_of_bind_ok h with ⟨base, mid, -, hrest⟩
        split at hrest
        · rcases exists_of_map_ok hrest with ⟨exponent, hexponent, -⟩
          exact hsigned mid.tail exponent rest hexponent
        · rename_i hahead
          cases hrest
          exact stops_of_no_caret hahead

theorem operator?_of_rank {level : Level} {op : BinaryOp} (h : level.rank = op.rank) :
    level.operator? op.sign = some op := by
  revert h
  cases level <;> cases op <;> decide

theorem chainFrom_stops {level : Level}
    (hoperand : ∀ depth tokens e rest, operand env depth level tokens = .ok e rest → Stops level.operandRank rest)
    {depth : Nat} {left e : Expr} {tokens rest : List Token} (hstops : Stops level.operandRank tokens)
    (h : chainFrom env depth level left tokens = .ok e rest) : Stops level.rank rest := by
  induction depth generalizing left tokens with
  | zero =>
      cases h
  | succ depth ih =>
      simp only [chainFrom] at h
      split at h
      · rename_i hnone
        cases h
        -- No sign of this level is ahead, and none of a tighter one after an operand.
        intro op hahead hrank
        rcases eq_or_nextRank_le hrank with heq | ⟨-, hnext⟩
        · simp [hahead, operator?_of_rank heq] at hnone
        · have hoperandRank : nextRank level.rank = level.operandRank := by
            cases level <;> rfl
          exact hstops op hahead (hoperandRank ▸ hnext)
      · rcases exists_of_bind_ok h with ⟨right, mid, hright, hrest⟩
        exact ih (hoperand depth _ right mid hright) hrest

/-- An expression takes all signs that follow it. -/
theorem expression_stops {depth : Nat} {tokens rest : List Token} {e : Expr}
    (h : expression env depth tokens = .ok e rest) : Stops .comparison rest := by
  refine expression_induction (motive := fun rank _ _ rest => Stops rank rest) ?_ ?_ h
  · intro depth tokens e rest hsigned
    exact (signed_and_power_stop depth).1 tokens e rest hsigned
  · intro level hoperand depth tokens first mid e rest hfirst hrest
    exact chainFrom_stops hoperand hfirst hrest

theorem expressions_stop {depth count : Nat} {tokens rest : List Token} {list : List Expr}
    (h : expressions env depth (count + 1) tokens = .ok list rest) : Stops .comparison rest := by
  induction count generalizing depth tokens list with
  | zero =>
      cases depth with
      | zero =>
          cases h
      | succ depth =>
          rcases exists_of_bind_ok h with ⟨first, mid, hfirst, hrest⟩
          rcases exists_of_map_ok hrest with ⟨more, hmore, -⟩
          cases depth with
          | zero =>
              cases hmore
          | succ depth =>
              cases hmore
              exact expression_stops hfirst
  | succ count ih =>
      cases depth with
      | zero =>
          cases h
      | succ depth =>
          rcases exists_of_bind_ok h with ⟨first, mid, -, hrest⟩
          rcases exists_of_map_ok hrest with ⟨more, hmore, -⟩
          exact ih hmore

end

/-! ## What an expression begins with -/

/-- The expression is a chain that begins with the base. -/
inductive Leads (base : Expr) : Expr → Prop where
  | refl : Leads base base
  | binary {left : Expr} (op : BinaryOp) (right : Expr) (pos : Position) (h : Leads base left) :
      Leads base (.binary op left right pos)

theorem Leads.trans {base first e : Expr} (h : Leads base first) (h' : Leads first e) : Leads base e := by
  induction h' with
  | refl => exact h
  | binary op right pos _ ih => exact .binary op right pos ih

/-- A primary expression has been read first, and it is the whole expression unless a sign follows. -/
def BeginsWith (env : Env) (tokens : List Token) (e : Expr) (rest : List Token) : Prop :=
  ∃ depth base mid, primary env depth tokens = .ok base mid ∧ Leads base e ∧
    (Stops .comparison mid → e = base ∧ rest = mid)

section

variable {env : Env}

theorem chainFrom_leads {level : Level} {depth : Nat} {left e : Expr} {tokens rest : List Token}
    (h : chainFrom env depth level left tokens = .ok e rest) :
    Leads left e ∧ (Stops .comparison tokens → e = left ∧ rest = tokens) := by
  induction depth generalizing left tokens with
  | zero =>
      cases h
  | succ depth ih =>
      simp only [chainFrom] at h
      split at h
      · cases h
        exact ⟨.refl, fun _ => ⟨rfl, rfl⟩⟩
      · rename_i op hop
        rcases exists_of_bind_ok h with ⟨right, mid, -, hrest⟩
        refine ⟨.trans (.binary op right left.pos .refl) (ih hrest).1, fun hstops => ?_⟩
        rcases Option.bind_eq_some_iff.1 hop with ⟨lexeme, hahead, hoperator⟩
        rcases Level.operator?_eq_some hoperator with ⟨rfl, -⟩
        exact absurd (Nat.zero_le _) (hstops op hahead)

theorem beginsWith_of_power {depth : Nat} {e : Expr} {tokens rest : List Token}
    (h : power env depth tokens = .ok e rest) : BeginsWith env tokens e rest := by
  cases depth with
  | zero =>
      cases h
  | succ depth =>
      rcases exists_of_bind_ok h with ⟨base, mid, hbase, hrest⟩
      refine ⟨depth, base, mid, hbase, ?_⟩
      split at hrest
      · rename_i hahead
        rcases exists_of_map_ok hrest with ⟨exponent, -, rfl⟩
        exact ⟨.binary .pow exponent base.pos .refl, fun hstops => absurd (Nat.zero_le _) (hstops .pow hahead)⟩
      · cases hrest
        exact ⟨.refl, fun _ => ⟨rfl, rfl⟩⟩

theorem BeginsWith.chainFrom {level : Level} {depth : Nat} {first e : Expr} {tokens mid rest : List Token}
    (hfirst : BeginsWith env tokens first mid) (h : chainFrom env depth level first mid = .ok e rest) :
    BeginsWith env tokens e rest := by
  rcases hfirst with ⟨depth', base, afterBase, hbase, hleads, hwhole⟩
  rcases chainFrom_leads h with ⟨hleads', hwhole'⟩
  refine ⟨depth', base, afterBase, hbase, hleads.trans hleads', fun hstops => ?_⟩
  rcases hwhole hstops with ⟨rfl, rfl⟩
  exact hwhole' hstops

theorem exists_primary_of_expression {depth : Nat} {tokens rest : List Token} {e : Expr}
    (hminus : ahead tokens ≠ some .minus) (hnegate : ahead tokens ≠ some .negate)
    (h : expression env depth tokens = .ok e rest) : BeginsWith env tokens e rest := by
  refine expression_induction (motive := fun _ tokens e rest =>
    ahead tokens ≠ some .minus → ahead tokens ≠ some .negate → BeginsWith env tokens e rest) ?_ ?_ h hminus hnegate
  · intro depth tokens e rest hsigned hminus hnegate
    cases depth with
    | zero =>
        cases hsigned
    | succ depth =>
        simp only [signed, if_neg (not_or.2 ⟨hminus, hnegate⟩)] at hsigned
        exact beginsWith_of_power hsigned
  · intro level _ depth tokens first mid e rest hfirst hrest hminus hnegate
    exact (hfirst hminus hnegate).chainFrom hrest

/-- An operator word at the head of an expression. -/
theorem exists_operands_of_bare {depth : Nat} {word : String} {op : Operator} {pos : Position}
    {tokens rest : List Token} {e : Expr} (hword : Operator.ofWord? word = some op)
    (h : expression env depth (⟨.ident word, pos⟩ :: tokens) = .ok e rest) :
    ∃ depth' operands mid, expressions env depth' op.bareCount tokens = .ok operands mid ∧
      Leads (.apply op operands pos) e ∧ (Stops .comparison mid → e = .apply op operands pos ∧ rest = mid) := by
  rcases exists_primary_of_expression (by simp [ahead]) (by simp [ahead]) h with
    ⟨depth', base, mid, hbase, hleads, hwhole⟩
  cases depth' with
  | zero =>
      cases hbase
  | succ depth' =>
      simp only [primary, hword] at hbase
      rcases exists_of_map_ok hbase with ⟨operands, hoperands, rfl⟩
      exact ⟨depth', operands, mid, hoperands, hleads, hwhole⟩

/-- An operator word after an opening parenthesis at the head of an expression. -/
theorem exists_operands_of_parenthesised {depth : Nat} {word : String} {op : Operator} {pos place : Position}
    {tokens rest : List Token} {e : Expr} (hword : Operator.ofWord? word = some op)
    (h : expression env depth (⟨.openParen, pos⟩ :: ⟨.ident word, place⟩ :: tokens) = .ok e rest) :
    ∃ depth' operands last mid, expressionsToParen env depth' tokens = .ok operands (⟨.closeParen, last⟩ :: mid) ∧
      Leads (.apply op operands pos) e := by
  rcases exists_primary_of_expression (by simp [ahead]) (by simp [ahead]) h with
    ⟨depth', base, mid, hbase, hleads, -⟩
  cases depth' with
  | zero =>
      cases hbase
  | succ depth' =>
      have hop : operatorAhead? (⟨.ident word, place⟩ :: tokens) = some op := hword
      simp only [primary, hop, List.tail_cons] at hbase
      rcases exists_of_closing_ok hbase with ⟨operands, last, hoperands, rfl⟩
      exact ⟨depth', operands, last, mid, hoperands, hleads⟩

end

/-! ## Operands up to a parenthesis -/

/-- An expression does not begin with a closing parenthesis. -/
theorem exists_ahead_of_yields {e : Expr} {used : List Token} :
    e.Yields used → ∀ rest, ∃ lexeme, ahead (used ++ rest) = some lexeme ∧ lexeme ≠ .closeParen
  | .number _ _, _ | .var _ _, _ | .thing _ _ _, _ | .bare _ _ _ _, _ | .parenthesised _ _ _ _ _, _
  | .group _ _ _, _ => ⟨_, rfl, nofun⟩
  | .negate _ hsign _, _ => ⟨_, rfl, by rcases hsign with rfl | rfl <;> simp⟩
  | @Expr.Yields.binary op _ _ _ us place hleft _, rest => by
      rw [List.append_assoc]
      exact exists_ahead_of_yields hleft (⟨op.sign, place⟩ :: us ++ rest)

/-- Operands that were read up to the end of the text are read up to a closing parenthesis in its place. -/
theorem exists_expressionsToParen {env env' : Env} {depth count : Nat} {tokens : List Token} {list : List Expr}
    (h : expressions env depth count tokens = .ok list []) {tokens' : List Token} (hclosed : Closed tokens tokens') :
    ∃ list' last, SameList list' list ∧ Takes (expressionsToParen env') tokens' list' [⟨.closeParen, last⟩] := by
  induction count generalizing depth tokens tokens' list with
  | zero =>
      cases depth with
      | zero =>
          cases h
      | succ depth =>
          cases h
          rcases hclosed.exists_of_nil with ⟨last, rfl⟩
          exact ⟨[], last, rfl, takes_expressionsToParen_nil (.inl rfl)⟩
  | succ count ih =>
      cases depth with
      | zero =>
          cases h
      | succ depth =>
          rcases exists_of_bind_ok h with ⟨first, mid, hfirst, hrest⟩
          rcases exists_of_map_ok hrest with ⟨more, hmore, rfl⟩
          rcases expression_persists tokens first mid hfirst tokens' hclosed with ⟨first', mid', hsame, hmid, htaken⟩
          rcases ih hmore hmid with ⟨more', last, hsame', htaken'⟩
          rcases (expression_reads env depth).exists_used hfirst with ⟨used, rfl, hspells⟩
          rcases exists_ahead_of_yields hspells.yields mid with ⟨lexeme, hahead, hparen⟩
          have hahead' := hclosed.ahead_eq_some hahead
          refine ⟨first' :: more', last, SameList.cons hsame hsame', ?_⟩
          exact takes_expressionsToParen_cons (by simpa [hahead'] using hparen) (by simp [hahead']) htaken htaken'

theorem eq_of_expressionsToParen_nil {env : Env} {depth : Nat} {tokens rest : List Token}
    (h : expressionsToParen env depth tokens = .ok [] rest) : rest = tokens := by
  cases depth with
  | zero =>
      cases h
  | succ depth =>
      simp only [expressionsToParen] at h
      split at h
      · cases h
        rfl
      · rcases exists_of_bind_ok h with ⟨first, mid, -, hrest⟩
        rcases exists_of_map_ok hrest with ⟨more, -, hcons⟩
        cases hcons

theorem eq_of_expressions_zero {env : Env} {depth : Nat} {tokens rest : List Token} {list : List Expr}
    (h : expressions env depth 0 tokens = .ok list rest) : list = [] ∧ rest = tokens := by
  cases depth with
  | zero =>
      cases h
  | succ depth =>
      cases h
      exact ⟨rfl, rfl⟩

/-- Whether the word at the head stands for a truth value and more follows it. -/
def constantFirst (tokens : List Token) : Bool :=
  (operatorAhead? tokens).any (·.bareCount = 0) && decide (1 < tokens.length)

end Grammar

open Surface Grammar

/-! ## The text in parentheses -/

theorem Tokens.exists_scan_parenthesised {source : String} {tokens : Tokens} (h : Tokens.scan source = .ok tokens) :
    ∃ wrapped pos inner, Tokens.scan ("(" ++ source ++ "\n)") = .ok wrapped ∧
      wrapped.list = ⟨.openParen, pos⟩ :: inner ∧ Closed tokens.list inner := by
  have hchars : ("(" ++ source ++ "\n)").toList = '(' :: (source.toList ++ '\n' :: [')']) := by
    simp
  have hclose : segments (some '\n') [')'] = [.lexeme .closeParen [')']] := by
    rw [segments_closeParen, segments]
  have hlexemes : Segment.lexemes? (segments none ("(" ++ source ++ "\n)").toList) =
      some (.openParen :: (tokens.list.map Token.lexeme ++ [.closeParen])) := by
    rw [hchars, segments_openParen, segments_append_newline, hclose]
    simp [Segment.lexemes?, Segment.lexemes?_append, lexemes?_of_scan h]
  rcases exists_scan hlexemes with ⟨wrapped, hwrapped, hlist⟩
  rcases exists_cons_of_lexemes hlist with ⟨pos, inner, hcons, hinner⟩
  exact ⟨wrapped, pos, inner, hwrapped, hcons, hinner⟩

namespace Expression

/-! ## The head of an expression -/

/-- The part of an expression that its text begins with, not looking into the operands of a truth value. -/
def foremost : Expression → Expression
  | .apply op (first :: rest) => if op.bareCount = 0 then .apply op (first :: rest) else first.foremost
  | e => e

theorem bareCount_operator (op : BinaryOp) : op.operator.bareCount ≠ 0 := by
  cases op <;> decide

theorem foremost_of_leads {op : Operator} {operands : List Expr} {pos : Position} {t : Expr}
    (hleads : Leads (.apply op operands pos) t) (hop : op.bareCount = 0) {e : Expression}
    (h : Expression.ofSurface t = .ok e) :
    ∃ values, Expression.listOfSurface operands = .ok values ∧ e.foremost = .apply op values := by
  induction hleads generalizing e with
  | refl =>
      rw [ofSurface] at h
      rcases Checked.ok_of_map h with ⟨values, hvalues, rfl⟩
      refine ⟨values, hvalues, ?_⟩
      cases values <;> simp [foremost, hop]
  | binary op' right pos' _ ih =>
      rw [ofSurface] at h
      rcases Checked.ok_of_map₂ h with ⟨l, r, hl, -, rfl⟩
      rcases ih hl with ⟨values, hvalues, hforemost⟩
      exact ⟨values, hvalues, by simp [foremost, bareCount_operator, hforemost]⟩

theorem eq_nil_of_listOfSurface {operands : List Expr} (h : Expression.listOfSurface operands = .ok []) :
    operands = [] := by
  cases operands with
  | nil =>
      rfl
  | cons first rest =>
      rw [listOfSurface] at h
      rcases Checked.ok_of_map₂ h with ⟨_, _, -, -, hcons⟩
      cases hcons

/-! ## Both directions -/

section

variable {source : String} {tokens wrapped : Tokens} {pos : Position} {inner : List Token} {e : Expression}

theorem compile_parenthesised (hscan : Tokens.scan source = .ok tokens)
    (hwrapped : Tokens.scan ("(" ++ source ++ "\n)") = .ok wrapped) (hlist : wrapped.list = ⟨.openParen, pos⟩ :: inner)
    (hclosed : Closed tokens.list inner) (h : Expression.compile source = .ok e)
    (hfirst : constantFirst tokens.list = false) : Expression.compile ("(" ++ source ++ "\n)") = .ok e := by
  rcases exists_tree_of_compile hscan h with ⟨t, hread, hvalue⟩
  have hcompile (t' : Expr) (hvalue' : Expression.ofSurface t' = .ok e)
      (htaken : Takes (primary (Env.ofTokens wrapped)) (⟨.openParen, pos⟩ :: inner) t' []) :
      Expression.compile ("(" ++ source ++ "\n)") = .ok e := by
    have hwhole := takes_expression_of_primary (by simp [ahead]) (by simp [ahead]) htaken
    rw [← hlist] at hwhole
    exact compile_of_takes hwrapped hwhole hvalue'
  cases hop : operatorAhead? tokens.list with
  | none =>
      -- The parentheses are read as such.
      rcases expression_persists tokens.list t [] hread inner hclosed with ⟨t', rest', hsame, hrest, htaken⟩
      rcases hrest.exists_of_nil with ⟨last, rfl⟩
      have hgroup : Expression.ofSurface (.group t' pos) = .ok e := by
        rw [ofSurface]
        exact ofSurface_congr hsame hvalue
      exact hcompile _ hgroup (takes_group pos last (hclosed.operatorAhead?_eq.trans hop) htaken)
  | some op =>
      -- The operator takes the rest of the text as its operands, with parentheses and without.
      rcases exists_ident_of_operatorAhead? hop with ⟨word, place, rest, hword, hrest⟩
      rw [hrest] at hread hclosed
      rcases hclosed.exists_cons with ⟨place', rest', rfl, hclosed'⟩
      rcases exists_operands_of_bare hword hread with ⟨depth, operands, mid, hoperands, -, hwhole⟩
      have hstops : Stops .comparison mid := by
        cases hcount : op.bareCount with
        | zero =>
            have hnil : rest = [] := by
              simpa [constantFirst, hrest, hop, hcount, operatorAhead?, ahead, hword] using hfirst
            rw [hcount] at hoperands
            rw [(eq_of_expressions_zero hoperands).2, hnil]
            exact stops_nil .comparison
        | succ count =>
            rw [hcount] at hoperands
            exact expressions_stop hoperands
      rcases hwhole hstops with ⟨rfl, rfl⟩
      rcases exists_expressionsToParen hoperands hclosed' with ⟨operands', last, hsame, htaken⟩
      refine hcompile (.apply op operands' pos) (ofSurface_congr ?_ hvalue) ?_
      · unfold SameList at hsame
        simp only [Expr.unplaced, hsame]
      · exact takes_parenthesised pos place' last hword htaken

theorem compile_parenthesised_ne (hscan : Tokens.scan source = .ok tokens)
    (hwrapped : Tokens.scan ("(" ++ source ++ "\n)") = .ok wrapped) (hlist : wrapped.list = ⟨.openParen, pos⟩ :: inner)
    (hclosed : Closed tokens.list inner) (h : Expression.compile source = .ok e)
    (hfirst : constantFirst tokens.list = true) : Expression.compile ("(" ++ source ++ "\n)") ≠ .ok e := by
  intro h'
  rcases exists_tree_of_compile hscan h with ⟨t, hread, hvalue⟩
  rcases exists_tree_of_compile hwrapped h' with ⟨t', hread', hvalue'⟩
  simp only [constantFirst, Bool.and_eq_true, Option.any_eq_true, decide_eq_true_eq] at hfirst
  rcases hfirst with ⟨⟨op, hop, hcount⟩, hlength⟩
  rcases exists_ident_of_operatorAhead? hop with ⟨word, place, rest, hword, hrest⟩
  rw [hrest] at hread hclosed hlength
  rcases hclosed.exists_cons with ⟨place', rest', rfl, hclosed'⟩
  rw [hlist] at hread'
  -- Both trees begin with the truth value, which has no operands in the first.
  rcases exists_operands_of_bare hword hread with ⟨depth, operands, mid, hoperands, hleads, hwhole⟩
  rcases exists_operands_of_parenthesised hword hread' with ⟨depth', operands', last, mid', hoperands', hleads'⟩
  rcases foremost_of_leads hleads hcount hvalue with ⟨values, hvalues, hforemost⟩
  rcases foremost_of_leads hleads' hcount hvalue' with ⟨values', hvalues', hforemost'⟩
  rw [hcount] at hoperands
  rcases eq_of_expressions_zero hoperands with ⟨rfl, rfl⟩
  cases hvalues
  cases hforemost.symm.trans hforemost'
  cases eq_nil_of_listOfSurface hvalues'
  -- Without operands in the second either, a closing parenthesis follows at once. But it ends an expression.
  have hparen := eq_of_expressionsToParen_nil hoperands'
  cases mid with
  | nil =>
      simp at hlength
  | cons token more =>
      rcases hclosed'.exists_cons with ⟨place'', more', hcons, -⟩
      rw [← hparen] at hcons
      rcases token with ⟨lexeme, pos'⟩
      cases hcons
      cases (hwhole (stops_closeParen .comparison pos' more)).2

/-- Parentheses around a text keep its expression, unless a truth value stands at its head with more after it. -/
theorem parentheses_keep_expression_iff (hscan : Tokens.scan source = .ok tokens)
    (h : Expression.compile source = .ok e) :
    Expression.compile ("(" ++ source ++ "\n)") = .ok e ↔ constantFirst tokens.list = false := by
  rcases Tokens.exists_scan_parenthesised hscan with ⟨wrapped, pos, inner, hwrapped, hlist, hclosed⟩
  cases hfirst : constantFirst tokens.list with
  | false =>
      have hkept := compile_parenthesised hscan hwrapped hlist hclosed h hfirst
      simpa using hkept
  | true =>
      have hchanged := compile_parenthesised_ne hscan hwrapped hlist hclosed h hfirst
      simpa using hchanged

end

/-- An instance in which the operator at the head takes all that follows. -/
theorem parentheses_keep_sum_of_product :
    ∃ tokens e, Tokens.scan "sum 1 :a * 3 ; two" = .ok tokens ∧ Expression.compile "sum 1 :a * 3 ; two" = .ok e ∧
      constantFirst tokens.list = false ∧ Expression.compile ("(" ++ "sum 1 :a * 3 ; two" ++ "\n)") = .ok e := by
  have hread : (Tokens.scan "sum 1 :a * 3 ; two").toOption.map (fun tokens => constantFirst tokens.list) = some false := by
    decide +kernel
  have hvalue : (Expression.compile "sum 1 :a * 3 ; two").isOk = true := by
    decide +kernel
  cases hscan : Tokens.scan "sum 1 :a * 3 ; two" with
  | error =>
      simp [hscan, Except.toOption] at hread
  | ok tokens =>
      cases hcompile : Expression.compile "sum 1 :a * 3 ; two" with
      | error =>
          simp [hcompile, Except.isOk, Except.toBool] at hvalue
      | ok e =>
          have hfirst : constantFirst tokens.list = false := by
            simpa [hscan, Except.toOption] using hread
          exact ⟨tokens, e, rfl, rfl, hfirst, (parentheses_keep_expression_iff hscan hcompile).2 hfirst⟩

/-- A truth value in parentheses takes the sign after it for its first operand. -/
theorem parentheses_change_true_plus_one :
    ∃ e, Expression.compile "true + 1" = .ok e ∧ Expression.compile ("(" ++ "true + 1" ++ "\n)") ≠ .ok e := by
  have hvalue : (Expression.compile "true + 1").isOk = true := by
    decide +kernel
  have herror : (Expression.compile ("(" ++ "true + 1" ++ "\n)")).isOk = false := by
    decide +kernel
  cases hcompile : Expression.compile "true + 1" with
  | error =>
      simp [hcompile, Except.isOk, Except.toBool] at hvalue
  | ok e =>
      refine ⟨e, rfl, fun hwrapped => ?_⟩
      rw [hwrapped] at herror
      cases herror

end Expression
end TurtleLogo
