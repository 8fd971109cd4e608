import TurtleLogo.Proofs.Descent
import TurtleLogo.Proofs.Reading

/-!
# Depth enough

Between one token and the next a production passes through at most sixteen others. So a depth of sixteen for each token ahead
is never used up, and a production with this bound does what its rule says without one. This is `Production.descend_ends`,
shown for all productions at once by induction on the depth, with one lemma for the rule of each that calls others. The
parsers, which fail when their depth is used up, have the same results with all depths from there on, which is `SettlesAt`.
-/

namespace TurtleLogo
namespace Grammar

open Surface

section

variable {α β : Type}

/-- With a depth of sixteen for each token and `weight` more, the result no longer changes. -/
def SettlesAt (weight : Nat) (production : Nat → Parser α) (depth : Nat) : Prop :=
  ∀ tokens depth', 16 * tokens.length + weight ≤ depth → depth ≤ depth' →
    production depth' tokens = production depth tokens

/-- The descent ends on these tokens, and its result is that of the parser. -/
def EndsAs (descent : Descent α) (p : Parser α) (tokens : List Token) : Prop :=
  descent tokens = some (outcome (p tokens))

theorem outcome_inj {r r' : EStateM.Result BuildError (List Token) α} (h : outcome r = outcome r') : r = r' := by
  cases r <;> cases r' <;> simp_all [outcome]

namespace EndsAs

variable {tokens rest : List Token} {descent : Descent α} {p : Parser α}

theorem of (p : Parser α) (tokens : List Token) : EndsAs (Descent.of p) p tokens := rfl

theorem bind {f : α → Descent β} {g : α → Parser β} (h : EndsAs descent p tokens)
    (hf : ∀ a rest, p tokens = .ok a rest → EndsAs (f a) (g a) rest) : EndsAs (descent >>= f) (p >>= g) tokens := by
  have hbind : (descent >>= f) tokens = (descent tokens).bind fun result => ExceptT.bindCont f result.1 result.2 := rfl
  rw [EndsAs, hbind, h]
  simp only [Bind.bind, EStateM.bind]
  cases hresult : p tokens with
  | error e left => rfl
  | ok a left => exact hf a left hresult

theorem map (h : EndsAs descent p tokens) (f : α → β) :
    EndsAs (descent >>= fun a => pure (f a)) (p >>= fun a => pure (f a)) tokens :=
  h.bind fun _ _ _ => rfl

/-- A certain token is read last. -/
theorem closing (h : EndsAs descent p tokens) (env : Env) (wanted : Lexeme) (f : α → β) :
    EndsAs (descent >>= fun a => Descent.of (expect env wanted) >>= fun _ => pure (f a))
      (p >>= fun a => expect env wanted >>= fun _ => pure (f a)) tokens :=
  h.bind fun _ rest _ => (of (expect env wanted) rest).map _

end EndsAs

/-- A production that consumes a token leaves fewer than there were. -/
theorem Reads.shorter {R : α → List Token → Prop} {p : Parser α} (h : Reads R p) (hR : ∀ a used, R a used → used ≠ [])
    {a : α} {tokens rest : List Token} (hok : p tokens = .ok a rest) : rest.length < tokens.length := by
  rcases h.exists_used hok with ⟨used, rfl, hused⟩
  have hpos := List.length_pos_iff.2 (hR a used hused)
  simp only [List.length_append]
  omega

theorem Reads.shorter_of_spells {rank : Rank} {p : Parser Expr} (h : Reads (Spells rank) p) {e : Expr}
    {tokens rest : List Token} (hok : p tokens = .ok e rest) : rest.length < tokens.length :=
  h.shorter (fun _ _ hspells => hspells.yields.ne_nil) hok

theorem length_tail_lt {tokens : List Token} {lexeme : Lexeme} (h : ahead tokens = some lexeme) :
    tokens.tail.length < tokens.length := by
  rcases exists_cons_of_ahead h with ⟨pos, rest, rfl⟩
  simp

theorem expression_shorter {env : Env} {depth : Nat} {e : Expr} {tokens rest : List Token}
    (h : expression env depth tokens = .ok e rest) : rest.length < tokens.length :=
  (expression_reads env depth).shorter_of_spells h

theorem expect_shorter {env : Env} {wanted : Lexeme} {tokens rest : List Token}
    (h : expect env wanted tokens = .ok () rest) : rest.length < tokens.length := by
  refine (Reads.expect env wanted).shorter ?_ h
  rintro _ used ⟨pos, rfl⟩
  simp

end

/-! ## Weights -/

/-- How many levels a chain needs beyond sixteen for each token. -/
def Level.weight : Level → Nat
  | comparison => 9
  | additive => 7
  | multiplicative => 5

theorem Level.weight_bounds (level : Level) : 1 < level.weight ∧ level.weight ≤ 9 := by
  cases level <;> decide

namespace Production

variable {α : Type}

/-- How many levels a production needs beyond sixteen for each token. -/
def weight : Production α → Nat
  | chain level => level.weight
  | operand level => level.weight - 1
  | signed => 3
  | power | statementsTo _ | topStatement => 2
  | expressions _ | expressionsToParen | expressionsAhead | conditionArgument | colourArgument => 10
  | callArguments _ | argument _ => 11
  | arguments _ => 12
  | definition _ => 3
  | chainFrom _ _ | primary | wordArgument | pointArgument | statement | block | procedureName | params => 1

theorem weight_bounds (p : Production α) : 0 < p.weight ∧ p.weight ≤ 16 := by
  cases p with
  | chain level | operand level => cases level <;> decide
  | _ => simp [weight]

/-- Calls to some depth end as the parsers do, if both depths are great enough for the tokens. -/
def CallsEnd (env : Env) (call : {β : Type} → Production β → Descent β) (depth : Nat) : Prop :=
  ∀ {β : Type} (q : Production β) (weight : Nat), q.weight = weight → ∀ (bound : Nat) (tokens : List Token),
    16 * tokens.length + weight ≤ min depth bound → EndsAs (call q) (q.parser env bound) tokens

/-! ## Rules for expressions -/

section

variable {env : Env} {call : {β : Type} → Production β → Descent β} {depth bound : Nat} {tokens : List Token}

theorem chain_rule (h : CallsEnd env call depth) (level : Level)
    (hweight : 16 * tokens.length + level.weight ≤ min (depth + 1) (bound + 1)) :
    EndsAs (rule env call (chain level)) (Grammar.chain env (bound + 1) level) tokens := by
  have hbounds := level.weight_bounds
  refine (h (operand level) (level.weight - 1) rfl bound tokens (by omega)).bind fun first rest hok => ?_
  have hshorter := ((ExpressionsRead.all env bound).operand level).shorter_of_spells hok
  exact h (chainFrom level first) 1 rfl bound rest (by omega)

theorem chainFrom_rule (h : CallsEnd env call depth) (level : Level) (left : Expr)
    (hweight : 16 * tokens.length + 1 ≤ min (depth + 1) (bound + 1)) :
    EndsAs (rule env call (chainFrom level left)) (Grammar.chainFrom env (bound + 1) level left) tokens := by
  simp only [EndsAs, rule, Descent.get_bind_apply, Grammar.chainFrom]
  cases hop : (ahead tokens).bind level.operator? with
  | none =>
      rfl
  | some op =>
      rcases Option.bind_eq_some_iff.1 hop with ⟨lexeme, hahead, -⟩
      have htail := length_tail_lt hahead
      have hbounds := level.weight_bounds
      refine (h (operand level) (level.weight - 1) rfl bound tokens.tail (by omega)).bind fun right rest hok => ?_
      have hshorter := ((ExpressionsRead.all env bound).operand level).shorter_of_spells hok
      exact h (chainFrom level _) 1 rfl bound rest (by omega)

theorem operand_rule (h : CallsEnd env call depth) (level : Level)
    (hweight : 16 * tokens.length + (level.weight - 1) ≤ min (depth + 1) (bound + 1)) :
    EndsAs (rule env call (operand level)) (Grammar.operand env (bound + 1) level) tokens := by
  cases level with
  | comparison => exact h (chain .additive) 7 rfl bound tokens (by simp only [Level.weight] at hweight; omega)
  | additive => exact h (chain .multiplicative) 5 rfl bound tokens (by simp only [Level.weight] at hweight; omega)
  | multiplicative => exact h signed 3 rfl bound tokens (by simp only [Level.weight] at hweight; omega)

theorem signed_rule (h : CallsEnd env call depth) (hweight : 16 * tokens.length + 3 ≤ min (depth + 1) (bound + 1)) :
    EndsAs (rule env call signed) (Grammar.signed env (bound + 1)) tokens := by
  simp only [EndsAs, rule, Descent.get_bind_apply, Grammar.signed]
  split
  · rename_i hsign
    have htail : tokens.tail.length < tokens.length := by
      rcases hsign with hahead | hahead <;> exact length_tail_lt hahead
    exact (h signed 3 rfl bound tokens.tail (by omega)).map _
  · exact h power 2 rfl bound tokens (by omega)

theorem power_rule (h : CallsEnd env call depth) (hweight : 16 * tokens.length + 2 ≤ min (depth + 1) (bound + 1)) :
    EndsAs (rule env call power) (Grammar.power env (bound + 1)) tokens := by
  refine (h primary 1 rfl bound tokens (by omega)).bind fun base rest hok => ?_
  have hshorter := (ExpressionsRead.all env bound).primary.shorter_of_spells hok
  simp only [EndsAs, Descent.get_bind_apply]
  split
  · rename_i hahead
    have htail := length_tail_lt hahead
    rw [Descent.set_bind_apply]
    exact (h signed 3 rfl bound rest.tail (by omega)).map _
  · rfl

theorem primary_rule (h : CallsEnd env call depth) (hweight : 16 * tokens.length + 1 ≤ min (depth + 1) (bound + 1)) :
    EndsAs (rule env call primary) (Grammar.primary env (bound + 1)) tokens := by
  simp only [EndsAs, rule, Descent.get_bind_apply, Grammar.primary]
  rcases tokens with _ | ⟨⟨lexeme, pos⟩, rest⟩
  · rfl
  simp only [List.length_cons] at hweight
  cases lexeme with
  | openParen =>
      have htail : rest.tail.length ≤ rest.length := by
        simp
      dsimp only
      cases operatorAhead? rest with
      | some op => exact (h expressionsToParen 10 rfl bound rest.tail (by omega)).closing env .closeParen _
      | none => exact (h expression 9 rfl bound rest (by omega)).closing env .closeParen _
  | ident word =>
      dsimp only
      cases Operator.ofWord? word with
      | some op => exact (h (expressions op.bareCount) 10 rfl bound rest (by omega)).map _
      | none =>
          dsimp only
          split <;> rfl
  | thingKeyword =>
      rcases rest with _ | ⟨⟨next, place⟩, rest⟩
      · rfl
      cases next <;> rfl
  | _ => rfl

theorem expressions_rule (h : CallsEnd env call depth) (count : Nat)
    (hweight : 16 * tokens.length + 10 ≤ min (depth + 1) (bound + 1)) :
    EndsAs (rule env call (expressions count)) (Grammar.expressions env (bound + 1) count) tokens := by
  cases count with
  | zero =>
      rfl
  | succ count =>
      refine (h expression 9 rfl bound tokens (by omega)).bind fun first rest hok => ?_
      have hshorter := expression_shorter hok
      exact (h (expressions count) 10 rfl bound rest (by omega)).map _

theorem expressionsToParen_rule (h : CallsEnd env call depth)
    (hweight : 16 * tokens.length + 10 ≤ min (depth + 1) (bound + 1)) :
    EndsAs (rule env call expressionsToParen) (Grammar.expressionsToParen env (bound + 1)) tokens := by
  simp only [EndsAs, rule, Descent.get_bind_apply, Grammar.expressionsToParen]
  split
  · rfl
  · refine (h expression 9 rfl bound tokens (by omega)).bind fun first rest hok => ?_
    have hshorter := expression_shorter hok
    exact (h expressionsToParen 10 rfl bound rest (by omega)).map _

theorem expressionsAhead_rule (h : CallsEnd env call depth)
    (hweight : 16 * tokens.length + 10 ≤ min (depth + 1) (bound + 1)) :
    EndsAs (rule env call expressionsAhead) (Grammar.expressionsAhead env (bound + 1)) tokens := by
  simp only [EndsAs, rule, Descent.get_bind_apply, Grammar.expressionsAhead]
  split
  · refine (h expression 9 rfl bound tokens (by omega)).bind fun first rest hok => ?_
    have hshorter := expression_shorter hok
    exact (h expressionsAhead 10 rfl bound rest (by omega)).map _
  · rfl

/-! ## Rules for arguments -/

theorem callArguments_rule (h : CallsEnd env call depth) (name : String)
    (hweight : 16 * tokens.length + 11 ≤ min (depth + 1) (bound + 1)) :
    EndsAs (rule env call (callArguments name)) (Grammar.callArguments env (bound + 1) name) tokens := by
  simp only [rule, Grammar.callArguments]
  cases env.paramCount? name with
  | some count => exact h (expressions count) 10 rfl (bound + 1) tokens (by omega)
  | none => exact h expressionsAhead 10 rfl (bound + 1) tokens (by omega)

theorem pointArgument_rule (h : CallsEnd env call depth)
    (hweight : 16 * tokens.length + 1 ≤ min (depth + 1) (bound + 1)) :
    EndsAs (rule env call pointArgument) (Grammar.pointArgument env (bound + 1)) tokens := by
  refine (EndsAs.of _ tokens).bind fun _ afterOpening hopening => ?_
  have hopening := expect_shorter hopening
  refine (h expression 9 rfl (bound + 1) _ (by omega)).bind fun x rest hx => ?_
  have hx := expression_shorter hx
  exact (h expression 9 rfl (bound + 1) rest (by omega)).closing env .closeBracket _

theorem conditionArgument_rule (h : CallsEnd env call depth)
    (hweight : 16 * tokens.length + 10 ≤ min (depth + 1) (bound + 1)) :
    EndsAs (rule env call conditionArgument) (Grammar.conditionArgument env (bound + 1)) tokens := by
  simp only [EndsAs, rule, Descent.get_bind_apply, Grammar.conditionArgument]
  split
  · rename_i hahead
    have htail := length_tail_lt hahead
    exact (h expression 9 rfl (bound + 1) tokens.tail (by omega)).closing env .closeBracket _
  · exact (h expression 9 rfl (bound + 1) tokens (by omega)).map _

theorem colourArgument_rule (h : CallsEnd env call depth)
    (hweight : 16 * tokens.length + 10 ≤ min (depth + 1) (bound + 1)) :
    EndsAs (rule env call colourArgument) (Grammar.colourArgument env (bound + 1)) tokens := by
  have hindex := (h expression 9 rfl (bound + 1) tokens (by omega)).map fun index => Argument.colour (.index index)
  simp only [EndsAs, rule, Descent.get_bind_apply, Grammar.colourArgument]
  rcases tokens with _ | ⟨⟨lexeme, pos⟩, rest⟩
  · exact hindex
  cases lexeme with
  | word text =>
      rfl
  | openBracket =>
      simp only [List.length_cons] at hweight
      refine (h expression 9 rfl (bound + 1) rest (by omega)).bind fun red afterRed hred => ?_
      have hred := expression_shorter hred
      refine (h expression 9 rfl (bound + 1) _ (by omega)).bind fun green afterGreen hgreen => ?_
      have hgreen := expression_shorter hgreen
      exact (h expression 9 rfl (bound + 1) _ (by omega)).closing env .closeBracket _
  | _ => exact hindex

theorem argument_rule (h : CallsEnd env call depth) (form : ArgumentForm)
    (hweight : 16 * tokens.length + 11 ≤ min (depth + 1) (bound + 1)) :
    EndsAs (rule env call (argument form)) (Grammar.argument env (bound + 1) form) tokens := by
  cases form with
  | value => exact (h expression 9 rfl bound tokens (by omega)).map _
  | condition => exact h conditionArgument 10 rfl bound tokens (by omega)
  | block => exact h block 1 rfl bound tokens (by omega)
  | point => exact h pointArgument 1 rfl bound tokens (by omega)
  | colour => exact h colourArgument 10 rfl bound tokens (by omega)
  | word => exact h wordArgument 1 rfl bound tokens (by omega)

theorem arguments_rule (h : CallsEnd env call depth) (forms : List ArgumentForm)
    (hweight : 16 * tokens.length + 12 ≤ min (depth + 1) (bound + 1)) :
    EndsAs (rule env call (arguments forms)) (Grammar.arguments env (bound + 1) forms) tokens := by
  cases forms with
  | nil =>
      rfl
  | cons form forms =>
      refine (h (argument form) 11 rfl bound tokens (by omega)).bind fun first rest hok => ?_
      have hshorter := ((StatementsRead.all env bound).argument form).shorter (fun _ _ hread => hread.yields.ne_nil) hok
      exact (h (arguments forms) 12 rfl bound rest (by omega)).map _

/-! ## Rules for statements -/

theorem statement_rule (h : CallsEnd env call depth) (hweight : 16 * tokens.length + 1 ≤ min (depth + 1) (bound + 1)) :
    EndsAs (rule env call statement) (Grammar.statement env (bound + 1)) tokens := by
  simp only [EndsAs, rule, Descent.get_bind_apply, Grammar.statement]
  rcases tokens with _ | ⟨⟨lexeme, pos⟩, rest⟩
  · rfl
  cases lexeme with
  | ident word =>
      simp only [List.length_cons] at hweight
      dsimp only [Descent.set_bind_apply]
      cases Builtin.ofWord? word with
      | some builtin => exact (h (arguments builtin.signature) 12 rfl bound rest (by omega)).map _
      | none =>
          dsimp only
          cases Operator.ofWord? word with
          | some op => rfl
          | none => exact (h (callArguments word) 11 rfl bound rest (by omega)).map _
  | _ => rfl

theorem statementsTo_rule (h : CallsEnd env call depth) (closing : Lexeme)
    (hweight : 16 * tokens.length + 2 ≤ min (depth + 1) (bound + 1)) :
    EndsAs (rule env call (statementsTo closing)) (Grammar.statementsTo env closing (bound + 1)) tokens := by
  simp only [EndsAs, rule, Descent.get_bind_apply, Grammar.statementsTo]
  split
  · rfl
  · refine (h statement 1 rfl bound tokens (by omega)).bind fun first rest hok => ?_
    have hshorter := (StatementsRead.all env bound).statement.shorter (fun _ _ hread => hread.1.ne_nil) hok
    exact (h (statementsTo closing) 2 rfl bound rest (by omega)).map _

theorem block_rule (h : CallsEnd env call depth) (hweight : 16 * tokens.length + 1 ≤ min (depth + 1) (bound + 1)) :
    EndsAs (rule env call block) (Grammar.block env (bound + 1)) tokens := by
  refine (EndsAs.of _ tokens).bind fun _ rest hopening => ?_
  have hopening := expect_shorter hopening
  exact (h (statementsTo .closeBracket) 2 rfl bound rest (by omega)).closing env .closeBracket _

theorem definition_rule (h : CallsEnd env call depth) (pos : Position)
    (hweight : 16 * tokens.length + 3 ≤ min (depth + 1) (bound + 1)) :
    EndsAs (rule env call (definition pos)) (Grammar.definition env (bound + 1) pos) tokens := by
  refine (h procedureName 1 rfl (bound + 1) tokens (by omega)).bind fun name afterName hname => ?_
  rcases (procedureName_reads env).exists_used hname with ⟨used, rfl, -⟩
  simp only [List.length_append] at hweight
  refine (h params 1 rfl (bound + 1) afterName (by omega)).bind fun names afterParams hparams => ?_
  rcases params_reads.exists_used hparams with ⟨vars, rfl, -⟩
  simp only [List.length_append] at hweight
  exact (h (statementsTo .endKeyword) 2 rfl (bound + 1) _ (by omega)).closing env .endKeyword _

theorem topStatement_rule (h : CallsEnd env call depth) (hweight : 16 * tokens.length + 2 ≤ min (depth + 1) (bound + 1)) :
    EndsAs (rule env call topStatement) (Grammar.topStatement env (bound + 1)) tokens := by
  have hstatement := h statement 1 rfl (bound + 1) tokens (by omega)
  simp only [EndsAs, rule, Descent.get_bind_apply, Grammar.topStatement]
  rcases tokens with _ | ⟨⟨lexeme, pos⟩, rest⟩
  · exact hstatement
  cases lexeme with
  | toKeyword =>
      simp only [List.length_cons] at hweight
      exact h (definition pos) 3 rfl (bound + 1) rest (by omega)
  | _ => exact hstatement

/-! ## All productions -/

/-- Calls that end at some depth let every rule end that makes them. -/
theorem rule_ends (h : CallsEnd env call depth) : CallsEnd env (rule env call) (depth + 1) := by
  intro β q weight hweight bound tokens hle
  subst hweight
  -- Every weight is positive, so the parser has a level left to use.
  have hbounds := q.weight_bounds
  obtain ⟨bound, rfl⟩ : ∃ n, bound = n + 1 := Nat.exists_eq_succ_of_ne_zero (by omega)
  cases q with
  | chain level => exact chain_rule h level hle
  | chainFrom level left => exact chainFrom_rule h level left hle
  | operand level => exact operand_rule h level hle
  | signed => exact signed_rule h hle
  | power => exact power_rule h hle
  | primary => exact primary_rule h hle
  | expressions count => exact expressions_rule h count hle
  | expressionsToParen => exact expressionsToParen_rule h hle
  | expressionsAhead => exact expressionsAhead_rule h hle
  | callArguments name => exact callArguments_rule h name hle
  | pointArgument => exact pointArgument_rule h hle
  | conditionArgument => exact conditionArgument_rule h hle
  | colourArgument => exact colourArgument_rule h hle
  | statement => exact statement_rule h hle
  | statementsTo closing => exact statementsTo_rule h closing hle
  | block => exact block_rule h hle
  | argument form => exact argument_rule h form hle
  | arguments forms => exact arguments_rule h forms hle
  | definition pos => exact definition_rule h pos hle
  | topStatement => exact topStatement_rule h hle
  | wordArgument | procedureName | params => rfl

end

theorem descend_ends (env : Env) (depth : Nat) : CallsEnd env (descend env depth) depth := by
  induction depth with
  | zero =>
      intro β q weight hweight bound tokens hle
      have hbounds := q.weight_bounds
      omega
  | succ depth ih =>
      exact rule_ends ih

/-- A depth of sixteen for each token and for the end is enough. -/
theorem ends_of_depthFor_le (env : Env) (p : Production α) {depth bound : Nat} {tokens : List Token}
    (hdepth : depthFor tokens ≤ depth) (hbound : depthFor tokens ≤ bound) :
    EndsAs (p.descend env depth) (p.parser env bound) tokens := by
  have hbounds := p.weight_bounds
  unfold depthFor at hdepth hbound
  exact descend_ends env depth p p.weight rfl bound tokens (by omega)

theorem parser_settles (env : Env) (p : Production α) (depth : Nat) : SettlesAt p.weight (p.parser env) depth := by
  intro tokens depth' hweight hle
  have hends := descend_ends env depth' p p.weight rfl
  have hdeeper := hends depth' tokens (by omega)
  exact outcome_inj (Option.some.inj (hdeeper.symm.trans (hends depth tokens (by omega))))

end Production

theorem expression_settles (env : Env) (depth : Nat) : SettlesAt 9 (expression env) depth :=
  Production.expression.parser_settles env depth

theorem topStatement_settles (env : Env) (depth : Nat) : SettlesAt 2 (topStatement env) depth :=
  Production.topStatement.parser_settles env depth

end Grammar
end TurtleLogo
