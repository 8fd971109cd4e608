import TurtleLogo.Proofs.Depth
import TurtleLogo.Proofs.ErrorOrder

/-!
# Parsing gets ahead

Reading a text always ends. The productions call one another only to a certain depth, whether the tokens are well formed or not,
and each leaves some of the tokens that it was given, from one of them on to the last:

* `Production.left_suffix` — a production never goes back or beyond the end of the text;
* `Production.shorter` — a production that has read something has consumed a token, but for those that may read nothing;
* `round_ends`, `nextRound_suffix` — every round of reading a text ends with fewer tokens than it began with, whether it read a
  statement or recovered from an error;
* `statements_ends`, `length_statements_le` — so there are no more rounds than tokens.
-/

namespace TurtleLogo
namespace Grammar

open Surface

/-! ## Productions -/

namespace Production

variable {α : Type}

/-- Whether the production reads at least one token. The others go on with what has been read, or read lists. -/
def consumes : Production α → Bool
  | chainFrom _ _ | expressions _ | expressionsToParen | expressionsAhead | callArguments _ | statementsTo _ | arguments _
  | params => false
  | _ => true

theorem blames (env : Env) (p : Production α) (depth : Nat) : Blames env (p.parser env depth) := by
  have hexpressions := ExpressionsBlame.all env depth
  have hstatements := StatementsBlame.all env depth
  cases p with
  | chain level => exact hexpressions.chain level
  | chainFrom level left => exact hexpressions.chainFrom level left
  | operand level => exact hexpressions.operand level
  | signed => exact hexpressions.signed
  | power => exact hexpressions.power
  | primary => exact hexpressions.primary
  | expressions count => exact hexpressions.expressions count
  | expressionsToParen => exact hexpressions.expressionsToParen
  | expressionsAhead => exact expressionsAhead_blames env depth
  | callArguments name => exact callArguments_blames env depth name
  | wordArgument => exact wordArgument_blames env
  | pointArgument => exact pointArgument_blames env depth
  | conditionArgument => exact conditionArgument_blames env depth
  | colourArgument => exact colourArgument_blames env depth
  | statement => exact hstatements.statement
  | statementsTo closing => exact hstatements.statementsTo closing
  | block => exact hstatements.block
  | argument form => exact hstatements.argument form
  | arguments forms => exact hstatements.arguments forms
  | procedureName => exact procedureName_blames env
  | params => exact params_blames env
  | definition pos => exact definition_blames env depth pos
  | topStatement => exact topStatement_blames env depth

/-- A production leaves the tokens from one of them on, whether it succeeds or not. -/
theorem left_suffix (env : Env) (p : Production α) (depth : Nat) (tokens : List Token) :
    (outcome (p.parser env depth tokens)).2 <:+ tokens := by
  have hblames := p.blames env depth tokens
  cases hresult : p.parser env depth tokens with
  | ok a left =>
      rw [hresult] at hblames
      exact hblames
  | error e left =>
      rw [hresult] at hblames
      rcases hblames with ⟨-, blamed, hblamed, hleft, -⟩
      exact hleft.trans hblamed

theorem shorter (env : Env) {p : Production α} (hp : p.consumes = true) {depth : Nat} {tokens left : List Token} {a : α}
    (h : p.parser env depth tokens = .ok a left) : left.length < tokens.length := by
  have hexpressions := ExpressionsRead.all env depth
  have hstatements := StatementsRead.all env depth
  have hargument {q : Parser Argument} {form : ArgumentForm} (hreads : Reads (ArgumentSpells env.headers form) q)
      {b : Argument} (hok : q tokens = .ok b left) : left.length < tokens.length :=
    hreads.shorter (fun _ _ hread => hread.yields.ne_nil) hok
  cases p with
  | chain level => exact (hexpressions.chain level).shorter_of_spells h
  | operand level => exact (hexpressions.operand level).shorter_of_spells h
  | signed => exact hexpressions.signed.shorter_of_spells h
  | power => exact hexpressions.power.shorter_of_spells h
  | primary => exact hexpressions.primary.shorter_of_spells h
  | wordArgument => exact hargument (wordArgument_reads env) h
  | pointArgument => exact hargument (pointArgument_reads env depth) h
  | conditionArgument => exact hargument (conditionArgument_reads env depth) h
  | colourArgument => exact hargument (colourArgument_reads env depth) h
  | statement => exact hstatements.statement.shorter (fun _ _ hread => hread.1.ne_nil) h
  | block => exact hargument hstatements.block h
  | argument form => exact hargument (hstatements.argument form) h
  | procedureName =>
      refine (procedureName_reads env).shorter ?_ h
      rintro _ used ⟨-, place, rfl⟩
      simp
  | definition pos =>
      refine (definition_reads env depth pos).shorter ?_ h
      rintro _ used ⟨hyields, -⟩ rfl
      cases hyields
  | topStatement => exact (topStatement_reads env depth).shorter (fun _ _ hread => hread.1.ne_nil) h
  | chainFrom _ _ | expressions _ | expressionsToParen | expressionsAhead | callArguments _ | statementsTo _ | arguments _
  | params => cases hp

end Production

/-! ## Rounds -/

theorem round_ends (env : Env) (first : Token) (rest : List Token) {depth : Nat} (hdepth : depthFor (first :: rest) ≤ depth) :
    Descent.round env depth (first :: rest) =
      some ((firstOutcome env (first :: rest)).1, nextRound env first rest) := by
  have hends : Production.topStatement.descend env depth (first :: rest) =
      some (outcome (topStatement env (depthFor (first :: rest)) (first :: rest))) :=
    Production.topStatement.ends_of_depthFor_le env hdepth (Nat.le_refl _)
  -- None of the tokens has been read just if more are left than follow the first one.
  have hstays (left : List Token) (hleft : left.length ≤ (first :: rest).length) :
      (if left.length = (first :: rest).length then rest else left) = if left.length ≤ rest.length then left else rest := by
    rw [List.length_cons] at *
    rcases hleft.lt_or_eq with hless | hall
    · rw [if_neg hless.ne, if_pos (Nat.le_of_lt_succ hless)]
    · rw [if_pos hall, if_neg (by omega)]
  have hleft := (firstOutcome_blames env (first :: rest)).1.length_le
  rw [Descent.round, hends, nextRound, firstOutcome]
  rw [firstOutcome] at hleft
  cases hresult : topStatement env (depthFor (first :: rest)) (first :: rest) with
  | ok statement left =>
      rw [hresult] at hleft
      rw [← hstays _ hleft]
      rfl
  | error error left =>
      rw [hresult] at hleft
      rw [← hstays _ hleft]
      rfl

theorem statements_ends (env : Env) {depth rounds : Nat} {tokens : List Token} (hdepth : depthFor tokens ≤ depth)
    (hrounds : tokens.length ≤ rounds) : Descent.statements env depth rounds tokens = some (statements env tokens) := by
  induction rounds generalizing tokens with
  | zero =>
      cases List.length_eq_zero_iff.1 (Nat.le_zero.1 hrounds)
      simp [Descent.statements, statements]
  | succ rounds ih =>
      cases tokens with
      | nil =>
          simp [Descent.statements, statements]
      | cons first rest =>
          -- A round leaves fewer tokens, for which the same depth is enough.
          have hfewer := (nextRound_suffix env first rest).1.length_le
          have hless : depthFor (nextRound env first rest) ≤ depth := by
            simp only [depthFor, List.length_cons] at hdepth ⊢
            omega
          have hlater := ih hless (hfewer.trans (Nat.le_of_succ_le_succ hrounds))
          simp [Descent.statements, round_ends env first rest hdepth, statements_nextRound, hlater]

theorem length_statements_le (env : Env) (tokens : List Token) : (statements env tokens).length ≤ tokens.length := by
  induction hlength : tokens.length using Nat.strong_induction_on generalizing tokens with
  | _ n ih =>
      subst hlength
      cases tokens with
      | nil =>
          simp [statements]
      | cons first rest =>
          have hfewer := (nextRound_suffix env first rest).1.length_le
          have hlater := ih _ (Nat.lt_succ_of_le hfewer) _ rfl
          rw [statements_nextRound, List.length_cons, List.length_cons]
          exact Nat.succ_le_succ (hlater.trans hfewer)

theorem parse_ends {tokens : Tokens} {depth : Nat} (hdepth : depthFor tokens.list ≤ depth) :
    Descent.parse depth tokens = some (parse tokens) := by
  have hrounds : tokens.list.length ≤ depth := by
    unfold depthFor at hdepth
    omega
  simp only [Descent.parse, statements_ends _ hdepth hrounds, parse, Option.bind_eq_bind, Option.bind_some]
  cases (statements (Env.ofTokens tokens) tokens.list).filterMap error? <;> rfl

theorem parseExpression_ends {tokens : Tokens} {depth : Nat} (hdepth : depthFor tokens.list ≤ depth) :
    Descent.parseExpression depth tokens = some (parseExpression tokens) := by
  have hends : Production.expression.descend (Env.ofTokens tokens) depth tokens.list =
      some (outcome (expression (Env.ofTokens tokens) (depthFor tokens.list) tokens.list)) :=
    Production.expression.ends_of_depthFor_le (Env.ofTokens tokens) hdepth (Nat.le_refl _)
  simp only [Descent.parseExpression, hends, parseExpression]
  cases expression (Env.ofTokens tokens) (depthFor tokens.list) tokens.list with
  | error error rest => rfl
  | ok e rest => cases rest <;> rfl

theorem length_errors_le {tokens : Tokens} {errors : List BuildError} (h : parse tokens = .error errors) :
    errors.length ≤ tokens.list.length := by
  simp only [parse] at h
  split at h
  · cases h
  · cases h
    exact (List.length_filterMap_le _ _).trans (length_statements_le _ _)

/-- Parsing always ends and gets ahead. The productions call one another to a depth that the number of tokens bounds, beyond which
`Descent` has no result, and with every greater depth the results are the same. A production moves on to one of the tokens ahead
or to their end and never back, and those that cannot do without a token have read at least one if they succeed. Each round of
reading a text leaves fewer tokens than there were, after a statement as well as after the recovery from an error, so that there
are no more errors than tokens. -/
theorem parsing_gets_ahead (tokens : Tokens) :
    (∀ depth, depthFor tokens.list ≤ depth →
        Descent.parse depth tokens = some (parse tokens) ∧
          Descent.parseExpression depth tokens = some (parseExpression tokens)) ∧
      (∀ (env : Env) {α : Type} (p : Production α) (list : List Token), ∃ result left,
        (∀ depth, depthFor list ≤ depth →
          p.descend env depth list = some (result, left) ∧ outcome (p.parser env depth list) = (result, left)) ∧
            left <:+ list ∧ (p.consumes = true → ∀ a, result = .ok a → left.length < list.length)) ∧
      (∀ (env : Env) (first : Token) (rest : List Token), ∃ result left,
        (∀ depth, depthFor (first :: rest) ≤ depth → Descent.round env depth (first :: rest) = some (result, left)) ∧
          statements env (first :: rest) = result :: statements env left ∧ left <:+ rest) ∧
      ∀ errors, parse tokens = .error errors → errors.length ≤ tokens.list.length := by
  refine ⟨fun depth hdepth => ⟨parse_ends hdepth, parseExpression_ends hdepth⟩, fun env α p list => ?_,
    fun env first rest => ?_, fun errors => length_errors_le⟩
  · refine ⟨_, _, fun depth hdepth => ⟨p.ends_of_depthFor_le env hdepth (Nat.le_refl _), ?_⟩, p.left_suffix env _ list,
      fun hp a hok => ?_⟩
    · exact Option.some.inj ((p.ends_of_depthFor_le env hdepth hdepth).symm.trans
        (p.ends_of_depthFor_le env hdepth (Nat.le_refl _)))
    · cases hresult : p.parser env (depthFor list) list with
      | ok b left => exact p.shorter env hp hresult
      | error e left =>
          rw [hresult] at hok
          cases hok
  · exact ⟨_, _, fun depth hdepth => round_ends env first rest hdepth, statements_nextRound env first rest,
      (nextRound_suffix env first rest).1⟩

/-- Commands without their operands are all reported, and there cannot be more errors than these. -/
theorem bare_commands_are_all_reported :
    let tokens : Tokens := ⟨[⟨.ident "fd", ⟨1, 1⟩⟩, ⟨.ident "fd", ⟨1, 4⟩⟩, ⟨.ident "fd", ⟨1, 7⟩⟩], ⟨1, 9⟩⟩
    ∃ errors, parse tokens = .error errors ∧ errors.length = 3 ∧ errors.length ≤ tokens.list.length := by
  intro tokens
  have hcount : (match parse tokens with
      | .ok _ => 0
      | .error errors => errors.length) = 3 := by
    decide +kernel
  cases hparse : parse tokens with
  | ok statements =>
      rw [hparse] at hcount
      cases hcount
  | error errors =>
      rw [hparse] at hcount
      exact ⟨errors, rfl, hcount, (parsing_gets_ahead tokens).2.2.2 errors hparse⟩

end Grammar
end TurtleLogo
