import TurtleLogo.Language.Segment
import TurtleLogo.Proofs.Yield

/-!
# What the productions read

A production that succeeds has consumed the tokens from the one ahead up to the ones it leaves, and these spell what it
returns. `Reads R production` says that the consumed tokens are in the relation `R` to the result. Sequences of
productions add up by `Reads.bind`, and the mutual recursion is met by induction on the depth.

* `ExpressionsRead.all`: an expression is spelled by its tokens, well formed, and of the rank that its place demands;
* `StatementsRead.all`: a statement has the arguments that its word demands, at any depth;
* `treeRead_of_statements`: the statements of a text that is read without an error use up all its tokens;
* `headers_of_yields`: the headers found beforehand among the tokens of such a text are those of the definitions in it.
-/

namespace TurtleLogo
namespace Grammar

open Surface

/-- A result that was read from the tokens: the consumed ones are in a relation to it. -/
def Reading {α : Type} (R : α → List Token → Prop) (tokens : List Token) :
    EStateM.Result BuildError (List Token) α → Prop
  | .ok a rest => ∃ used, tokens = used ++ rest ∧ R a used
  | .error _ _ => True

def Reads {α : Type} (R : α → List Token → Prop) (production : Parser α) : Prop :=
  ∀ tokens, Reading R tokens (production tokens)

theorem exists_cons_of_ahead {tokens : List Token} {lexeme : Lexeme} (h : ahead tokens = some lexeme) :
    ∃ pos rest, tokens = ⟨lexeme, pos⟩ :: rest := by
  cases tokens with
  | nil =>
      cases h
  | cons token rest =>
      rcases token with ⟨found, pos⟩
      have hfound : found = lexeme := Option.some.inj h
      exact ⟨pos, rest, by rw [hfound]⟩

namespace Reading

variable {α : Type} {R : α → List Token → Prop} {tokens : List Token}
  {result : EStateM.Result BuildError (List Token) α}

theorem ok {a : α} (h : R a []) : Reading R tokens (.ok a tokens) :=
  ⟨[], rfl, h⟩

/-- A token that is read before the rest. -/
theorem cons {token : Token} (h : Reading (fun a used => R a (token :: used)) tokens result) :
    Reading R (token :: tokens) result := by
  cases result with
  | error =>
      exact trivial
  | ok a rest =>
      rcases h with ⟨used, rfl, hR⟩
      exact ⟨token :: used, rfl, hR⟩

end Reading

namespace Reads

variable {α β : Type} {R : α → List Token → Prop} {Q : β → List Token → Prop}

theorem exists_used {p : Parser α} (h : Reads R p) {a : α} {tokens rest : List Token} (hok : p tokens = .ok a rest) :
    ∃ used, tokens = used ++ rest ∧ R a used := by
  have hread := h tokens
  rwa [hok] at hread

theorem bind {p : Parser α} {f : α → Parser β} (hp : Reads R p)
    (hf : ∀ a used, R a used → Reads (fun b more => Q b (used ++ more)) (f a)) : Reads Q (p >>= f) := by
  intro tokens
  have hfirst := hp tokens
  cases hresult : p tokens with
  | error e rest =>
      simp [Bind.bind, EStateM.bind, hresult, Reading]
  | ok a rest =>
      rw [hresult] at hfirst
      rcases hfirst with ⟨used, rfl, hR⟩
      -- The second production starts where the first one has left off.
      have hsecond := hf a used hR rest
      simp only [Bind.bind, EStateM.bind, hresult]
      cases hresult' : f a rest with
      | error e rest' =>
          exact trivial
      | ok b rest' =>
          rw [hresult'] at hsecond
          rcases hsecond with ⟨more, rfl, hQ⟩
          exact ⟨used ++ more, (List.append_assoc used more rest').symm, hQ⟩

theorem pure {a : α} (h : R a []) : Reads R (Pure.pure a : Parser α) :=
  fun _ => .ok h

theorem map {p : Parser α} {f : α → β} (hp : Reads R p) (hf : ∀ a used, R a used → Q (f a) used) :
    Reads Q (p >>= fun a => Pure.pure (f a)) := by
  refine hp.bind fun a used hR => .pure ?_
  simpa using hf a used hR

theorem fail (env : Env) (cause : Option Lexeme → BuildError.Cause) : Reads R (Grammar.fail env cause) :=
  fun _ => trivial

theorem expect (env : Env) (wanted : Lexeme) :
    Reads (fun _ used => ∃ pos, used = [⟨wanted, pos⟩]) (Grammar.expect env wanted) := by
  intro tokens
  unfold Grammar.expect
  split
  · rename_i hahead
    rcases exists_cons_of_ahead hahead with ⟨pos, rest, rfl⟩
    exact .cons (.ok ⟨pos, rfl⟩)
  · exact trivial

/-- A certain token is read last. -/
theorem closing {env : Env} {wanted : Lexeme} {a : α} (h : ∀ pos, R a [⟨wanted, pos⟩]) :
    Reads R (Grammar.expect env wanted >>= fun _ => Pure.pure a) := by
  refine .map (.expect env wanted) fun _ used hused => ?_
  rcases hused with ⟨pos, rfl⟩
  exact h pos

end Reads

/-! ## Expressions -/

namespace Level

def rank : Level → Rank
  | comparison => .comparison
  | additive => .additive
  | multiplicative => .multiplicative

/-- The rank of the operands of a chain. -/
def operandRank : Level → Rank
  | comparison => .additive
  | additive => .multiplicative
  | multiplicative => .signed

theorem rank_le_operandRank (level : Level) : level.rank ≤ level.operandRank := by
  cases level <;> decide

/-- A sign of a rank joins a chain to an operand. -/
theorem operator?_eq_some {level : Level} {lexeme : Lexeme} {op : BinaryOp} (h : level.operator? lexeme = some op) :
    lexeme = op.sign ∧ op.rank = level.rank ∧ op.leftRank = level.rank ∧ op.rightRank = level.operandRank := by
  cases level <;> cases lexeme <;> cases h <;> decide

end Level

theorem exists_ident_of_operatorAhead? {tokens : List Token} {op : Operator} (h : operatorAhead? tokens = some op) :
    ∃ word place rest, Operator.ofWord? word = some op ∧ tokens = ⟨.ident word, place⟩ :: rest := by
  unfold operatorAhead? at h
  split at h
  · rename_i word hahead
    rcases exists_cons_of_ahead hahead with ⟨place, rest, rfl⟩
    exact ⟨word, place, rest, h, rfl⟩
  · cases h

theorem toLower_toLower (s : String) : s.toLower.toLower = s.toLower := by
  have hchar (c : Char) : c.toLower.toLower = c.toLower := by
    unfold Char.toLower
    split
    · rename_i hupper
      have hle : c.val.toNat ≤ 90 := hupper.2
      have hge : 65 ≤ c.val.toNat := hupper.1
      refine dif_neg fun hagain => ?_
      -- A letter that has become a small one is no capital any more.
      have hsmall := UInt32.le_iff_toNat_le.1 hagain.2
      simp only [UInt32.toNat_add, UInt32.reduceSub, UInt32.reduceToNat, Char.reduceVal] at hsmall
      omega
    · rfl
  have hchars : Char.toLower ∘ Char.toLower = Char.toLower := funext hchar
  change (s.map Char.toLower).map Char.toLower = s.map Char.toLower
  rw [String.map_map, hchars]

/-- A well-formed expression of at least the given rank, and the tokens that spell it. -/
structure Spells (rank : Rank) (e : Expr) (used : List Token) : Prop where
  yields : e.Yields used
  wellFormed : e.WellFormed
  rank_le : rank ≤ e.rank

theorem Spells.mono {rank rank' : Rank} {e : Expr} {used : List Token} (hle : rank ≤ rank') (h : Spells rank' e used) :
    Spells rank e used :=
  ⟨h.yields, h.wellFormed, Rank.le_trans hle h.rank_le⟩

/-- Well-formed expressions and the tokens that spell them one after the other. -/
structure ListSpells (list : List Expr) (used : List Token) : Prop where
  yields : Expr.ListYields list used
  wellFormed : Expr.ListWellFormed list

theorem ListSpells.nil : ListSpells [] [] :=
  ⟨.nil, trivial⟩

theorem ListSpells.cons {rank : Rank} {e : Expr} {rest : List Expr} {used more : List Token} (h : Spells rank e used)
    (hrest : ListSpells rest more) : ListSpells (e :: rest) (used ++ more) :=
  ⟨.cons h.yields hrest.yields, h.wellFormed, hrest.wellFormed⟩

/-- What holds of the expression productions with a certain depth. -/
structure ExpressionsRead (env : Env) (depth : Nat) : Prop where
  chain (level : Level) : Reads (Spells level.rank) (chain env depth level)
  chainFrom (level : Level) (left : Expr) (used : List Token) (hleft : Spells level.rank left used) :
    Reads (fun e more => Spells level.rank e (used ++ more)) (chainFrom env depth level left)
  operand (level : Level) : Reads (Spells level.operandRank) (operand env depth level)
  signed : Reads (Spells .signed) (signed env depth)
  power : Reads (Spells .signed) (power env depth)
  primary : Reads (Spells .primary) (primary env depth)
  expressions (count : Nat) :
    Reads (fun list used => ListSpells list used ∧ list.length = count) (expressions env depth count)
  expressionsToParen : Reads ListSpells (expressionsToParen env depth)

namespace ExpressionsRead

variable {env : Env} {depth : Nat}

theorem zero : ExpressionsRead env 0 where
  chain _ := .fail env _
  chainFrom _ _ _ _ := .fail env _
  operand _ := .fail env _
  signed := .fail env _
  power := .fail env _
  primary := .fail env _
  expressions _ := .fail env _
  expressionsToParen := .fail env _

theorem chain_succ (h : ExpressionsRead env depth) (level : Level) :
    Reads (Spells level.rank) (Grammar.chain env (depth + 1) level) := by
  refine .bind (h.operand level) fun first used hfirst => ?_
  exact h.chainFrom level first used (hfirst.mono level.rank_le_operandRank)

theorem chainFrom_succ (h : ExpressionsRead env depth) (level : Level) (left : Expr) (used : List Token)
    (hleft : Spells level.rank left used) :
    Reads (fun e more => Spells level.rank e (used ++ more)) (Grammar.chainFrom env (depth + 1) level left) := by
  intro tokens
  simp only [Grammar.chainFrom]
  split
  · exact .ok (by simpa using hleft)
  · rename_i op hop
    rcases Option.bind_eq_some_iff.1 hop with ⟨lexeme, hahead, hoperator⟩
    rcases Level.operator?_eq_some hoperator with ⟨rfl, hrank, hleftRank, hrightRank⟩
    rcases exists_cons_of_ahead hahead with ⟨place, rest, rfl⟩
    refine .cons (Reads.bind (h.operand level) (fun right more hright => ?_) rest)
    -- The operator joins what has been read so far to one more operand.
    have hjoined : Spells level.rank (.binary op left right left.pos) (used ++ ⟨op.sign, place⟩ :: more) :=
      { yields := .binary place hleft.yields hright.yields
        wellFormed := ⟨hleftRank ▸ hleft.rank_le, hrightRank ▸ hright.rank_le, hleft.wellFormed, hright.wellFormed⟩
        rank_le := hrank ▸ Rank.le_refl _ }
    simpa using h.chainFrom level _ _ hjoined

theorem operand_succ (h : ExpressionsRead env depth) (level : Level) :
    Reads (Spells level.operandRank) (Grammar.operand env (depth + 1) level) := by
  cases level with
  | comparison => exact h.chain .additive
  | additive => exact h.chain .multiplicative
  | multiplicative => exact h.signed

theorem signed_succ (h : ExpressionsRead env depth) : Reads (Spells .signed) (Grammar.signed env (depth + 1)) := by
  have hnegate (sign : Lexeme) (hsign : sign = .minus ∨ sign = .negate) (pos : Position) (rest : List Token) :
      Reading (Spells .signed) (⟨sign, pos⟩ :: rest)
        ((do
          let inner ← Grammar.signed env depth
          return .negate inner pos : Parser Expr) rest) := by
    refine .cons (Reads.map h.signed (fun inner used hinner => ?_) rest)
    exact
      { yields := .negate pos hsign hinner.yields
        wellFormed := ⟨hinner.rank_le, hinner.wellFormed⟩
        rank_le := Rank.le_refl _ }
  intro tokens
  simp only [Grammar.signed]
  split
  · rename_i hsign
    rcases hsign with hahead | hahead
    · rcases exists_cons_of_ahead hahead with ⟨pos, rest, rfl⟩
      exact hnegate .minus (.inl rfl) pos rest
    · rcases exists_cons_of_ahead hahead with ⟨pos, rest, rfl⟩
      exact hnegate .negate (.inr rfl) pos rest
  · exact h.power tokens

theorem power_succ (h : ExpressionsRead env depth) : Reads (Spells .signed) (Grammar.power env (depth + 1)) := by
  refine .bind h.primary fun base used hbase => ?_
  intro tokens
  dsimp only
  split
  · rename_i hahead
    rcases exists_cons_of_ahead hahead with ⟨place, rest, rfl⟩
    refine .cons (Reads.map h.signed (fun exponent more hexponent => ?_) rest)
    exact
      { yields := .binary place hbase.yields hexponent.yields
        wellFormed := ⟨hbase.rank_le, hexponent.rank_le, hbase.wellFormed, hexponent.wellFormed⟩
        rank_le := show Rank.signed ≤ Rank.power by decide }
  · refine .ok ?_
    simpa using hbase.mono (show Rank.signed ≤ Rank.primary by decide)

theorem primary_succ (h : ExpressionsRead env depth) : Reads (Spells .primary) (Grammar.primary env (depth + 1)) := by
  intro tokens
  simp only [Grammar.primary]
  split
  · -- A number.
    exact .cons (.ok ⟨.number _ _, trivial, Rank.le_refl _⟩)
  · -- A variable.
    exact .cons (.ok ⟨.var _ _, trivial, Rank.le_refl _⟩)
  · -- A variable named by a word.
    exact .cons (.cons (.ok ⟨.thing _ _ _, toLower_toLower _, Rank.le_refl _⟩))
  · exact trivial
  · rename_i pos rest
    split
    · -- An operator with any number of operands in parentheses.
      rename_i op hop
      rcases exists_ident_of_operatorAhead? hop with ⟨word, place, rest, hword, rfl⟩
      refine .cons (.cons (Reads.bind h.expressionsToParen (fun operands used hoperands => ?_) rest))
      refine .closing fun last => ?_
      exact ⟨.parenthesised pos place last hword hoperands.yields, hoperands.wellFormed, Rank.le_refl _⟩
    · -- An expression in parentheses.
      refine .cons (Reads.bind (h.chain .comparison) (fun inner used hinner => ?_) rest)
      refine .closing fun last => ?_
      exact ⟨.group pos last hinner.yields, hinner.wellFormed, Rank.le_refl _⟩
  · rename_i word pos rest
    split
    · -- An operator with the number of operands that it takes without parentheses.
      rename_i op hword
      refine .cons (Reads.map (h.expressions op.bareCount) (fun operands used hoperands => ?_) rest)
      exact ⟨.bare pos hword hoperands.2 hoperands.1.yields, hoperands.1.wellFormed, Rank.le_refl _⟩
    · split <;> exact trivial
  · exact trivial

theorem expressions_succ (h : ExpressionsRead env depth) (count : Nat) :
    Reads (fun list used => ListSpells list used ∧ list.length = count) (Grammar.expressions env (depth + 1) count) := by
  cases count with
  | zero =>
      exact .pure ⟨.nil, rfl⟩
  | succ count =>
      refine .bind (h.chain .comparison) fun first used hfirst => ?_
      refine .map (h.expressions count) fun rest more hrest => ?_
      exact ⟨.cons hfirst hrest.1, congrArg (· + 1) hrest.2⟩

theorem expressionsToParen_succ (h : ExpressionsRead env depth) :
    Reads ListSpells (Grammar.expressionsToParen env (depth + 1)) := by
  intro tokens
  simp only [Grammar.expressionsToParen]
  split
  · exact .ok .nil
  · refine Reads.bind (h.chain .comparison) (fun first used hfirst => ?_) tokens
    exact .map h.expressionsToParen fun rest more hrest => .cons hfirst hrest

theorem all (env : Env) (depth : Nat) : ExpressionsRead env depth := by
  -- Every production calls the others with one level less, so that all of them are met at once.
  induction depth with
  | zero =>
      exact zero
  | succ depth h =>
      exact
        { chain := h.chain_succ
          chainFrom := h.chainFrom_succ
          operand := h.operand_succ
          signed := h.signed_succ
          power := h.power_succ
          primary := h.primary_succ
          expressions := h.expressions_succ
          expressionsToParen := h.expressionsToParen_succ }

end ExpressionsRead

theorem expression_reads (env : Env) (depth : Nat) : Reads (Spells .comparison) (expression env depth) :=
  (ExpressionsRead.all env depth).chain .comparison

theorem expressionsAhead_reads (env : Env) (depth : Nat) : Reads ListSpells (expressionsAhead env depth) := by
  induction depth with
  | zero =>
      exact .fail env _
  | succ depth ih =>
      intro tokens
      simp only [expressionsAhead]
      split
      · refine Reads.bind (expression_reads env depth) (fun first used hfirst => ?_) tokens
        exact .map ih fun rest more hrest => .cons hfirst hrest
      · exact .ok .nil

/-! ## Arguments -/

theorem callArguments_reads (env : Env) (depth : Nat) (name : String) :
    Reads (fun list used => ListSpells list used ∧ ∀ count, env.paramCount? name = some count → list.length = count)
      (callArguments env depth name) := by
  unfold callArguments
  cases env.paramCount? name with
  | some count =>
      simpa using (ExpressionsRead.all env depth).expressions count
  | none =>
      simpa using expressionsAhead_reads env depth

/-- A well-formed argument and the tokens that spell it in the form that is demanded. -/
structure ArgumentSpells (headers : List (String × Nat)) (form : ArgumentForm) (a : Argument) (used : List Token) :
    Prop where
  yields : a.Yields form used
  wellFormed : a.WellFormed headers form

theorem wordArgument_reads (env : Env) : Reads (ArgumentSpells env.headers .word) (wordArgument env) := by
  intro tokens
  unfold wordArgument
  split
  · exact .cons (.ok ⟨.word _ _, trivial⟩)
  · exact trivial

theorem pointArgument_reads (env : Env) (depth : Nat) :
    Reads (ArgumentSpells env.headers .point) (pointArgument env depth) := by
  refine .bind (.expect env _) fun _ used hused => ?_
  rcases hused with ⟨first, rfl⟩
  refine .bind (expression_reads env depth) fun x ts hx => ?_
  refine .bind (expression_reads env depth) fun y us hy => ?_
  exact .closing fun last => ⟨.point first last hx.yields hy.yields, hx.wellFormed, hy.wellFormed⟩

theorem conditionArgument_reads (env : Env) (depth : Nat) :
    Reads (ArgumentSpells env.headers .condition) (conditionArgument env depth) := by
  intro tokens
  unfold conditionArgument
  split
  · rename_i hahead
    rcases exists_cons_of_ahead hahead with ⟨first, rest, rfl⟩
    refine .cons (Reads.bind (expression_reads env depth) (fun condition ts hcondition => ?_) rest)
    exact .closing fun last => ⟨.bracketed first last hcondition.yields, hcondition.wellFormed⟩
  · refine Reads.map (expression_reads env depth) (fun condition ts hcondition => ?_) tokens
    exact ⟨.condition hcondition.yields, hcondition.wellFormed⟩

theorem colourArgument_reads (env : Env) (depth : Nat) :
    Reads (ArgumentSpells env.headers .colour) (colourArgument env depth) := by
  intro tokens
  unfold colourArgument
  split
  · -- A colour word.
    exact .cons (.ok ⟨.colour (.word _ _), trivial⟩)
  · -- Three intensities in brackets.
    rename_i first rest
    refine .cons (Reads.bind (expression_reads env depth) (fun red ts hred => ?_) rest)
    refine .bind (expression_reads env depth) fun green us hgreen => ?_
    refine .bind (expression_reads env depth) fun blue vs hblue => .closing fun last => ?_
    exact
      { yields := .colour (.rgb first last hred.yields hgreen.yields hblue.yields)
        wellFormed := ⟨hred.wellFormed, hgreen.wellFormed, hblue.wellFormed⟩ }
  · -- The index of a colour in the palette.
    refine Reads.map (expression_reads env depth) (fun index ts hindex => ?_) tokens
    exact ⟨.colour (.index hindex.yields), hindex.wellFormed⟩

/-! ## Statements -/

/-- What holds of the statement productions with a certain depth. -/
structure StatementsRead (env : Env) (depth : Nat) : Prop where
  statement : Reads (fun s used => s.Yields used ∧ s.WellFormed env.headers) (statement env depth)
  statementsTo (closing : Lexeme) :
    Reads (fun body used => Statement.ListYields body used ∧ Statement.ListWellFormed env.headers body)
      (statementsTo env closing depth)
  block : Reads (ArgumentSpells env.headers .block) (block env depth)
  argument (form : ArgumentForm) : Reads (ArgumentSpells env.headers form) (argument env depth form)
  arguments (forms : List ArgumentForm) :
    Reads (fun list used => Argument.ListYields forms list used ∧ Argument.ListWellFormed env.headers forms list)
      (arguments env depth forms)

namespace StatementsRead

variable {env : Env} {depth : Nat}

theorem zero : StatementsRead env 0 where
  statement := .fail env _
  statementsTo _ := .fail env _
  block := .fail env _
  argument _ := .fail env _
  arguments _ := .fail env _

theorem statement_succ (h : StatementsRead env depth) :
    Reads (fun s used => s.Yields used ∧ s.WellFormed env.headers) (Grammar.statement env (depth + 1)) := by
  intro tokens
  simp only [Grammar.statement]
  split
  · -- A definition inside another statement is an error.
    exact trivial
  · rename_i word pos rest
    split
    · rename_i builtin hbuiltin
      refine .cons (Reads.map (h.arguments builtin.signature) (fun list used hlist => ?_) rest)
      exact ⟨.command pos hbuiltin hlist.1, hlist.2⟩
    · rename_i hbuiltin
      split
      · exact trivial
      · rename_i hoperator
        -- The word is neither taken by a command nor by an operator.
        have hfree : isReserved word = false := by
          simp [isReserved, hbuiltin, hoperator]
        refine .cons (Reads.map (callArguments_reads env depth word) (fun list used hlist => ?_) rest)
        exact ⟨.call pos hlist.1.yields, hfree, hlist.2, hlist.1.wellFormed⟩
  · exact trivial

theorem statementsTo_succ (h : StatementsRead env depth) (closing : Lexeme) :
    Reads (fun body used => Statement.ListYields body used ∧ Statement.ListWellFormed env.headers body)
      (Grammar.statementsTo env closing (depth + 1)) := by
  intro tokens
  simp only [Grammar.statementsTo]
  split
  · exact .ok ⟨.nil, trivial⟩
  · refine Reads.bind h.statement (fun first used hfirst => ?_) tokens
    refine .map (h.statementsTo closing) fun rest more hrest => ?_
    exact ⟨.cons hfirst.1 hrest.1, hfirst.2, hrest.2⟩

theorem block_succ (h : StatementsRead env depth) :
    Reads (ArgumentSpells env.headers .block) (Grammar.block env (depth + 1)) := by
  refine .bind (.expect env _) fun _ used hused => ?_
  rcases hused with ⟨first, rfl⟩
  refine .bind (h.statementsTo .closeBracket) fun body ts hbody => ?_
  exact .closing fun last => ⟨.block first last hbody.1, hbody.2⟩

theorem argument_succ (h : StatementsRead env depth) (form : ArgumentForm) :
    Reads (ArgumentSpells env.headers form) (Grammar.argument env (depth + 1) form) := by
  cases form with
  | value =>
      refine .map (expression_reads env depth) fun e ts he => ?_
      exact ⟨.value he.yields, he.wellFormed⟩
  | condition => exact conditionArgument_reads env depth
  | block => exact h.block
  | point => exact pointArgument_reads env depth
  | colour => exact colourArgument_reads env depth
  | word => exact wordArgument_reads env

theorem arguments_succ (h : StatementsRead env depth) (forms : List ArgumentForm) :
    Reads (fun list used => Argument.ListYields forms list used ∧ Argument.ListWellFormed env.headers forms list)
      (Grammar.arguments env (depth + 1) forms) := by
  cases forms with
  | nil =>
      exact .pure ⟨.nil, trivial⟩
  | cons form forms =>
      refine .bind (h.argument form) fun first used hfirst => ?_
      refine .map (h.arguments forms) fun rest more hrest => ?_
      exact ⟨.cons hfirst.yields hrest.1, hfirst.wellFormed, hrest.2⟩

theorem all (env : Env) (depth : Nat) : StatementsRead env depth := by
  induction depth with
  | zero =>
      exact zero
  | succ depth h =>
      exact
        { statement := h.statement_succ
          statementsTo := h.statementsTo_succ
          block := h.block_succ
          argument := h.argument_succ
          arguments := h.arguments_succ }

end StatementsRead

/-! ## Definitions -/

theorem procedureName_reads (env : Env) :
    Reads (fun name used => isReserved name = false ∧ ∃ place, used = [⟨.ident name, place⟩]) (procedureName env) := by
  intro tokens
  unfold procedureName
  split
  · rename_i name hahead
    split
    · exact trivial
    · rename_i hfree
      rcases exists_cons_of_ahead hahead with ⟨place, rest, rfl⟩
      exact .cons (.ok ⟨by simpa using hfree, place, rfl⟩)
  · split <;> exact trivial
  · exact trivial

theorem lexeme_of_isVar {token : Token} (h : isVar token = true) : ∃ name, token.lexeme = .var name := by
  unfold isVar at h
  split at h
  · rename_i name pos
    exact ⟨name, rfl⟩
  · cases h

theorem isVar_of_lexemes {vars : List Token} {params : List String}
    (h : vars.map Token.lexeme = params.map Lexeme.var) : ∀ token ∈ vars, isVar token = true := by
  intro token hmem
  have hlexeme : token.lexeme ∈ params.map Lexeme.var := h ▸ List.mem_map_of_mem hmem
  rcases List.mem_map.1 hlexeme with ⟨name, -, hname⟩
  rcases token with ⟨lexeme, pos⟩
  cases hname
  rfl

/-- The names of variables, read off their tokens. -/
theorem map_var_filterMap_text? {vars : List Token} (h : ∀ token ∈ vars, isVar token = true) :
    (vars.filterMap fun token => token.lexeme.text?).map Lexeme.var = vars.map Token.lexeme := by
  induction vars with
  | nil =>
      rfl
  | cons token vars ih =>
      rcases List.forall_mem_cons.1 h with ⟨htoken, hvars⟩
      rcases lexeme_of_isVar htoken with ⟨name, hname⟩
      rcases token with ⟨lexeme, pos⟩
      cases hname
      exact congrArg (Lexeme.var name :: ·) (ih hvars)

theorem params_reads : Reads (fun names used => used.map Token.lexeme = names.map Lexeme.var) params := by
  intro tokens
  refine ⟨tokens.takeWhile isVar, List.takeWhile_append_dropWhile.symm, ?_⟩
  exact (map_var_filterMap_text? (List.all_eq_true.1 List.all_takeWhile)).symm

theorem definition_reads (env : Env) (depth : Nat) (pos : Position) :
    Reads (fun s used => s.Yields (⟨.toKeyword, pos⟩ :: used) ∧ s.TopWellFormed env.headers)
      (definition env depth pos) := by
  refine .bind (procedureName_reads env) fun name used hname => ?_
  rcases hname with ⟨hfree, place, rfl⟩
  refine .bind params_reads fun names vars hvars => ?_
  refine .bind ((StatementsRead.all env depth).statementsTo .endKeyword) fun body ts hbody => ?_
  exact .closing fun last => ⟨.definition pos place last hvars hbody.1, hfree, hbody.2⟩

theorem topStatement_reads (env : Env) (depth : Nat) :
    Reads (fun s used => s.Yields used ∧ s.TopWellFormed env.headers) (topStatement env depth) := by
  intro tokens
  unfold topStatement
  split
  · rename_i pos rest
    exact .cons (definition_reads env depth pos rest)
  · have hread := (StatementsRead.all env depth).statement tokens
    cases hresult : statement env depth tokens with
    | error e rest =>
        exact trivial
    | ok s rest =>
        rw [hresult] at hread
        rcases hread with ⟨used, hused, hyields, hformed⟩
        exact ⟨used, hused, hyields, hformed.top⟩

/-! ## Texts -/

theorem treeRead_of_statements {env : Env} {tokens : List Token} (h : (statements env tokens).filterMap error? = []) :
    Statement.ListYields ((statements env tokens).filterMap value?) tokens ∧
      ∀ s ∈ (statements env tokens).filterMap value?, s.TopWellFormed env.headers := by
  fun_induction statements env tokens with
  | case1 =>
      exact ⟨.nil, by simp⟩
  | case2 first rest result left hpair hle ih =>
      cases result with
      | error e =>
          simp [error?] at h
      | ok s =>
          -- No error was recovered from: the statement has been read up to where the rest begins.
          split at hpair
          · rename_i htop
            cases hpair
            rcases (topStatement_reads env _).exists_used htop with ⟨used, hused, hyields, hformed⟩
            rcases ih (by simpa [error?] using h) with ⟨hrest, hall⟩
            refine ⟨?_, ?_⟩
            · simpa [value?, hused] using .cons hyields hrest
            · simpa [value?] using ⟨hformed, fun s result hmem hvalue => hall s (List.mem_filterMap.2 ⟨result, hmem, hvalue⟩)⟩
          · cases hpair
  | case3 first rest result left hpair hle ih =>
      -- A statement consumes a token, so that this case is left to errors.
      cases result with
      | error e =>
          simp [error?] at h
      | ok s =>
          split at hpair
          · rename_i htop
            cases hpair
            rcases (topStatement_reads env _).exists_used htop with ⟨used, hused, hyields, -⟩
            have hlength := congrArg List.length hused
            have hused := List.length_pos_iff.2 hyields.ne_nil
            simp only [List.length_cons, List.length_append] at hlength
            omega
          · cases hpair

/-! ## Headers -/

theorem headers_cons {token : Token} (h : token.lexeme ≠ .toKeyword) (rest : List Token) :
    headers (token :: rest) = headers rest := by
  rcases token with ⟨lexeme, pos⟩
  cases lexeme with
  | toKeyword => exact absurd rfl h
  | _ => simp [headers]

theorem headers_append {used : List Token} (h : ∀ token ∈ used, token.lexeme ≠ .toKeyword) (rest : List Token) :
    headers (used ++ rest) = headers rest := by
  induction used with
  | nil => rfl
  | cons token used ih =>
      rcases List.forall_mem_cons.1 h with ⟨htoken, hused⟩
      rw [List.cons_append, headers_cons htoken, ih hused]

/-- A header ends where no variable follows. -/
theorem headers_definition (name : String) {params : List String} {vars : List Token} (pos place : Position)
    (hvars : vars.map Token.lexeme = params.map Lexeme.var) {token : Token} (htoken : isVar token = false)
    (rest : List Token) :
    headers (⟨.toKeyword, pos⟩ :: ⟨.ident name, place⟩ :: (vars ++ token :: rest)) =
      (name, params.length) :: headers (token :: rest) := by
  have hisVar := isVar_of_lexemes hvars
  have hto : ∀ token ∈ vars, token.lexeme ≠ .toKeyword := by
    intro token hmem
    rcases lexeme_of_isVar (hisVar token hmem) with ⟨name, hname⟩
    simp [hname]
  have hlength : vars.length = params.length := by
    simpa using congrArg List.length hvars
  simp [headers, List.takeWhile_append_of_pos hisVar, htoken, headers_append hto, hlength]

theorem exists_cons_of_yields {s : Statement} {ts : List Token} (h : s.Yields ts) :
    ∃ token rest, ts = token :: rest ∧ isVar token = false := by
  cases h <;> exact ⟨_, _, rfl, rfl⟩

/-- No header but those of the definitions is found among the tokens of a tree. -/
theorem headers_of_yields {table : List (String × Nat)} {tree : List Statement} {tokens : List Token}
    (h : Statement.ListYields tree tokens) (hformed : ∀ s ∈ tree, s.TopWellFormed table) :
    headers tokens = tree.filterMap header? := by
  induction tree generalizing tokens with
  | nil =>
      cases h
      rfl
  | cons s tree ih =>
      rcases List.forall_mem_cons.1 hformed with ⟨hs, htree⟩
      cases h with
      | @cons _ _ ts us hyields hrest =>
          have hus := ih hrest htree
          cases hyields with
          | @definition name params body vars ts pos place last hvars hbody =>
              have hto : ∀ token ∈ ts ++ [⟨.endKeyword, last⟩], token.lexeme ≠ .toKeyword := by
                simpa [or_imp, forall_and] using hbody.ne_toKeyword hs.2
              -- The body, or the word `end` if it is empty, does not go on with a variable.
              have hstart : ∃ token rest, ts ++ [⟨.endKeyword, last⟩] = token :: rest ∧ isVar token = false := by
                cases hbody with
                | nil => exact ⟨_, _, rfl, rfl⟩
                | cons hfirst _ =>
                    rcases exists_cons_of_yields hfirst with ⟨token, rest, rfl, htoken⟩
                    exact ⟨token, _, rfl, htoken⟩
              rcases hstart with ⟨token, rest, hcons, htoken⟩
              rw [hcons] at hto ⊢
              have hheader := headers_definition name pos place hvars htoken (rest ++ us)
              have hskip : headers (token :: (rest ++ us)) = headers us := headers_append hto us
              simpa [header?, hskip, hus] using hheader
          | command pos hword harguments =>
              have hto := Statement.Yields.ne_toKeyword (.command pos hword harguments) hs
              rw [headers_append hto, hus]
              rfl
          | call pos harguments =>
              have hto := Statement.Yields.ne_toKeyword (.call pos harguments) hs
              rw [headers_append hto, hus]
              rfl

theorem treeRead_of_parse {tokens : Tokens} {tree : List Statement} (h : parse tokens = .ok tree) :
    Statement.ListYields tree tokens.list ∧ ∀ s ∈ tree, s.TopWellFormed (headers tokens.list) := by
  simp only [parse] at h
  split at h
  · rename_i hnil
    cases h
    exact treeRead_of_statements hnil
  · cases h

/-- The tree of a text that is read without an error is spelled by the tokens of the text, all of them and in their
order; the headers among these are the headers of the definitions in the tree; and the tree is well formed. -/
theorem parsed_trees_spell_their_tokens {tokens : Tokens} {tree : List Statement} (h : parse tokens = .ok tree) :
    Statement.ListYields tree tokens.list ∧ headers tokens.list = tree.filterMap header? ∧ WellFormedTree tree := by
  rcases treeRead_of_parse h with ⟨hyields, hformed⟩
  have hheaders := headers_of_yields hyields hformed
  refine ⟨hyields, hheaders, ?_⟩
  intro s hmem
  exact hheaders ▸ hformed s hmem

/-- An instance with a definition, both ways to apply an operator and a bare condition. -/
theorem definition_and_call_spell_their_tokens :
    ∃ tokens tree,
      Tokens.scan "to f :x ifelse :x < - 2 * 3 [ fd (sum :x 1 2) ] [ rt sum thing \"A 1 ] end f 3" = .ok tokens ∧
        parse tokens = .ok tree ∧ Statement.ListYields tree tokens.list ∧
        headers tokens.list = tree.filterMap header? ∧ headers tokens.list = [("f", 1)] ∧ WellFormedTree tree := by
  let source := "to f :x ifelse :x < - 2 * 3 [ fd (sum :x 1 2) ] [ rt sum thing \"A 1 ] end f 3"
  have hread : ((Tokens.scan source).toOption.map fun tokens => ((parse tokens).isOk, headers tokens.list)) =
      some (true, [("f", 1)]) := by
    decide +kernel
  cases hscan : Tokens.scan source with
  | error =>
      simp [hscan, Except.toOption] at hread
  | ok tokens =>
      cases hparse : parse tokens with
      | error =>
          simp [hscan, hparse, Except.toOption, Except.isOk, Except.toBool] at hread
      | ok tree =>
          have hheaders : headers tokens.list = [("f", 1)] := by
            simp [hscan, Except.toOption] at hread
            exact hread.2
          rcases parsed_trees_spell_their_tokens hparse with ⟨hyields, hsame, hformed⟩
          exact ⟨tokens, tree, rfl, hparse, hyields, hsame, hheaders, hformed⟩

end Grammar
end TurtleLogo
