import TurtleLogo.Language.Grammar

/-!
# Surface trees and the tokens they stand for

The surface grammar seen from its trees, without a word about how a text is read:

* `Expr.Yields e tokens` and `Statement.Yields s tokens`: the tokens spell the tree, from the first one to the last. One
  tree may be spelled in several ways, by another word for a command or an operator, by an operator with or without
  parentheses around it and its operands, by brackets around a condition, and by either kind of minus sign.
* `Expr.WellFormed` and `Statement.WellFormed`: the operands of signs are of the rank that their place demands, commands
  have the arguments of their signatures, and calls as many as the header with their name has parameters.
* `WellFormedTree`: what a whole text must be. Definitions stand only at its top.

A node of a tree has the position of the first token that spells it.
-/

namespace TurtleLogo
namespace Surface

/-! ## Ranks -/

/-- How tightly an expression holds together, loosest first. -/
inductive Rank where
  | comparison
  | additive
  | multiplicative
  | signed
  | power
  /-- What stands anywhere without parentheses. -/
  | primary
  deriving DecidableEq, Repr

namespace Rank

instance : LE Rank := ⟨fun a b => a.ctorIdx ≤ b.ctorIdx⟩

instance (a b : Rank) : Decidable (a ≤ b) :=
  inferInstanceAs (Decidable (a.ctorIdx ≤ b.ctorIdx))

theorem le_refl (a : Rank) : a ≤ a :=
  Nat.le_refl a.ctorIdx

theorem le_trans {a b c : Rank} (hab : a ≤ b) (hbc : b ≤ c) : a ≤ c :=
  Nat.le_trans (m := b.ctorIdx) hab hbc

end Rank

namespace BinaryOp

/-- The token between the operands. -/
def sign : BinaryOp → Lexeme
  | add => .plus
  | sub => .minus
  | mul => .star
  | div => .slash
  | rem => .percent
  | pow => .caret
  | less => .less
  | greater => .greater
  | lessEqual => .lessEqual
  | greaterEqual => .greaterEqual
  | equal => .equal
  | notEqual => .notEqual

def rank : BinaryOp → Rank
  | less | greater | lessEqual | greaterEqual | equal | notEqual => .comparison
  | add | sub => .additive
  | mul | div | rem => .multiplicative
  | pow => .power

/-- The rank that the left operand has at least. All operators but powers group to the left. -/
def leftRank : BinaryOp → Rank
  | pow => .primary
  | op => op.rank

/-- The rank that the right operand has at least. -/
def rightRank : BinaryOp → Rank
  | less | greater | lessEqual | greaterEqual | equal | notEqual => .additive
  | add | sub => .multiplicative
  | mul | div | rem | pow => .signed

end BinaryOp

def Expr.rank : Expr → Rank
  | .binary op _ _ _ => op.rank
  | .negate _ _ => .signed
  | _ => .primary

/-! ## Yields -/

mutual

/-- The tokens spell the expression. -/
inductive Expr.Yields : Expr → List Token → Prop where
  | number (text : String) (pos : Position) : Yields (.number text pos) [⟨.number text, pos⟩]
  | var (name : String) (pos : Position) : Yields (.var name pos) [⟨.var name, pos⟩]
  | thing (word : String) (pos place : Position) :
      Yields (.thing word.toLower pos) [⟨.thingKeyword, pos⟩, ⟨.word word, place⟩]
  | binary {op : BinaryOp} {left right : Expr} {ts us : List Token} (place : Position) (hleft : left.Yields ts)
      (hright : right.Yields us) : Yields (.binary op left right left.pos) (ts ++ ⟨op.sign, place⟩ :: us)
  | negate {sign : Lexeme} {operand : Expr} {ts : List Token} (pos : Position) (hsign : sign = .minus ∨ sign = .negate)
      (h : operand.Yields ts) : Yields (.negate operand pos) (⟨sign, pos⟩ :: ts)
  | bare {word : String} {op : Operator} {operands : List Expr} {ts : List Token} (pos : Position)
      (hword : Operator.ofWord? word = some op) (hcount : operands.length = op.bareCount)
      (h : Expr.ListYields operands ts) : Yields (.apply op operands pos) (⟨.ident word, pos⟩ :: ts)
  | parenthesised {word : String} {op : Operator} {operands : List Expr} {ts : List Token} (pos place last : Position)
      (hword : Operator.ofWord? word = some op) (h : Expr.ListYields operands ts) :
      Yields (.apply op operands pos) (⟨.openParen, pos⟩ :: ⟨.ident word, place⟩ :: (ts ++ [⟨.closeParen, last⟩]))
  | group {inner : Expr} {ts : List Token} (pos last : Position) (h : inner.Yields ts) :
      Yields (.group inner pos) (⟨.openParen, pos⟩ :: (ts ++ [⟨.closeParen, last⟩]))

/-- The tokens spell the expressions one after the other. -/
inductive Expr.ListYields : List Expr → List Token → Prop where
  | nil : ListYields [] []
  | cons {e : Expr} {rest : List Expr} {ts us : List Token} (h : e.Yields ts) (hrest : Expr.ListYields rest us) :
      ListYields (e :: rest) (ts ++ us)

end

inductive ColourArgument.Yields : ColourArgument → List Token → Prop where
  | word (text : String) (pos : Position) : Yields (.word text pos) [⟨.word text, pos⟩]
  | rgb {red green blue : Expr} {ts us vs : List Token} (first last : Position) (hred : red.Yields ts)
      (hgreen : green.Yields us) (hblue : blue.Yields vs) :
      Yields (.rgb red green blue) (⟨.openBracket, first⟩ :: (ts ++ (us ++ (vs ++ [⟨.closeBracket, last⟩]))))
  | index {e : Expr} {ts : List Token} (h : e.Yields ts) : Yields (.index e) ts

mutual

/-- The tokens spell the statement. -/
inductive Statement.Yields : Statement → List Token → Prop where
  | definition {name : String} {params : List String} {body : List Statement} {vars ts : List Token}
      (pos place last : Position) (hvars : vars.map Token.lexeme = params.map Lexeme.var)
      (h : Statement.ListYields body ts) :
      Statement.Yields (.definition name params body pos)
        (⟨.toKeyword, pos⟩ :: ⟨.ident name, place⟩ :: (vars ++ (ts ++ [⟨.endKeyword, last⟩])))
  | command {word : String} {b : Builtin} {arguments : List Argument} {ts : List Token} (pos : Position)
      (hword : Builtin.ofWord? word = some b) (h : Argument.ListYields b.signature arguments ts) :
      Statement.Yields (.command b arguments pos) (⟨.ident word, pos⟩ :: ts)
  | call {name : String} {arguments : List Expr} {ts : List Token} (pos : Position)
      (h : Expr.ListYields arguments ts) : Statement.Yields (.call name arguments pos) (⟨.ident name, pos⟩ :: ts)

inductive Statement.ListYields : List Statement → List Token → Prop where
  | nil : Statement.ListYields [] []
  | cons {s : Statement} {rest : List Statement} {ts us : List Token} (h : s.Yields ts)
      (hrest : Statement.ListYields rest us) : Statement.ListYields (s :: rest) (ts ++ us)

/-- The tokens spell the argument in the form that a signature demands. -/
inductive Argument.Yields : ArgumentForm → Argument → List Token → Prop where
  | value {e : Expr} {ts : List Token} (h : e.Yields ts) : Argument.Yields .value (.value e) ts
  | condition {e : Expr} {ts : List Token} (h : e.Yields ts) : Argument.Yields .condition (.value e) ts
  | bracketed {e : Expr} {ts : List Token} (first last : Position) (h : e.Yields ts) :
      Argument.Yields .condition (.value e) (⟨.openBracket, first⟩ :: (ts ++ [⟨.closeBracket, last⟩]))
  | block {body : List Statement} {ts : List Token} (first last : Position) (h : Statement.ListYields body ts) :
      Argument.Yields .block (.block body) (⟨.openBracket, first⟩ :: (ts ++ [⟨.closeBracket, last⟩]))
  | point {x y : Expr} {ts us : List Token} (first last : Position) (hx : x.Yields ts) (hy : y.Yields us) :
      Argument.Yields .point (.point x y) (⟨.openBracket, first⟩ :: (ts ++ (us ++ [⟨.closeBracket, last⟩])))
  | colour {c : ColourArgument} {ts : List Token} (h : c.Yields ts) : Argument.Yields .colour (.colour c) ts
  | word (text : String) (pos : Position) : Argument.Yields .word (.word text pos) [⟨.word text, pos⟩]

inductive Argument.ListYields : List ArgumentForm → List Argument → List Token → Prop where
  | nil : Argument.ListYields [] [] []
  | cons {form : ArgumentForm} {forms : List ArgumentForm} {a : Argument} {rest : List Argument} {ts us : List Token}
      (h : a.Yields form ts) (hrest : Argument.ListYields forms rest us) :
      Argument.ListYields (form :: forms) (a :: rest) (ts ++ us)

end

theorem Expr.Yields.ne_nil {e : Expr} {tokens : List Token} (h : e.Yields tokens) : tokens ≠ [] := by
  cases h <;> simp

theorem Argument.Yields.ne_nil {form : ArgumentForm} {a : Argument} {tokens : List Token} (h : a.Yields form tokens) :
    tokens ≠ [] := by
  cases h with
  | value h | condition h => exact h.ne_nil
  | colour h =>
      cases h with
      | index h => exact h.ne_nil
      | _ => simp
  | _ => simp

theorem Statement.Yields.ne_nil {s : Statement} {tokens : List Token} (h : s.Yields tokens) : tokens ≠ [] := by
  cases h <;> simp

/-! ## Well-formed trees -/

mutual

/-- The operands of signs have the ranks that their places demand, and names after `thing` are in lower case. -/
def Expr.WellFormed : Expr → Prop
  | .number _ _ => True
  | .var _ _ => True
  | .thing name _ => name.toLower = name
  | .binary op left right _ =>
      op.leftRank ≤ left.rank ∧ op.rightRank ≤ right.rank ∧ left.WellFormed ∧ right.WellFormed
  | .negate operand _ => Rank.signed ≤ operand.rank ∧ operand.WellFormed
  | .apply _ operands _ => Expr.ListWellFormed operands
  | .group inner _ => inner.WellFormed

def Expr.ListWellFormed : List Expr → Prop
  | [] => True
  | e :: rest => e.WellFormed ∧ Expr.ListWellFormed rest

end

def ColourArgument.WellFormed : ColourArgument → Prop
  | .word _ _ => True
  | .rgb red green blue => red.WellFormed ∧ green.WellFormed ∧ blue.WellFormed
  | .index e => e.WellFormed

section

variable (headers : List (String × Nat))

mutual

/-- The arguments are those that the word of the statement demands. A definition is well formed only at the top of a
text. -/
def Statement.WellFormed : Statement → Prop
  | .definition _ _ _ _ => False
  | .command b arguments _ => Argument.ListWellFormed b.signature arguments
  | .call name arguments _ =>
      Grammar.isReserved name = false ∧ (∀ count, headers.lookup name = some count → arguments.length = count) ∧
        Expr.ListWellFormed arguments

def Statement.ListWellFormed : List Statement → Prop
  | [] => True
  | s :: rest => s.WellFormed ∧ Statement.ListWellFormed rest

def Argument.WellFormed : ArgumentForm → Argument → Prop
  | .value, .value e => e.WellFormed
  | .condition, .value e => e.WellFormed
  | .block, .block body => Statement.ListWellFormed body
  | .point, .point x y => x.WellFormed ∧ y.WellFormed
  | .colour, .colour c => c.WellFormed
  | .word, .word _ _ => True
  | _, _ => False

def Argument.ListWellFormed : List ArgumentForm → List Argument → Prop
  | [], [] => True
  | form :: forms, a :: rest => a.WellFormed form ∧ Argument.ListWellFormed forms rest
  | _, _ => False

end

/-- At the top of a text a definition may stand too, if its name is free. -/
def Statement.TopWellFormed : Statement → Prop
  | .definition name _ body _ => Grammar.isReserved name = false ∧ Statement.ListWellFormed headers body
  | s => s.WellFormed headers

variable {headers} in
theorem Statement.WellFormed.top {s : Statement} (h : s.WellFormed headers) : s.TopWellFormed headers := by
  cases s with
  | definition => exact h.elim
  | _ => exact h

end

/-! ## The word `to` -/

theorem BinaryOp.sign_ne_toKeyword (op : BinaryOp) : op.sign ≠ .toKeyword := by
  cases op <;> decide

mutual

theorem Expr.Yields.ne_toKeyword {e : Expr} {tokens : List Token} :
    e.Yields tokens → ∀ token ∈ tokens, token.lexeme ≠ .toKeyword
  | .number _ _ | .var _ _ | .thing _ _ _ => by simp
  | @Expr.Yields.binary op _ _ _ _ _ hleft hright => by
      simpa [or_imp, forall_and, op.sign_ne_toKeyword] using ⟨hleft.ne_toKeyword, hright.ne_toKeyword⟩
  | .negate _ hsign h => by
      rcases hsign with rfl | rfl <;> simpa using h.ne_toKeyword
  | .bare _ _ _ h => by simpa using h.ne_toKeyword
  | .parenthesised _ _ _ _ h => by simpa [or_imp, forall_and] using h.ne_toKeyword
  | .group _ _ h => by simpa [or_imp, forall_and] using h.ne_toKeyword

theorem Expr.ListYields.ne_toKeyword {list : List Expr} {tokens : List Token} :
    Expr.ListYields list tokens → ∀ token ∈ tokens, token.lexeme ≠ .toKeyword
  | .nil => by simp
  | .cons h hrest => by simpa [or_imp, forall_and] using ⟨h.ne_toKeyword, hrest.ne_toKeyword⟩

end

theorem ColourArgument.Yields.ne_toKeyword {c : ColourArgument} {tokens : List Token} (h : c.Yields tokens) :
    ∀ token ∈ tokens, token.lexeme ≠ .toKeyword := by
  cases h with
  | word => simp
  | rgb _ _ hred hgreen hblue =>
      simpa [or_imp, forall_and] using ⟨hred.ne_toKeyword, hgreen.ne_toKeyword, hblue.ne_toKeyword⟩
  | index h => exact h.ne_toKeyword

section

variable {headers : List (String × Nat)}

mutual

/-- Only a definition is spelled with the word `to`. -/
theorem Statement.Yields.ne_toKeyword {s : Statement} {tokens : List Token} :
    s.Yields tokens → s.WellFormed headers → ∀ token ∈ tokens, token.lexeme ≠ .toKeyword
  | .definition _ _ _ _ _, hformed => by simp [Statement.WellFormed] at hformed
  | .command _ _ h, hformed => by
      rw [Statement.WellFormed] at hformed
      simpa using h.ne_toKeyword hformed
  | .call _ h, _ => by simpa using h.ne_toKeyword

theorem Statement.ListYields.ne_toKeyword {list : List Statement} {tokens : List Token} :
    Statement.ListYields list tokens → Statement.ListWellFormed headers list →
      ∀ token ∈ tokens, token.lexeme ≠ .toKeyword
  | .nil, _ => by simp
  | .cons h hrest, hformed => by
      rw [Statement.ListWellFormed] at hformed
      simpa [or_imp, forall_and] using ⟨h.ne_toKeyword hformed.1, hrest.ne_toKeyword hformed.2⟩

theorem Argument.Yields.ne_toKeyword {form : ArgumentForm} {a : Argument} {tokens : List Token} :
    a.Yields form tokens → a.WellFormed headers form → ∀ token ∈ tokens, token.lexeme ≠ .toKeyword
  | .value h, _ | .condition h, _ => h.ne_toKeyword
  | .bracketed _ _ h, _ => by simpa [or_imp, forall_and] using h.ne_toKeyword
  | .block _ _ h, hformed => by
      rw [Argument.WellFormed] at hformed
      simpa [or_imp, forall_and] using h.ne_toKeyword hformed
  | .point _ _ hx hy, _ => by simpa [or_imp, forall_and] using ⟨hx.ne_toKeyword, hy.ne_toKeyword⟩
  | .colour h, _ => h.ne_toKeyword
  | .word _ _, _ => by simp

theorem Argument.ListYields.ne_toKeyword {forms : List ArgumentForm} {list : List Argument} {tokens : List Token} :
    Argument.ListYields forms list tokens → Argument.ListWellFormed headers forms list →
      ∀ token ∈ tokens, token.lexeme ≠ .toKeyword
  | .nil, _ => by simp
  | .cons h hrest, hformed => by
      rw [Argument.ListWellFormed] at hformed
      simpa [or_imp, forall_and] using ⟨h.ne_toKeyword hformed.1, hrest.ne_toKeyword hformed.2⟩

end

end

end Surface

namespace Grammar

/-- The name of a definition and the number of its parameters. -/
def header? : Surface.Statement → Option (String × Nat)
  | .definition name params _ _ => some (name, params.length)
  | _ => none

end Grammar

/-- A tree whose statements are well formed under the headers of its own definitions. -/
def Surface.WellFormedTree (tree : List Surface.Statement) : Prop :=
  ∀ s ∈ tree, s.TopWellFormed (tree.filterMap Grammar.header?)

end TurtleLogo
