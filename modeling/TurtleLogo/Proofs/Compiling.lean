import TurtleLogo.Program.Compile
import TurtleLogo.Proofs.Rendering
import TurtleLogo.Proofs.Scanning

/-!
# Compiling a single expression

A text is compiled to an expression in three steps, and positions matter to none of their results:

* `Expression.toOption_ofSurface_unplaced`: the value of a surface tree, if it has one, is that of the tree without its
  positions;
* `Expression.exists_tree_of_compile` and `Expression.compile_of_takes`: a text compiles to an expression when its tokens
  are read as a tree, all of them, and the tree has the expression as its value.
-/

namespace TurtleLogo

open Surface Grammar

/-! ## Values of trees -/

namespace Checked

variable {α β γ : Type}

theorem toOption_map (x : Checked α) (f : α → β) : (x.map f).toOption = x.toOption.map f := by
  cases x <;> rfl

theorem toOption_map₂ (f : α → β → γ) (x : Checked α) (y : Checked β) :
    (map₂ f x y).toOption = x.toOption.bind fun a => y.toOption.map (f a) := by
  cases x <;> cases y <;> rfl

theorem toOption_eq_some {x : Checked α} {a : α} : x.toOption = some a ↔ x = .ok a := by
  cases x <;> simp [Except.toOption]

end Checked

theorem toOption_numberLiteral (text : String) (pos : Position) :
    (numberLiteral text pos).toOption = Number.read? text.toList := by
  unfold numberLiteral
  cases Number.read? text.toList <;> rfl

mutual

theorem Expression.toOption_ofSurface_unplaced :
    (e : Expr) → (Expression.ofSurface e.unplaced).toOption = (Expression.ofSurface e).toOption
  | .number text pos => by
      simp only [Expr.unplaced, Expression.ofSurface, Checked.toOption_map, toOption_numberLiteral]
  | .var name pos => rfl
  | .thing name pos => rfl
  | .binary op left right pos => by
      have hleft := Expression.toOption_ofSurface_unplaced left
      have hright := Expression.toOption_ofSurface_unplaced right
      simp only [Expr.unplaced, Expression.ofSurface, Checked.toOption_map₂, hleft, hright]
  | .negate operand pos => by
      have hoperand := Expression.toOption_ofSurface_unplaced operand
      simp only [Expr.unplaced, Expression.ofSurface, Checked.toOption_map, hoperand]
  | .apply op operands pos => by
      have hoperands := Expression.toOption_listOfSurface_unplaced operands
      simp only [Expr.unplaced, Expression.ofSurface, Checked.toOption_map, hoperands]
  | .group inner pos => by
      have hinner := Expression.toOption_ofSurface_unplaced inner
      simp only [Expr.unplaced, Expression.ofSurface, hinner]

theorem Expression.toOption_listOfSurface_unplaced :
    (list : List Expr) →
      (Expression.listOfSurface (Expr.listUnplaced list)).toOption = (Expression.listOfSurface list).toOption
  | [] => rfl
  | e :: rest => by
      have he := Expression.toOption_ofSurface_unplaced e
      have hrest := Expression.toOption_listOfSurface_unplaced rest
      simp only [Expr.listUnplaced, Expression.listOfSurface, Checked.toOption_map₂, he, hrest]

end

/-- Trees that differ only in positions have the same value. -/
theorem Expression.ofSurface_congr {t t' : Expr} (hsame : t'.unplaced = t.unplaced) {e : Expression}
    (h : Expression.ofSurface t = .ok e) : Expression.ofSurface t' = .ok e := by
  have hvalue := Checked.toOption_eq_some.2 h
  rw [← toOption_ofSurface_unplaced, ← hsame, toOption_ofSurface_unplaced] at hvalue
  exact Checked.toOption_eq_some.1 hvalue

/-! ## Texts -/

/-- A primary expression that ends a text is a whole expression. -/
theorem Grammar.takes_expression_of_primary {env : Env} {tokens : List Token} {e : Expr}
    (hminus : ahead tokens ≠ some .minus) (hnegate : ahead tokens ≠ some .negate)
    (h : Takes (primary env) tokens e []) : Takes (expression env) tokens e [] := by
  have hle : Rank.comparison ≤ Rank.primary := Nat.zero_le _
  exact takes_of_rank_le hle h (fun _ => ⟨hminus, hnegate⟩) (stops_nil .comparison)

theorem Expression.exists_tree_of_compile {source : String} {tokens : Tokens} {e : Expression}
    (hscan : Tokens.scan source = .ok tokens) (h : Expression.compile source = .ok e) :
    ∃ t, expression (Env.ofTokens tokens) (depthFor tokens.list) tokens.list = .ok t [] ∧
      Expression.ofSurface t = .ok e := by
  simp only [compile, hscan, Bind.bind, Except.bind] at h
  cases hparse : parseExpression tokens with
  | error errors =>
      simp [hparse] at h
  | ok t =>
      simp only [hparse] at h
      refine ⟨t, ?_, h⟩
      simp only [parseExpression] at hparse
      split at hparse
      · rename_i hread
        cases hparse
        exact hread
      · cases hparse
      · cases hparse

theorem Expression.compile_of_takes {source : String} {tokens : Tokens} {t : Expr} {e : Expression}
    (hscan : Tokens.scan source = .ok tokens) (htaken : Takes (expression (Env.ofTokens tokens)) tokens.list t [])
    (hvalue : Expression.ofSurface t = .ok e) : Expression.compile source = .ok e := by
  have hread := htaken.at_depthFor (expression_settles _) (by decide)
  simp only [compile, hscan, Bind.bind, Except.bind, parseExpression, hread, hvalue]

end TurtleLogo
