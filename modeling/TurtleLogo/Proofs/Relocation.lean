import TurtleLogo.Proofs.CaseBlindness
import TurtleLogo.Proofs.Partition

/-!
# Positions moved

A text can stand below another one. Its tokens, trees, errors and programs then are what they were, with all positions moved
by one map, and nothing but the errors depends on the positions. So moving commutes with scanning
(`placed_joined`) and with building (`Command.listOfSurface_relocated`). No token or fault reaches over the end of a line,
so that the errors of two texts on lines of their own are those of each, and so are the tokens
(`Tokens.filterMap_error?_joined`, `Tokens.filterMap_token?_joined`).
-/

namespace TurtleLogo

/-! ## Tokens and errors -/

/-- The position so many lines further down. -/
def Position.down (lines : Nat) (p : Position) : Position :=
  ⟨p.line + lines, p.column⟩

def Token.relocated (f : Position → Position) (token : Token) : Token :=
  ⟨token.lexeme, f token.pos⟩

def BuildError.relocated (f : Position → Position) (e : BuildError) : BuildError :=
  ⟨f e.pos, e.cause⟩

theorem Token.map_relocated_id (tokens : List Token) : tokens.map (Token.relocated id) = tokens :=
  List.map_id tokens

namespace Position

theorem next_down (lines : Nat) (p : Position) (c : Char) : (p.down lines).next c = (p.next c).down lines := by
  by_cases hc : c = '\n'
  · simp [next, down, hc, Nat.add_right_comm]
  · simp [next, down, hc]

theorem after_down (lines : Nat) (p : Position) (text : List Char) :
    (p.down lines).after text = (p.after text).down lines := by
  induction text generalizing p with
  | nil => rfl
  | cons c text ih => rw [after_cons, next_down, ih, after_cons]

/-- A line break after a text leads to the beginning of the line below it. -/
theorem next_after_start (text : List Char) : (start.after text).next '\n' = start.down (1 + text.count '\n') := by
  have hafter : start.after text = behind text := after_behind [] text
  have hlines : 1 + text.count '\n' + 1 = 1 + (1 + text.count '\n') := by
    omega
  rw [hafter]
  exact congrArg (Position.mk · 1) hlines

end Position

/-! ## Scanning -/

theorem placed_append (pos : Position) (first second : List Segment) :
    placed pos (first ++ second) = placed pos first ++ placed (pos.after (first.flatMap Segment.text)) second := by
  induction first generalizing pos with
  | nil => rfl
  | cons segment first ih => simp [placed, ih]

theorem placed_down (lines : Nat) (pos : Position) (list : List Segment) :
    placed (pos.down lines) list = (placed pos list).map (Prod.map (Position.down lines) id) := by
  induction list generalizing pos with
  | nil => rfl
  | cons segment list ih => simp [placed, Position.after_down, ih]

/-- A text below another one is cut as it would be alone. -/
theorem placed_joined (first second : String) :
    placed .start (segments none (first ++ "\n" ++ second).toList) =
      placed .start (segments none first.toList) ++ (Position.behind first.toList, .blank '\n') ::
        (placed .start (segments none second.toList)).map
          (Prod.map (Position.down (1 + first.toList.count '\n')) id) := by
  have htext : (first ++ "\n" ++ second).toList = first.toList ++ '\n' :: second.toList := by
    simp [String.toList_append]
  have hsecond : segments (some '\n') second.toList = segments none second.toList :=
    segments_congr (show opensOperand (some '\n') = opensOperand none from rfl) second.toList
  have hstart : Position.start.after first.toList = Position.behind first.toList :=
    Position.after_behind [] first.toList
  have hbreak : (Position.behind first.toList).after ['\n'] = Position.start.down (1 + first.toList.count '\n') :=
    hstart ▸ Position.next_after_start first.toList
  rw [htext, segments_append_newline, hsecond, placed_append, flatMap_text_segments, hstart, placed, Segment.text, hbreak,
    placed_down]

theorem Tokens.filterMap_token?_moved (f : Position → Position) (pieces : List (Position × Segment)) :
    (pieces.map (Prod.map f id)).filterMap token? = (pieces.filterMap token?).map (Token.relocated f) := by
  rw [List.filterMap_map, List.map_filterMap]
  congr 1
  funext piece
  rcases piece with ⟨pos, segment⟩
  cases segment <;> rfl

theorem Tokens.filterMap_error?_moved (f : Position → Position) (pieces : List (Position × Segment)) :
    (pieces.map (Prod.map f id)).filterMap error? = (pieces.filterMap error?).map (BuildError.relocated f) := by
  rw [List.filterMap_map, List.map_filterMap]
  congr 1
  funext piece
  rcases piece with ⟨pos, segment⟩
  cases segment <;> rfl

/-- The errors of a check, none if it succeeded. -/
def Checked.errors {α : Type} : Checked α → List BuildError
  | .ok _ => []
  | .error errors => errors

theorem Tokens.errors_scan (source : String) :
    Checked.errors (scan source) = (placed .start (segments none source.toList)).filterMap error? := by
  simp only [scan]
  split
  · rename_i herrors
    exact herrors.symm
  · rfl

theorem Tokens.scan_eq_ok_iff {source : String} {tokens : Tokens} :
    scan source = .ok tokens ↔
      (placed .start (segments none source.toList)).filterMap error? = [] ∧
        (placed .start (segments none source.toList)).filterMap token? = tokens.list ∧
          Position.start.after source.toList = tokens.finish := by
  simp only [scan]
  split
  · rename_i herrors
    rw [Except.ok.injEq, Tokens.mk.injEq]
    exact ⟨fun h => ⟨herrors, h⟩, And.right⟩
  · rename_i herrors
    constructor
    · intro h
      cases h
    · intro h
      exact (herrors h.1).elim

theorem Tokens.of_scan {source : String} {tokens : Tokens} (h : scan source = .ok tokens) :
    (placed .start (segments none source.toList)).filterMap error? = [] ∧
      (placed .start (segments none source.toList)).filterMap token? = tokens.list ∧
        Position.start.after source.toList = tokens.finish :=
  scan_eq_ok_iff.1 h

/-- The tokens of a text that follow those of another one, some lines further down. -/
def Tokens.below (first second : Tokens) (lines : Nat) : Tokens where
  list := first.list ++ second.list.map (Token.relocated (Position.down lines))
  finish := second.finish.down lines

section

variable (first second : String)

theorem Tokens.filterMap_token?_joined :
    (placed .start (segments none (first ++ "\n" ++ second).toList)).filterMap token? =
      (placed .start (segments none first.toList)).filterMap token? ++
        ((placed .start (segments none second.toList)).filterMap token?).map
          (Token.relocated (Position.down (1 + first.toList.count '\n'))) := by
  have hbreak : token? (Position.behind first.toList, .blank '\n') = none := rfl
  rw [placed_joined, List.filterMap_append, List.filterMap_cons, hbreak, filterMap_token?_moved]

theorem Tokens.filterMap_error?_joined :
    (placed .start (segments none (first ++ "\n" ++ second).toList)).filterMap error? =
      (placed .start (segments none first.toList)).filterMap error? ++
        ((placed .start (segments none second.toList)).filterMap error?).map
          (BuildError.relocated (Position.down (1 + first.toList.count '\n'))) := by
  have hbreak : error? (Position.behind first.toList, .blank '\n') = none := rfl
  rw [placed_joined, List.filterMap_append, List.filterMap_cons, hbreak, filterMap_error?_moved]

theorem Position.after_joined :
    start.after (first ++ "\n" ++ second).toList = (start.after second.toList).down (1 + first.toList.count '\n') := by
  have htext : (first ++ "\n" ++ second).toList = first.toList ++ '\n' :: second.toList := by
    simp [String.toList_append]
  rw [htext, after_append, after_cons, next_after_start, after_down]

end

theorem Tokens.scan_joined {first second : String} {tokens tokens' : Tokens} (hfirst : scan first = .ok tokens)
    (hsecond : scan second = .ok tokens') :
    scan (first ++ "\n" ++ second) = .ok (tokens.below tokens' (1 + first.toList.count '\n')) := by
  rcases of_scan hfirst with ⟨herrors, htokens, -⟩
  rcases of_scan hsecond with ⟨herrors', htokens', hfinish'⟩
  rw [scan_eq_ok_iff, filterMap_error?_joined, filterMap_token?_joined, Position.after_joined, herrors, herrors', htokens,
    htokens', hfinish']
  exact ⟨rfl, rfl, rfl⟩

/-- Scanning never looks beyond a line break. Of two texts one below the other, the errors are those of the first and then
those of the second; if there are none, the tokens are those of the first and then those of the second, and the end is that
of the second. What belongs to the second has moved down by the lines of the first, and no column has changed. -/
theorem Tokens.scanning_is_local_to_lines (first second : String) :
    let lines := 1 + first.toList.count '\n'
    Checked.errors (scan (first ++ "\n" ++ second)) =
        Checked.errors (scan first) ++ (Checked.errors (scan second)).map (BuildError.relocated (Position.down lines)) ∧
      ∀ joined, scan (first ++ "\n" ++ second) = .ok joined ↔
        ∃ tokens tokens', scan first = .ok tokens ∧ scan second = .ok tokens' ∧ joined = tokens.below tokens' lines := by
  refine ⟨?_, fun joined => ⟨fun h => ?_, ?_⟩⟩
  · rw [errors_scan, errors_scan, errors_scan, filterMap_error?_joined]
  · -- Without an error in the joined text there is none in either part.
    have herrors := (of_scan h).1
    rw [filterMap_error?_joined, List.append_eq_nil_iff, List.map_eq_nil_iff] at herrors
    have hfirst : scan first = .ok ⟨_, _⟩ := scan_eq_ok_iff.2 ⟨herrors.1, rfl, rfl⟩
    have hsecond : scan second = .ok ⟨_, _⟩ := scan_eq_ok_iff.2 ⟨herrors.2, rfl, rfl⟩
    exact ⟨_, _, hfirst, hsecond, Except.ok.inj (h.symm.trans (scan_joined hfirst hsecond))⟩
  · rintro ⟨tokens, tokens', hfirst, hsecond, rfl⟩
    exact scan_joined hfirst hsecond

-- The first minus sign ends a line and the second begins one; the form feed is no blank for a token.
example : Tokens.scan "é \x0c -\n-1 \"" =
    .error [⟨⟨1, 1⟩, .unexpectedCharacter 'é'⟩, ⟨⟨1, 3⟩, .unexpectedCharacter '\x0c'⟩, ⟨⟨2, 4⟩, .emptyWord⟩] := by
  decide +kernel

/-! ## Trees -/

namespace Surface

mutual

/-- The expression with its positions moved. -/
def Expr.relocated (f : Position → Position) : Expr → Expr
  | .number text pos => .number text (f pos)
  | .var name pos => .var name (f pos)
  | .thing name pos => .thing name (f pos)
  | .binary op left right pos => .binary op (left.relocated f) (right.relocated f) (f pos)
  | .negate operand pos => .negate (operand.relocated f) (f pos)
  | .apply op operands pos => .apply op (Expr.listRelocated f operands) (f pos)
  | .group inner pos => .group (inner.relocated f) (f pos)

def Expr.listRelocated (f : Position → Position) : List Expr → List Expr
  | [] => []
  | e :: rest => e.relocated f :: Expr.listRelocated f rest

end

def ColourArgument.relocated (f : Position → Position) : ColourArgument → ColourArgument
  | .word text pos => .word text (f pos)
  | .rgb red green blue => .rgb (red.relocated f) (green.relocated f) (blue.relocated f)
  | .index e => .index (e.relocated f)

mutual

/-- The statement with its positions moved. -/
def Statement.relocated (f : Position → Position) : Statement → Statement
  | .definition name params body pos => .definition name params (Statement.listRelocated f body) (f pos)
  | .command b arguments pos => .command b (Argument.listRelocated f arguments) (f pos)
  | .call name arguments pos => .call name (Expr.listRelocated f arguments) (f pos)

def Statement.listRelocated (f : Position → Position) : List Statement → List Statement
  | [] => []
  | s :: rest => s.relocated f :: Statement.listRelocated f rest

def Argument.relocated (f : Position → Position) : Argument → Argument
  | .value e => .value (e.relocated f)
  | .block body => .block (Statement.listRelocated f body)
  | .point x y => .point (x.relocated f) (y.relocated f)
  | .colour c => .colour (c.relocated f)
  | .word text pos => .word text (f pos)

def Argument.listRelocated (f : Position → Position) : List Argument → List Argument
  | [] => []
  | a :: rest => a.relocated f :: Argument.listRelocated f rest

end

theorem Expr.pos_relocated (f : Position → Position) (e : Expr) : (e.relocated f).pos = f e.pos := by
  cases e <;> simp [Expr.relocated, Expr.pos]

theorem Statement.listRelocated_eq_map (f : Position → Position) (list : List Statement) :
    Statement.listRelocated f list = list.map (Statement.relocated f) := by
  induction list with
  | nil => rw [Statement.listRelocated, List.map_nil]
  | cons s list ih => rw [Statement.listRelocated, ih, List.map_cons]

theorem header?_relocated (f : Position → Position) (s : Statement) :
    Grammar.header? (s.relocated f) = Grammar.header? s := by
  cases s <;> simp [Statement.relocated, Grammar.header?]

mutual

theorem Expr.relocated_id : (e : Expr) → e.relocated id = e
  | .number _ _ | .var _ _ | .thing _ _ => by simp [Expr.relocated]
  | .binary _ left right _ => by simp [Expr.relocated, Expr.relocated_id left, Expr.relocated_id right]
  | .negate operand _ => by simp [Expr.relocated, Expr.relocated_id operand]
  | .apply _ operands _ => by simp [Expr.relocated, Expr.listRelocated_id operands]
  | .group inner _ => by simp [Expr.relocated, Expr.relocated_id inner]

theorem Expr.listRelocated_id : (list : List Expr) → Expr.listRelocated id list = list
  | [] => by simp [Expr.listRelocated]
  | e :: rest => by simp [Expr.listRelocated, Expr.relocated_id e, Expr.listRelocated_id rest]

end

theorem ColourArgument.relocated_id (c : ColourArgument) : c.relocated id = c := by
  cases c <;> simp [ColourArgument.relocated, Expr.relocated_id]

mutual

theorem Statement.relocated_id : (s : Statement) → s.relocated id = s
  | .definition _ _ body _ => by simp [Statement.relocated, Statement.listRelocated_id body]
  | .command _ arguments _ => by simp [Statement.relocated, Argument.listRelocated_id arguments]
  | .call _ arguments _ => by simp [Statement.relocated, Expr.listRelocated_id arguments]

theorem Statement.listRelocated_id : (list : List Statement) → Statement.listRelocated id list = list
  | [] => by simp [Statement.listRelocated]
  | s :: rest => by simp [Statement.listRelocated, Statement.relocated_id s, Statement.listRelocated_id rest]

theorem Argument.relocated_id : (a : Argument) → a.relocated id = a
  | .value e => by simp [Argument.relocated, Expr.relocated_id e]
  | .block body => by simp [Argument.relocated, Statement.listRelocated_id body]
  | .point x y => by simp [Argument.relocated, Expr.relocated_id]
  | .colour c => by simp [Argument.relocated, ColourArgument.relocated_id c]
  | .word _ _ => by simp [Argument.relocated]

theorem Argument.listRelocated_id : (list : List Argument) → Argument.listRelocated id list = list
  | [] => by simp [Argument.listRelocated]
  | a :: rest => by simp [Argument.listRelocated, Argument.relocated_id a, Argument.listRelocated_id rest]

end

end Surface

/-! ## Programs -/

mutual

/-- The command with its positions moved, and those of all commands that it holds. -/
def Command.relocated (f : Position → Position) : Command → Command
  | ⟨head, operands, pos⟩ => ⟨head, Operand.listRelocated f operands, f pos⟩

def Operand.relocated (f : Position → Position) : Operand → Operand
  | .value e => .value e
  | .block body => .block (Command.listRelocated f body)
  | .point x y => .point x y
  | .colour c => .colour c
  | .name name => .name name
  | .definition d => .definition (d.relocated f)

def Operand.listRelocated (f : Position → Position) : List Operand → List Operand
  | [] => []
  | o :: rest => o.relocated f :: Operand.listRelocated f rest

def Definition.relocated (f : Position → Position) : Definition → Definition
  | ⟨name, params, body⟩ => ⟨name, params, Command.listRelocated f body⟩

def Command.listRelocated (f : Position → Position) : List Command → List Command
  | [] => []
  | c :: rest => c.relocated f :: Command.listRelocated f rest

end

theorem Command.listRelocated_eq_map (f : Position → Position) (list : List Command) :
    Command.listRelocated f list = list.map (Command.relocated f) := by
  induction list with
  | nil => rw [Command.listRelocated, List.map_nil]
  | cons c list ih => rw [Command.listRelocated, ih, List.map_cons]

theorem Operand.listRelocated_values (f : Position → Position) (values : List Expression) :
    Operand.listRelocated f (values.map .value) = values.map .value := by
  induction values with
  | nil => simp [Operand.listRelocated]
  | cons e values ih => simp [Operand.listRelocated, Operand.relocated, ih]

/-! ## Building -/

/-- The outcome with its positions moved, those of its errors by the same map as those of its value. -/
def Checked.relocated {α : Type} (f : Position → Position) (move : α → α) (x : Checked α) : Checked α :=
  (x.map move).mapError (List.map (BuildError.relocated f))

namespace Checked

variable {α β γ : Type} (f : Position → Position) {move : α → α} {move' : β → β} {move'' : γ → γ}

theorem map_relocated {g g' : α → β} (hg : ∀ a, g' (move a) = move' (g a)) (x : Checked α) :
    (x.relocated f move).map g' = relocated f move' (x.map g) := by
  cases x with
  | error errors => rfl
  | ok a => exact congrArg Except.ok (hg a)

theorem map₂_relocated {g : α → β → γ} (hg : ∀ a b, g (move a) (move' b) = move'' (g a b)) (x : Checked α)
    (y : Checked β) : map₂ g (x.relocated f move) (y.relocated f move') = (map₂ g x y).relocated f move'' := by
  cases x with
  | error errors => cases y <;> simp [relocated, map₂, Except.map, Except.mapError]
  | ok a =>
      cases y with
      | error errors => rfl
      | ok b => exact congrArg Except.ok (hg a b)

end Checked

section

variable (f : Position → Position)

mutual

/-- The values of literals do not depend on where they stand. -/
theorem Expression.ofSurface_relocated (e : Surface.Expr) :
    Expression.ofSurface (e.relocated f) = (Expression.ofSurface e).relocated f id := by
  cases e with
  | number text pos =>
      rw [Surface.Expr.relocated, Expression.ofSurface, Expression.ofSurface, numberLiteral, numberLiteral]
      cases Number.read? text.toList <;> rfl
  | var => rfl
  | thing => rfl
  | binary op left right pos =>
      rw [Surface.Expr.relocated, Expression.ofSurface, Expression.ofSurface_relocated left,
        Expression.ofSurface_relocated right, Expression.ofSurface]
      exact Checked.map₂_relocated f (by exact fun _ _ => rfl) _ _
  | negate operand pos =>
      rw [Surface.Expr.relocated, Expression.ofSurface, Expression.ofSurface_relocated operand, Expression.ofSurface]
      exact Checked.map_relocated f (by exact fun _ => rfl) _
  | apply op operands pos =>
      rw [Surface.Expr.relocated, Expression.ofSurface, Expression.listOfSurface_relocated operands, Expression.ofSurface]
      exact Checked.map_relocated f (by exact fun _ => rfl) _
  | group inner pos =>
      rw [Surface.Expr.relocated, Expression.ofSurface, Expression.ofSurface_relocated inner, Expression.ofSurface]

theorem Expression.listOfSurface_relocated (list : List Surface.Expr) :
    Expression.listOfSurface (Surface.Expr.listRelocated f list) = (Expression.listOfSurface list).relocated f id := by
  cases list with
  | nil => rfl
  | cons e rest =>
      rw [Surface.Expr.listRelocated, Expression.listOfSurface, Expression.ofSurface_relocated e,
        Expression.listOfSurface_relocated rest, Expression.listOfSurface]
      exact Checked.map₂_relocated f (by exact fun _ _ => rfl) _ _

end

theorem colourWord_relocated (word : String) (pos : Position) :
    colourWord word (f pos) = (colourWord word pos).mapError (BuildError.relocated f) := by
  unfold colourWord
  split
  · cases Colour.ofHex? word <;> rfl
  · cases Colour.named? word <;> rfl

theorem ColourExpression.ofSurface_relocated (c : Surface.ColourArgument) :
    ColourExpression.ofSurface (c.relocated f) = (ColourExpression.ofSurface c).relocated f id := by
  cases c with
  | word text pos =>
      rw [Surface.ColourArgument.relocated, ColourExpression.ofSurface, colourWord_relocated, ColourExpression.ofSurface]
      cases colourWord text pos <;> rfl
  | rgb red green blue =>
      rw [Surface.ColourArgument.relocated, ColourExpression.ofSurface, Expression.ofSurface_relocated,
        Expression.ofSurface_relocated, Expression.ofSurface_relocated, ColourExpression.ofSurface]
      cases Expression.ofSurface red <;> cases Expression.ofSurface green <;> cases Expression.ofSurface blue <;>
        simp [Checked.relocated, Checked.map₂, Except.map, Except.mapError]
  | index index =>
      rw [Surface.ColourArgument.relocated, ColourExpression.ofSurface, Expression.ofSurface_relocated,
        ColourExpression.ofSurface]
      exact Checked.map_relocated f (by exact fun _ => rfl) _

mutual

theorem Command.ofSurface_relocated (s : Surface.Statement) :
    Command.ofSurface (s.relocated f) = (Command.ofSurface s).relocated f (Command.relocated f) := by
  cases s with
  | definition name params body pos =>
      rw [Surface.Statement.relocated, Command.ofSurface, Command.listOfSurface_relocated body, Command.ofSurface]
      refine Checked.map_relocated f (fun commands => ?_) _
      simp [Command.relocated, Operand.listRelocated, Operand.relocated, Definition.relocated]
  | command builtin arguments pos =>
      rw [Surface.Statement.relocated, Command.ofSurface, Operand.listOfSurface_relocated arguments, Command.ofSurface]
      refine Checked.map_relocated f (fun operands => ?_) _
      rw [Command.relocated]
  | call name arguments pos =>
      rw [Surface.Statement.relocated, Command.ofSurface, Expression.listOfSurface_relocated f arguments,
        Command.ofSurface]
      refine Checked.map_relocated f (fun values => ?_) _
      rw [Command.relocated, Operand.listRelocated_values]
      rfl

theorem Operand.ofSurface_relocated (a : Surface.Argument) :
    Operand.ofSurface (a.relocated f) = (Operand.ofSurface a).relocated f (Operand.relocated f) := by
  cases a with
  | value e =>
      rw [Surface.Argument.relocated, Operand.ofSurface, Expression.ofSurface_relocated, Operand.ofSurface]
      refine Checked.map_relocated f (fun e => ?_) _
      rw [Operand.relocated]
      rfl
  | block body =>
      rw [Surface.Argument.relocated, Operand.ofSurface, Command.listOfSurface_relocated body, Operand.ofSurface]
      refine Checked.map_relocated f (fun commands => ?_) _
      rw [Operand.relocated]
  | point x y =>
      rw [Surface.Argument.relocated, Operand.ofSurface, Expression.ofSurface_relocated, Expression.ofSurface_relocated,
        Operand.ofSurface]
      refine Checked.map₂_relocated f (fun x y => ?_) _ _
      rw [Operand.relocated]
      rfl
  | colour c =>
      rw [Surface.Argument.relocated, Operand.ofSurface, ColourExpression.ofSurface_relocated, Operand.ofSurface]
      refine Checked.map_relocated f (fun c => ?_) _
      rw [Operand.relocated]
      rfl
  | word text pos =>
      rw [Surface.Argument.relocated, Operand.ofSurface, Operand.ofSurface]
      exact congrArg Except.ok (by rw [Operand.relocated])

theorem Operand.listOfSurface_relocated (list : List Surface.Argument) :
    Operand.listOfSurface (Surface.Argument.listRelocated f list) =
      (Operand.listOfSurface list).relocated f (Operand.listRelocated f) := by
  cases list with
  | nil =>
      rw [Surface.Argument.listRelocated, Operand.listOfSurface]
      exact congrArg Except.ok (by rw [Operand.listRelocated])
  | cons a rest =>
      rw [Surface.Argument.listRelocated, Operand.listOfSurface, Operand.ofSurface_relocated a,
        Operand.listOfSurface_relocated rest, Operand.listOfSurface]
      exact Checked.map₂_relocated f (fun _ _ => by rw [Operand.listRelocated]) _ _

theorem Command.listOfSurface_relocated (list : List Surface.Statement) :
    Command.listOfSurface (Surface.Statement.listRelocated f list) =
      (Command.listOfSurface list).relocated f (Command.listRelocated f) := by
  cases list with
  | nil =>
      rw [Surface.Statement.listRelocated, Command.listOfSurface]
      exact congrArg Except.ok (by rw [Command.listRelocated])
  | cons s rest =>
      rw [Surface.Statement.listRelocated, Command.listOfSurface, Command.ofSurface_relocated s,
        Command.listOfSurface_relocated rest, Command.listOfSurface]
      exact Checked.map₂_relocated f (fun _ _ => by rw [Command.listRelocated]) _ _

end

end

end TurtleLogo
