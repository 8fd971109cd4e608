import Mathlib.Data.List.Forall2
import TurtleLogo.Proofs.Shape

/-!
# What building keeps of a tree

Building gives literals their values and keeps the rest: every command of the program was built from a statement of the
tree, with operands of the kinds of its arguments, and every statement has become one command in the same place. So the
shape of a tree carries over to the program.

`Program.compile_wellFormed` collects what a source text gives its program: commands with the operands that they demand,
definitions only at the top, and calls that fit the first definition of their name.
-/

namespace TurtleLogo

/-! ## Successful checks -/

namespace Checked

variable {α β γ : Type}

theorem ok_of_map {x : Checked α} {f : α → β} {b : β} (h : x.map f = .ok b) : ∃ a, x = .ok a ∧ f a = b := by
  cases x with
  | error errors =>
      cases h
  | ok a =>
      exact ⟨a, rfl, Except.ok.inj h⟩

theorem ok_of_map₂ {f : α → β → γ} {x : Checked α} {y : Checked β} {c : γ} (h : map₂ f x y = .ok c) :
    ∃ a b, x = .ok a ∧ y = .ok b ∧ f a b = c := by
  cases x with
  | error errors =>
      cases y <;> cases h
  | ok a =>
      cases y with
      | error errors =>
          cases h
      | ok b =>
          exact ⟨a, b, rfl, rfl, Except.ok.inj h⟩

/-- What can be computed from a value is computed only if there is one. -/
theorem exists_ok_of_toOption {x : Checked α} {f : α → β} {b : β} (h : x.toOption.map f = some b) :
    ∃ a, x = .ok a ∧ f a = b := by
  cases x with
  | error errors =>
      cases h
  | ok a =>
      exact ⟨a, rfl, Option.some.inj h⟩

/-- A list is built element by element. -/
theorem forall₂_of_ok {f : α → Checked β} {g : List α → Checked (List β)} (hnil : g [] = .ok [])
    (hcons : ∀ a list, g (a :: list) = map₂ List.cons (f a) (g list)) {list : List α} {built : List β}
    (h : g list = .ok built) : List.Forall₂ (fun a b => f a = .ok b) list built := by
  induction list generalizing built with
  | nil =>
      cases hnil.symm.trans h
      exact .nil
  | cons a list ih =>
      rw [hcons] at h
      rcases ok_of_map₂ h with ⟨b, rest, hb, hrest, rfl⟩
      exact .cons hb (ih hrest)

end Checked

theorem exists_left_of_mem {α β : Type} {R : α → β → Prop} {list : List α} {built : List β} (h : List.Forall₂ R list built)
    {b : β} (hmem : b ∈ built) : ∃ a ∈ list, R a b := by
  induction h with
  | nil =>
      cases hmem
  | @cons a b' list built hfirst _ ih =>
      rcases List.mem_cons.1 hmem with rfl | hmem
      · exact ⟨a, List.mem_cons_self, hfirst⟩
      · rcases ih hmem with ⟨a', ha', hR⟩
        exact ⟨a', List.mem_cons_of_mem a ha', hR⟩

theorem Command.forall₂_of_ok {tree : List Surface.Statement} {p : Program} (h : Command.listOfSurface tree = .ok p) :
    List.Forall₂ (fun s command => Command.ofSurface s = .ok command) tree p :=
  Checked.forall₂_of_ok (by rw [listOfSurface]) (fun s rest => by rw [listOfSurface]) h

theorem Operand.forall₂_of_ok {arguments : List Surface.Argument} {operands : List Operand}
    (h : Operand.listOfSurface arguments = .ok operands) :
    List.Forall₂ (fun a operand => Operand.ofSurface a = .ok operand) arguments operands :=
  Checked.forall₂_of_ok (by rw [listOfSurface]) (fun a rest => by rw [listOfSurface]) h

theorem Expression.forall₂_of_ok {list : List Surface.Expr} {built : List Expression}
    (h : Expression.listOfSurface list = .ok built) :
    List.Forall₂ (fun e expression => Expression.ofSurface e = .ok expression) list built :=
  Checked.forall₂_of_ok (by rw [listOfSurface]) (fun e rest => by rw [listOfSurface]) h

/-! ## Operands -/

/-- An operand of the kind of its argument, whose commands were built from the statements of the argument. -/
structure Operand.Builds (a : Surface.Argument) (operand : Operand) : Prop where
  kind_eq : operand.kind = a.kind
  body : ∀ body, operand.body? = some body → ∃ inner, a.body? = some inner ∧ Command.listOfSurface inner = .ok body

theorem Operand.builds_of_ok {a : Surface.Argument} {operand : Operand} (h : Operand.ofSurface a = .ok operand) :
    Builds a operand := by
  cases a with
  | block inner =>
      rw [ofSurface] at h
      rcases Checked.ok_of_map h with ⟨body, hbody, rfl⟩
      refine ⟨rfl, ?_⟩
      rintro _ ⟨⟩
      exact ⟨inner, rfl, hbody⟩
  | value e =>
      rw [ofSurface] at h
      rcases Checked.ok_of_map h with ⟨expression, -, rfl⟩
      exact ⟨rfl, nofun⟩
  | point x y =>
      rw [ofSurface] at h
      rcases Checked.ok_of_map₂ h with ⟨x', y', -, -, rfl⟩
      exact ⟨rfl, nofun⟩
  | colour c =>
      rw [ofSurface] at h
      rcases Checked.ok_of_map h with ⟨c', -, rfl⟩
      exact ⟨rfl, nofun⟩
  | word text pos =>
      rw [ofSurface] at h
      cases h
      exact ⟨rfl, nofun⟩

theorem Operand.kinds_eq {arguments : List Surface.Argument} {operands : List Operand}
    (h : List.Forall₂ Builds arguments operands) : operands.map Operand.kind = arguments.map Surface.Argument.kind := by
  induction h with
  | nil => rfl
  | cons hfirst _ ih => simp [hfirst.kind_eq, ih]

theorem Operand.definition_not_mem {arguments : List Surface.Argument} {operands : List Operand}
    (h : List.Forall₂ Builds arguments operands) (d : Definition) : .definition d ∉ operands := by
  intro hmem
  have hkind : OperandKind.definition ∈ arguments.map Surface.Argument.kind := by
    rw [← kinds_eq h]
    exact List.mem_map_of_mem hmem
  rcases List.mem_map.1 hkind with ⟨a, -, ha⟩
  cases a <;> cases ha

/-! ## Commands -/

/-- A command that was built from a statement. -/
inductive Command.Built : Surface.Statement → Command → Prop where
  | definition {name : String} {params : List String} {body : List Surface.Statement} {commands : List Command}
      {pos : Position} (h : Command.listOfSurface body = .ok commands) :
      Built (.definition name params body pos) ⟨.builtin .define, [.definition ⟨name, params, commands⟩], pos⟩
  | command {b : Builtin} {arguments : List Surface.Argument} {operands : List Operand} {pos : Position}
      (h : List.Forall₂ Operand.Builds arguments operands) :
      Built (.command b arguments pos) ⟨.builtin b, operands, pos⟩
  | call {name : String} {arguments : List Surface.Expr} {values : List Expression} {pos : Position}
      (h : arguments.length = values.length) :
      Built (.call name arguments pos) ⟨.call name, values.map .value, pos⟩

theorem Command.built_of_ok {s : Surface.Statement} {command : Command} (h : Command.ofSurface s = .ok command) :
    Built s command := by
  cases s with
  | definition name params body pos =>
      rw [ofSurface] at h
      rcases Checked.ok_of_map h with ⟨commands, hbody, rfl⟩
      exact .definition hbody
  | command b arguments pos =>
      rw [ofSurface] at h
      rcases Checked.ok_of_map h with ⟨operands, hoperands, rfl⟩
      exact .command ((Operand.forall₂_of_ok hoperands).imp fun _ _ => Operand.builds_of_ok)
  | call name arguments pos =>
      rw [ofSurface] at h
      rcases Checked.ok_of_map h with ⟨values, hvalues, rfl⟩
      exact .call (Expression.forall₂_of_ok hvalues).length_eq

namespace Command.Built

variable {s : Surface.Statement} {command : Command}

theorem exists_body (h : Built s command) {body : List Command} (hbody : body ∈ command.bodies) :
    ∃ inner ∈ s.bodies, Command.listOfSurface inner = .ok body := by
  rcases List.mem_filterMap.1 hbody with ⟨operand, hmem, hoperand⟩
  cases h with
  | definition h =>
      cases List.mem_singleton.1 hmem
      cases hoperand
      exact ⟨_, List.mem_singleton_self _, h⟩
  | command h =>
      rcases exists_left_of_mem h hmem with ⟨a, ha, hbuilds⟩
      rcases hbuilds.body body hoperand with ⟨inner, hinner, hlist⟩
      exact ⟨inner, List.mem_filterMap.2 ⟨a, ha, hinner⟩, hlist⟩
  | call h =>
      rcases List.mem_map.1 hmem with ⟨e, -, rfl⟩
      cases hoperand

/-- A command built from a regular statement, or from a definition, has the operands that it demands. -/
theorem wellTyped {env : Grammar.Env} (h : Built s command)
    (hs : Grammar.Regular env s ∨ (Grammar.header? s).isSome) : command.WellTyped := by
  cases h with
  | definition =>
      rfl
  | command h =>
      rcases hs with hregular | hheader
      · exact (Operand.kinds_eq h).trans hregular
      · cases hheader
  | call h =>
      simp [WellTyped, operandKinds, Function.comp_def, Operand.kind]

theorem exists_call (h : Built s command) {name : String} (head : command.head = .call name) :
    ∃ arguments pos, s = .call name arguments pos ∧ arguments.length = command.operands.length := by
  cases h with
  | definition | command =>
      cases head
  | @call name' arguments values pos h =>
      cases head
      exact ⟨arguments, pos, rfl, by simpa using h⟩

/-- Only a definition has one for an operand, and it has no other operand. -/
theorem definition?_of_mem (h : Built s command) {d : Definition} (hmem : .definition d ∈ command.operands) :
    command.definition? = some d ∧ (Grammar.header? s).isSome := by
  cases h with
  | definition =>
      cases List.mem_singleton.1 hmem
      exact ⟨rfl, rfl⟩
  | command h =>
      exact absurd hmem (Operand.definition_not_mem h d)
  | call =>
      simp at hmem

/-- The header of a definition is that of its statement. -/
theorem header_eq (h : Built s command) :
    command.definition?.map (fun d => (d.name, d.params.length)) = Grammar.header? s := by
  cases hdefinition : command.definition? with
  | some d =>
      have hheader := (h.definition?_of_mem (Command.definition_mem_of_definition? hdefinition)).2
      cases h with
      | definition =>
          cases hdefinition
          rfl
      | command | call =>
          cases hheader
  | none =>
      cases h with
      | definition =>
          cases hdefinition
      | command | call =>
          rfl

end Command.Built

/-! ## Programs -/

/-- Every command of a program was built from a statement of the tree. -/
theorem Command.exists_statement {tree : List Surface.Statement} {p : Program} {command : Command}
    (h : Command.listOfSurface tree = .ok p) (hholds : p.Holds command) :
    ∃ s, Within Surface.Statement.bodies s tree ∧ Command.ofSurface s = .ok command := by
  induction hholds generalizing tree with
  | here mem =>
      rcases exists_left_of_mem (Command.forall₂_of_ok h) mem with ⟨s, hs, hbuilt⟩
      exact ⟨s, .here hs, hbuilt⟩
  | inside mem part _ ih =>
      -- The body belongs to a command of this list; its own list of statements is one level further in.
      rcases exists_left_of_mem (Command.forall₂_of_ok h) mem with ⟨outer, houter, hbuilt⟩
      rcases (Command.built_of_ok hbuilt).exists_body part with ⟨inner, hinner, hlist⟩
      rcases ih hlist with ⟨s, hs, hbuilt⟩
      exact ⟨s, .inside houter hinner hs, hbuilt⟩

theorem Program.headers_eq {tree : List Surface.Statement} {p : Program}
    (h : List.Forall₂ (fun s command => Command.ofSurface s = .ok command) tree p) :
    p.definitions.map (fun d => (d.name, d.params.length)) = tree.filterMap Grammar.header? := by
  induction h with
  | nil =>
      rfl
  | @cons s command tree p hfirst _ ih =>
      have hheader := (Command.built_of_ok hfirst).header_eq
      simp only [definitions, List.filterMap_cons, ← hheader] at ih ⊢
      cases command.definition? <;> simp [ih]

namespace Program

/-- The first definition of a name in the text. -/
def firstDefinition? (p : Program) (name : String) : Option Definition :=
  p.definitions.find? (name == ·.name)

theorem lookup_headers (definitions : List Definition) (name : String) :
    (definitions.map fun d => (d.name, d.params.length)).lookup name =
      (definitions.find? (name == ·.name)).map (·.params.length) := by
  induction definitions with
  | nil =>
      rfl
  | cons d definitions ih =>
      cases hname : name == d.name with
      | true => simp [List.lookup_cons, hname]
      | false => simp [List.lookup_cons, hname, ih]

/-- What a program has from the text it was read from. -/
structure WellFormed (p : Program) : Prop where
  typed : ∀ command, p.Holds command → command.WellTyped
  /-- Definitions stand only at the top. -/
  top : ∀ d, p.Defines d → d ∈ p.definitions
  counts : ∀ command name d, p.Holds command → command.head = .call name → p.firstDefinition? name = some d →
    command.operands.length = d.params.length

theorem wellFormed_of_tree {tokens : Tokens} {tree : List Surface.Statement} {p : Program}
    (htree : Grammar.TreeRead (Grammar.Env.ofTokens tokens) tokens.list tree)
    (h : Command.listOfSurface tree = .ok p) : p.WellFormed where
  typed command hholds := by
    rcases Command.exists_statement h hholds with ⟨s, hs, hbuilt⟩
    exact (Command.built_of_ok hbuilt).wellTyped ((htree.regular s hs).imp_right And.right)
  top d hdefines := by
    rcases hdefines with ⟨command, hholds, hmem⟩
    rcases Command.exists_statement h hholds with ⟨s, hs, hbuilt⟩
    rcases (Command.built_of_ok hbuilt).definition?_of_mem hmem with ⟨hdefinition, hheader⟩
    -- The statement stands in the tree itself, and so does what was built from it in the program.
    rcases exists_left_of_mem (Command.forall₂_of_ok h).flip (htree.mem_of_header hs hheader) with
      ⟨command', hmem', hbuilt'⟩
    cases Except.ok.inj (hbuilt.symm.trans hbuilt')
    exact List.mem_filterMap.2 ⟨command, hmem', hdefinition⟩
  counts command name d hholds head hfirst := by
    rcases Command.exists_statement h hholds with ⟨s, hs, hbuilt⟩
    rcases (Command.built_of_ok hbuilt).exists_call head with ⟨arguments, pos, rfl, hlength⟩
    have hcount : (Grammar.Env.ofTokens tokens).paramCount? name = some d.params.length := by
      calc (Grammar.headers tokens.list).lookup name
          = (p.definitions.map fun d => (d.name, d.params.length)).lookup name := by
            rw [htree.headers_eq, headers_eq (Command.forall₂_of_ok h)]
        _ = (p.firstDefinition? name).map (·.params.length) := lookup_headers p.definitions name
        _ = some d.params.length := by rw [hfirst, Option.map_some]
    rcases htree.regular _ hs with hregular | ⟨-, hheader⟩
    · exact hlength.symm.trans (hregular _ hcount)
    · cases hheader

theorem compile_wellFormed {source : String} {p : Program} (h : compile source = .ok p) : p.WellFormed := by
  unfold compile at h
  cases htree : Surface.parse source with
  | error errors =>
      simp [htree, Bind.bind, Except.bind] at h
  | ok tree =>
      simp only [htree, Bind.bind, Except.bind] at h
      rcases Surface.exists_treeRead htree with ⟨tokens, hread⟩
      exact wellFormed_of_tree hread h

end Program
end TurtleLogo
