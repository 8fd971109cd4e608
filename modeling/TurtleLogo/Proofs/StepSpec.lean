import Mathlib.Data.List.Basic
import TurtleLogo.Proofs.Derivation

/-!
# What a command can lead to

`Command.step` checks the operands of a command, evaluates them and says what is left to do. This module says once what
can come out of that, so that no later proof has to look at the commands one by one:

* `Command.Leads c command s` — the steps of a command that does not fail;
* `Command.Fails c command fault` — the faults of a command that does.

`Command.step_spec` is the one proof by cases over all commands.
-/

namespace TurtleLogo

/-! ## Computations that can fail -/

/-- The value of a computation has one property, or its error has the other. -/
def Ensures {ε α : Type} (x : Except ε α) (Q : α → Prop) (E : ε → Prop) : Prop :=
  match x with
  | .ok a => Q a
  | .error e => E e

namespace Ensures

variable {ε α β : Type} {E F : ε → Prop}

theorem bind {x : Except ε α} {f : α → Except ε β} {P : α → Prop} {Q : β → Prop} (hx : Ensures x P E)
    (hf : ∀ a, P a → Ensures (f a) Q E) : Ensures (x >>= f) Q E := by
  cases x with
  | ok a => exact hf a hx
  | error e => exact hx

theorem mono {x : Except ε α} {P Q : α → Prop} (hx : Ensures x P E) (hok : ∀ a, P a → Q a)
    (herror : ∀ e, E e → F e) : Ensures x Q F := by
  cases x with
  | ok a => exact hok a hx
  | error e => exact herror e hx

end Ensures

/-! ## Kinds and parts of operands -/

namespace Operand

def kind : Operand → OperandKind
  | value _ => .value
  | block _ => .block
  | point _ _ => .point
  | colour _ => .colour
  | name _ => .name
  | definition _ => .definition

end Operand

def ColourExpression.expressions : ColourExpression → List Expression
  | .palette index => [index]
  | .rgb red green blue => [red, green, blue]
  | .literal _ => []

/-- The expressions that an operand itself holds, those of its commands left out. -/
def Operand.expressions : Operand → List Expression
  | .value e => [e]
  | .point x y => [x, y]
  | .colour c => c.expressions
  | _ => []

/-- The kind of operand that an argument of this form becomes. -/
def ArgumentForm.kind : ArgumentForm → OperandKind
  | .value | .condition => .value
  | .block => .block
  | .point => .point
  | .colour => .colour
  | .word => .name

/-- The operands that a built-in command has when it was read from a text. -/
def Builtin.operandKinds : Builtin → List OperandKind
  | .define => [.definition]
  | b => b.signature.map ArgumentForm.kind

/-- The operands that a command should have; a call takes any number of values. -/
def Command.operandKinds (command : Command) : List OperandKind :=
  match command.head with
  | .builtin b => b.operandKinds
  | .call _ => List.replicate command.operands.length .value

/-- Every operand is of the kind that the command demands in its place. -/
def Command.WellTyped (command : Command) : Prop :=
  command.operands.map Operand.kind = command.operandKinds

/-- A number that no part of a drawing can have: a palette index, an intensity or a pen size out of its range. -/
def Fault.IsRange : Fault → Prop
  | .paletteIndex _ | .colourIntensity _ | .invalidPenSize _ => True
  | _ => False

/-! ## Steps and faults of commands -/

/-- The expression that says how far a command turns the turtle, or where to. -/
def Command.angle? (command : Command) : Option Expression :=
  match command.head, command.operands with
  | .builtin .right, [.value e] | .builtin .left, [.value e] | .builtin .setHeading, [.value e] => some e
  | _, _ => none

/-- Where the data of an effect come from: pen widths have passed their check, angles are values of the operand that says
them, definitions are operands, and only the commands named for it lift or lower the pen and send the turtle home. -/
def Effect.From (c : Context) (command : Command) : Effect → Prop
  | .setPenWidth width => ∃ size, Context.penWidth size = .ok width
  | .face angle => ∃ e bearing, command.angle? = some e ∧ c.eval e = .ok bearing ∧
      angle = Number.quarterTurn - Number.toRadians bearing
  | .turn angle => ∃ e degrees, command.angle? = some e ∧ c.eval e = .ok degrees ∧
      (angle = Number.toRadians degrees ∨ angle = -Number.toRadians degrees)
  | .setPenDown isDown => command.head = .builtin (if isDown then .penDown else .penUp)
  | .home => command.head = .builtin .home
  | .define d => .definition d ∈ command.operands
  | _ => True

namespace Command

inductive Leads (c : Context) (command : Command) : Step → Prop where
  | effect {b : Builtin} {e : Effect} (head : command.head = .builtin b) (source : e.From c command) :
      Leads c command (.effect e)
  | stop (head : command.head = .builtin .stop) : Leads c command .stop
  | series {b : Builtin} {s : Step} {series : Series} (head : command.head = .builtin b)
      (series? : s.series? = some series) (block : .block series.body ∈ command.operands)
      (endless : ∀ body, series = .forever body → b = .forever) : Leads c command s
  | call {name : String} {d : Definition} {values : List Float32} (head : command.head = .call name)
      (found : c.procedures.find? name command.operands.length = some d)
      (length : values.length = command.operands.length) : Leads c command (.call d values)

inductive Fails (c : Context) (command : Command) : Fault → Prop where
  | count (h : command.operands.length ≠ command.operandKinds.length) :
      Fails c command (.arity command.head.name (.exactly command.operandKinds.length) command.operands.length)
  | kind {index : Nat} {kind : OperandKind} {operand : Operand}
      (wanted : command.operandKinds[index]? = some kind) (given : command.operands[index]? = some operand)
      (h : operand.kind ≠ kind) : Fails c command (.typeMismatch command.head.name index kind)
  | value {fault : Fault} {operand : Operand} {e : Expression} (mem : operand ∈ command.operands)
      (part : e ∈ operand.expressions) (h : c.eval e = .error fault) : Fails c command fault
  | range {fault : Fault} (h : fault.IsRange) : Fails c command fault
  | undefined {name : String} (head : command.head = .call name)
      (h : c.procedures.find? name command.operands.length = none) :
      Fails c command (.undefinedProcedure name command.operands.length)

end Command

/-! ## Operands -/

namespace Operand

variable {op : String} {index : Nat} {operand : Operand}

/-- What an accessor says of an operand of another kind. -/
def Mismatch (op : String) (index : Nat) (operand : Operand) (wanted : OperandKind) (fault : Fault) : Prop :=
  fault = .typeMismatch op index wanted ∧ operand.kind ≠ wanted

theorem asValue_spec :
    Ensures (operand.asValue op index) (fun e => operand = .value e) (operand.Mismatch op index .value) := by
  cases operand <;> simp [Ensures, asValue, Mismatch, kind]

theorem asBlock_spec :
    Ensures (operand.asBlock op index) (fun body => operand = .block body) (operand.Mismatch op index .block) := by
  cases operand <;> simp [Ensures, asBlock, Mismatch, kind]

theorem asPoint_spec :
    Ensures (operand.asPoint op index) (fun p => operand = .point p.1 p.2) (operand.Mismatch op index .point) := by
  cases operand <;> simp [Ensures, asPoint, Mismatch, kind]

theorem asColour_spec :
    Ensures (operand.asColour op index) (fun c => operand = .colour c) (operand.Mismatch op index .colour) := by
  cases operand <;> simp [Ensures, asColour, Mismatch, kind]

theorem asName_spec :
    Ensures (operand.asName op index) (fun n => operand = .name n) (operand.Mismatch op index .name) := by
  cases operand <;> simp [Ensures, asName, Mismatch, kind]

theorem asDefinition_spec :
    Ensures (operand.asDefinition op index) (fun d => operand = .definition d)
      (operand.Mismatch op index .definition) := by
  cases operand <;> simp [Ensures, asDefinition, Mismatch, kind]

end Operand

namespace Command

section Operands

variable {c : Context} {command : Command} {op : String} {index : Nat} {operand : Operand} {wanted : OperandKind}

/-- A mismatch counts as a fault of the command when its signature demands the same kind in the same place. -/
theorem spec_of_kind {α : Type} {x : Except Fault α} {Q : α → Prop} (hop : command.head.name = op)
    (hwanted : command.operandKinds[index]? = some wanted) (hgiven : command.operands[index]? = some operand)
    (h : Ensures x Q (operand.Mismatch op index wanted)) : Ensures x Q (Fails c command) := by
  subst hop
  refine h.mono (fun _ ha => ha) ?_
  rintro fault ⟨rfl, hkind⟩
  exact .kind hwanted hgiven hkind

theorem eval_spec {e : Expression} (hmem : operand ∈ command.operands) (hpart : e ∈ operand.expressions) :
    Ensures (c.eval e) (fun value => c.eval e = .ok value) (Fails c command) := by
  cases h : c.eval e with
  | ok value => exact rfl
  | error fault => exact .value hmem hpart h

theorem evalOperand_spec (hop : command.head.name = op) (hwanted : command.operandKinds[index]? = some .value)
    (hgiven : command.operands[index]? = some operand) :
    Ensures (c.evalOperand op index operand) (fun value => ∃ e, operand = .value e ∧ c.eval e = .ok value)
      (Fails c command) := by
  refine (spec_of_kind hop hwanted hgiven Operand.asValue_spec).bind ?_
  rintro e rfl
  exact (eval_spec (List.mem_of_getElem? hgiven) List.mem_cons_self).mono (fun _ h => ⟨e, rfl, h⟩) fun _ h => h

theorem evalPoint_spec {x y : Expression} (hmem : .point x y ∈ command.operands) :
    Ensures (c.evalPoint x y) (fun _ => True) (Fails c command) := by
  refine (eval_spec hmem (by simp [Operand.expressions])).bind fun xValue _ => ?_
  exact (eval_spec hmem (by simp [Operand.expressions])).bind fun yValue _ => trivial

theorem evalChannel_spec {e : Expression} (hmem : operand ∈ command.operands) (hpart : e ∈ operand.expressions) :
    Ensures (c.evalChannel e) (fun _ => True) (Fails c command) := by
  refine (eval_spec hmem hpart).bind fun value _ => ?_
  cases Colour.ofIntensity? value with
  | some channel => exact trivial
  | none => exact .range trivial

theorem slot_spec (value : Float32) : Ensures (Context.slot value) (fun _ => True) (Fails c command) := by
  unfold Context.slot
  cases Palette.slotOf? value with
  | some slot => exact trivial
  | none => exact .range trivial

theorem penWidth_spec (size : Float32) :
    Ensures (Context.penWidth size) (fun width => Context.penWidth size = .ok width) (Fails c command) := by
  unfold Context.penWidth
  split
  · exact rfl
  · exact .range trivial

theorem evalColour_spec {choice : ColourExpression} (hmem : .colour choice ∈ command.operands) :
    Ensures (c.evalColour choice) (fun _ => True) (Fails c command) := by
  cases choice with
  | literal colour =>
      exact trivial
  | palette index =>
      refine (eval_spec hmem List.mem_cons_self).bind fun value _ => ?_
      exact (slot_spec value).bind fun slot _ => trivial
  | rgb red green blue =>
      refine (evalChannel_spec hmem (e := red) ?_).bind fun r _ => ?_
      · simp [Operand.expressions, ColourExpression.expressions]
      refine (evalChannel_spec hmem (e := green) ?_).bind fun g _ => ?_
      · simp [Operand.expressions, ColourExpression.expressions]
      refine (evalChannel_spec hmem (e := blue) ?_).bind fun b _ => trivial
      simp [Operand.expressions, ColourExpression.expressions]

end Operands

/-! ## Built-in commands -/

theorem leads_jumpTo {c : Context} {command : Command} {b : Builtin} (head : command.head = .builtin b)
    (target : Point) : Leads c command (.effect (c.jumpTo target)) := by
  refine .effect head ?_
  unfold Context.jumpTo
  split <;> exact trivial

theorem builtinStep_of_length_ne {c : Context} {b : Builtin} {operands : List Operand}
    (h : operands.length ≠ b.operandKinds.length) :
    b.step c operands = .error (.arity b.name (.exactly b.operandKinds.length) operands.length) := by
  cases b <;> rcases operands with _ | ⟨a₀, _ | ⟨a₁, _ | ⟨a₂, _ | ⟨a₃, rest⟩⟩⟩⟩ <;>
    first
    | rfl
    | exact absurd rfl h

theorem builtinStep_spec (c : Context) (b : Builtin) (operands : List Operand) (pos : Position) :
    Ensures (b.step c operands) (Leads c ⟨.builtin b, operands, pos⟩) (Fails c ⟨.builtin b, operands, pos⟩) := by
  by_cases hlength : operands.length = b.operandKinds.length
  · -- The rows of `Builtin.step` for the right number of operands, one for each command.
    cases b with
    | forward | back | print =>
        rcases List.length_eq_one_iff.1 hlength with ⟨a, rfl⟩
        exact .bind (evalOperand_spec rfl rfl rfl) fun _ _ => Leads.effect rfl trivial
    | right =>
        rcases List.length_eq_one_iff.1 hlength with ⟨a, rfl⟩
        refine .bind (evalOperand_spec rfl rfl rfl) ?_
        rintro degrees ⟨e, rfl, heval⟩
        exact Leads.effect rfl ⟨e, degrees, rfl, heval, .inr rfl⟩
    | left =>
        rcases List.length_eq_one_iff.1 hlength with ⟨a, rfl⟩
        refine .bind (evalOperand_spec rfl rfl rfl) ?_
        rintro degrees ⟨e, rfl, heval⟩
        exact Leads.effect rfl ⟨e, degrees, rfl, heval, .inl rfl⟩
    | setHeading =>
        rcases List.length_eq_one_iff.1 hlength with ⟨a, rfl⟩
        refine .bind (evalOperand_spec rfl rfl rfl) ?_
        rintro bearing ⟨e, rfl, heval⟩
        exact Leads.effect rfl ⟨e, bearing, rfl, heval, rfl⟩
    | setX | setY =>
        rcases List.length_eq_one_iff.1 hlength with ⟨a, rfl⟩
        exact .bind (evalOperand_spec rfl rfl rfl) fun _ _ => leads_jumpTo rfl _
    | setXY =>
        rcases List.length_eq_two.1 hlength with ⟨a₀, a₁, rfl⟩
        refine .bind (evalOperand_spec rfl rfl rfl) fun x _ => ?_
        exact .bind (evalOperand_spec rfl rfl rfl) fun y _ => leads_jumpTo rfl _
    | setPos =>
        rcases List.length_eq_one_iff.1 hlength with ⟨a, rfl⟩
        refine .bind (spec_of_kind rfl rfl rfl Operand.asPoint_spec) ?_
        rintro ⟨x, y⟩ rfl
        exact .bind (evalPoint_spec List.mem_cons_self) fun target _ => leads_jumpTo rfl _
    | penUp | penDown | home =>
        rcases List.length_eq_zero_iff.1 hlength with rfl
        exact Leads.effect rfl rfl
    | bye =>
        rcases List.length_eq_zero_iff.1 hlength with rfl
        exact Leads.effect rfl trivial
    | stop =>
        rcases List.length_eq_zero_iff.1 hlength with rfl
        exact Leads.stop rfl
    | setPenSize =>
        rcases List.length_eq_one_iff.1 hlength with ⟨a, rfl⟩
        refine .bind (evalOperand_spec rfl rfl rfl) fun size _ => ?_
        exact .bind (penWidth_spec size) fun width hwidth => Leads.effect rfl ⟨size, hwidth⟩
    | setPenColour =>
        rcases List.length_eq_one_iff.1 hlength with ⟨a, rfl⟩
        refine .bind (spec_of_kind rfl rfl rfl Operand.asColour_spec) ?_
        rintro choice rfl
        exact .bind (evalColour_spec List.mem_cons_self) fun colour _ => Leads.effect rfl trivial
    | setPalette =>
        rcases List.length_eq_two.1 hlength with ⟨a₀, a₁, rfl⟩
        refine .bind (evalOperand_spec rfl rfl rfl) fun index _ => ?_
        refine .bind (spec_of_kind rfl rfl rfl Operand.asColour_spec) ?_
        rintro choice rfl
        refine .bind (evalColour_spec (by simp)) fun colour _ => ?_
        exact .bind (slot_spec index) fun slot _ => Leads.effect rfl trivial
    | arc =>
        rcases List.length_eq_two.1 hlength with ⟨a₀, a₁, rfl⟩
        refine .bind (evalOperand_spec rfl rfl rfl) fun degrees _ => ?_
        exact .bind (evalOperand_spec rfl rfl rfl) fun radius _ => Leads.effect rfl trivial
    | ifThen =>
        rcases List.length_eq_two.1 hlength with ⟨a₀, a₁, rfl⟩
        refine .bind (evalOperand_spec rfl rfl rfl) fun condition _ => ?_
        split
        · refine .bind (spec_of_kind rfl rfl rfl Operand.asBlock_spec) ?_
          rintro body rfl
          exact Leads.series rfl rfl (by simp [Series.body]) (by simp)
        · exact Leads.effect rfl trivial
    | ifElse =>
        rcases List.length_eq_three.1 hlength with ⟨a₀, a₁, a₂, rfl⟩
        refine .bind (evalOperand_spec rfl rfl rfl) fun condition _ => ?_
        split
        · refine .bind (spec_of_kind rfl rfl rfl Operand.asBlock_spec) ?_
          rintro body rfl
          exact Leads.series rfl rfl (by simp [Series.body]) (by simp)
        · refine .bind (spec_of_kind rfl rfl rfl Operand.asBlock_spec) ?_
          rintro body rfl
          exact Leads.series rfl rfl (by simp [Series.body]) (by simp)
    | repeatBlock =>
        rcases List.length_eq_two.1 hlength with ⟨a₀, a₁, rfl⟩
        refine .bind (evalOperand_spec rfl rfl rfl) fun count _ => ?_
        refine .bind (spec_of_kind rfl rfl rfl Operand.asBlock_spec) ?_
        rintro body rfl
        exact Leads.series rfl rfl (by simp [Series.body]) (by simp)
    | forever =>
        rcases List.length_eq_one_iff.1 hlength with ⟨a, rfl⟩
        refine .bind (spec_of_kind rfl rfl rfl Operand.asBlock_spec) ?_
        rintro body rfl
        exact Leads.series rfl rfl (by simp [Series.body]) (by simp)
    | make =>
        rcases List.length_eq_two.1 hlength with ⟨a₀, a₁, rfl⟩
        refine .bind (spec_of_kind rfl rfl rfl Operand.asName_spec) fun name _ => ?_
        exact .bind (evalOperand_spec rfl rfl rfl) fun value _ => Leads.effect rfl trivial
    | define =>
        rcases List.length_eq_one_iff.1 hlength with ⟨a, rfl⟩
        refine .bind (spec_of_kind rfl rfl rfl Operand.asDefinition_spec) ?_
        rintro d rfl
        exact Leads.effect rfl List.mem_cons_self
  · have hfault := builtinStep_of_length_ne (c := c) hlength
    rw [hfault]
    exact .count hlength

/-! ## Calls -/

section Calls

variable {c : Context} {command : Command} {name : String}

theorem operandKinds_call (head : command.head = .call name) :
    command.operandKinds = List.replicate command.operands.length .value := by
  simp [operandKinds, head]

/-- The arguments from some index on, which are what is left of the operands there. -/
theorem evalArguments_spec (head : command.head = .call name) (rest : List Operand) :
    ∀ index, command.operands.drop index = rest →
      Ensures (c.evalArguments name index rest) (fun values => values.length = rest.length) (Fails c command) := by
  induction rest with
  | nil =>
      intro index _
      exact rfl
  | cons operand rest ih =>
      intro index hdrop
      have hgiven : command.operands[index]? = some operand := by
        simpa using (congrArg List.head? hdrop)
      have hrest : command.operands.drop (index + 1) = rest := by
        simpa using congrArg List.tail hdrop
      have hwanted : command.operandKinds[index]? = some .value := by
        rcases List.getElem?_eq_some_iff.1 hgiven with ⟨hlt, -⟩
        simp [operandKinds_call head, hlt]
      refine .bind (evalOperand_spec (by simp [head, Head.name]) hwanted hgiven) fun value _ => ?_
      refine .bind (ih (index + 1) hrest) fun values hlength => ?_
      exact congrArg (· + 1) hlength

theorem callStep_spec (head : command.head = .call name) :
    Ensures (c.callStep name command.operands) (Leads c command) (Fails c command) := by
  unfold Context.callStep
  cases hfound : c.procedures.find? name command.operands.length with
  | none =>
      exact Fails.undefined head hfound
  | some d =>
      exact .bind (evalArguments_spec head command.operands 0 rfl) fun values hlength =>
        Leads.call head hfound hlength

end Calls

/-! ## All commands -/

theorem step_spec (c : Context) (command : Command) :
    Ensures (command.step c) (Leads c command) (Fails c command) := by
  rcases command with ⟨head, operands, pos⟩
  cases head with
  | builtin b =>
      exact builtinStep_spec c b operands pos
  | call name =>
      exact callStep_spec rfl

theorem leads_of_step {c : Context} {command : Command} {s : Step} (h : command.step c = .ok s) :
    Leads c command s := by
  have spec := step_spec c command
  rwa [h] at spec

theorem source_of_step {c : Context} {command : Command} {e : Effect} (h : command.step c = .ok (.effect e)) :
    e.From c command := by
  cases leads_of_step h with
  | effect head source => exact source
  | series head series? => cases series?

theorem fails_of_step {c : Context} {command : Command} {fault : Fault} (h : command.step c = .error fault) :
    Fails c command fault := by
  have spec := step_spec c command
  rwa [h] at spec

end Command
end TurtleLogo
