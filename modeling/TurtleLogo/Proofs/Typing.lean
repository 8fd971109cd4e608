import TurtleLogo.Proofs.Building

/-!
# Programs of source texts are well typed

A command whose operands are of the kinds that it demands never fails for want of an operand. What is left are the
faults of numbers and of names, and operators with a number of operands that they do not accept: the grammar lets any
number stand between parentheses, so that such an operator fails only when it is evaluated.

* `Expression.eval_spec` — how an expression fails;
* `Builtin.demands_operandKinds` — what commands demand of their operands when they run is what the grammar reads;
* `Program.compiled_programs_are_well_typed` — so no run of a compiled program fails for a wrong operand.
-/

namespace TurtleLogo

/-! ## Operators -/

namespace Operator

theorem eval_of_not_accepts {op : Operator} {operands : List Float32} (h : op.arity.accepts operands.length = false) :
    op.eval operands = .error (.arity op.name op.arity operands.length) := by
  rcases operands with _ | ⟨a, _ | ⟨b, _ | ⟨c, rest⟩⟩⟩
  all_goals cases op
  all_goals
    first
      | rfl
      | cases h

theorem nonzero_spec (divisor : Float32) : Ensures (nonzero divisor) (fun _ => True) (· = .divideByZero) := by
  unfold nonzero
  split
  · exact rfl
  · exact trivial

/-- Operands in a number that the operator accepts have a value, if none of them is a divisor that is zero. -/
theorem eval_of_accepts {op : Operator} {operands : List Float32} (h : op.arity.accepts operands.length = true) :
    Ensures (op.eval operands) (fun _ => True) (· = .divideByZero) := by
  rcases operands with _ | ⟨a, _ | ⟨b, _ | ⟨c, rest⟩⟩⟩
  all_goals cases op
  all_goals
    first
      | exact trivial
      | exact .bind (nonzero_spec _) fun _ _ => trivial
      | cases h

/-- No command has the name of an operator. -/
theorem name_ne_builtin (op : Operator) (b : Builtin) : b.name ≠ op.name := by
  have hb : Builtin.ofWord? b.name = some b := by
    cases b <;> decide
  have hop : Builtin.ofWord? op.name = none := by
    cases op <;> decide
  intro h
  rw [h, hop] at hb
  cases hb

end Operator

/-! ## Expressions -/

namespace Expression

/-- Somewhere in the expression the operator is applied to so many operands. -/
inductive Applies (op : Operator) (count : Nat) : Expression → Prop where
  | here {operands : List Expression} (length : operands.length = count) : Applies op count (.apply op operands)
  | inside {outer : Operator} {operands : List Expression} {e : Expression} (mem : e ∈ operands)
      (applies : Applies op count e) : Applies op count (.apply outer operands)

/-- How the value of an expression can fail to exist. -/
inductive Faults (e : Expression) : Fault → Prop where
  | divide : Faults e .divideByZero
  | arity {op : Operator} {count : Nat} (applies : e.Applies op count) (h : op.arity.accepts count = false) :
      Faults e (.arity op.name op.arity count)

theorem Faults.inside {e : Expression} {fault : Fault} (h : e.Faults fault) {op : Operator}
    {operands : List Expression} (mem : e ∈ operands) : Faults (.apply op operands) fault := by
  cases h with
  | divide => exact .divide
  | arity applies h => exact .arity (.inside mem applies) h

theorem faults_eval {op : Operator} {operands : List Expression} {values : List Float32}
    (hlength : values.length = operands.length) :
    Ensures (op.eval values) (fun _ => True) (Faults (.apply op operands)) := by
  cases haccepts : op.arity.accepts values.length with
  | true =>
      refine (Operator.eval_of_accepts haccepts).mono (fun _ h => h) ?_
      rintro _ rfl
      exact .divide
  | false =>
      rw [Operator.eval_of_not_accepts haccepts]
      exact .arity (.here hlength.symm) haccepts

mutual

theorem eval_spec (vars : String → Float32) :
    (e : Expression) → Ensures (e.eval vars) (fun _ => True) e.Faults
  | .number value => by
      rw [eval]
      exact trivial
  | .var name => by
      rw [eval]
      exact trivial
  | .apply op operands => by
      rw [eval]
      have hoperands := (evalAll_spec vars operands).mono (F := Faults (.apply op operands)) (fun _ h => h) ?_
      · exact hoperands.bind fun values hlength => faults_eval hlength
      · rintro fault ⟨e, mem, h⟩
        exact h.inside mem

theorem evalAll_spec (vars : String → Float32) :
    (list : List Expression) →
      Ensures (evalAll vars list) (fun values => values.length = list.length) (fun fault => ∃ e ∈ list, e.Faults fault)
  | [] => by
      rw [evalAll]
      exact rfl
  | e :: rest => by
      rw [evalAll]
      refine .bind ((eval_spec vars e).mono (fun _ h => h) fun fault h => ⟨e, List.mem_cons_self, h⟩) fun value _ => ?_
      refine .bind ((evalAll_spec vars rest).mono (fun _ h => h) ?_) fun values hlength => congrArg (· + 1) hlength
      rintro fault ⟨e', mem, h⟩
      exact ⟨e', List.mem_cons_of_mem e mem, h⟩

end

theorem faults_of_eval {vars : String → Float32} {e : Expression} {fault : Fault} (h : e.eval vars = .error fault) :
    e.Faults fault := by
  have hspec := eval_spec vars e
  rwa [h] at hspec

end Expression

/-! ## Commands with the operands that they demand -/

namespace Command

/-- One of the expressions in the operands of the command applies the operator to so many operands. -/
def Applies (op : Operator) (count : Nat) (command : Command) : Prop :=
  ∃ operand ∈ command.operands, ∃ e ∈ operand.expressions, e.Applies op count

variable {c : Context} {command : Command}

theorem WellTyped.length_eq (h : command.WellTyped) : command.operands.length = command.operandKinds.length := by
  simpa using congrArg List.length h

theorem WellTyped.kind_eq (h : command.WellTyped) {index : Nat} {operand : Operand} {kind : OperandKind}
    (given : command.operands[index]? = some operand) (wanted : command.operandKinds[index]? = some kind) :
    operand.kind = kind := by
  rw [← h] at wanted
  simpa [given] using wanted

theorem WellTyped.not_mismatch (hc : command.WellTyped) {op : String} {index : Nat} {kind : OperandKind} :
    ¬ Fails c command (.typeMismatch op index kind) := by
  intro h
  cases h with
  | kind wanted given h => exact h (hc.kind_eq given wanted)
  | value mem part h => cases Expression.faults_of_eval h
  | range h => exact h

theorem WellTyped.misapplied (hc : command.WellTyped) {op : String} {expected : Arity} {found : Nat}
    (h : Fails c command (.arity op expected found)) :
    ∃ operator : Operator, operator.name = op ∧ operator.arity = expected ∧
      operator.arity.accepts found = false ∧ command.Applies operator found := by
  cases h with
  | count h =>
      exact absurd hc.length_eq h
  | value mem part h =>
      cases Expression.faults_of_eval h with
      | arity applies h => exact ⟨_, rfl, rfl, h, _, mem, _, part, applies⟩
  | range h =>
      exact h.elim

end Command

/-! ## What commands demand of their operands -/

namespace Builtin

/-- The operands are of the given kinds, save for blocks of a conditional. -/
def Found (b : Builtin) (kinds : List OperandKind) (operands : List Operand) : Prop :=
  ∀ (index : Nat) (operand : Operand) (kind : OperandKind), operands[index]? = some operand →
    kinds[index]? = some kind → operand.kind = kind ∨ (b = .ifThen ∨ b = .ifElse) ∧ kind = .block

/-- What a command demands of its operands when it is executed. -/
structure Demands (b : Builtin) (kinds : List OperandKind) : Prop where
  /-- Any other number of operands is a fault, which gives the number demanded. -/
  count {c : Context} {operands : List Operand} : operands.length ≠ kinds.length →
    b.step c operands = .error (.arity b.name (.exactly kinds.length) operands.length)
  /-- An operand that is refused is of another kind than the one demanded in its place. -/
  refused {c : Context} {operands : List Operand} {op : String} {index : Nat} {kind : OperandKind} :
    b.step c operands = .error (.typeMismatch op index kind) →
      op = b.name ∧ kinds[index]? = some kind ∧ ∃ operand, operands[index]? = some operand ∧ operand.kind ≠ kind
  /-- Operands of the kinds demanded are taken; only something else can fail then. -/
  accepted {c : Context} {operands : List Operand} {fault : Fault} : operands.map Operand.kind = kinds →
    b.step c operands = .error fault →
      (∀ op index kind, fault ≠ .typeMismatch op index kind) ∧ ∀ expected found, fault ≠ .arity b.name expected found
  /-- A command that succeeds has looked at its operands, save for the blocks that a conditional does not choose. -/
  found {c : Context} {operands : List Operand} {s : Step} : b.step c operands = .ok s → b.Found kinds operands

theorem found_of_kinds {b : Builtin} {operands : List Operand} (h : operands.map Operand.kind = b.operandKinds) :
    b.Found b.operandKinds operands := by
  intro index operand kind given wanted
  have hc : Command.WellTyped ⟨.builtin b, operands, Position.start⟩ := h
  exact .inl (hc.kind_eq given wanted)

/-- A conditional looks at its condition first. -/
theorem found_of_condition {b : Builtin} {condition : Operand} {blocks : List Operand}
    (hb : b = .ifThen ∨ b = .ifElse) (h : condition.kind = .value) :
    b.Found b.operandKinds (condition :: blocks) := by
  have hkinds : ∃ count, b.operandKinds = .value :: List.replicate count .block := by
    rcases hb with rfl | rfl
    · exact ⟨1, rfl⟩
    · exact ⟨2, rfl⟩
  rcases hkinds with ⟨count, hkinds⟩
  intro index operand kind given wanted
  rw [hkinds] at wanted
  cases index with
  | zero =>
      cases given
      cases wanted
      exact .inl h
  | succ index =>
      rw [List.getElem?_cons_succ] at wanted
      exact .inr ⟨hb, List.eq_of_mem_replicate (List.mem_of_getElem? wanted)⟩

end Builtin

section Taken

variable {c : Context} {op : String} {index : Nat} {operand : Operand}

theorem Ensures.const {ε α : Type} {x : Except ε α} {Q : Prop} (h : Q) : Ensures x (fun _ => Q) (fun _ => True) := by
  cases x with
  | ok a => exact h
  | error e => exact trivial

theorem Operand.taken_of_spec {α : Type} {x : Except Fault α} {Q : α → Prop} {wanted : OperandKind}
    (h : Ensures x Q (operand.Mismatch op index wanted)) : Ensures x Q (fun _ => True) :=
  h.mono (fun _ ha => ha) fun _ _ => trivial

theorem evalOperand_taken :
    Ensures (c.evalOperand op index operand) (fun _ => operand.kind = .value) (fun _ => True) := by
  refine .bind (Operand.taken_of_spec Operand.asValue_spec) ?_
  rintro e rfl
  exact .const rfl

end Taken

namespace Builtin

theorem step_found (c : Context) (b : Builtin) (operands : List Operand) :
    Ensures (b.step c operands) (fun _ => b.Found b.operandKinds operands) (fun _ => True) := by
  by_cases hlength : operands.length = b.operandKinds.length
  · -- Operands are looked at in their order; once all have been, what follows does not matter.
    cases b with
    | penUp | penDown | home | stop | bye =>
        rcases List.length_eq_zero_iff.1 hlength with rfl
        exact .const (found_of_kinds rfl)
    | forward | back | right | left | setX | setY | setHeading | setPenSize | print =>
        rcases List.length_eq_one_iff.1 hlength with ⟨a, rfl⟩
        exact .bind evalOperand_taken fun _ ha => .const (found_of_kinds (congrArg ([·]) ha))
    | setXY | arc =>
        rcases List.length_eq_two.1 hlength with ⟨a₀, a₁, rfl⟩
        refine .bind evalOperand_taken fun _ h₀ => .bind evalOperand_taken fun _ h₁ => .const (found_of_kinds ?_)
        simp [h₀, h₁, operandKinds, signature, ArgumentForm.kind]
    | setPos =>
        rcases List.length_eq_one_iff.1 hlength with ⟨a, rfl⟩
        refine .bind (Operand.taken_of_spec Operand.asPoint_spec) ?_
        rintro point rfl
        exact .const (found_of_kinds rfl)
    | setPenColour =>
        rcases List.length_eq_one_iff.1 hlength with ⟨a, rfl⟩
        refine .bind (Operand.taken_of_spec Operand.asColour_spec) ?_
        rintro choice rfl
        exact .const (found_of_kinds rfl)
    | setPalette =>
        rcases List.length_eq_two.1 hlength with ⟨a₀, a₁, rfl⟩
        refine .bind evalOperand_taken fun _ h₀ => .bind (Operand.taken_of_spec Operand.asColour_spec) ?_
        rintro choice rfl
        exact .const (found_of_kinds (congrArg (fun kind => [kind, OperandKind.colour]) h₀))
    | ifThen =>
        rcases List.length_eq_two.1 hlength with ⟨a₀, a₁, rfl⟩
        exact .bind evalOperand_taken fun _ h₀ => .const (found_of_condition (.inl rfl) h₀)
    | ifElse =>
        rcases List.length_eq_three.1 hlength with ⟨a₀, a₁, a₂, rfl⟩
        exact .bind evalOperand_taken fun _ h₀ => .const (found_of_condition (.inr rfl) h₀)
    | repeatBlock =>
        rcases List.length_eq_two.1 hlength with ⟨a₀, a₁, rfl⟩
        refine .bind evalOperand_taken fun _ h₀ => .bind (Operand.taken_of_spec Operand.asBlock_spec) ?_
        rintro body rfl
        exact .const (found_of_kinds (congrArg (fun kind => [kind, OperandKind.block]) h₀))
    | forever =>
        rcases List.length_eq_one_iff.1 hlength with ⟨a, rfl⟩
        refine .bind (Operand.taken_of_spec Operand.asBlock_spec) ?_
        rintro body rfl
        exact .const (found_of_kinds rfl)
    | make =>
        rcases List.length_eq_two.1 hlength with ⟨a₀, a₁, rfl⟩
        refine .bind (Operand.taken_of_spec Operand.asName_spec) ?_
        rintro name rfl
        exact .bind evalOperand_taken fun _ h₁ => .const (found_of_kinds (congrArg (fun kind => [OperandKind.name, kind]) h₁))
    | define =>
        rcases List.length_eq_one_iff.1 hlength with ⟨a, rfl⟩
        refine .bind (Operand.taken_of_spec Operand.asDefinition_spec) ?_
        rintro d rfl
        exact .const (found_of_kinds rfl)
  · rw [Command.builtinStep_of_length_ne hlength]
    exact trivial

/-- Commands demand when they are executed what the grammar reads for them. -/
theorem demands_operandKinds (b : Builtin) : b.Demands b.operandKinds where
  count h := Command.builtinStep_of_length_ne h
  refused {c operands op index kind} h := by
    have hfails : Command.Fails c ⟨.builtin b, operands, Position.start⟩ (.typeMismatch op index kind) :=
      Command.fails_of_step h
    cases hfails with
    | kind wanted given h => exact ⟨rfl, wanted, _, given, h⟩
    | value mem part h => cases Expression.faults_of_eval h
    | range h => exact h.elim
  accepted {c operands fault} hkinds h := by
    have hc : Command.WellTyped ⟨.builtin b, operands, Position.start⟩ := hkinds
    have hfails : Command.Fails c ⟨.builtin b, operands, Position.start⟩ fault := Command.fails_of_step h
    constructor
    · rintro op index kind rfl
      exact hc.not_mismatch hfails
    · rintro expected found rfl
      rcases hc.misapplied hfails with ⟨operator, hname, -⟩
      exact operator.name_ne_builtin b hname.symm
  found {c operands s} h := by
    have hfound := step_found c b operands
    rwa [h] at hfound

end Builtin

/-! ## Runs -/

namespace Program

/-- Some command of the program, at any depth, applies the operator to so many operands. -/
def Applies (p : Program) (op : Operator) (count : Nat) : Prop :=
  ∃ command, p.Holds command ∧ command.Applies op count

/-- No run of a program that was read from a source text fails for an operand of the wrong kind or for a command with
the wrong number of operands. An operator with a number of operands that it does not accept stands in the text. -/
theorem compiled_programs_are_well_typed {source : String} {p : Program} (h : compile source = .ok p) :
    (∀ command, p.Holds command → command.WellTyped) ∧ (∀ b : Builtin, b.Demands b.operandKinds) ∧
      (∀ op index kind, ¬ p.EndsIn (.typeMismatch op index kind)) ∧
      ∀ op expected found, p.EndsIn (.arity op expected found) →
        ∃ operator : Operator, operator.name = op ∧ operator.arity = expected ∧ (∀ b : Builtin, b.name ≠ op) ∧
          operator.arity.accepts found = false ∧ p.Applies operator found := by
  have hformed := compile_wellFormed h
  refine ⟨hformed.typed, Builtin.demands_operandKinds, ?_, ?_⟩
  · intro op index kind hends
    rcases fails_of_endsIn hends with hstop | ⟨command, c, hholds, -, hfails⟩
    · cases hstop
    · exact (hformed.typed command hholds).not_mismatch hfails
  · intro op expected found hends
    rcases fails_of_endsIn hends with hstop | ⟨command, c, hholds, -, hfails⟩
    · cases hstop
    · rcases (hformed.typed command hholds).misapplied hfails with ⟨operator, rfl, rfl, haccepts, happlies⟩
      exact ⟨operator, rfl, rfl, operator.name_ne_builtin, haccepts, command, hholds, happlies⟩

/-- The fault in which the program of a source text ends if the fuel allows. -/
def fault? (source : String) (fuel : Nat) : Option Fault :=
  match compile source with
  | .error _ => none
  | .ok p =>
      match Machine.run fuel p Machine.initial with
      | some (.error error, _) => some error.fault
      | _ => none

theorem exists_endsIn {source : String} {fuel : Nat} {fault : Fault} (h : fault? source fuel = some fault) :
    ∃ p, compile source = .ok p ∧ p.EndsIn fault := by
  unfold fault? at h
  split at h
  · cases h
  · rename_i p hcompile
    split at h
    · rename_i error m hrun
      cases h
      exact ⟨p, hcompile, fuel, error.line, m, hrun⟩
    · cases h

/-- An operator with two operands where it takes one, in a block inside a procedure that is called before its text. -/
theorem misapplied_in_a_called_block :
    ∃ p, compile "f 3 to f :x repeat 2 [show sum 1 (sin :x 2)] end" = .ok p ∧
      p.EndsIn (.arity "sin" (.exactly 1) 2) ∧
      ∃ operator : Operator, operator.name = "sin" ∧ operator.arity = .exactly 1 ∧ (∀ b : Builtin, b.name ≠ "sin") ∧
        operator.arity.accepts 2 = false ∧ p.Applies operator 2 := by
  have hfault : fault? "f 3 to f :x repeat 2 [show sum 1 (sin :x 2)] end" 9 = some (.arity "sin" (.exactly 1) 2) := by
    decide +kernel
  rcases exists_endsIn hfault with ⟨p, hcompile, hends⟩
  exact ⟨p, hcompile, hends, (compiled_programs_are_well_typed hcompile).2.2.2 "sin" (.exactly 1) 2 hends⟩

end Program
end TurtleLogo
