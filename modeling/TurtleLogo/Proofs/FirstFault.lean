import TurtleLogo.Proofs.Numerals
import TurtleLogo.Proofs.Typing

/-!
# The fault of an expression

An expression fails where one of its applications has a fault of its own: a number of operands that the operator does not
accept or, if it does, a divisor that is zero. All operands are evaluated, those of `and` and `or` too, each before the
application it belongs to. So the fault of an expression is that of the first faulty application in this order:

* `Expression.applications` — the applications of an expression from left to right, each after those in its operands;
* `Application.Fails` — the faults that an application has of its own;
* `Expression.decides_eval` — evaluation reports the first of these faults, or has a value if there is none.
-/

namespace TurtleLogo

/-- Only the two zeros are equal to zero. -/
theorem Number.beq_zero_iff {x : Float32} : (x == 0) = true ↔ x = 0 ∨ x = -0 := by
  constructor
  · intro h
    rcases (Float32.beq_iff_ne_nan_and_eq.1 h).2.2 with rfl | ⟨rfl, -⟩ | ⟨rfl, -⟩
    all_goals decide
  · rintro (rfl | rfl)
    all_goals decide

theorem nonzero_eq (divisor : Float32) : nonzero divisor = if divisor = 0 ∨ divisor = -0 then .error .divideByZero else .ok () := by
  rw [nonzero]
  simp only [Number.beq_zero_iff]

/-! ## Operators -/

namespace Operator

/-- The operators that divide by their last operand. -/
def divides : Operator → Bool
  | quotient | remainder | modulo => true
  | _ => false

/-- All that can keep a division from its value is its divisor. -/
theorem eval_of_divides {op : Operator} {values : List Float32} {divisor : Float32}
    (haccepts : op.arity.accepts values.length = true) (hdivides : op.divides = true)
    (hlast : values.getLast? = some divisor) : ∃ value, op.eval values = (do nonzero divisor; return value) := by
  rcases values with _ | ⟨a, _ | ⟨b, _ | ⟨d, rest⟩⟩⟩
  · cases hlast
  · cases hlast
    cases op with
    | quotient => exact ⟨1 / a, rfl⟩
    | remainder | modulo => cases haccepts
    | _ => cases hdivides
  · cases hlast
    cases op with
    | quotient => exact ⟨a / b, rfl⟩
    | remainder => exact ⟨(Number.rem a b).abs * Number.signum a, rfl⟩
    | modulo => exact ⟨(Number.rem a b).abs * Number.signum b, rfl⟩
    | _ => cases hdivides
  · cases op with
    | quotient | remainder | modulo => cases haccepts
    | _ => cases hdivides

theorem eval_of_not_divides {op : Operator} {values : List Float32} (haccepts : op.arity.accepts values.length = true)
    (hdivides : op.divides = false) : ∃ value, op.eval values = .ok value := by
  cases op with
  | quotient | remainder | modulo => cases hdivides
  | _ =>
      rcases values with _ | ⟨a, _ | ⟨b, _ | ⟨d, rest⟩⟩⟩
      all_goals
        first
          | exact ⟨_, rfl⟩
          | cases haccepts

theorem ne_nil_of_divides {op : Operator} {count : Nat} (haccepts : op.arity.accepts count = true)
    (hdivides : op.divides = true) : count ≠ 0 := by
  rintro rfl
  cases op with
  | quotient | remainder | modulo => cases haccepts
  | _ => cases hdivides

end Operator

/-! ## Applications -/

/-- An operator and the expressions it is applied to. -/
structure Application where
  op : Operator
  operands : List Expression

namespace Expression

mutual

/-- The applications in an expression from left to right, each after those in its operands. -/
def applications : Expression → List Application
  | .number _ => []
  | .var _ => []
  | .apply op operands => listApplications operands ++ [⟨op, operands⟩]

def listApplications : List Expression → List Application
  | [] => []
  | e :: rest => e.applications ++ listApplications rest

end

end Expression

namespace Application

/-- The faults that an application has of its own, whatever its operands have. -/
inductive Fails (c : Context) (a : Application) : Fault → Prop where
  | arity (h : a.op.arity.accepts a.operands.length = false) :
      Fails c a (.arity a.op.name a.op.arity a.operands.length)
  | division {divisor : Expression} {value : Float32} (accepts : a.op.arity.accepts a.operands.length = true)
      (divides : a.op.divides = true) (last : a.operands.getLast? = some divisor) (eval : c.eval divisor = .ok value)
      (zero : value = 0 ∨ value = -0) : Fails c a .divideByZero

/-- No application has a fault of its own. -/
def Sound (c : Context) (list : List Application) : Prop :=
  ∀ a ∈ list, ∀ fault, ¬ a.Fails c fault

/-- The fault is that of the first application that has one. -/
def FirstFault (c : Context) (list : List Application) (fault : Fault) : Prop :=
  ∃ before a after, list = before ++ a :: after ∧ Sound c before ∧ a.Fails c fault

/-- A computation succeeds if no application has a fault, and otherwise fails with the first fault. -/
def Decides {α : Type} (c : Context) (list : List Application) (x : Except Fault α) : Prop :=
  Ensures x (fun _ => Sound c list) (FirstFault c list)

section

variable {c : Context} {a : Application} {fault fault' : Fault} {first second : List Application}

theorem Fails.unique (h : a.Fails c fault) (h' : a.Fails c fault') : fault = fault' := by
  cases h with
  | arity h =>
      cases h' with
      | arity => rfl
      | division accepts => cases h.symm.trans accepts
  | division accepts =>
      cases h' with
      | arity h' => cases h'.symm.trans accepts
      | division => rfl

theorem sound_append : Sound c (first ++ second) ↔ Sound c first ∧ Sound c second :=
  List.forall_mem_append

theorem FirstFault.not_sound (h : FirstFault c first fault) : ¬ Sound c first := by
  rintro hsound
  rcases h with ⟨before, a, after, rfl, -, hfails⟩
  exact hsound a (by simp) fault hfails

theorem FirstFault.append_left (h : FirstFault c first fault) (second : List Application) :
    FirstFault c (first ++ second) fault := by
  rcases h with ⟨before, a, after, rfl, hsound, hfails⟩
  exact ⟨before, a, after ++ second, by simp, hsound, hfails⟩

theorem FirstFault.append_right (hfirst : Sound c first) (h : FirstFault c second fault) :
    FirstFault c (first ++ second) fault := by
  rcases h with ⟨before, a, after, rfl, hsound, hfails⟩
  exact ⟨first ++ before, a, after, by simp, sound_append.2 ⟨hfirst, hsound⟩, hfails⟩

theorem FirstFault.unique {list : List Application} (h : FirstFault c list fault) (h' : FirstFault c list fault') :
    fault = fault' := by
  rcases h with ⟨before, a, after, rfl, hsound, hfails⟩
  rcases h' with ⟨before', a', after', hlist, hsound', hfails'⟩
  -- Neither of the two can stand among those before the other.
  rcases List.append_eq_append_iff.1 hlist with ⟨between, rfl, hrest⟩ | ⟨between, rfl, hrest⟩
  · cases between with
    | nil =>
        cases hrest
        exact hfails.unique hfails'
    | cons b between =>
        cases hrest
        exact absurd hfails (hsound' a (by simp) fault)
  · cases between with
    | nil =>
        cases hrest
        exact hfails.unique hfails'
    | cons b between =>
        cases hrest
        exact absurd hfails' (hsound a' (by simp) fault')

/-- What is computed in two parts has the fault of the first part, if there is one. -/
theorem Decides.bind {α β : Type} {x : Except Fault α} {f : α → Except Fault β} (hx : Decides c first x)
    (hf : ∀ value, x = .ok value → Decides c second (f value)) : Decides c (first ++ second) (x >>= f) := by
  cases x with
  | error fault => exact FirstFault.append_left hx second
  | ok value =>
      refine (hf value rfl).mono (fun _ hsound => sound_append.2 ⟨hx, hsound⟩) fun fault h => ?_
      exact FirstFault.append_right hx h

end

end Application

namespace Expression

open Application

variable {c : Context}

theorem forall₂_of_evalAll {list : List Expression} {values : List Float32}
    (h : evalAll c.valueOf list = .ok values) : List.Forall₂ (fun e value => c.eval e = .ok value) list values := by
  induction list generalizing values with
  | nil =>
      rw [evalAll] at h
      cases h
      exact .nil
  | cons e rest ih =>
      rw [evalAll] at h
      cases he : e.eval c.valueOf with
      | error fault => simp [he, Bind.bind, Except.bind] at h
      | ok value =>
          cases hrest : evalAll c.valueOf rest with
          | error fault => simp [he, hrest, Bind.bind, Except.bind] at h
          | ok others =>
              simp only [he, hrest, Bind.bind, Except.bind, Pure.pure, Except.pure] at h
              cases h
              exact .cons he (ih hrest)

theorem exists_last {list : List Expression} {values : List Float32}
    (h : List.Forall₂ (fun e value => c.eval e = .ok value) list values) (hne : list ≠ []) :
    ∃ divisor value, list.getLast? = some divisor ∧ values.getLast? = some value ∧ c.eval divisor = .ok value := by
  induction h with
  | nil => exact absurd rfl hne
  | @cons e value rest others he hrest ih =>
      cases hrest with
      | nil => exact ⟨e, value, rfl, rfl, he⟩
      | cons => simpa [List.getLast?_cons_cons] using ih (List.cons_ne_nil _ _)

/-- An operator whose operands have their values fails only by the fault of its own application. -/
theorem decides_apply {op : Operator} {operands : List Expression} {values : List Float32}
    (h : evalAll c.valueOf operands = .ok values) : Decides c [⟨op, operands⟩] (op.eval values) := by
  have hvalues := forall₂_of_evalAll h
  have hlength : operands.length = values.length := hvalues.length_eq
  cases haccepts : op.arity.accepts operands.length with
  | false =>
      rw [Operator.eval_of_not_accepts (hlength ▸ haccepts), ← hlength]
      exact ⟨[], ⟨op, operands⟩, [], rfl, nofun, .arity haccepts⟩
  | true =>
      cases hdivides : op.divides with
      | false =>
          rcases Operator.eval_of_not_divides (hlength ▸ haccepts) hdivides with ⟨result, hresult⟩
          rw [hresult]
          intro a hmem fault hfails
          cases List.mem_singleton.1 hmem
          cases hfails with
          | arity h => cases haccepts.symm.trans h
          | division _ divides => cases hdivides.symm.trans divides
      | true =>
          have hne : operands ≠ [] := by
            rintro rfl
            exact Operator.ne_nil_of_divides haccepts hdivides rfl
          rcases exists_last hvalues hne with ⟨divisor, value, hlast, hlast', heval⟩
          rcases Operator.eval_of_divides (hlength ▸ haccepts) hdivides hlast' with ⟨result, hresult⟩
          rw [hresult, nonzero_eq]
          split
          · rename_i hzero
            exact ⟨[], ⟨op, operands⟩, [], rfl, nofun, .division haccepts hdivides hlast heval hzero⟩
          · rename_i hnonzero
            intro a hmem fault hfails
            cases List.mem_singleton.1 hmem
            cases hfails with
            | arity h => cases haccepts.symm.trans h
            | division _ _ last eval zero =>
                cases hlast.symm.trans last
                cases heval.symm.trans eval
                exact hnonzero zero

mutual

theorem decides_eval (c : Context) : (e : Expression) → Decides c e.applications (e.eval c.valueOf)
  | .number _ => by
      rw [eval, applications]
      exact List.forall_mem_nil _
  | .var _ => by
      rw [eval, applications]
      exact List.forall_mem_nil _
  | .apply op operands => by
      rw [eval, applications]
      exact (decides_evalAll c operands).bind fun values h => decides_apply h

theorem decides_evalAll (c : Context) : (list : List Expression) →
    Decides c (listApplications list) (evalAll c.valueOf list)
  | [] => by
      rw [evalAll, listApplications]
      exact List.forall_mem_nil _
  | e :: rest => by
      rw [evalAll, listApplications]
      refine (decides_eval c e).bind fun value _ => ?_
      exact Ensures.bind (decides_evalAll c rest) fun values hsound => hsound

end

end Expression

/-- Evaluation succeeds unless an application in the expression has a fault of its own, and then fails with the fault of the
first one. Whatever number of operands an operator accepts it can take, so that it fails only by a division. And evaluation
changes nothing: where a value is printed, that adds a line to the transcript, and a fault leaves the context as it was. -/
theorem Context.evaluation_fails_at_first_fault (c : Context) (e : Expression) :
    ((∃ value, c.eval e = .ok value) ↔ Application.Sound c e.applications) ∧
      (∀ fault, c.eval e = .error fault ↔ Application.FirstFault c e.applications fault) ∧
      (∀ (op : Operator) (values : List Float32), op.arity.accepts values.length = true →
        (∃ value, op.eval values = .ok value) ∨ op.eval values = .error .divideByZero) ∧
      ∀ (fuel line : Nat) (pos : Position),
        let printed := Machine.exec (fuel + 1) ⟨.builtin .print, [.value e], pos⟩ ⟨c, line⟩
        (∀ value, c.eval e = .ok value →
          printed = some (.finished, ⟨{ c with transcript := c.transcript.push (Number.text value) }, pos.line⟩)) ∧
        (∀ fault, c.eval e = .error fault → printed = some (.failed ⟨pos.line, fault⟩, ⟨c, pos.line⟩)) := by
  have hdecides : Application.Decides c e.applications (c.eval e) := Expression.decides_eval c e
  refine ⟨?_, fun fault => ?_, fun op values haccepts => ?_, fun fuel line pos => ?_⟩
  · cases heval : c.eval e with
    | ok value =>
        rw [heval] at hdecides
        exact iff_of_true ⟨value, rfl⟩ hdecides
    | error fault =>
        rw [heval] at hdecides
        exact iff_of_false nofun hdecides.not_sound
  · cases heval : c.eval e with
    | ok value =>
        rw [heval] at hdecides
        exact iff_of_false nofun fun h => h.not_sound hdecides
    | error found =>
        rw [heval] at hdecides
        refine ⟨?_, fun h => congrArg Except.error (hdecides.unique h)⟩
        rintro ⟨⟩
        exact hdecides
  · have hvalue := Operator.eval_of_accepts haccepts
    cases heval : op.eval values with
    | ok value => exact .inl ⟨value, rfl⟩
    | error fault =>
        rw [heval] at hvalue
        exact .inr (congrArg Except.error hvalue)
  · refine ⟨fun value heval => ?_, fun fault heval => ?_⟩
    · simp [Machine.exec, Command.step, Builtin.step, Context.evalOperand, Operand.asValue, heval, Context.perform,
        Bind.bind, Except.bind, Pure.pure, Except.pure]
    · simp [Machine.exec, Command.step, Builtin.step, Context.evalOperand, Operand.asValue, heval, Bind.bind, Except.bind]

/-- A false operand of `and` does not keep the next one from failing, and a division by minus zero fails before the
difference that has it as its only operand. -/
theorem Context.first_fault_of_misapplied_difference :
    let e : Expression :=
      .apply .conjunction [.number 0, .apply .difference [.apply .quotient [.number 1, .apply .minus [.number 0]]]]
    initial.eval e = .error .divideByZero ∧ Application.FirstFault initial e.applications .divideByZero := by
  intro e
  have heval : initial.eval e = .error .divideByZero := by
    rfl
  exact ⟨heval, ((evaluation_fails_at_first_fault initial e).2.1 .divideByZero).1 heval⟩

end TurtleLogo
