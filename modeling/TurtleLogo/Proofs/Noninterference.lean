import TurtleLogo.Proofs.Scoping

/-!
# The drawing decides nothing

What a program computes depends on its variables, its procedures and the wish to exit, never on the turtle, the pen, the
palette or what has been drawn and shown so far. Two executions of the same task that start in contexts with the same
variables, procedures and wish therefore take the same course:

* `Context.Agree a b` — the contexts are alike in all that counts;
* `Command.step_alike` — in such contexts a command comes to the same step, up to what it draws;
* `Runs.alike` — if a task ends in one of them, then it ends in the other with the same outcome, the contexts agree again
  and the same lines have been shown.
-/

namespace TurtleLogo

/-- The contexts may differ in the drawing and in the lines shown so far. -/
structure Context.Agree (a b : Context) : Prop where
  scopes : b.scopes = a.scopes
  procedures : b.procedures = a.procedures
  exiting : b.exiting = a.exiting

/-! ## Computations in two contexts -/

/-- Both computations fail with the same error, or both have values, which stand in a relation. -/
def Alike {ε α β : Type} (R : α → β → Prop) (x : Except ε α) (y : Except ε β) : Prop :=
  match x, y with
  | .ok a, .ok b => R a b
  | .error e, .error e' => e' = e
  | _, _ => False

namespace Alike

variable {ε α β γ δ : Type}

theorem bind {R : α → β → Prop} {S : γ → δ → Prop} {x : Except ε α} {y : Except ε β} {f : α → Except ε γ}
    {g : β → Except ε δ} (h : Alike R x y) (hfg : ∀ a b, R a b → Alike S (f a) (g b)) :
    Alike S (x >>= f) (y >>= g) := by
  cases x with
  | ok a =>
      cases y with
      | ok b => exact hfg a b h
      | error e => exact h.elim
  | error e =>
      cases y with
      | ok b => exact h.elim
      | error e' => exact h

theorem of_eq {R : α → α → Prop} (hR : ∀ a, R a a) {x y : Except ε α} (h : y = x) : Alike R x y := by
  subst h
  cases y with
  | ok a => exact hR a
  | error e => exact rfl

theorem refl (x : Except ε α) : Alike Eq x x :=
  of_eq (fun _ => rfl) rfl

variable {R : α → β → Prop} {x : Except ε α} {y : Except ε β}

theorem eq_error {e : ε} (h : Alike R x y) (hx : x = .error e) : y = .error e := by
  subst hx
  cases y with
  | ok b => exact h.elim
  | error e' => exact congrArg _ h

theorem exists_ok {a : α} (h : Alike R x y) (hx : x = .ok a) : ∃ b, y = .ok b ∧ R a b := by
  subst hx
  cases y with
  | ok b => exact ⟨b, rfl, h⟩
  | error e => exact h.elim

end Alike

namespace Context.Agree

variable {a b : Context}

theorem valueOf_eq (h : Agree a b) : b.valueOf = a.valueOf := by
  funext name
  simp [valueOf, h.scopes]

theorem eval_eq (h : Agree a b) (e : Expression) : b.eval e = a.eval e := by
  simp [eval, h.valueOf_eq]

theorem evalOperand_eq (h : Agree a b) (op : String) (index : Nat) (operand : Operand) :
    b.evalOperand op index operand = a.evalOperand op index operand := by
  simp [evalOperand, h.eval_eq]

theorem evalOperand_alike (h : Agree a b) (op : String) (index : Nat) (operand : Operand) :
    Alike Eq (a.evalOperand op index operand) (b.evalOperand op index operand) :=
  .of_eq (fun _ => rfl) (h.evalOperand_eq op index operand)

theorem evalPoint_eq (h : Agree a b) (x y : Expression) : b.evalPoint x y = a.evalPoint x y := by
  simp [evalPoint, h.eval_eq]

theorem evalChannel_eq (h : Agree a b) (e : Expression) : b.evalChannel e = a.evalChannel e := by
  simp [evalChannel, h.eval_eq]

theorem evalArguments_eq (h : Agree a b) (op : String) (operands : List Operand) :
    ∀ index, b.evalArguments op index operands = a.evalArguments op index operands := by
  induction operands with
  | nil =>
      intro index
      rfl
  | cons operand rest ih =>
      intro index
      simp [evalArguments, h.evalOperand_eq, ih]

/-- Slots of the palette may hold different colours, but they are the same slots. -/
theorem evalColour_alike (h : Agree a b) (choice : ColourExpression) :
    Alike (fun _ _ => True) (a.evalColour choice) (b.evalColour choice) := by
  cases choice with
  | literal colour =>
      exact trivial
  | palette index =>
      refine .bind (.of_eq (fun _ => rfl) (h.eval_eq index)) ?_
      rintro value _ rfl
      exact .bind (.refl _) fun _ _ _ => trivial
  | rgb red green blue =>
      refine .of_eq (fun _ => trivial) ?_
      simp [evalColour, h.evalChannel_eq]

end Context.Agree

/-! ## Steps in two contexts -/

/-- Whether an effect changes the drawing at most. -/
def Effect.isDrawing : Effect → Bool
  | .bind _ _ | .print _ | .define _ | .exit => false
  | _ => true

/-- The steps are the same, or both only draw. -/
inductive Step.Alike : Step → Step → Prop where
  | same (s : Step) : Step.Alike s s
  | drawing {e e' : Effect} (h : e.isDrawing = true) (h' : e'.isDrawing = true) :
      Step.Alike (.effect e) (.effect e')

theorem Context.isDrawing_jumpTo (c : Context) (target : Point) : (c.jumpTo target).isDrawing = true := by
  unfold Context.jumpTo
  split <;> rfl

namespace Command

variable {a b : Context}

theorem builtinStep_alike (h : a.Agree b) (builtin : Builtin) (operands : List Operand) :
    Alike Step.Alike (builtin.step a operands) (builtin.step b operands) := by
  by_cases hlength : operands.length = builtin.operandKinds.length
  · cases builtin with
    | forward | back =>
        -- The place ahead depends on the turtle, moving there does not.
        rcases List.length_eq_one_iff.1 hlength with ⟨x, rfl⟩
        exact .bind (h.evalOperand_alike _ _ _) fun _ _ _ => Step.Alike.drawing rfl rfl
    | setX | setY =>
        rcases List.length_eq_one_iff.1 hlength with ⟨x, rfl⟩
        exact .bind (h.evalOperand_alike _ _ _) fun _ _ _ =>
          Step.Alike.drawing (a.isDrawing_jumpTo _) (b.isDrawing_jumpTo _)
    | setXY =>
        rcases List.length_eq_two.1 hlength with ⟨x, y, rfl⟩
        refine .bind (h.evalOperand_alike _ _ _) fun _ _ _ => ?_
        exact .bind (h.evalOperand_alike _ _ _) fun _ _ _ =>
          Step.Alike.drawing (a.isDrawing_jumpTo _) (b.isDrawing_jumpTo _)
    | setPos =>
        rcases List.length_eq_one_iff.1 hlength with ⟨x, rfl⟩
        refine .bind (.refl _) ?_
        rintro ⟨x, y⟩ _ rfl
        exact .bind (.of_eq (fun _ => rfl) (h.evalPoint_eq x y)) fun _ _ _ =>
          Step.Alike.drawing (a.isDrawing_jumpTo _) (b.isDrawing_jumpTo _)
    | setPenColour =>
        rcases List.length_eq_one_iff.1 hlength with ⟨x, rfl⟩
        refine .bind (.refl _) ?_
        rintro choice _ rfl
        exact .bind (h.evalColour_alike choice) fun _ _ _ => Step.Alike.drawing rfl rfl
    | setPalette =>
        rcases List.length_eq_two.1 hlength with ⟨x, y, rfl⟩
        refine .bind (h.evalOperand_alike _ _ _) ?_
        rintro index _ rfl
        refine .bind (.refl _) ?_
        rintro choice _ rfl
        refine .bind (h.evalColour_alike choice) fun _ _ _ => ?_
        exact .bind (.refl _) fun _ _ _ => Step.Alike.drawing rfl rfl
    -- All other commands read nothing but their operands.
    | penUp | penDown | home | stop | bye =>
        rcases List.length_eq_zero_iff.1 hlength with rfl
        exact Step.Alike.same _
    | right | left | setHeading | setPenSize | print | forever | define =>
        rcases List.length_eq_one_iff.1 hlength with ⟨x, rfl⟩
        exact .of_eq Step.Alike.same (by simp only [Builtin.step, h.evalOperand_eq])
    | arc | ifThen | repeatBlock | make =>
        rcases List.length_eq_two.1 hlength with ⟨x, y, rfl⟩
        exact .of_eq Step.Alike.same (by simp only [Builtin.step, h.evalOperand_eq])
    | ifElse =>
        rcases List.length_eq_three.1 hlength with ⟨x, y, z, rfl⟩
        exact .of_eq Step.Alike.same (by simp only [Builtin.step, h.evalOperand_eq])
  · have hfault := fun c => builtinStep_of_length_ne (c := c) hlength
    exact .of_eq Step.Alike.same ((hfault b).trans (hfault a).symm)

theorem step_alike (h : a.Agree b) (command : Command) :
    Alike Step.Alike (command.step a) (command.step b) := by
  rcases command with ⟨head, operands, pos⟩
  cases head with
  | builtin builtin =>
      exact builtinStep_alike h builtin operands
  | call name =>
      refine .of_eq Step.Alike.same ?_
      simp [step, Context.callStep, h.procedures, h.evalArguments_eq]

end Command

/-! ## Effects in two contexts -/

namespace Context

/-- On the ways from `a` to `a'` and from `b` to `b'` the same lines are shown. -/
def ShowAlike (a a' b b' : Context) : Prop :=
  ∃ lines, a'.transcript = a.transcript ++ lines ∧ b'.transcript = b.transcript ++ lines

theorem ShowAlike.refl (a b : Context) : ShowAlike a a b b :=
  ⟨#[], by simp, by simp⟩

theorem ShowAlike.trans {a a' a'' b b' b'' : Context} (h : ShowAlike a a' b b') (h' : ShowAlike a' a'' b' b'') :
    ShowAlike a a'' b b'' := by
  rcases h with ⟨lines, ha, hb⟩
  rcases h' with ⟨more, ha', hb'⟩
  refine ⟨lines ++ more, ?_, ?_⟩
  · rw [ha', ha, Array.append_assoc]
  · rw [hb', hb, Array.append_assoc]

theorem perform_of_isDrawing {e : Effect} (h : e.isDrawing = true) (c : Context) :
    ∃ drawing, c.perform e = { c with drawing } := by
  cases e with
  | bind | print | define | exit =>
      cases h
  | _ =>
      exact ⟨_, rfl⟩

namespace Agree

variable {a b : Context}

theorem perform (h : Agree a b) (e : Effect) : Agree (a.perform e) (b.perform e) := by
  rcases h with ⟨hscopes, hprocedures, hexiting⟩
  cases e <;> constructor <;> simp [Context.perform, Context.define, *]

theorem showAlike_perform (e : Effect) : ShowAlike a (a.perform e) b (b.perform e) := by
  cases e with
  | print line =>
      exact ⟨#[line], by simp [Context.perform], by simp [Context.perform]⟩
  | _ =>
      exact ShowAlike.refl a b

/-- Effects of two alike steps keep the contexts in agreement and show the same. -/
theorem perform_alike (h : Agree a b) {e e' : Effect} (halike : Step.Alike (.effect e) (.effect e')) :
    Agree (a.perform e) (b.perform e') ∧ ShowAlike a (a.perform e) b (b.perform e') := by
  cases halike with
  | same =>
      exact ⟨h.perform e, showAlike_perform e⟩
  | drawing hdraws hdraws' =>
      rcases perform_of_isDrawing hdraws a with ⟨drawing, hperform⟩
      rcases perform_of_isDrawing hdraws' b with ⟨drawing', hperform'⟩
      rw [hperform, hperform']
      exact ⟨⟨h.scopes, h.procedures, h.exiting⟩, ShowAlike.refl a b⟩

theorem enterCall (h : Agree a b) (d : Definition) (values : List Float32) :
    Agree (a.enterCall d values) (b.enterCall d values) :=
  ⟨by simp [Context.enterCall, h.scopes], h.procedures, h.exiting⟩

theorem leaveCall (h : Agree a b) : Agree a.leaveCall b.leaveCall :=
  ⟨by simp [Context.leaveCall, h.scopes], h.procedures, h.exiting⟩

end Agree
end Context

/-! ## Executions from two contexts -/

/-- An execution that takes the course of the one from `m` to `m'`, but starts in `n`. The line is the same at the end
if it was so at the start, and in any case if a command has ended the execution. -/
structure Alongside (t : Task) (m : Machine) (o : Outcome) (m' n n' : Machine) : Prop where
  runs : Runs t n o n'
  agree : m'.context.Agree n'.context
  shown : Context.ShowAlike m.context m'.context n.context n'.context
  line : n.line = m.line ∨ o ≠ .finished → n'.line = m'.line

namespace Runs

theorem alike {t : Task} {m m' : Machine} {o : Outcome} (h : Runs t m o m') :
    ∀ n : Machine, m.context.Agree n.context → ∃ n', Alongside t m o m' n n' := by
  -- The second execution is built along the derivation of the first, step by step from `step_alike`.
  induction h with
  | @fault command m fault step =>
      intro n hagree
      have hstep := (Command.step_alike hagree command).eq_error step
      exact ⟨_, .fault hstep, hagree, .refl _ _, fun _ => rfl⟩
  | @effect command m e step =>
      intro n hagree
      rcases (Command.step_alike hagree command).exists_ok step with ⟨s, hstep, halike⟩
      cases s with
      | effect e' =>
          rcases hagree.perform_alike halike with ⟨hagree', hshown⟩
          exact ⟨_, .effect hstep, hagree', hshown, fun _ => rfl⟩
      | _ =>
          cases halike
  | @stop command m step =>
      intro n hagree
      rcases (Command.step_alike hagree command).exists_ok step with ⟨s, hstep, halike⟩
      cases halike
      exact ⟨_, .stop hstep, hagree, .refl _ _, fun _ => rfl⟩
  | @enter command m m' o s series step series? _ ih =>
      intro n hagree
      rcases (Command.step_alike hagree command).exists_ok step with ⟨s', hstep, halike⟩
      cases halike with
      | drawing =>
          cases series?
      | same =>
          rcases ih (n.atLine command.pos.line) hagree with ⟨n', hseries⟩
          exact ⟨n', .enter hstep series? hseries.runs, hseries.agree, hseries.shown, fun _ => hseries.line (.inl rfl)⟩
  | @call command m m' o d values step _ ih =>
      intro n hagree
      rcases (Command.step_alike hagree command).exists_ok step with ⟨s, hstep, halike⟩
      cases halike
      rcases ih ⟨n.context.enterCall d values, command.pos.line⟩ (hagree.enterCall d values) with ⟨n', hbody⟩
      exact ⟨n'.leaveCall, .call hstep hbody.runs, hbody.agree.leaveCall, hbody.shown, fun _ => hbody.line (.inl rfl)⟩
  | done split =>
      intro n hagree
      exact ⟨n, .done split, hagree, .refl _ _, by simp⟩
  | exiting hx =>
      intro n hagree
      exact ⟨n, .exiting (hagree.exiting.trans hx), hagree, .refl _ _, by simp⟩
  | next hx split _ _ ihFirst ihRest =>
      intro n hagree
      rcases ihFirst n hagree with ⟨n', hfirst⟩
      rcases ihRest n' hfirst.agree with ⟨n'', hrest⟩
      refine ⟨n'', .next (hagree.exiting.trans hx) split hfirst.runs hrest.runs, hrest.agree,
        hfirst.shown.trans hrest.shown, ?_⟩
      rintro (hline | halted)
      · exact hrest.line (.inl (hfirst.line (.inl hline)))
      · exact hrest.line (.inr halted)
  | halt hx split _ halted ih =>
      intro n hagree
      rcases ih n hagree with ⟨n', hfirst⟩
      exact ⟨n', .halt (hagree.exiting.trans hx) split hfirst.runs halted, hfirst.agree, hfirst.shown, hfirst.line⟩

end Runs

/-! ## Executions with fuel -/

namespace Machine

open Context (Agree ShowAlike)

/-- Two executions, from `m` to `m'` and from `n` to `n'`, that cannot be told apart without a look at the drawing. -/
def SameCourse (m m' n n' : Machine) : Prop :=
  m'.context.Agree n'.context ∧ ShowAlike m.context m'.context n.context n'.context

theorem agree_enterDefinitions {m n : Machine} (h : m.context.Agree n.context) (p : Program) :
    (m.enterDefinitions p).context.Agree (n.enterDefinitions p).context := by
  simp only [enterDefinitions_eq]
  exact ⟨h.scopes, by simp [h.procedures], h.exiting⟩

/-- Only a stop is reported with the line of the machine. -/
theorem ended_eq {o : Outcome} {m n : Machine} (h : o ≠ .finished → n.line = m.line) :
    (ended (o, n)).1 = (ended (o, m)).1 := by
  cases o with
  | stopped =>
      have hline := h (by simp)
      simp [ended, hline]
  | finished | failed error =>
      rfl

/-- If a command, a block or a program ends in one of two contexts that agree, then it ends in the other with the same
result, the contexts agree again, and the same lines have been shown. -/
theorem drawing_decides_nothing {m n : Machine} (h : m.context.Agree n.context) (fuel : Nat) (m' : Machine) :
    (∀ command o, exec fuel command m = some (o, m') →
      ∃ more n', exec more command n = some (o, n') ∧ SameCourse m m' n n') ∧
    (∀ body o, execBlock fuel body m = some (o, m') →
      ∃ more n', execBlock more body n = some (o, n') ∧ SameCourse m m' n n') ∧
    (∀ p result, run fuel p m = some (result, m') →
      ∃ more n', run more p n = some (result, n') ∧ SameCourse m m' n n') := by
  refine ⟨?_, ?_, ?_⟩
  · intro command o hexec
    rcases (runs_of_exec fuel hexec).alike n h with ⟨n', hn⟩
    rcases hn.runs.exists_exec with ⟨more, hmore⟩
    exact ⟨more, n', hmore, hn.agree, hn.shown⟩
  · intro body o hexec
    rcases (runs_of_execBlock hexec).alike n h with ⟨n', hn⟩
    rcases hn.runs.exists_exec with ⟨more, hmore⟩
    exact ⟨more, n', hmore, hn.agree, hn.shown⟩
  · intro p result hrun
    rcases runs_of_run hrun with ⟨o, hruns, rfl⟩
    rcases hruns.alike (n.enterDefinitions p) (agree_enterDefinitions h p) with ⟨n', hn⟩
    rcases exists_run hn.runs with ⟨more, hmore⟩
    have hended : (ended (o, n')).1 = (ended (o, m')).1 := ended_eq fun halted => hn.line (.inr halted)
    refine ⟨more, n', ?_, hn.agree, ?_⟩
    · rw [hmore, ← hended]
      cases o <;> rfl
    · simpa [enterDefinitions_eq, ShowAlike] using hn.shown

/-- A context in which the turtle is elsewhere, the pen is up, a palette slot has another colour and a line was shown. -/
def drawnContext : Context :=
  { Context.initial with
    drawing := ((Drawing.initial.moveTo ⟨30, 0⟩).setPenDown false).setSlot 4 ⟨1, 2, 3⟩
    transcript := #["7"] }

/-- A program that jumps to where one of the turtles is, reads the palette and stops where it must not. -/
def jumpAndStop : Program :=
  [ ⟨.builtin .setX, [.value (.number 30)], ⟨1, 1⟩⟩,
    ⟨.builtin .setPenColour, [.colour (.palette (.number 4))], ⟨2, 1⟩⟩,
    ⟨.builtin .print, [.value (.number 1)], ⟨3, 1⟩⟩,
    ⟨.builtin .stop, [], ⟨4, 1⟩⟩ ]

theorem drawing_decides_nothing_of_jump :
    ∃ m' more n',
      run 2 jumpAndStop initial = some (.error ⟨4, .stopOutsideProcedure⟩, m') ∧
      run more jumpAndStop (ofContext drawnContext) = some (.error ⟨4, .stopOutsideProcedure⟩, n') ∧
      SameCourse initial m' (ofContext drawnContext) n' := by
  have houtcome : (execBlock 2 jumpAndStop (initial.enterDefinitions jumpAndStop)).map (fun r => (r.1, r.2.line)) =
      some (.stopped, 4) := by
    decide
  rcases Option.map_eq_some_iff.1 houtcome with ⟨⟨o, m'⟩, hexec, hend⟩
  rcases Prod.mk.inj hend with ⟨rfl, hline⟩
  have hrun : run 2 jumpAndStop initial = some (.error ⟨4, .stopOutsideProcedure⟩, m') := by
    simp [run, hexec, ended, ← hline]
  have hagree : initial.context.Agree (ofContext drawnContext).context := ⟨rfl, rfl, rfl⟩
  rcases (drawing_decides_nothing hagree 2 m').2.2 _ _ hrun with ⟨more, n', hn, hcourse⟩
  exact ⟨m', more, n', hrun, hn, hcourse⟩

end Machine
end TurtleLogo
