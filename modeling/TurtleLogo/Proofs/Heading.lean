import TurtleLogo.Proofs.Angles
import TurtleLogo.Proofs.Compiling
import TurtleLogo.Proofs.Moments
import TurtleLogo.Proofs.StepSpec

/-!
# The heading and full turns

Whatever writes the heading wraps the angle first, so that it should always lie within one full turn. It does as long as
the numbers that commands turn by are finite. An expression can have an infinite value or none that is a number, however,
and a turtle that is turned by it loses its heading:

* `Context.Headed`, `Context.Lost` — the heading lies within a full turn; it is NaN;
* `Context.kept_headed_or_lost` — there is nothing else that a heading can be;
* `Context.kept_headed` — commands that turn by finite numbers keep it within a turn;
* `Context.exists_lost` — a command that turns by any other number loses it.
-/

namespace TurtleLogo

namespace Context

/-- The heading lies within a full turn from zero. -/
def Headed (c : Context) : Prop :=
  Number.InTurn c.drawing.turtle.heading

/-- The heading is not a number. -/
def Lost (c : Context) : Prop :=
  c.drawing.turtle.heading.isNaN = true

theorem Headed.not_lost {c : Context} (h : c.Headed) : ¬ c.Lost := by
  intro hlost
  rw [Lost, Number.isNaN_of_le h.1] at hlost
  cases hlost

end Context

/-- If the command turns the turtle by the value of an expression, this value is finite. -/
def Command.TurnsFinitely (command : Command) (c : Context) : Prop :=
  ∀ e value, command.angle? = some e → c.eval e = .ok value → value.isFinite = true

/-! ## One command -/

theorem Drawing.turtle_mark (d : Drawing) (figure : Figure) : (d.mark figure).turtle = d.turtle := by
  unfold mark
  split <;> rfl

namespace Context

variable {c : Context}

/-- Turning and facing write the heading, and going home resets it. -/
theorem heading_perform (c : Context) (e : Effect) :
    (c.perform e).drawing.turtle.heading =
      match e with
      | .face angle => Number.wrapAngle angle
      | .turn angle => Number.wrapAngle (c.drawing.turtle.heading + angle)
      | .home => Number.quarterTurn
      | _ => c.drawing.turtle.heading := by
  cases e with
  | moveTo target =>
      change (c.drawing.mark _).turtle.heading = c.drawing.turtle.heading
      rw [Drawing.turtle_mark]
  | arc sweep radius =>
      change (c.drawing.mark _).turtle.heading = c.drawing.turtle.heading
      rw [Drawing.turtle_mark]
  | _ => rfl

theorem inTurn_quarterTurn : Number.InTurn Number.quarterTurn := by
  unfold Number.InTurn
  decide

theorem headed_or_lost_of_eq {angle : Float32} (h : c.drawing.turtle.heading = Number.wrapAngle angle) :
    c.Headed ∨ c.Lost := by
  unfold Headed Lost
  rw [h]
  cases hfinite : angle.isFinite with
  | true => exact .inl (Number.wrapAngle_of_isFinite hfinite)
  | false => exact .inr (Number.wrapAngle_of_not_isFinite hfinite)

theorem kept_headed_or_lost : Kept (fun _ _ => True) fun c => c.Headed ∨ c.Lost where
  effect {command c e} _ h _ := by
    have hheading := c.heading_perform e
    cases e with
    | face angle => exact headed_or_lost_of_eq hheading
    | turn angle => exact headed_or_lost_of_eq hheading
    | home => exact .inl inTurn_quarterTurn
    | _ =>
        unfold Headed Lost at h ⊢
        rw [hheading]
        exact h
  call _ _ h := h
  leave h := h

theorem kept_headed : Kept Command.TurnsFinitely Headed where
  effect {command c e} hfinite h hstep := by
    have hheading := c.heading_perform e
    have hsource := Command.source_of_step hstep
    unfold Headed at h ⊢
    rw [hheading]
    cases e with
    | face angle =>
        rcases hsource with ⟨expression, bearing, hangle, heval, rfl⟩
        exact Number.wrapAngle_of_isFinite (Number.isFinite_faced (hfinite expression bearing hangle heval))
    | turn angle =>
        -- Here the angle is added to the old heading, which leaves room for it.
        rcases hsource with ⟨expression, degrees, hangle, heval, hsign⟩
        exact Number.wrapAngle_of_isFinite (Number.isFinite_turned h (hfinite expression degrees hangle heval) hsign)
    | home => exact inTurn_quarterTurn
    | _ => exact h
  call _ _ h := h
  leave h := h

/-- An operand without a finite value is no obstacle to a command, but the heading is lost. -/
theorem exists_lost {command : Command} (h : ¬ command.TurnsFinitely c) :
    ∃ e, command.step c = .ok (.effect e) ∧ (c.perform e).Lost := by
  simp only [Command.TurnsFinitely, not_forall, Bool.not_eq_true] at h
  rcases h with ⟨expression, value, hangle, heval, hvalue⟩
  have hradians := Number.not_isFinite_toRadians hvalue
  have hoperand (op : String) : c.evalOperand op 0 (.value expression) = .ok value := heval
  rcases command with ⟨head, operands, pos⟩
  -- The three commands that have an angle, each with its one operand.
  unfold Command.angle? at hangle
  dsimp only at hangle
  split at hangle
  · cases hangle
    refine ⟨.turn (-Number.toRadians value), ?_, ?_⟩
    · simp only [Command.step, Builtin.step, hoperand]
      rfl
    · exact Number.wrapAngle_of_not_isFinite (Number.not_isFinite_add _ (Number.not_isFinite_neg hradians))
  · cases hangle
    refine ⟨.turn (Number.toRadians value), ?_, ?_⟩
    · simp only [Command.step, Builtin.step, hoperand]
      rfl
    · exact Number.wrapAngle_of_not_isFinite (Number.not_isFinite_add _ hradians)
  · cases hangle
    refine ⟨.face (Number.quarterTurn - Number.toRadians value), ?_, ?_⟩
    · simp only [Command.step, Builtin.step, hoperand]
      rfl
    · exact Number.wrapAngle_of_not_isFinite (Number.not_isFinite_sub _ hradians)
  · cases hangle

theorem headed_initial (p : Program) : (Machine.initial.enterDefinitions p).context.Headed :=
  List.foldlRecOn _ _ inTurn_quarterTurn fun _ h _ _ => h

end Context

/-! ## Runs of programs -/

namespace Program

/-- In the run of the program from a new context the context is `c` at some moment, and the commands started so far are
those of the log. -/
def Visits (p : Program) (log : List Event) (c : Context) : Prop :=
  Reaches (.series (.block p)) (Machine.initial.enterDefinitions p) log c

/-- The run of the program from a new context starts a command at some moment. -/
def Starts (p : Program) (event : Event) : Prop :=
  ∃ log result, Traces (.series (.block p)) (Machine.initial.enterDefinitions p) log result ∧ event ∈ log

theorem Visits.starts {p : Program} {log : List Event} {c : Context} (h : p.Visits log c) {event : Event}
    (hmem : event ∈ log) : p.Starts event := by
  rcases Reaches.exists_traces h with ⟨result, htraces⟩
  exact ⟨log, result, htraces, hmem⟩

/-- The heading is never anything but an angle within a full turn or NaN. It is such an angle as long as the program has
turned by finite numbers only, and the whole run keeps it so if and only if it turns by no others. -/
theorem heading_stays_in_turn_iff (p : Program) :
    (∀ log c, p.Visits log c → (c.Headed ∨ c.Lost) ∧ (StartedUnder Command.TurnsFinitely log → c.Headed)) ∧
    ((∀ log c, p.Visits log c → c.Headed) ↔
      ∀ event, p.Starts event → event.command.TurnsFinitely event.machine.context) := by
  have hinitial := Context.headed_initial p
  have hheaded {log : List Event} {c : Context} (h : p.Visits log c) (hfinite : StartedUnder Command.TurnsFinitely log) :
      c.Headed := Reaches.keeps Context.kept_headed h hfinite hinitial
  refine ⟨fun log c h => ⟨?_, hheaded h⟩, ?_, ?_⟩
  · exact Reaches.keeps_always Context.kept_headed_or_lost h (.inl hinitial)
  · rintro hall event ⟨log, result, htraces, hmem⟩
    by_contra hturns
    -- The effect of the command is there at some moment, and it has lost the heading.
    rcases Context.exists_lost hturns with ⟨e, hstep, hlost⟩
    rcases htraces.reaches_perform hmem hstep with ⟨before, hreaches⟩
    exact (hall before _ hreaches).not_lost hlost
  · intro hfinite log c h
    exact hheaded h fun event hmem => hfinite event (h.starts hmem)

/-- A root that does not exist is enough to lose the heading. -/
theorem heading_lost_by_root :
    ∃ p m', Program.compile "seth sqrt -1" = .ok p ∧ Machine.run 3 p Machine.initial = some (.ok (), m') ∧
      m'.context.Lost ∧ ¬ m'.context.Headed := by
  have hend : ((Program.compile "seth sqrt -1").toOption.bind fun p => Machine.run 3 p Machine.initial).map
      (fun r => (r.1, r.2.context.drawing.turtle.heading.isNaN)) = some (.ok (), true) := by
    decide +kernel
  rcases Option.map_eq_some_iff.1 hend with ⟨⟨result, m'⟩, hrun, hheading⟩
  rcases Option.bind_eq_some_iff.1 hrun with ⟨p, hcompile, hrun⟩
  simp only [Prod.mk.injEq] at hheading
  rcases hheading with ⟨rfl, hnan⟩
  exact ⟨p, m', Checked.toOption_eq_some.1 hcompile, hrun, hnan, fun hheaded => hheaded.not_lost hnan⟩

end Program
end TurtleLogo
