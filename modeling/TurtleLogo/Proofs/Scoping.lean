import TurtleLogo.Proofs.StepSpec

/-!
# Frames begin and end with calls

Nothing that a program does reaches the frames below the one in use, and every call takes its own frame away again. This
holds whether an execution finishes, stops, exits or fails, however deep its calls are nested:

* `Runs.below_eq` — the frames below the top one are the same after an execution as before it;
* `Runs.scopes_eq_of_call` — after a call even the top one is.
-/

namespace TurtleLogo

namespace Scopes

@[simp] theorem below_bind (s : Scopes) (name : String) (value : Float32) : (s.bind name value).below = s.below := rfl

theorem below_bindAll (s : Scopes) (names : List String) (values : List Float32) :
    (s.bindAll names values).below = s.below := by
  unfold bindAll
  induction names.zip values generalizing s with
  | nil =>
      rfl
  | cons binding bindings ih =>
      simpa using ih (s.bind binding.1 binding.2)

theorem depth_eq_of_below_eq {s s' : Scopes} (h : s'.below = s.below) : s'.depth = s.depth := by
  simp [depth, h]

end Scopes

namespace Context

/-- An effect binds a variable in the top frame or leaves all frames alone. -/
theorem below_perform (c : Context) (e : Effect) : (c.perform e).scopes.below = c.scopes.below := by
  cases e <;> rfl

theorem below_enterCall (c : Context) (d : Definition) (values : List Float32) :
    (c.enterCall d values).scopes.below = c.scopes.top :: c.scopes.below :=
  Scopes.below_bindAll c.scopes.enter d.params values

/-- The caller's frame lies right below that of the call, so it is found again if nothing below the top changed. -/
theorem scopes_leaveCall {c c' : Context} {d : Definition} {values : List Float32}
    (h : c'.scopes.below = (c.enterCall d values).scopes.below) : c'.leaveCall.scopes = c.scopes := by
  have hbelow := h.trans (below_enterCall c d values)
  simp [leaveCall, Scopes.leave, hbelow]

end Context

theorem Outcome.returned_ne_stopped (o : Outcome) : o.returned ≠ .stopped := by
  cases o <;> simp [returned]

namespace Runs

variable {t : Task} {m m' : Machine} {o : Outcome}

theorem below_eq (h : Runs t m o m') : m'.context.scopes.below = m.context.scopes.below := by
  induction h with
  | fault | stop | done | exiting =>
      rfl
  | effect =>
      exact Context.below_perform _ _
  | enter _ _ _ ih =>
      exact ih
  | call _ _ ih =>
      -- The hypothesis speaks of the frames below that of the call, the caller's being the first of them.
      have hscopes := Context.scopes_leaveCall ih
      exact congrArg Scopes.below hscopes
  | next _ _ _ _ ihFirst ihRest =>
      exact ihRest.trans ihFirst
  | halt _ _ _ _ ih =>
      exact ih

theorem scopes_eq_of_call {command : Command} {name : String} (head : command.head = .call name)
    (h : Runs (.command command) m o m') : m'.context.scopes = m.context.scopes ∧ o ≠ .stopped := by
  cases h with
  | fault =>
      exact ⟨rfl, by simp⟩
  | call step runs =>
      exact ⟨Context.scopes_leaveCall runs.below_eq, Outcome.returned_ne_stopped _⟩
  | effect step | stop step | enter step =>
      -- These are steps of built-in commands only.
      cases Command.leads_of_step step <;> simp_all [Step.series?]

end Runs

/-! ## Executions with fuel -/

namespace Machine

/-- There are as many frames as before, and all but the top one are the same. -/
def SameBelow (m m' : Machine) : Prop :=
  m'.context.scopes.depth = m.context.scopes.depth ∧ m'.context.scopes.below = m.context.scopes.below

theorem sameBelow_of_runs {t : Task} {m m' : Machine} {o : Outcome} (h : Runs t m o m') : SameBelow m m' :=
  ⟨Scopes.depth_eq_of_below_eq h.below_eq, h.below_eq⟩

/-- Commands, blocks and programs leave the frames below the top one as they were, whatever their outcome; calls leave
the whole stack as it was and hold back every stop. -/
theorem frames_end_with_calls (fuel : Nat) (m m' : Machine) :
    (∀ command o, exec fuel command m = some (o, m') →
      SameBelow m m' ∧
        ∀ name, command.head = .call name → m'.context.scopes = m.context.scopes ∧ o ≠ .stopped) ∧
    (∀ body o, execBlock fuel body m = some (o, m') → SameBelow m m') ∧
    (∀ p result, run fuel p m = some (result, m') → SameBelow m m') := by
  refine ⟨?_, ?_, ?_⟩
  · intro command o h
    have hruns := runs_of_exec fuel h
    exact ⟨sameBelow_of_runs hruns, fun name head => hruns.scopes_eq_of_call head⟩
  · intro body o h
    exact sameBelow_of_runs (runs_of_execBlock h)
  · intro p result h
    rcases runs_of_run h with ⟨o, hruns, -⟩
    have hbelow := sameBelow_of_runs hruns
    simpa [SameBelow, enterDefinitions_eq] using hbelow

/-- A procedure that binds a variable, and at zero fails inside the calls it has made of itself. -/
def failingCountdown : Definition :=
  { name := "countdown"
    params := ["n"]
    body :=
      [ ⟨.builtin .make, [.name "seen", .value (.var "n")], ⟨1, 1⟩⟩,
        ⟨.builtin .ifThen, [.value (.apply .equal [.var "n", .number 0]),
          .block [⟨.builtin .setPenSize, [.value (.var "n")], ⟨2, 1⟩⟩]], ⟨2, 1⟩⟩,
        ⟨.call "countdown", [.value (.apply .difference [.var "n", .number 1])], ⟨3, 1⟩⟩ ] }

theorem frames_end_with_failing_calls :
    ∃ m', exec 8 ⟨.call "countdown", [.value (.number 2)], ⟨5, 1⟩⟩ (ofContext (Context.initial.define failingCountdown)) =
        some (.failed ⟨2, .invalidPenSize 0⟩, m') ∧
      m'.context.scopes = Scopes.initial := by
  have houtcome : (exec 8 ⟨.call "countdown", [.value (.number 2)], ⟨5, 1⟩⟩
      (ofContext (Context.initial.define failingCountdown))).map Prod.fst =
        some (.failed ⟨2, .invalidPenSize 0⟩) := by
    decide +kernel
  rcases Option.map_eq_some_iff.1 houtcome with ⟨⟨o, m'⟩, hexec, rfl⟩
  have hcalls := (frames_end_with_calls 8 _ m').1 _ _ hexec
  exact ⟨m', hexec, (hcalls.2 "countdown" rfl).1⟩

end Machine
end TurtleLogo
