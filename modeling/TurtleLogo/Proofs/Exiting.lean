import Mathlib.Logic.Function.Iterate
import TurtleLogo.Proofs.Scoping
import TurtleLogo.Proofs.Tracing

/-!
# Leaving a program

A command that fails and a `bye` end the whole execution, however deep in blocks, loops and calls they stand. After them
only the calls return that were going on, which takes their frames away and changes nothing else.

* `Event.Ends event o c` — the event is such a command; it leaves the outcome `o` and the context `c`;
* `Traces.ends` — so it is the last event, and the execution ends with `o` in what the returning calls leave of `c`;
* `Traces.depth_eq` — each of these calls has a frame of its own.
-/

namespace TurtleLogo

namespace Event

inductive Ends (event : Event) : Outcome → Context → Prop where
  | fault {fault : Fault} (step : event.command.step event.machine.context = .error fault) :
      Ends event (.failed ⟨event.command.pos.line, fault⟩) event.machine.context
  | exit (step : event.command.step event.machine.context = .ok (.effect .exit)) :
      Ends event .finished (event.machine.context.perform .exit)

variable {event : Event} {o : Outcome} {c : Context}

theorem Ends.runs (h : event.Ends o c) :
    Runs (.command event.command) event.machine o ⟨c, event.command.pos.line⟩ := by
  cases h with
  | fault step => exact .fault step
  | exit step => exact .effect step

theorem Ends.returned_eq (h : event.Ends o c) : o.returned = o := by
  cases h <;> rfl

/-- An outcome that lets the execution go on comes with the wish to exit. -/
theorem Ends.exiting (h : event.Ends o c) (ho : o = .finished) : c.exiting = true := by
  cases h with
  | fault => cases ho
  | exit => rfl

theorem Ends.of_inside {call : Command} (h : (event.inside call).Ends o c) : event.Ends o c := by
  cases h with
  | fault step => exact .fault step
  | exit step => exact .exit step

end Event

namespace Context

/-- The context after a number of calls have returned one after the other. -/
def leaveCalls (c : Context) (count : Nat) : Context :=
  { c with scopes := Scopes.leave^[count] c.scopes }

theorem leaveCall_leaveCalls (c : Context) (count : Nat) : (c.leaveCalls count).leaveCall = c.leaveCalls (count + 1) := by
  simp [leaveCalls, leaveCall, Function.iterate_succ_apply']

end Context

/-- Where an element of two joined lists stands. -/
theorem split_of_append_eq {α : Type} {first second before after : List α} {a : α}
    (h : first ++ second = before ++ a :: after) :
    (∃ rest, first = before ++ a :: rest ∧ after = rest ++ second) ∨
      ∃ rest, before = first ++ rest ∧ second = rest ++ a :: after := by
  rcases List.append_eq_append_iff.1 h with ⟨rest, rfl, hsecond⟩ | ⟨rest, rfl, hsecond⟩
  · exact .inr ⟨rest, rfl, hsecond⟩
  · rcases List.cons_eq_append_iff.1 hsecond with ⟨rfl, rfl⟩ | ⟨tail, rfl, rfl⟩
    · exact .inr ⟨[], by simp, rfl⟩
    · exact .inl ⟨tail, rfl, rfl⟩

namespace Traces

variable {t : Task} {m : Machine} {log : List Event} {result : Option (Outcome × Machine)}

/-- Nothing is started after an event that ends the execution, and the calls around it return. -/
theorem ends (h : Traces t m log result) (hx : m.context.exiting = false) {before after : List Event} {event : Event}
    {o : Outcome} {c : Context} (hlog : log = before ++ event :: after) (hends : event.Ends o c) :
    after = [] ∧ ∃ m', Runs t m o m' ∧ m'.context = c.leaveCalls event.callers.length := by
  induction h generalizing before after event with
  | begun | done | exiting =>
      simp at hlog
  | fault | effect | stop =>
      -- The command itself is the only event.
      rcases List.append_eq_singleton_iff.1 hlog.symm with ⟨rfl, hevent⟩ | ⟨-, hnil⟩
      · cases hevent
        exact ⟨rfl, _, hends.runs, rfl⟩
      · cases hnil
  | enter step series? _ ih =>
      rcases List.cons_eq_append_iff.1 hlog with ⟨rfl, hevent⟩ | ⟨rest, rfl, hrest⟩
      · cases hevent
        cases hends with
        | fault step' => cases step.symm.trans step'
        | exit step' =>
            cases step.symm.trans step'
            cases series?
      · rcases ih hx hrest hends with ⟨hnil, m', hruns, hcontext⟩
        exact ⟨hnil, m', .enter step series? hruns, hcontext⟩
  | @call command m d values inner result step _ ih =>
      rcases List.cons_eq_append_iff.1 hlog with ⟨rfl, hevent⟩ | ⟨rest, rfl, hrest⟩
      · cases hevent
        cases hends with
        | fault step' | exit step' => cases step.symm.trans step'
      · rcases List.map_eq_append_iff.1 hrest with ⟨before', tail, hinner, -, htail⟩
        rcases List.map_eq_cons_iff.1 htail with ⟨event', after', rfl, rfl, rfl⟩
        rcases ih hx hinner hends.of_inside with ⟨rfl, m', hruns, hcontext⟩
        have hreturns := Runs.call step hruns
        rw [hends.returned_eq] at hreturns
        refine ⟨rfl, m'.leaveCall, hreturns, ?_⟩
        calc m'.leaveCall.context
            = (c.leaveCalls event'.callers.length).leaveCall := by rw [Machine.leaveCall, hcontext]
          _ = c.leaveCalls (event'.inside command).callers.length := by
            simp [Context.leaveCall_leaveCalls, Event.inside]
  | @next series rest first m m' log more result hgoes split tracesFirst tracesRest ihFirst ihRest =>
      rcases split_of_append_eq hlog with ⟨mid, hfirst, rfl⟩ | ⟨mid, rfl, hmore⟩
      · rcases ihFirst hgoes hfirst hends with ⟨rfl, n, hruns, hcontext⟩
        -- The first part has finished, so that the event was a wish to exit, which the rest obeys.
        rcases tracesFirst.runs.unique hruns with ⟨rfl, rfl⟩
        have hexiting : n.context.exiting = true := by
          rw [hcontext]
          exact hends.exiting rfl
        rcases tracesRest.eq_nil_of_exiting hexiting with ⟨rfl, -⟩
        exact ⟨rfl, n, .next hgoes split hruns (.exiting hexiting), hcontext⟩
      · have hgoes' : m'.context.exiting = false := by
          rw [Bool.eq_false_iff]
          intro hexiting
          rcases tracesRest.eq_nil_of_exiting hexiting with ⟨rfl, -⟩
          simp at hmore
        rcases ihRest hgoes' hmore hends with ⟨hnil, n, hruns, hcontext⟩
        exact ⟨hnil, n, .next hgoes split tracesFirst.runs hruns, hcontext⟩
  | halt hgoes split _ _ ih =>
      rcases ih hgoes hlog hends with ⟨hnil, n, hruns, hcontext⟩
      refine ⟨hnil, n, ?_, hcontext⟩
      by_cases hfinished : o = .finished
      · subst hfinished
        have hexiting : n.context.exiting = true := by
          rw [hcontext]
          exact hends.exiting rfl
        exact .next hgoes split hruns (.exiting hexiting)
      · exact .halt hgoes split hruns hfinished

/-- Every call that an event is part of has a frame of its own. -/
theorem depth_eq (h : Traces t m log result) {event : Event} (hmem : event ∈ log) :
    event.machine.context.scopes.depth = m.context.scopes.depth + event.callers.length := by
  induction h generalizing event with
  | begun | done | exiting =>
      cases hmem
  | fault | effect | stop =>
      rcases List.mem_singleton.1 hmem with rfl
      rfl
  | enter _ _ _ ih =>
      rcases List.mem_cons.1 hmem with rfl | hmem
      · rfl
      · exact ih hmem
  | @call command m d values inner result _ _ ih =>
      rcases List.mem_cons.1 hmem with rfl | hmem
      · rfl
      · rcases List.mem_map.1 hmem with ⟨event', hmem', rfl⟩
        have henter : (m.context.enterCall d values).scopes.depth = m.context.scopes.depth + 1 := by
          simp [Scopes.depth, Context.below_enterCall]
        have hdepth := ih hmem'
        simp only [henter] at hdepth
        simp only [Event.inside, List.length_append, List.length_singleton]
        omega
  | next _ _ tracesFirst _ ihFirst ihRest =>
      rcases List.mem_append.1 hmem with hmem | hmem
      · exact ihFirst hmem
      · rw [ihRest hmem, Scopes.depth_eq_of_below_eq tracesFirst.runs.below_eq]
  | halt _ _ _ _ ih =>
      exact ih hmem

end Traces

/-! ## The command `bye` -/

/-- A `bye` is refused if it has operands, and is the wish to exit if it has none. -/
theorem Command.step_of_bye {command : Command} (head : command.head = .builtin .bye) (c : Context) :
    command.step c =
      if command.operands = [] then .ok (.effect .exit)
      else .error (.arity "bye" (.exactly 0) command.operands.length) := by
  rcases command with ⟨_, operands, pos⟩
  cases head
  cases operands <;> rfl

namespace Event

variable {event : Event}

theorem ends_of_bye (head : event.command.head = .builtin .bye) (hoperands : event.command.operands = []) :
    event.Ends .finished (event.machine.context.perform .exit) :=
  .exit (by rw [Command.step_of_bye head, if_pos hoperands])

theorem exists_ends_of_bye (head : event.command.head = .builtin .bye) : ∃ o c, event.Ends o c := by
  by_cases hoperands : event.command.operands = []
  · exact ⟨_, _, ends_of_bye head hoperands⟩
  · exact ⟨_, _, .fault (by rw [Command.step_of_bye head, if_neg hoperands])⟩

/-- The `bye` of the event was given inside calls made from `m`, each with a frame of its own, and `m'` is how it left the
machine, except that these calls have returned. -/
def ExitsTo (event : Event) (m m' : Machine) : Prop :=
  event.machine.context.scopes.depth = m.context.scopes.depth + event.callers.length ∧
    m'.context = (event.machine.context.perform .exit).leaveCalls event.callers.length

end Event

namespace Machine

theorem execBlock_of_exiting {m : Machine} (hx : m.context.exiting = true) (fuel : Nat) (body : List Command) :
    execBlock fuel body m = some (.finished, m) := by
  cases body with
  | nil => rfl
  | cons command rest => exact (execAll_cons _ command rest m).trans (proceed_of_exiting hx _ _)

theorem bye_is_last {body : List Command} {m : Machine} (hx : m.context.exiting = false) {before after : List Event}
    {event : Event} {result : Option (Outcome × Machine)}
    (h : Traces (.series (.block body)) m (before ++ event :: after) result)
    (head : event.command.head = .builtin .bye) :
    after = [] ∧
      (event.command.operands = [] → ∃ m', event.ExitsTo m m' ∧ Runs (.series (.block body)) m .finished m') := by
  constructor
  · rcases Event.exists_ends_of_bye head with ⟨o, c, hends⟩
    exact (h.ends hx rfl hends).1
  · intro hoperands
    rcases (h.ends hx rfl (Event.ends_of_bye head hoperands)).2 with ⟨m', hruns, hcontext⟩
    exact ⟨m', ⟨h.depth_eq (by simp), hcontext⟩, hruns⟩

/-- After `bye` nothing is executed, at whatever depth of blocks, loops and calls it stands: the block or program comes
to an end without an error or a stop, and leaves the machine as the `bye` did, less the frames of the calls around it. A
block that is started after that does nothing at all. Only a `bye` with operands, which no text has, is refused. -/
theorem bye_ends_everything (m : Machine) :
    (m.context.exiting = true → ∀ fuel body, execBlock fuel body m = some (.finished, m)) ∧
    (m.context.exiting = false → ∀ body before event after result,
      Traces (.series (.block body)) m (before ++ event :: after) result → event.command.head = .builtin .bye →
        after = [] ∧
          (event.command.operands = [] →
            ∃ m', event.ExitsTo m m' ∧ ∃ enough, ∀ fuel ≥ enough, execBlock fuel body m = some (.finished, m'))) ∧
    (m.context.exiting = false → ∀ p before event after result,
      Traces (.series (.block p)) (m.enterDefinitions p) (before ++ event :: after) result →
        event.command.head = .builtin .bye →
          after = [] ∧
            (event.command.operands = [] →
              ∃ m', event.ExitsTo m m' ∧ ∃ enough, ∀ fuel ≥ enough, run fuel p m = some (.ok (), m'))) := by
  refine ⟨execBlock_of_exiting, ?_, ?_⟩
  · intro hx body before event after result h head
    refine (bye_is_last hx h head).imp_right fun hreturns hoperands => ?_
    rcases hreturns hoperands with ⟨m', hexits, hruns⟩
    rcases hruns.exists_exec with ⟨enough, hexec⟩
    exact ⟨m', hexits, enough, fun fuel hle => execBlock_of_le hle body m _ hexec⟩
  · intro hx p before event after result h head
    have hentered := enterDefinitions_eq m p
    have hx' : (m.enterDefinitions p).context.exiting = false := by
      rw [hentered]
      exact hx
    refine (bye_is_last hx' h head).imp_right fun hreturns hoperands => ?_
    rcases hreturns hoperands with ⟨m', hexits, hruns⟩
    rcases exists_run hruns with ⟨enough, hrun⟩
    rw [Event.ExitsTo, hentered] at hexits
    exact ⟨m', hexits, enough, fun fuel hle => run_of_le hle p m hrun⟩

/-- One round of a loop that says `bye` and has something left to do. -/
def partingRound : List Command :=
  [⟨.builtin .bye, [], ⟨2, 3⟩⟩, ⟨.builtin .print, [.value (.var "n")], ⟨2, 7⟩⟩]

/-- A procedure that repeats such rounds without end. -/
def parting : Definition :=
  { name := "part"
    params := ["n"]
    body := [⟨.builtin .forever, [.block partingRound], ⟨2, 1⟩⟩, ⟨.builtin .home, [], ⟨3, 1⟩⟩] }

def partingCall : Command :=
  ⟨.call "part", [.value (.number 7)], ⟨5, 1⟩⟩

theorem bye_ends_an_endless_loop :
    let m := ofContext (Context.initial.define parting)
    ∃ m', (∃ enough, ∀ fuel ≥ enough,
        execBlock fuel [partingCall, ⟨.builtin .home, [], ⟨6, 1⟩⟩] m = some (.finished, m')) ∧
      m'.context = { m.context with exiting := true } := by
  intro m
  have hstep : partingCall.step m.context = .ok (.call parting [7]) := by
    have hfound : m.context.procedures.find? "part" 1 = some parting := by
      simp [m, ofContext, Context.define, Procedures.find?_define, Definition.signature, parting]
    simp [partingCall, Command.step, Context.callStep, hfound, Context.evalArguments, Context.evalOperand,
      Operand.asValue, Context.eval, Expression.eval, Bind.bind, Except.bind, Pure.pure, Except.pure]
  let start : Machine := ⟨m.context.enterCall parting [7], 5⟩
  let loop : Event := ⟨[], ⟨.builtin .forever, [.block partingRound], ⟨2, 1⟩⟩, start⟩
  let bye : Event := ⟨[], ⟨.builtin .bye, [], ⟨2, 3⟩⟩, start.atLine 2⟩
  -- The first round of the loop and the call are still going on when `bye` has been executed.
  have hround : Traces (.series (.block partingRound)) (start.atLine 2) [bye] none :=
    .next rfl rfl (.effect rfl) (.begun _ _)
  have hloop : Traces (.series (.forever partingRound)) (start.atLine 2) [bye] none :=
    .halt rfl rfl hround (by simp)
  have hbody : Traces (.series (.block parting.body)) start [loop, bye] none :=
    .halt rfl rfl (.enter rfl rfl hloop) (by simp)
  have htrace : Traces (.series (.block [partingCall, ⟨.builtin .home, [], ⟨6, 1⟩⟩])) m
      ([⟨[], partingCall, m⟩, loop.inside partingCall] ++ [bye.inside partingCall]) none :=
    .halt rfl rfl (.call hstep hbody) (by simp)
  rcases (bye_ends_everything m).2.1 rfl _ _ _ _ _ htrace rfl with ⟨-, hreturns⟩
  rcases hreturns rfl with ⟨m', ⟨-, hcontext⟩, henough⟩
  exact ⟨m', henough, hcontext⟩

end Machine
end TurtleLogo
