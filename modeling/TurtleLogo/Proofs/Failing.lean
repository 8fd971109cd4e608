import TurtleLogo.Proofs.Placement
import TurtleLogo.Proofs.Stopping

/-!
# Commands that fail

An error ends the whole execution, through all blocks and calls around the command that has raised it. The machine has one
place for the line of the command at work, which every command overwrites and none restores, so it is worth saying which
line an error reports and what else it leaves behind:

* `Event.Raises event error` — the command of the event fails by itself, and the error has its line;
* `Traces.exists_raises` — a failed execution has ended with such an event. It leaves the context in which the command was
  started, except for the frames of the calls that were going on;
* `Command.PassesOn` — the error of a command comes out of one that it has started, in a block or in the body of a procedure;
* `Command.not_starts_of_fault` — a command that fails by itself has started no other.
-/

namespace TurtleLogo

/-! ## The command that raises an error -/

namespace Event

/-- The command of the event fails for its operands, their values or want of a procedure, and the error tells its line. -/
structure Raises (event : Event) (error : RuntimeError) : Prop where
  step : event.command.step event.machine.context = .error error.fault
  line : error.line = event.command.pos.line

/-- The event is the one that the error of a program is about: its command has raised the error, or it is a `stop` that is
not given inside of a procedure. -/
inductive Blamed (event : Event) (error : RuntimeError) : Prop where
  | raised (raises : event.Raises error)
  | stray (head : event.command.head = .builtin .stop) (callers : event.callers = [])
      (fault : error.fault = .stopOutsideProcedure) (line : error.line = event.command.pos.line)

end Event

/-- A call that has failed was left by its body with the same error. -/
theorem Machine.failed_of_returned {result : Option (Outcome × Machine)} {error : RuntimeError} {m' : Machine}
    (h : result.map returned = some (.failed error, m')) :
    ∃ n, result = some (.failed error, n) ∧ m' = n.leaveCall := by
  rcases Option.map_eq_some_iff.1 h with ⟨⟨o, n⟩, rfl, hreturned⟩
  rw [returned_eq] at hreturned
  rcases Prod.mk.inj hreturned with ⟨ho, rfl⟩
  cases o with
  | finished | stopped => cases ho
  | failed => exact ⟨n, congrArg (fun o => some (o, n)) ho, rfl⟩

namespace Traces

variable {t : Task} {command : Command} {m m' : Machine} {error : RuntimeError} {log : List Event}

/-- The last command of a failed execution has raised the error. Since then only calls have returned. -/
theorem exists_raises (h : Traces t m log (some (.failed error, m'))) :
    ∃ before event, log = before ++ [event] ∧ event.Raises error ∧
      m'.context = event.machine.context.leaveCalls event.callers.length := by
  generalize hresult : some (Outcome.failed error, m') = result at h
  induction h generalizing m' with
  | begun | effect | stop | done | exiting =>
      cases hresult
  | @fault command m fault step =>
      cases hresult
      exact ⟨[], ⟨[], command, m⟩, rfl, ⟨step, rfl⟩, rfl⟩
  | enter step series? _ ih =>
      rcases ih hresult with ⟨before, event, rfl, hraises, hcontext⟩
      exact ⟨_ :: before, event, rfl, hraises, hcontext⟩
  | @call command m d values inner result step _ ih =>
      rcases Machine.failed_of_returned hresult.symm with ⟨n, rfl, rfl⟩
      rcases ih rfl with ⟨before, event, rfl, hraises, hcontext⟩
      refine ⟨⟨[], command, m⟩ :: before.map (Event.inside command), event.inside command, by simp,
        ⟨hraises.step, hraises.line⟩, ?_⟩
      calc n.leaveCall.context
          = (event.machine.context.leaveCalls event.callers.length).leaveCall := by rw [Machine.leaveCall, hcontext]
        _ = event.machine.context.leaveCalls (event.inside command).callers.length := by
          simp [Context.leaveCall_leaveCalls, Event.inside]
  | @next series rest first m n log more result _ _ _ _ _ ihRest =>
      rcases ihRest hresult with ⟨before, event, rfl, hraises, hcontext⟩
      exact ⟨log ++ before, event, (List.append_assoc log before [event]).symm, hraises, hcontext⟩
  | halt _ _ _ _ ih =>
      exact ih hresult

/-- A command that has ended was started. -/
theorem eq_cons_of_ended {r : Outcome × Machine} (h : Traces (.command command) m log (some r)) :
    ∃ rest, log = ⟨[], command, m⟩ :: rest := by
  generalize hresult : some r = result at h
  cases h with
  | begun => cases hresult
  | fault | effect | stop => exact ⟨[], rfl⟩
  | enter | call => exact ⟨_, rfl⟩

/-- A series fails with one of its commands, and that one fails when it is executed for itself. -/
theorem exists_failing {series : Series} (h : Traces (.series series) m log (some (.failed error, m'))) :
    ∃ event ∈ log, event.command ∈ series.body ∧
      ∃ fuel, Machine.exec fuel event.command event.machine = some (.failed error, m') := by
  generalize ht : Task.series series = t at h
  generalize hresult : some (Outcome.failed error, m') = result at h
  induction h generalizing series with
  | fault | effect | stop | enter | call =>
      cases ht
  | begun | done | exiting =>
      cases hresult
  | next _ split _ _ _ ihRest =>
      cases ht
      rcases ihRest rfl hresult with ⟨event, hlog, hmem, hfails⟩
      exact ⟨event, List.mem_append_right _ hlog, (Task.commands_split split).2 hmem, hfails⟩
  | @halt series' rest first m log result _ split traces _ ih =>
      cases ht
      subst hresult
      cases first with
      | command inner =>
          rcases traces.eq_cons_of_ended with ⟨own, rfl⟩
          rcases traces.runs.exists_exec with ⟨fuel, hexec⟩
          exact ⟨⟨[], inner, m⟩, List.mem_cons_self, (Task.commands_split split).1 List.mem_cons_self, fuel, hexec⟩
      | series part =>
          -- A round of a loop is a series itself.
          rcases ih rfl rfl with ⟨event, hlog, hmem, hfails⟩
          exact ⟨event, hlog, (Task.commands_split split).1 hmem, hfails⟩

end Traces

/-! ## Commands inside of others -/

namespace Command

variable {command : Command} {m m' : Machine} {error : RuntimeError}

/-- The commands that a command has to start itself, those of a block among its operands or of the procedure it calls. -/
inductive Encloses (c : Context) (command inner : Command) : Prop where
  | block {body : List Command} (operand : .block body ∈ command.operands) (mem : inner ∈ body)
  | body {name : String} {d : Definition} (head : command.head = .call name)
      (found : c.procedures.find? name command.operands.length = some d) (mem : inner ∈ d.body)

/-- In the course of its execution from `m`, the command starts another one. -/
def Starts (command : Command) (m : Machine) (event : Event) : Prop :=
  ∃ log result, Traces (.command command) m (⟨[], command, m⟩ :: log) result ∧ event ∈ log

/-- The command has started one that it encloses, and that one fails with the error. -/
def PassesOn (command : Command) (m : Machine) (error : RuntimeError) : Prop :=
  ∃ event, command.Starts m event ∧ command.Encloses m.context event.command ∧
    ∃ fuel n', Machine.exec fuel event.command event.machine = some (.failed error, n')

/-- No command fails by itself once it has started another one. -/
theorem raises_or_passesOn (h : Runs (.command command) m (.failed error) m') :
    (Event.Raises ⟨[], command, m⟩ error ∧ m'.context = m.context) ∨ command.PassesOn m error := by
  rcases h.exists_traces with ⟨log, htraces⟩
  generalize hresult : some (Outcome.failed error, m') = result at htraces
  have hwhole := htraces
  cases htraces with
  | begun | effect | stop => cases hresult
  | fault step =>
      cases hresult
      exact .inl ⟨⟨step, rfl⟩, rfl⟩
  | enter step series? traces =>
      subst hresult
      rcases traces.exists_failing with ⟨event, hlog, hmem, fuel, hexec⟩
      have hencloses : command.Encloses m.context event.command := by
        cases leads_of_step step with
        | series head series?' block =>
            cases series?.symm.trans series?'
            exact .block block hmem
        | effect | stop | call => cases series?
      exact .inr ⟨event, ⟨_, _, hwhole, hlog⟩, hencloses, fuel, _, hexec⟩
  | call step traces =>
      -- The body fails before the call returns, which does not touch the error.
      rcases Machine.failed_of_returned hresult.symm with ⟨n, rfl, -⟩
      rcases traces.exists_failing with ⟨event, hlog, hmem, fuel, hexec⟩
      have hencloses : command.Encloses m.context event.command := by
        cases leads_of_step step with
        | call head found => exact .body head found hmem
        | series head series? => cases series?
      exact .inr ⟨event.inside command, ⟨_, _, hwhole, List.mem_map_of_mem hlog⟩, hencloses, fuel, n, hexec⟩

end Command

/-! ## Executions with fuel -/

namespace Machine

/-- A program that fails has ended with the command that its error is about. -/
theorem exists_blamed_of_run {fuel : Nat} {p : Program} {m m' : Machine} {error : RuntimeError}
    (h : run fuel p m = some (.error error, m')) :
    ∃ o before event, Traces (.series (.block p)) (m.enterDefinitions p) (before ++ [event]) (some (o, m')) ∧
      event.Blamed error ∧ m'.context = event.machine.context.leaveCalls event.callers.length := by
  rcases runs_of_run h with ⟨o, hruns, hended⟩
  rcases hruns.exists_traces with ⟨log, htraces⟩
  cases o with
  | finished =>
      cases hended
  | stopped =>
      cases hended
      rcases htraces.exists_stop with ⟨before, stop, rfl, hhead, hcallers, -, rfl⟩
      refine ⟨.stopped, before, stop, htraces, .stray hhead hcallers rfl rfl, ?_⟩
      rw [hcallers]
      rfl
  | failed error' =>
      cases hended
      rcases htraces.exists_raises with ⟨before, event, rfl, hraises, hcontext⟩
      exact ⟨.failed error, before, event, htraces, .raised hraises, hcontext⟩

/-- The result of a program and the context it leaves do not depend on the line that the machine had before. -/
theorem run_line (fuel : Nat) (p : Program) (c : Context) (line line' : Nat) :
    (run fuel p ⟨c, line⟩).map (fun r => (r.1, r.2.context)) =
      (run fuel p ⟨c, line'⟩).map (fun r => (r.1, r.2.context)) := by
  rw [observed_run, observed_run, enterDefinitions_eq, enterDefinitions_eq]
  exact map_execBlock_line (fun _ _ _ => rfl) fuel p _ line line'

/-- An error tells the line of the command that has raised it. A command that fails has raised the error itself, by its
operands or for want of a procedure, or has it unchanged from a command in one of its blocks or in the procedure that it
calls. In a failed execution the last command that was started has raised the error, so that no command is reported that
had finished before; and the line that the machine had at the beginning does not matter. -/
theorem errors_blame_their_command :
    (∀ fuel command m error m', exec fuel command m = some (.failed error, m') →
      (command.Fails m.context error.fault ∧ Event.Raises ⟨[], command, m⟩ error) ∨ command.PassesOn m error) ∧
    (∀ t m log error m', Traces t m log (some (.failed error, m')) →
      ∃ before event, log = before ++ [event] ∧ event.Raises error) ∧
    (∀ fuel p m error m', run fuel p m = some (.error error, m') →
      ∃ o before event, Traces (.series (.block p)) (m.enterDefinitions p) (before ++ [event]) (some (o, m')) ∧
        event.Blamed error) ∧
    (∀ fuel command c line line', exec fuel command ⟨c, line⟩ = exec fuel command ⟨c, line'⟩) ∧
    (∀ fuel p c line line', (run fuel p ⟨c, line⟩).map (fun r => (r.1, r.2.context)) =
      (run fuel p ⟨c, line'⟩).map (fun r => (r.1, r.2.context))) := by
  refine ⟨?_, ?_, ?_, exec_line, run_line⟩
  · intro fuel command m error m' h
    rcases Command.raises_or_passesOn (runs_of_exec fuel h) with ⟨hraises, -⟩ | hpasses
    · exact .inl ⟨Command.fails_of_step hraises.step, hraises⟩
    · exact .inr hpasses
  · intro t m log error m' h
    rcases h.exists_raises with ⟨before, event, hlog, hraises, -⟩
    exact ⟨before, event, hlog, hraises⟩
  · intro fuel p m error m' h
    rcases exists_blamed_of_run h with ⟨o, before, event, htraces, hblamed, -⟩
    exact ⟨o, before, event, htraces, hblamed⟩

/-- A procedure that is left on its third line. -/
def detour : Command :=
  ⟨.builtin .define, [.definition
    { name := "detour"
      params := ["n"]
      body := [⟨.builtin .print, [.value (.var "n")], ⟨2, 1⟩⟩, ⟨.builtin .stop, [], ⟨3, 1⟩⟩] }], ⟨1, 1⟩⟩

/-- A loop that calls it and then asks for a pen of no width. -/
def roundTrip : Command :=
  ⟨.builtin .repeatBlock,
    [ .value (.number 2),
      .block
        [ ⟨.call "detour", [.value (.number 5)], ⟨6, 3⟩⟩,
          ⟨.builtin .setPenSize, [.value (.number 0)], ⟨7, 3⟩⟩ ] ], ⟨5, 1⟩⟩

/-- Neither the procedure nor the loop is blamed, nor the line 40 on which the machine was before. -/
theorem detour_is_not_blamed :
    (∃ m', exec 6 roundTrip (initial.enterDefinitions [detour]) = some (.failed ⟨7, .invalidPenSize 0⟩, m') ∧
      roundTrip.PassesOn (initial.enterDefinitions [detour]) ⟨7, .invalidPenSize 0⟩) ∧
    (∃ m' o before event, run 8 [detour, roundTrip] ⟨Context.initial, 40⟩ = some (.error ⟨7, .invalidPenSize 0⟩, m') ∧
      Traces (.series (.block [detour, roundTrip])) (enterDefinitions ⟨Context.initial, 40⟩ [detour, roundTrip])
        (before ++ [event]) (some (o, m')) ∧
      event.Blamed ⟨7, .invalidPenSize 0⟩) := by
  rcases errors_blame_their_command with ⟨hcommand, -, hprogram, -⟩
  refine ⟨?_, ?_⟩
  · have hexec : (exec 6 roundTrip (initial.enterDefinitions [detour])).map Prod.fst =
        some (.failed ⟨7, .invalidPenSize 0⟩) := by
      decide +kernel
    rcases Option.map_eq_some_iff.1 hexec with ⟨⟨o, m'⟩, hexec, rfl⟩
    refine ⟨m', hexec, (hcommand _ _ _ _ _ hexec).resolve_left ?_⟩
    rintro ⟨-, hraises⟩
    exact absurd hraises.line (by decide)
  · have hrun : (run 8 [detour, roundTrip] ⟨Context.initial, 40⟩).map Prod.fst =
        some (.error ⟨7, .invalidPenSize 0⟩) := by
      decide +kernel
    rcases Option.map_eq_some_iff.1 hrun with ⟨⟨result, m'⟩, hrun, rfl⟩
    rcases hprogram _ _ _ _ _ hrun with ⟨o, before, event, htraces, hblamed⟩
    exact ⟨m', o, before, event, hrun, htraces, hblamed⟩

end Machine
end TurtleLogo
