import TurtleLogo.Execution.Step

/-!
# Running programs

A machine is a context and the line of the command that was executed last. Commands can run without end, so execution
takes an amount of fuel: it bounds how deeply blocks and calls may nest and how often an endless loop may go round. The
result is `none` when the fuel did not suffice; more fuel never changes a result that is there.

* `exec`: one command;
* `execAll`: the commands of a block, until one stops or fails or the program exits;
* `Machine.run`: a program, whose definitions are entered first, so that calls may stand before them.
-/

namespace TurtleLogo

structure Machine where
  context : Context
  line : Nat

/-- How the execution of commands ended. -/
inductive Outcome where
  | finished
  /-- A stop is on its way to the procedure that it leaves. -/
  | stopped
  | failed (error : RuntimeError)
  deriving DecidableEq, Repr

/-- An outcome with the machine it leaves behind; `none` if the fuel did not suffice. -/
abbrev Execution := Option (Outcome × Machine)

namespace Machine

/-- A machine that has executed no command yet. -/
def ofContext (c : Context) : Machine := ⟨c, 0⟩

def initial : Machine := ofContext Context.initial

/-- Commands in order, for as long as they finish and the program does not exit. -/
def execAll (exec : Command → Machine → Execution) : List Command → Machine → Execution
  | [], m => some (.finished, m)
  | command :: rest, m =>
      if m.context.exiting then some (.finished, m)
      else
        match exec command m with
        | some (.finished, next) => execAll exec rest next
        | other => other

/-- A body a number of times, for as long as it finishes and the program does not exit. -/
def repeatTimes (body : Machine → Execution) : Nat → Machine → Execution
  | 0, m => some (.finished, m)
  | count + 1, m =>
      if m.context.exiting then some (.finished, m)
      else
        match body m with
        | some (.finished, next) => repeatTimes body count next
        | other => other

/-- A body until the program exits. -/
def repeatForever (body : Machine → Execution) : Nat → Machine → Execution
  | 0, _ => none
  | fuel + 1, m =>
      if m.context.exiting then some (.finished, m)
      else
        match body m with
        | some (.finished, next) => repeatForever body fuel next
        | other => other

/-- The return from a procedure: its frame ends however the body ended, and a stop goes no further. -/
def returned : Outcome × Machine → Outcome × Machine
  | (outcome, m) =>
      let caller := { m with context := m.context.leaveCall }
      match outcome with
      | .failed error => (.failed error, caller)
      | _ => (.finished, caller)

/-- Executes one command. -/
def exec : Nat → Command → Machine → Execution
  | 0, _, _ => none
  | fuel + 1, command, ⟨context, _⟩ =>
      let line := command.pos.line
      match command.step context with
      | .error fault => some (.failed ⟨line, fault⟩, ⟨context, line⟩)
      | .ok (.effect e) => some (.finished, ⟨context.perform e, line⟩)
      | .ok .stop => some (.stopped, ⟨context, line⟩)
      | .ok (.run body) => execAll (exec fuel) body ⟨context, line⟩
      | .ok (.times count body) => repeatTimes (execAll (exec fuel) body) count ⟨context, line⟩
      | .ok (.forever body) => repeatForever (execAll (exec fuel) body) fuel ⟨context, line⟩
      | .ok (.call d values) =>
          (execAll (exec fuel) d.body ⟨context.enterCall d values, line⟩).map returned

/-- Executes a block. -/
def execBlock (fuel : Nat) (body : List Command) (m : Machine) : Execution :=
  execAll (exec fuel) body m

/-- Enters the definitions of a program. -/
def enterDefinitions (m : Machine) (p : Program) : Machine :=
  { m with context := (p.filterMap Command.definition?).foldl Context.define m.context }

/-- A stop that no procedure took is an error of the program. -/
def ended : Outcome × Machine → Except RuntimeError Unit × Machine
  | (.finished, m) => (.ok (), m)
  | (.stopped, m) => (.error ⟨m.line, .stopOutsideProcedure⟩, m)
  | (.failed error, m) => (.error error, m)

/-- Fuel for programs that come to an end: no run can use it up in the lifetime of a computer. -/
def ampleFuel : Nat := 1000000000000000000

/-- Runs a program. -/
def run (fuel : Nat) (p : Program) (m : Machine) : Option (Except RuntimeError Unit × Machine) :=
  (execBlock fuel p (m.enterDefinitions p)).map ended

end Machine
end TurtleLogo
