import TurtleLogo.Proofs.Tracing
import TurtleLogo.Proofs.Typing

/-!
# What `stop` leaves

A `stop` ends the block or loop in which it stands, and those around it, up to the procedure that is being called; the
call itself has finished then. So commands can only be stopped by a `stop` of their own, one that stands among them or in
a block of one of them. Bodies of definitions do not count, neither those that the commands hold nor those that they call.

* `Command.blocks` and `Within Command.blocks` — what stands in blocks, bodies of definitions left out;
* `Traces.exists_stop` — the last command of a stopped execution is such a `stop`;
* `Command.step_ne_stopOutsideProcedure` — no command fails for want of a procedure to leave, so that this error of a
  program always comes from a `stop` that nothing took.
-/

namespace TurtleLogo

/-! ## Commands in blocks -/

def Operand.block? : Operand → Option (List Command)
  | .block body => some body
  | _ => none

/-- The blocks among the operands of a command. -/
def Command.blocks (command : Command) : List (List Command) :=
  command.operands.filterMap Operand.block?

theorem Command.mem_blocks {command : Command} {body : List Command} (h : .block body ∈ command.operands) :
    body ∈ command.blocks :=
  List.mem_filterMap.2 ⟨_, h, rfl⟩

namespace Task

/-- The commands that a task consists of, without those in their blocks. -/
def commands : Task → List Command
  | command c => [c]
  | series s => s.body

/-- The parts of a series have no commands that it does not have. -/
theorem commands_split {series rest : Series} {first : Task} (split : series.split? = some (first, rest)) :
    first.commands ⊆ series.body ∧ rest.body ⊆ series.body := by
  cases series with
  | block body =>
      cases body with
      | nil =>
          cases split
      | cons command commands =>
          cases split
          exact ⟨by simp [Task.commands, Series.body], by simp [Series.body]⟩
  | times count body =>
      cases count with
      | zero =>
          cases split
      | succ count =>
          cases split
          exact ⟨List.Subset.refl _, List.Subset.refl _⟩
  | forever body =>
      cases split
      exact ⟨List.Subset.refl _, List.Subset.refl _⟩

end Task

theorem Within.mono {α : Type} {bodies : α → List (List α)} {a : α} {list list' : List α} (h : Within bodies a list)
    (hsub : list ⊆ list') : Within bodies a list' := by
  cases h with
  | here mem => exact .here (hsub mem)
  | inside mem part within => exact .inside (hsub mem) part within

/-! ## Stopped executions -/

namespace Traces

variable {t : Task} {m m' : Machine} {log : List Event}

/-- A stopped execution has ended with a `stop` of its own. -/
theorem exists_stop (h : Traces t m log (some (.stopped, m'))) :
    ∃ before stop, log = before ++ [stop] ∧ stop.command.head = .builtin .stop ∧ stop.callers = [] ∧
      Within Command.blocks stop.command t.commands ∧ m' = stop.machine.atLine stop.command.pos.line := by
  generalize hresult : some (Outcome.stopped, m') = result at h
  induction h with
  | begun | fault | effect | done | exiting =>
      cases hresult
  | @stop command m step =>
      cases hresult
      have hhead : command.head = .builtin .stop := by
        cases Command.leads_of_step step with
        | stop head => exact head
        | series head series? => cases series?
      exact ⟨[], ⟨[], command, m⟩, rfl, hhead, rfl, .here (by simp [Task.commands]), rfl⟩
  | @enter command m s series log result step series? _ ih =>
      rcases ih hresult with ⟨before, stop, rfl, hhead, hcallers, hwithin, hmachine⟩
      refine ⟨⟨[], command, m⟩ :: before, stop, rfl, hhead, hcallers, ?_, hmachine⟩
      cases Command.leads_of_step step with
      | series head series?' block =>
          cases series?.symm.trans series?'
          exact .inside List.mem_cons_self (Command.mem_blocks block) hwithin
      | effect | stop | call => cases series?
  | call =>
      -- The call would have taken the stop.
      rcases Option.map_eq_some_iff.1 hresult.symm with ⟨⟨o, n⟩, -, hreturned⟩
      cases o <;> cases hreturned
  | @next series rest first m n log more result _ split _ _ _ ihRest =>
      rcases ihRest hresult with ⟨before, stop, rfl, hhead, hcallers, hwithin, hmachine⟩
      refine ⟨log ++ before, stop, (List.append_assoc log before [stop]).symm, hhead, hcallers, ?_, hmachine⟩
      exact hwithin.mono (Task.commands_split split).2
  | halt _ split _ _ ih =>
      rcases ih hresult with ⟨before, stop, hlog, hhead, hcallers, hwithin, hmachine⟩
      exact ⟨before, stop, hlog, hhead, hcallers, hwithin.mono (Task.commands_split split).1, hmachine⟩

end Traces

/-- An execution of the commands has come to an end at a `stop` of their own: it is the last command that was executed, so
that nothing that comes after it was started. -/
structure StoppedAt (body : List Command) (m : Machine) (stop : Event) (m' : Machine) : Prop where
  head : stop.command.head = .builtin .stop
  within : Within Command.blocks stop.command body
  callers : stop.callers = []
  machine : m' = stop.machine.atLine stop.command.pos.line
  last : ∃ before, Traces (.series (.block body)) m (before ++ [stop]) (some (.stopped, m')) ∧
    ∀ log result, Traces (.series (.block body)) m log result → log <+: before ++ [stop]

theorem Runs.exists_stoppedAt {body : List Command} {m m' : Machine} (h : Runs (.series (.block body)) m .stopped m') :
    ∃ stop, StoppedAt body m stop m' := by
  rcases h.exists_traces with ⟨log, htraces⟩
  rcases htraces.exists_stop with ⟨before, stop, rfl, hhead, hcallers, hwithin, hmachine⟩
  exact ⟨stop, hhead, hwithin, hcallers, hmachine, before, htraces, fun log result h => (htraces.unique h).1⟩

/-! ## Programs -/

theorem Command.step_ne_stopOutsideProcedure (command : Command) (c : Context) :
    command.step c ≠ .error .stopOutsideProcedure := by
  intro hstep
  cases Command.fails_of_step hstep with
  | value mem part h => cases Expression.faults_of_eval h
  | range h => exact h

/-- Any commands in any contexts. -/
theorem preserved_trivial : Preserved (fun _ => True) (fun _ => True) where
  effect _ _ _ := trivial
  enter _ _ _ _ := by simp [Task.All]
  call _ _ _ := by simp
  leave _ := trivial

namespace Machine

/-- A program that fails for want of a procedure to leave was stopped. -/
theorem stopped_of_run {fuel line : Nat} {p : Program} {m m' : Machine}
    (h : run fuel p m = some (.error ⟨line, .stopOutsideProcedure⟩, m')) :
    Runs (.series (.block p)) (m.enterDefinitions p) .stopped m' ∧ line = m'.line := by
  rcases runs_of_run h with ⟨o, hruns, hended⟩
  cases o with
  | finished =>
      cases hended
  | stopped =>
      cases hended
      exact ⟨hruns, rfl⟩
  | failed error =>
      cases hended
      rcases (hruns.preserves preserved_trivial (fun _ _ => trivial) trivial).2 _ rfl with ⟨command, c, -, -, hstep, -⟩
      exact absurd hstep (command.step_ne_stopOutsideProcedure c)

/-- Commands are stopped only by a `stop` that stands among them or in their blocks; it is the last command they execute,
and no call is going on at that moment. So a program fails for want of a procedure to leave only at a `stop` outside of
all its definitions, whose line it reports, and never if it has none. -/
theorem stop_leaves_its_procedure :
    (∀ fuel body m m', execBlock fuel body m = some (.stopped, m') → ∃ stop, StoppedAt body m stop m') ∧
    (∀ fuel p m m' line, run fuel p m = some (.error ⟨line, .stopOutsideProcedure⟩, m') →
      ∃ stop, StoppedAt p (m.enterDefinitions p) stop m' ∧ line = stop.command.pos.line) ∧
    (∀ p, (∀ command, Within Command.blocks command p → command.head ≠ .builtin .stop) →
      ∀ fuel m m' line, run fuel p m ≠ some (.error ⟨line, .stopOutsideProcedure⟩, m')) := by
  refine ⟨?_, ?_, ?_⟩
  · intro fuel body m m' h
    exact (runs_of_execBlock h).exists_stoppedAt
  · intro fuel p m m' line h
    rcases stopped_of_run h with ⟨hruns, rfl⟩
    rcases hruns.exists_stoppedAt with ⟨stop, hstop⟩
    exact ⟨stop, hstop, congrArg Machine.line hstop.machine⟩
  · intro p hfree fuel m m' line h
    rcases (stopped_of_run h).1.exists_stoppedAt with ⟨stop, hstop⟩
    exact hfree stop.command hstop.within hstop.head

/-- A procedure that stops, and has something left to do. -/
def stopping : Command :=
  ⟨.builtin .define, [.definition ⟨"halt", [], [⟨.builtin .stop, [], ⟨2, 1⟩⟩, ⟨.builtin .home, [], ⟨2, 6⟩⟩]⟩], ⟨1, 1⟩⟩

/-- A loop that calls the procedure and then stops itself. -/
def strayingLoop : List Command :=
  [⟨.builtin .forever, [.block [⟨.call "halt", [], ⟨4, 1⟩⟩, ⟨.builtin .stop, [], ⟨5, 1⟩⟩]], ⟨3, 1⟩⟩]

theorem stop_in_a_loop_is_reported :
    (∃ stop m', run 8 (stopping :: strayingLoop) initial = some (.error ⟨5, .stopOutsideProcedure⟩, m') ∧
      StoppedAt (stopping :: strayingLoop) (initial.enterDefinitions (stopping :: strayingLoop)) stop m' ∧
        stop.command.pos.line = 5) ∧
    (∃ stop m', execBlock 8 strayingLoop (initial.enterDefinitions [stopping]) = some (.stopped, m') ∧
      StoppedAt strayingLoop (initial.enterDefinitions [stopping]) stop m') ∧
    ∀ fuel m m' line,
      run fuel [stopping, ⟨.call "halt", [], ⟨3, 1⟩⟩] m ≠ some (.error ⟨line, .stopOutsideProcedure⟩, m') := by
  rcases stop_leaves_its_procedure with ⟨hblock, hprogram, hnever⟩
  refine ⟨?_, ?_, hnever _ ?_⟩
  · have hrun : (run 8 (stopping :: strayingLoop) initial).map Prod.fst =
        some (.error ⟨5, .stopOutsideProcedure⟩) := by
      decide +kernel
    rcases Option.map_eq_some_iff.1 hrun with ⟨⟨result, m'⟩, hrun, rfl⟩
    rcases hprogram _ _ _ _ _ hrun with ⟨stop, hstop, hline⟩
    exact ⟨stop, m', hrun, hstop, hline.symm⟩
  · have hexec : (execBlock 8 strayingLoop (initial.enterDefinitions [stopping])).map Prod.fst = some .stopped := by
      decide +kernel
    rcases Option.map_eq_some_iff.1 hexec with ⟨⟨o, m'⟩, hexec, rfl⟩
    rcases hblock _ _ _ _ hexec with ⟨stop, hstop⟩
    exact ⟨stop, m', hexec, hstop⟩
  · -- Neither command has a block, so there is nothing beside the two.
    intro command hwithin
    rcases hwithin with mem | ⟨mem, part, _⟩
    · rcases List.mem_pair.1 mem with rfl | rfl <;> decide
    · rcases List.mem_pair.1 mem with rfl | rfl <;> cases part

end Machine
end TurtleLogo
