import TurtleLogo.Proofs.Derivation

/-!
# The commands of an execution

`Runs` says how an execution ends. It neither records which commands were executed on the way nor speaks of executions
that never end. This module does both:

* `Event` — a command at the moment when it is started;
* `Traces t m log result` — at some moment of the execution of `t` from `m`, the commands started so far are those of the
  log, in this order; `result` is how the execution has ended, `none` if it still goes on.

`traces_iff` says that the results of traces are those of the machine. By `Traces.unique` the moments of one execution
lie on a line: every log is a beginning of the log with which the execution ends.
-/

namespace TurtleLogo

/-- A command that is started in a machine, inside calls that have not returned, the nearest first. -/
structure Event where
  callers : List Command
  command : Command
  machine : Machine

namespace Event

/-- The same event as part of a call. -/
def inside (call : Command) (event : Event) : Event :=
  { event with callers := event.callers ++ [call] }

end Event

/-! ## Rules -/

inductive Traces : Task → Machine → List Event → Option (Outcome × Machine) → Prop where
  | begun (t : Task) (m : Machine) : Traces t m [] none
  | fault {command : Command} {m : Machine} {fault : Fault}
      (step : command.step m.context = .error fault) :
      Traces (.command command) m [⟨[], command, m⟩]
        (some (.failed ⟨command.pos.line, fault⟩, m.atLine command.pos.line))
  | effect {command : Command} {m : Machine} {e : Effect}
      (step : command.step m.context = .ok (.effect e)) :
      Traces (.command command) m [⟨[], command, m⟩] (some (.finished, ⟨m.context.perform e, command.pos.line⟩))
  | stop {command : Command} {m : Machine}
      (step : command.step m.context = .ok .stop) :
      Traces (.command command) m [⟨[], command, m⟩] (some (.stopped, m.atLine command.pos.line))
  | enter {command : Command} {m : Machine} {s : Step} {series : Series} {log : List Event}
      {result : Option (Outcome × Machine)}
      (step : command.step m.context = .ok s) (series? : s.series? = some series)
      (traces : Traces (.series series) (m.atLine command.pos.line) log result) :
      Traces (.command command) m (⟨[], command, m⟩ :: log) result
  | call {command : Command} {m : Machine} {d : Definition} {values : List Float32} {log : List Event}
      {result : Option (Outcome × Machine)}
      (step : command.step m.context = .ok (.call d values))
      (traces : Traces (.series (.block d.body)) ⟨m.context.enterCall d values, command.pos.line⟩ log result) :
      Traces (.command command) m (⟨[], command, m⟩ :: log.map (Event.inside command)) (result.map Machine.returned)
  | done {series : Series} {m : Machine} (split : series.split? = none) :
      Traces (.series series) m [] (some (.finished, m))
  | exiting {series : Series} {m : Machine} (exiting : m.context.exiting = true) :
      Traces (.series series) m [] (some (.finished, m))
  | next {series rest : Series} {first : Task} {m m' : Machine} {log more : List Event}
      {result : Option (Outcome × Machine)}
      (exiting : m.context.exiting = false) (split : series.split? = some (first, rest))
      (traces : Traces first m log (some (.finished, m'))) (tracesRest : Traces (.series rest) m' more result) :
      Traces (.series series) m (log ++ more) result
  | halt {series rest : Series} {first : Task} {m : Machine} {log : List Event} {result : Option (Outcome × Machine)}
      (exiting : m.context.exiting = false) (split : series.split? = some (first, rest))
      (traces : Traces first m log result) (halted : ∀ m', result ≠ some (.finished, m')) :
      Traces (.series series) m log result

/-! ## Traces and runs -/

theorem Runs.exists_traces {t : Task} {m m' : Machine} {o : Outcome} (h : Runs t m o m') :
    ∃ log, Traces t m log (some (o, m')) := by
  induction h with
  | fault step =>
      exact ⟨_, .fault step⟩
  | effect step =>
      exact ⟨_, .effect step⟩
  | stop step =>
      exact ⟨_, .stop step⟩
  | enter step series? _ ih =>
      rcases ih with ⟨log, hlog⟩
      exact ⟨_, .enter step series? hlog⟩
  | @call command m m' o d values step _ ih =>
      rcases ih with ⟨log, hlog⟩
      have htraces := Traces.call step hlog
      rw [Option.map_some, Machine.returned_eq] at htraces
      exact ⟨_, htraces⟩
  | done split =>
      exact ⟨[], .done split⟩
  | exiting hx =>
      exact ⟨[], .exiting hx⟩
  | next hx split _ _ ihFirst ihRest =>
      rcases ihFirst with ⟨log, hlog⟩
      rcases ihRest with ⟨more, hmore⟩
      exact ⟨log ++ more, .next hx split hlog hmore⟩
  | halt hx split _ halted ih =>
      rcases ih with ⟨log, hlog⟩
      exact ⟨log, .halt hx split hlog (by simp [halted])⟩

namespace Traces

variable {t : Task} {m m' : Machine} {o : Outcome} {log : List Event} {result : Option (Outcome × Machine)}

theorem runs (h : Traces t m log (some (o, m'))) : Runs t m o m' := by
  generalize hresult : some (o, m') = result at h
  induction h generalizing o m' with
  | begun =>
      cases hresult
  | fault step =>
      cases hresult
      exact .fault step
  | effect step =>
      cases hresult
      exact .effect step
  | stop step =>
      cases hresult
      exact .stop step
  | enter step series? _ ih =>
      exact .enter step series? (ih hresult)
  | call step _ ih =>
      rcases Option.map_eq_some_iff.1 hresult.symm with ⟨⟨o', n⟩, hbody, hreturned⟩
      cases (Machine.returned_eq o' n).symm.trans hreturned
      exact .call step (ih hbody.symm)
  | done split =>
      cases hresult
      exact .done split
  | exiting hx =>
      cases hresult
      exact .exiting hx
  | next hx split _ _ ihFirst ihRest =>
      exact .next hx split (ihFirst rfl) (ihRest hresult)
  | halt hx split _ halted ih =>
      refine .halt hx split (ih hresult) ?_
      rintro rfl
      exact halted m' hresult.symm

/-- Nothing is started once the program exits. -/
theorem eq_nil_of_exiting {series : Series} (h : Traces (.series series) m log result)
    (hx : m.context.exiting = true) : log = [] ∧ ∀ r, result = some r → r = (.finished, m) := by
  cases h with
  | begun =>
      exact ⟨rfl, by simp⟩
  | done | exiting =>
      exact ⟨rfl, fun _ hr => (Option.some.inj hr).symm⟩
  | next hgoes | halt hgoes =>
      cases hgoes.symm.trans hx

/-- The moments of one execution lie on a line, and it has one end. -/
theorem unique {log' : List Event} {result' : Option (Outcome × Machine)} {r : Outcome × Machine}
    (h : Traces t m log (some r)) (h' : Traces t m log' result') :
    log' <+: log ∧ ∀ r', result' = some r' → log' = log ∧ r' = r := by
  generalize hresult : some r = result at h
  induction h generalizing log' result' r with
  | begun =>
      cases hresult
  | fault step | effect step | stop step =>
      cases h' with
      | begun => exact ⟨List.nil_prefix, by simp⟩
      | fault step' | effect step' | stop step' | enter step' | call step' =>
          cases step.symm.trans step' <;> simp_all [Step.series?]
  | enter step series? _ ih =>
      cases h' with
      | begun => exact ⟨List.nil_prefix, by simp⟩
      | enter step' series?' traces' =>
          cases step.symm.trans step'
          cases series?.symm.trans series?'
          rcases ih traces' hresult with ⟨hstart, hend⟩
          refine ⟨List.cons_prefix_cons.2 ⟨rfl, hstart⟩, fun r' hr => ?_⟩
          rcases hend r' hr with ⟨rfl, rfl⟩
          exact ⟨rfl, rfl⟩
      | fault step' | effect step' | stop step' | call step' =>
          cases step.symm.trans step' <;> cases series?
  | call step _ ih =>
      rcases Option.map_eq_some_iff.1 hresult.symm with ⟨bodyEnd, hbody, rfl⟩
      cases h' with
      | begun => exact ⟨List.nil_prefix, by simp⟩
      | call step' traces' =>
          cases step.symm.trans step'
          rcases ih traces' hbody.symm with ⟨hstart, hend⟩
          refine ⟨List.cons_prefix_cons.2 ⟨rfl, hstart.map _⟩, fun r' hr => ?_⟩
          rcases Option.map_eq_some_iff.1 hr with ⟨bodyEnd', hbody', rfl⟩
          rcases hend bodyEnd' hbody' with ⟨rfl, rfl⟩
          exact ⟨rfl, rfl⟩
      | enter step' series?' =>
          cases step.symm.trans step'
          cases series?'
      | fault step' | effect step' | stop step' =>
          cases step.symm.trans step'
  | done split =>
      cases h' with
      | begun => exact ⟨List.prefix_rfl, by simp⟩
      | done | exiting => exact ⟨List.prefix_rfl, by simp_all⟩
      | next _ split' | halt _ split' => cases split.symm.trans split'
  | exiting hx =>
      rcases eq_nil_of_exiting h' hx with ⟨rfl, hend⟩
      exact ⟨List.prefix_rfl, fun r' hr => ⟨rfl, (hend r' hr).trans (Option.some.inj hresult).symm⟩⟩
  | next hx split _ _ ihFirst ihRest =>
      cases h' with
      | begun => exact ⟨List.nil_prefix, by simp⟩
      | done split' => cases split.symm.trans split'
      | exiting hx' => cases hx.symm.trans hx'
      | next _ split' first' rest' =>
          cases split.symm.trans split'
          -- The first part has ended on both sides, so that both come to the rest in the same machine.
          rcases (ihFirst first' rfl).2 _ rfl with ⟨rfl, hmachine⟩
          cases hmachine
          rcases ihRest rest' hresult with ⟨hstart, hend⟩
          refine ⟨(List.prefix_append_right_inj _).2 hstart, fun r' hr => ?_⟩
          rcases hend r' hr with ⟨rfl, rfl⟩
          exact ⟨rfl, rfl⟩
      | halt _ split' first' halted' =>
          cases split.symm.trans split'
          rcases ihFirst first' rfl with ⟨hstart, hend⟩
          refine ⟨hstart.trans (List.prefix_append _ _), fun r' hr => ?_⟩
          exact absurd (hr.trans (congrArg some (hend r' hr).2)) (halted' _)
  | halt hx split _ halted ih =>
      cases h' with
      | begun => exact ⟨List.nil_prefix, by simp⟩
      | done split' => cases split.symm.trans split'
      | exiting hx' => cases hx.symm.trans hx'
      | next _ split' first' rest' =>
          cases split.symm.trans split'
          have hend := ((ih first' hresult).2 _ rfl).2
          exact absurd (hresult.symm.trans (congrArg some hend.symm)) (halted _)
      | halt _ split' first' halted' =>
          cases split.symm.trans split'
          exact ih first' hresult

end Traces

namespace Runs

variable {t : Task} {m m' n : Machine} {o o' : Outcome}

theorem unique (h : Runs t m o m') (h' : Runs t m o' n) : o' = o ∧ n = m' := by
  rcases h.exists_traces with ⟨log, hlog⟩
  rcases h'.exists_traces with ⟨log', hlog'⟩
  exact Prod.mk.inj ((hlog.unique hlog').2 _ rfl).2

end Runs

/-- The ends of traces are the results of the machine. -/
theorem traces_iff {t : Task} {m m' : Machine} {o : Outcome} :
    (∃ log, Traces t m log (some (o, m'))) ↔ ∃ fuel, t.exec fuel m = some (o, m') := by
  rw [← runs_iff]
  exact ⟨fun ⟨_, h⟩ => h.runs, Runs.exists_traces⟩

end TurtleLogo
