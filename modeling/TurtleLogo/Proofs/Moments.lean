import TurtleLogo.Proofs.Tracing

/-!
# The contexts of an execution

A trace names the contexts in which commands are started. This module adds all others: those in which a command leaves
things, those of a call whose body has just begun or ended, and those of executions that never end.

* `Reaches t m log c` — at some moment of the execution of `t` from `m` the context is `c`, and the commands started so far
  are those of the log;
* `Kept Q I` — whatever a command does that is started under the condition `Q` keeps the property `I` of contexts;
* `Reaches.keeps` — then a property that holds at the beginning holds as long as all commands were started under the
  condition.
-/

namespace TurtleLogo

/-! ## Moments -/

inductive Reaches : Task → Machine → List Event → Context → Prop where
  | begun (t : Task) (m : Machine) : Reaches t m [] m.context
  | ended {t : Task} {m m' : Machine} {o : Outcome} {log : List Event} (traces : Traces t m log (some (o, m'))) :
      Reaches t m log m'.context
  | enter {command : Command} {m : Machine} {s : Step} {series : Series} {log : List Event} {c : Context}
      (step : command.step m.context = .ok s) (series? : s.series? = some series)
      (reaches : Reaches (.series series) (m.atLine command.pos.line) log c) :
      Reaches (.command command) m (⟨[], command, m⟩ :: log) c
  | call {command : Command} {m : Machine} {d : Definition} {values : List Float32} {log : List Event} {c : Context}
      (step : command.step m.context = .ok (.call d values))
      (reaches : Reaches (.series (.block d.body)) ⟨m.context.enterCall d values, command.pos.line⟩ log c) :
      Reaches (.command command) m (⟨[], command, m⟩ :: log.map (Event.inside command)) c
  | first {series rest : Series} {first : Task} {m : Machine} {log : List Event} {c : Context}
      (exiting : m.context.exiting = false) (split : series.split? = some (first, rest))
      (reaches : Reaches first m log c) : Reaches (.series series) m log c
  | rest {series rest : Series} {first : Task} {m m' : Machine} {log more : List Event} {c : Context}
      (exiting : m.context.exiting = false) (split : series.split? = some (first, rest))
      (traces : Traces first m log (some (.finished, m'))) (reaches : Reaches (.series rest) m' more c) :
      Reaches (.series series) m (log ++ more) c

/-- The log of a moment is that of a trace. -/
theorem Reaches.exists_traces {t : Task} {m : Machine} {log : List Event} {c : Context} (h : Reaches t m log c) :
    ∃ result, Traces t m log result := by
  induction h with
  | begun t m =>
      exact ⟨none, .begun t m⟩
  | ended traces =>
      exact ⟨_, traces⟩
  | enter step series? _ ih =>
      rcases ih with ⟨result, htraces⟩
      exact ⟨result, .enter step series? htraces⟩
  | call step _ ih =>
      rcases ih with ⟨result, htraces⟩
      exact ⟨_, .call step htraces⟩
  | @first series rest first m log c hx split _ ih =>
      rcases ih with ⟨result, htraces⟩
      -- If the first part has just finished, the rest has begun.
      by_cases hfinished : ∃ m', result = some (.finished, m')
      · rcases hfinished with ⟨m', rfl⟩
        have hbegun := Traces.next hx split htraces (.begun (.series rest) m')
        rw [List.append_nil] at hbegun
        exact ⟨none, hbegun⟩
      · exact ⟨result, .halt hx split htraces (not_exists.1 hfinished)⟩
  | rest hx split traces _ ih =>
      rcases ih with ⟨result, htraces⟩
      exact ⟨result, .next hx split traces htraces⟩

/-- What an event does is there at some moment. -/
theorem Traces.reaches_perform {t : Task} {m : Machine} {log : List Event} {result : Option (Outcome × Machine)}
    (h : Traces t m log result) {event : Event} (hmem : event ∈ log) {e : Effect}
    (hstep : event.command.step event.machine.context = .ok (.effect e)) :
    ∃ before, Reaches t m before (event.machine.context.perform e) := by
  induction h generalizing event with
  | begun | done | exiting =>
      cases hmem
  | fault step | stop step =>
      rcases List.mem_singleton.1 hmem with rfl
      cases step.symm.trans hstep
  | effect step =>
      rcases List.mem_singleton.1 hmem with rfl
      cases step.symm.trans hstep
      exact ⟨_, .ended (.effect step)⟩
  | enter step series? _ ih =>
      rcases List.mem_cons.1 hmem with rfl | hinner
      · cases step.symm.trans hstep
        cases series?
      · rcases ih hinner hstep with ⟨before, hreaches⟩
        exact ⟨_, .enter step series? hreaches⟩
  | @call command m d values inner result step _ ih =>
      rcases List.mem_cons.1 hmem with rfl | hinner
      · cases step.symm.trans hstep
      · rcases List.mem_map.1 hinner with ⟨event', hmem', rfl⟩
        rcases ih hmem' hstep with ⟨before, hreaches⟩
        exact ⟨_, .call step hreaches⟩
  | next hx split first _ ihFirst ihRest =>
      rcases List.mem_append.1 hmem with hearlier | hlater
      · rcases ihFirst hearlier hstep with ⟨before, hreaches⟩
        exact ⟨before, .first hx split hreaches⟩
      · rcases ihRest hlater hstep with ⟨before, hreaches⟩
        exact ⟨_, .rest hx split first hreaches⟩
  | halt hx split _ _ ih =>
      rcases ih hmem hstep with ⟨before, hreaches⟩
      exact ⟨before, .first hx split hreaches⟩

/-! ## What is kept under a condition -/

structure Kept (Q : Command → Context → Prop) (I : Context → Prop) : Prop where
  effect {command : Command} {c : Context} {e : Effect} :
    Q command c → I c → command.step c = .ok (.effect e) → I (c.perform e)
  call {c : Context} (d : Definition) (values : List Float32) : I c → I (c.enterCall d values)
  leave {c : Context} : I c → I c.leaveCall

/-- All commands of a log were started under the condition. -/
def StartedUnder (Q : Command → Context → Prop) (log : List Event) : Prop :=
  ∀ event ∈ log, Q event.command event.machine.context

namespace StartedUnder

variable {Q : Command → Context → Prop} {log more : List Event}

theorem of_cons {event : Event} (h : StartedUnder Q (event :: log)) :
    Q event.command event.machine.context ∧ StartedUnder Q log :=
  List.forall_mem_cons.1 h

theorem of_append (h : StartedUnder Q (log ++ more)) : StartedUnder Q log ∧ StartedUnder Q more :=
  List.forall_mem_append.1 h

/-- Where a call stands changes nothing for the commands of its body. -/
theorem of_inside {call : Command} (h : StartedUnder Q (log.map (Event.inside call))) : StartedUnder Q log :=
  fun event hmem => h (event.inside call) (List.mem_map_of_mem hmem)

end StartedUnder

section Kept

variable {Q : Command → Context → Prop} {I : Context → Prop} {t : Task} {m : Machine} {log : List Event}

theorem Traces.keeps (hK : Kept Q I) {result : Option (Outcome × Machine)} (h : Traces t m log result) :
    StartedUnder Q log → I m.context → ∀ o m', result = some (o, m') → I m'.context := by
  -- The property is handed from each context to the next; a call hands it into its body and back.
  induction h with
  | begun =>
      rintro _ _ o m' ⟨⟩
  | fault | stop | done | exiting =>
      rintro _ hI o m' ⟨⟩
      exact hI
  | effect step =>
      rintro hQ hI o m' ⟨⟩
      exact hK.effect hQ.of_cons.1 hI step
  | enter _ _ _ ih =>
      intro hQ hI
      exact ih hQ.of_cons.2 hI
  | @call command m d values inner result _ _ ih =>
      intro hQ hI o m' hresult
      rcases Option.map_eq_some_iff.1 hresult with ⟨⟨o', n⟩, rfl, hreturned⟩
      have hn : n.leaveCall = m' := congrArg Prod.snd ((Machine.returned_eq o' n).symm.trans hreturned)
      subst hn
      exact hK.leave (ih hQ.of_cons.2.of_inside (hK.call d values hI) o' n rfl)
  | next _ _ _ _ ihFirst ihRest =>
      intro hQ hI
      exact ihRest hQ.of_append.2 (ihFirst hQ.of_append.1 hI _ _ rfl)
  | halt _ _ _ _ ih =>
      exact ih

theorem Reaches.keeps (hK : Kept Q I) {c : Context} (h : Reaches t m log c) :
    StartedUnder Q log → I m.context → I c := by
  induction h with
  | begun =>
      intro _ hI
      exact hI
  | ended traces =>
      intro hQ hI
      exact traces.keeps hK hQ hI _ _ rfl
  | enter _ _ _ ih =>
      intro hQ hI
      exact ih hQ.of_cons.2 hI
  | @call command m d values inner c _ _ ih =>
      intro hQ hI
      exact ih hQ.of_cons.2.of_inside (hK.call d values hI)
  | first _ _ _ ih =>
      exact ih
  | rest _ _ traces _ ih =>
      intro hQ hI
      exact ih hQ.of_append.2 (traces.keeps hK hQ.of_append.1 hI _ _ rfl)

/-- A property that all commands keep. -/
theorem Reaches.keeps_always (hK : Kept (fun _ _ => True) I) {c : Context} (h : Reaches t m log c) (hI : I m.context) :
    I c :=
  h.keeps hK (fun _ _ => trivial) hI

end Kept

/-! ## Executions with fuel -/

/-- A program that has ended in any way has reached the context that it leaves. -/
theorem Machine.reaches_of_run {fuel : Nat} {p : Program} {m m' : Machine} {result : Except RuntimeError Unit}
    (h : run fuel p m = some (result, m')) :
    ∃ log, Reaches (.series (.block p)) (m.enterDefinitions p) log m'.context := by
  rcases runs_of_run h with ⟨o, hruns, -⟩
  rcases hruns.exists_traces with ⟨log, htraces⟩
  exact ⟨log, .ended htraces⟩

end TurtleLogo
