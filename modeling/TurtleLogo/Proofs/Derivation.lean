import TurtleLogo.Execution.Fuel

/-!
# Executions as derivations

`Machine.exec` is a function of an amount of fuel. What a command does is independent of that amount, so this module
describes executions by rules instead:

* `Series` — a block or what is left of a loop, all of which run one part after the other;
* `Task` — a command or a series;
* `Runs task m o m'` — the task, started in `m`, ends with the outcome `o` in `m'`.

`runs_iff` says that the rules and the function describe the same executions. Facts about all executions are then
proved by induction on a derivation, with one case for each way in which a task can go on.
-/

namespace TurtleLogo

/-- Something that runs part by part, for as long as the parts finish and the program does not exit. -/
inductive Series where
  | block (body : List Command)
  | times (count : Nat) (body : List Command)
  | forever (body : List Command)

inductive Task where
  | command (command : Command)
  | series (series : Series)

namespace Series

/-- The first part of a series and what follows it. -/
def split? : Series → Option (Task × Series)
  | block [] => none
  | block (command :: rest) => some (.command command, .block rest)
  | times 0 _ => none
  | times (count + 1) body => some (.series (.block body), .times count body)
  | forever body => some (.series (.block body), .forever body)

/-- The commands that a series is made of. -/
def body : Series → List Command
  | block body | times _ body | forever body => body

end Series

/-- The series that a step still has to run in the frame of its command. -/
def Step.series? : Step → Option Series
  | .run body => some (.block body)
  | .times count body => some (.times count body)
  | .forever body => some (.forever body)
  | _ => none

namespace Machine

/-- The machine in which a command does its work. -/
def atLine (m : Machine) (line : Nat) : Machine := ⟨m.context, line⟩

def leaveCall (m : Machine) : Machine := { m with context := m.context.leaveCall }

end Machine

/-- The outcome of a call whose body ended in a certain way. -/
def Outcome.returned : Outcome → Outcome
  | failed error => failed error
  | _ => finished

theorem Machine.returned_eq (o : Outcome) (m : Machine) : returned (o, m) = (o.returned, m.leaveCall) := by
  cases o <;> rfl

/-! ## Rules -/

inductive Runs : Task → Machine → Outcome → Machine → Prop where
  | fault {command : Command} {m : Machine} {fault : Fault}
      (step : command.step m.context = .error fault) :
      Runs (.command command) m (.failed ⟨command.pos.line, fault⟩) (m.atLine command.pos.line)
  | effect {command : Command} {m : Machine} {e : Effect}
      (step : command.step m.context = .ok (.effect e)) :
      Runs (.command command) m .finished ⟨m.context.perform e, command.pos.line⟩
  | stop {command : Command} {m : Machine}
      (step : command.step m.context = .ok .stop) :
      Runs (.command command) m .stopped (m.atLine command.pos.line)
  | enter {command : Command} {m m' : Machine} {o : Outcome} {s : Step} {series : Series}
      (step : command.step m.context = .ok s) (series? : s.series? = some series)
      (runs : Runs (.series series) (m.atLine command.pos.line) o m') :
      Runs (.command command) m o m'
  | call {command : Command} {m m' : Machine} {o : Outcome} {d : Definition} {values : List Float32}
      (step : command.step m.context = .ok (.call d values))
      (runs : Runs (.series (.block d.body)) ⟨m.context.enterCall d values, command.pos.line⟩ o m') :
      Runs (.command command) m o.returned m'.leaveCall
  | done {series : Series} {m : Machine} (split : series.split? = none) :
      Runs (.series series) m .finished m
  | exiting {series : Series} {m : Machine} (exiting : m.context.exiting = true) :
      Runs (.series series) m .finished m
  | next {series rest : Series} {first : Task} {m m' m'' : Machine} {o : Outcome}
      (exiting : m.context.exiting = false) (split : series.split? = some (first, rest))
      (runs : Runs first m .finished m') (runsRest : Runs (.series rest) m' o m'') :
      Runs (.series series) m o m''
  | halt {series rest : Series} {first : Task} {m m' : Machine} {o : Outcome}
      (exiting : m.context.exiting = false) (split : series.split? = some (first, rest))
      (runs : Runs first m o m') (halted : o ≠ .finished) :
      Runs (.series series) m o m'

/-! ## One part after the other -/

namespace Machine

/-- Goes on from `m` as all loops of the machine do: not at all if the program exits, else with the execution of a
first part, and with the rest only if that finished. -/
def proceed (m : Machine) (execution : Execution) (rest : Machine → Execution) : Execution :=
  if m.context.exiting then some (.finished, m)
  else
    match execution with
    | some (.finished, next) => rest next
    | other => other

theorem execAll_cons (f : Command → Machine → Execution) (command : Command) (rest : List Command) (m : Machine) :
    execAll f (command :: rest) m = proceed m (f command m) (execAll f rest) := rfl

theorem repeatTimes_succ (f : Machine → Execution) (count : Nat) (m : Machine) :
    repeatTimes f (count + 1) m = proceed m (f m) (repeatTimes f count) := rfl

theorem repeatForever_succ_eq (f : Machine → Execution) (fuel : Nat) (m : Machine) :
    repeatForever f (fuel + 1) m = proceed m (f m) (repeatForever f fuel) := rfl

theorem proceed_of_exiting {m : Machine} (hx : m.context.exiting = true) (execution : Execution)
    (rest : Machine → Execution) : proceed m execution rest = some (.finished, m) := by
  simp [proceed, hx]

theorem proceed_of_finished {m next : Machine} (hx : m.context.exiting = false) {execution : Execution}
    (h : execution = some (.finished, next)) (rest : Machine → Execution) :
    proceed m execution rest = rest next := by
  simp [proceed, hx, h]

theorem proceed_of_halted {m m' : Machine} (hx : m.context.exiting = false) {execution : Execution} {o : Outcome}
    (h : execution = some (o, m')) (halted : o ≠ .finished) (rest : Machine → Execution) :
    proceed m execution rest = some (o, m') := by
  cases o <;> simp_all [proceed]

/-- What the first part and the rest can do by the rules, the series can do. -/
theorem runs_of_proceed {series rest : Series} {first : Task} (split : series.split? = some (first, rest))
    {m m' : Machine} {o : Outcome} {execution : Execution} {execRest : Machine → Execution}
    (h : proceed m execution execRest = some (o, m'))
    (hfirst : ∀ {o' next}, execution = some (o', next) → Runs first m o' next)
    (hrest : ∀ {next}, execRest next = some (o, m') → Runs (.series rest) next o m') :
    Runs (.series series) m o m' := by
  cases hx : m.context.exiting with
  | true =>
      rw [proceed_of_exiting hx] at h
      cases h
      exact .exiting hx
  | false =>
      cases execution with
      | none =>
          simp [proceed, hx] at h
      | some result =>
          rcases result with ⟨o', next⟩
          by_cases finished : o' = .finished
          · subst finished
            rw [proceed_of_finished hx rfl] at h
            exact .next hx split (hfirst rfl) (hrest h)
          · rw [proceed_of_halted hx rfl finished] at h
            cases h
            exact .halt hx split (hfirst rfl) finished

/-! ## From the function to the rules -/

theorem runs_of_execAll {f : Command → Machine → Execution}
    (hf : ∀ {command m o m'}, f command m = some (o, m') → Runs (.command command) m o m')
    (body : List Command) :
    ∀ {m o m'}, execAll f body m = some (o, m') → Runs (.series (.block body)) m o m' := by
  induction body with
  | nil =>
      intro m o m' h
      cases h
      exact .done rfl
  | cons command rest ih =>
      intro m o m' h
      rw [execAll_cons] at h
      exact runs_of_proceed rfl h hf ih

theorem runs_of_repeatTimes {f : Machine → Execution} {body : List Command}
    (hf : ∀ {m o m'}, f m = some (o, m') → Runs (.series (.block body)) m o m') (count : Nat) :
    ∀ {m o m'}, repeatTimes f count m = some (o, m') → Runs (.series (.times count body)) m o m' := by
  induction count with
  | zero =>
      intro m o m' h
      cases h
      exact .done rfl
  | succ count ih =>
      intro m o m' h
      rw [repeatTimes_succ] at h
      exact runs_of_proceed rfl h hf ih

theorem runs_of_repeatForever {f : Machine → Execution} {body : List Command}
    (hf : ∀ {m o m'}, f m = some (o, m') → Runs (.series (.block body)) m o m') (fuel : Nat) :
    ∀ {m o m'}, repeatForever f fuel m = some (o, m') → Runs (.series (.forever body)) m o m' := by
  induction fuel with
  | zero =>
      intro m o m' h
      cases h
  | succ fuel ih =>
      intro m o m' h
      rw [repeatForever_succ_eq] at h
      exact runs_of_proceed rfl h hf ih

theorem runs_of_exec (fuel : Nat) :
    ∀ {command m o m'}, exec fuel command m = some (o, m') → Runs (.command command) m o m' := by
  induction fuel with
  | zero =>
      intro command m o m' h
      cases h
  | succ fuel ih =>
      -- Bodies run with less fuel, in which the hypothesis covers all their commands.
      have blocks := runs_of_execAll ih
      intro command m o m' h
      rw [exec] at h
      cases hs : command.step m.context with
      | error fault =>
          rw [hs] at h
          cases h
          exact .fault hs
      | ok step =>
          rw [hs] at h
          cases step with
          | effect e =>
              cases h
              exact .effect hs
          | stop =>
              cases h
              exact .stop hs
          | run body =>
              exact .enter hs rfl (blocks body h)
          | times count body =>
              exact .enter hs rfl (runs_of_repeatTimes (blocks body) count h)
          | forever body =>
              exact .enter hs rfl (runs_of_repeatForever (blocks body) fuel h)
          | call d values =>
              rcases Option.map_eq_some_iff.1 h with ⟨⟨o', n⟩, hbody, hreturned⟩
              cases (returned_eq o' n).symm.trans hreturned
              exact .call hs (blocks d.body hbody)

end Machine

/-! ## From the rules to the function -/

namespace Series

def exec (fuel : Nat) : Series → Machine → Execution
  | block body => Machine.execBlock fuel body
  | times count body => Machine.repeatTimes (Machine.execBlock fuel body) count
  | forever body => Machine.repeatForever (Machine.execBlock fuel body) fuel

theorem exec_succ (fuel : Nat) : Machine.Extends (fun s => exec fuel s) (fun s => exec (fuel + 1) s) := by
  have blocks := Machine.execAll_extends (Machine.exec_succ fuel)
  intro s
  cases s with
  | block body =>
      exact blocks body
  | times count body =>
      exact Machine.repeatTimes_extends (blocks body) count
  | forever body =>
      exact Machine.repeatForever_succ (blocks body) fuel

end Series

namespace Task

def exec (fuel : Nat) : Task → Machine → Execution
  | command c => Machine.exec fuel c
  | series s => s.exec fuel

theorem exec_succ (fuel : Nat) : Machine.Extends (fun t => exec fuel t) (fun t => exec (fuel + 1) t) := by
  intro t
  cases t with
  | command c =>
      exact Machine.exec_succ fuel c
  | series s =>
      exact Series.exec_succ fuel s

theorem exec_of_le {fuel more : Nat} (h : fuel ≤ more) (t : Task) {m : Machine} {r : Outcome × Machine}
    (hr : t.exec fuel m = some r) : t.exec more m = some r := by
  induction h with
  | refl =>
      exact hr
  | step _ ih =>
      exact exec_succ _ t m r ih

end Task

namespace Series

open Machine

/-- An endless loop spends a unit of fuel on each round, so the rest of it is found with less than the whole. -/
theorem exec_eq_proceed {series rest : Series} {first : Task} (split : series.split? = some (first, rest))
    (fuel : Nat) (m : Machine) :
    ∃ execRest : Machine → Execution,
      series.exec (fuel + 2) m = proceed m (first.exec (fuel + 2) m) execRest ∧
        ∀ {next r}, rest.exec fuel next = some r → execRest next = some r := by
  have more := Task.exec_of_le (Nat.le_add_right fuel 2)
  cases series with
  | block body =>
      cases body with
      | nil =>
          cases split
      | cons command commands =>
          cases split
          exact ⟨_, execAll_cons .., more (.series (.block commands))⟩
  | times count body =>
      cases count with
      | zero =>
          cases split
      | succ count =>
          cases split
          exact ⟨_, repeatTimes_succ .., more (.series (.times count body))⟩
  | forever body =>
      cases split
      have blocks := execBlock_of_le (Nat.le_add_right fuel 2) body
      exact ⟨_, repeatForever_succ_eq .., fun h => repeatForever_succ blocks fuel _ _ h⟩

theorem exec_of_done {series : Series} (split : series.split? = none) (fuel : Nat) (m : Machine) :
    series.exec fuel m = some (.finished, m) := by
  cases series with
  | block body =>
      cases body with
      | nil => rfl
      | cons => cases split
  | times count body =>
      cases count with
      | zero => rfl
      | succ => cases split
  | forever body =>
      cases split

end Series

namespace Runs

open Machine

theorem exists_exec {t : Task} {m m' : Machine} {o : Outcome} (h : Runs t m o m') :
    ∃ fuel, t.exec fuel m = some (o, m') := by
  induction h with
  | fault step =>
      refine ⟨1, ?_⟩
      simp [Task.exec, exec, step, Machine.atLine]
  | effect step =>
      refine ⟨1, ?_⟩
      simp [Task.exec, exec, step]
  | stop step =>
      refine ⟨1, ?_⟩
      simp [Task.exec, exec, step, Machine.atLine]
  | @enter command m m' o s series step series? _ ih =>
      rcases ih with ⟨fuel, hseries⟩
      refine ⟨fuel + 1, ?_⟩
      simp only [Task.exec, exec, step]
      cases s with
      | run body | times count body | forever body =>
          cases series?
          exact hseries
      | effect e | stop | call d values =>
          cases series?
  | call step _ ih =>
      rcases ih with ⟨fuel, hbody⟩
      refine ⟨fuel + 1, ?_⟩
      simp only [Task.exec, exec, step]
      exact Option.map_eq_some_iff.2 ⟨_, hbody, returned_eq _ _⟩
  | done split =>
      exact ⟨0, Series.exec_of_done split 0 _⟩
  | @exiting series m hx =>
      cases hsplit : series.split? with
      | none =>
          exact ⟨0, Series.exec_of_done hsplit 0 m⟩
      | some parts =>
          rcases Series.exec_eq_proceed hsplit 0 m with ⟨execRest, hexec, -⟩
          exact ⟨2, hexec.trans (proceed_of_exiting hx _ _)⟩
  | @next series rest first m m' m'' o hx split _ _ ihFirst ihRest =>
      rcases ihFirst with ⟨a, hfirst⟩
      rcases ihRest with ⟨b, hrest⟩
      -- Both parts are found with the greater of the two amounts.
      rcases Series.exec_eq_proceed split (max a b) m with ⟨execRest, hexec, hexecRest⟩
      have hmore : first.exec (max a b + 2) m = some (.finished, m') :=
        Task.exec_of_le (by omega) first hfirst
      have hrest' : rest.exec (max a b) m' = some (o, m'') :=
        Task.exec_of_le (Nat.le_max_right a b) (.series rest) hrest
      refine ⟨max a b + 2, hexec.trans ?_⟩
      rw [proceed_of_finished hx hmore]
      exact hexecRest hrest'
  | halt hx split _ halted ih =>
      rcases ih with ⟨fuel, hfirst⟩
      rcases Series.exec_eq_proceed split fuel _ with ⟨execRest, hexec, -⟩
      have hmore := Task.exec_of_le (Nat.le_add_right fuel 2) _ hfirst
      exact ⟨fuel + 2, hexec.trans (proceed_of_halted hx hmore halted _)⟩

end Runs

namespace Machine

/-- Entering definitions changes the table of procedures and nothing else. -/
theorem enterDefinitions_eq (m : Machine) (p : Program) :
    m.enterDefinitions p =
      ⟨{ m.context with procedures := (p.filterMap Command.definition?).foldl Procedures.define m.context.procedures },
        m.line⟩ := by
  rcases m with ⟨context, line⟩
  simp only [enterDefinitions]
  induction p.filterMap Command.definition? generalizing context with
  | nil =>
      rfl
  | cons d definitions ih =>
      exact ih (context.define d)

theorem runs_of_execBlock {fuel : Nat} {body : List Command} {m m' : Machine} {o : Outcome}
    (h : execBlock fuel body m = some (o, m')) : Runs (.series (.block body)) m o m' :=
  runs_of_execAll (runs_of_exec fuel) body h

theorem runs_of_run {fuel : Nat} {p : Program} {m m' : Machine} {result : Except RuntimeError Unit}
    (h : run fuel p m = some (result, m')) :
    ∃ o, Runs (.series (.block p)) (m.enterDefinitions p) o m' ∧ (ended (o, m')).1 = result := by
  rcases Option.map_eq_some_iff.1 h with ⟨⟨o, n⟩, hblock, hended⟩
  have hn : n = m' := by
    cases o <;> exact congrArg Prod.snd hended
  subst hn
  exact ⟨o, runs_of_execBlock hblock, congrArg Prod.fst hended⟩

theorem exists_run {p : Program} {m m' : Machine} {o : Outcome}
    (h : Runs (.series (.block p)) (m.enterDefinitions p) o m') : ∃ fuel, run fuel p m = some (ended (o, m')) := by
  rcases h.exists_exec with ⟨fuel, hexec⟩
  exact ⟨fuel, Option.map_eq_some_iff.2 ⟨_, hexec, rfl⟩⟩

end Machine

/-- The function and the rules describe the same executions. -/
theorem runs_iff {t : Task} {m m' : Machine} {o : Outcome} :
    Runs t m o m' ↔ ∃ fuel, t.exec fuel m = some (o, m') := by
  refine ⟨Runs.exists_exec, ?_⟩
  rintro ⟨fuel, h⟩
  have blocks := Machine.runs_of_execAll (Machine.runs_of_exec fuel)
  cases t with
  | command c =>
      exact Machine.runs_of_exec fuel h
  | series s =>
      cases s with
      | block body =>
          exact blocks body h
      | times count body =>
          exact Machine.runs_of_repeatTimes (blocks body) count h
      | forever body =>
          exact Machine.runs_of_repeatForever (blocks body) fuel h

/-! ## What holds throughout a run -/

namespace Task

/-- Every command that a task starts with belongs to a set. -/
def All (S : Command → Prop) : Task → Prop
  | command c => S c
  | series s => ∀ c ∈ s.body, S c

theorem all_split {S : Command → Prop} {series rest : Series} {first : Task}
    (split : series.split? = some (first, rest)) (h : (Task.series series).All S) :
    first.All S ∧ (Task.series rest).All S := by
  cases series with
  | block body =>
      cases body with
      | nil =>
          cases split
      | cons command commands =>
          cases split
          exact List.forall_mem_cons.1 h
  | times count body =>
      cases count with
      | zero =>
          cases split
      | succ count =>
          cases split
          exact ⟨h, h⟩
  | forever body =>
      cases split
      exact ⟨h, h⟩

end Task

/-- The commands of a set lead only to commands of the set, and whatever they do keeps a property of contexts. -/
structure Preserved (S : Command → Prop) (I : Context → Prop) : Prop where
  effect {command : Command} {c : Context} {e : Effect} :
    S command → I c → command.step c = .ok (.effect e) → I (c.perform e)
  enter {command : Command} {c : Context} {s : Step} {series : Series} :
    S command → I c → command.step c = .ok s → s.series? = some series → (Task.series series).All S
  call {command : Command} {c : Context} {d : Definition} {values : List Float32} :
    S command → I c → command.step c = .ok (.call d values) →
      (∀ inner ∈ d.body, S inner) ∧ I (c.enterCall d values)
  leave {c : Context} : I c → I c.leaveCall

/-- The error of a run was raised by one command of the set in a context with the property. -/
def RaisedBy (S : Command → Prop) (I : Context → Prop) (error : RuntimeError) : Prop :=
  ∃ command c, S command ∧ I c ∧ command.step c = .error error.fault ∧ command.pos.line = error.line

namespace Runs

theorem preserves {S : Command → Prop} {I : Context → Prop} (hP : Preserved S I) {t : Task} {m m' : Machine}
    {o : Outcome} (h : Runs t m o m') :
    t.All S → I m.context → I m'.context ∧ ∀ error, o = .failed error → RaisedBy S I error := by
  -- The set is handed down from a task to its parts, the property from one context to the next.
  induction h with
  | @fault command m fault step =>
      intro hS hI
      refine ⟨hI, ?_⟩
      rintro error ⟨⟩
      exact ⟨command, m.context, hS, hI, step, rfl⟩
  | effect step =>
      intro hS hI
      exact ⟨hP.effect hS hI step, by simp⟩
  | stop step =>
      intro hS hI
      exact ⟨hI, by simp⟩
  | enter step series? _ ih =>
      intro hS hI
      exact ih (hP.enter hS hI step series?) hI
  | @call command m m' o d values step _ ih =>
      intro hS hI
      -- A failure passes through the return, any other end of the body is a success.
      rcases hP.call hS hI step with ⟨hbody, henter⟩
      rcases ih hbody henter with ⟨hI', hraised⟩
      cases o with
      | finished | stopped =>
          exact ⟨hP.leave hI', by simp [Outcome.returned]⟩
      | failed error =>
          exact ⟨hP.leave hI', by simpa [Outcome.returned] using hraised⟩
  | done =>
      intro hS hI
      exact ⟨hI, by simp⟩
  | exiting =>
      intro hS hI
      exact ⟨hI, by simp⟩
  | next _ split _ _ ihFirst ihRest =>
      intro hS hI
      rcases Task.all_split split hS with ⟨hFirst, hRest⟩
      exact ihRest hRest (ihFirst hFirst hI).1
  | halt _ split _ _ ih =>
      intro hS hI
      exact ih (Task.all_split split hS).1 hI

end Runs

/-- A program that fails was stopped outside of any procedure, or one of its commands has raised the error. -/
theorem Machine.raised_of_run {S : Command → Prop} {I : Context → Prop} (hP : Preserved S I) {fuel : Nat} {p : Program}
    {m m' : Machine} {error : RuntimeError} (hrun : run fuel p m = some (.error error, m')) (hS : ∀ c ∈ p, S c)
    (hI : I (m.enterDefinitions p).context) : error.fault = .stopOutsideProcedure ∨ RaisedBy S I error := by
  rcases runs_of_run hrun with ⟨o, hruns, hended⟩
  have hraised := (hruns.preserves hP hS hI).2
  cases o with
  | finished =>
      cases hended
  | stopped =>
      cases hended
      exact .inl rfl
  | failed e =>
      cases hended
      exact .inr (hraised error rfl)

end TurtleLogo
