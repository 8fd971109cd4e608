import Mathlib.Order.WellFoundedSet
import TurtleLogo.Proofs.Naming

/-!
# Programs that come to an end

Only an endless loop or a procedure that gets back to itself keeps a program from ending. What a program without either
still has to do decreases in three ways, one inside the other: a call leads to procedures that are further down in the
order of calls, a block is smaller than the command that holds it, and a loop has one round less to go after each.

* `Task.Terminates I t` — the task ends from every context with the property `I`;
* `Task.terminates_command` — so does a command whose blocks do and whose procedure does, if it is no endless loop;
* `Program.Calls p f g` — a definition of `f` has a call of `g` in its body;
* `Program.bodiesEnd_of_mem_names` — if no name calls itself in any number of steps, then the bodies of all definitions
  end.

The table of procedures is rewritten while a program runs. All that counts is that it holds nothing but definitions of the
program, each under its own name (`Program.Stocked`).
-/

namespace TurtleLogo

/-! ## Tasks that end -/

namespace Task

/-- From every context with the property the task comes to an end, whatever that is. -/
def Terminates (I : Context → Prop) (t : Task) : Prop :=
  ∀ m : Machine, I m.context → ∃ o m', Runs t m o m'

variable {S : Command → Prop} {I : Context → Prop}

/-- A series ends if its first part ends and the rest does. -/
theorem terminates_of_split (hP : Preserved S I) {series rest : Series} {first : Task}
    (split : series.split? = some (first, rest)) (hS : (Task.series series).All S) (hfirst : first.Terminates I)
    (hrest : (Task.series rest).Terminates I) : (Task.series series).Terminates I := by
  intro m hI
  by_cases hx : m.context.exiting = true
  · exact ⟨_, _, .exiting hx⟩
  · rw [Bool.not_eq_true] at hx
    rcases hfirst m hI with ⟨o, m', hruns⟩
    by_cases hfinished : o = .finished
    · -- The rest starts in a context that has the property again.
      subst hfinished
      have hI' : I m'.context := (hruns.preserves hP (all_split split hS).1 hI).1
      rcases hrest m' hI' with ⟨o', m'', hrunsRest⟩
      exact ⟨o', m'', .next hx split hruns hrunsRest⟩
    · exact ⟨o, m', .halt hx split hruns hfinished⟩

theorem terminates_block (hP : Preserved S I) {body : List Command} (hS : ∀ c ∈ body, S c)
    (h : ∀ c ∈ body, (Task.command c).Terminates I) : (Task.series (.block body)).Terminates I := by
  induction body with
  | nil =>
      exact fun m _ => ⟨.finished, m, .done rfl⟩
  | cons command rest ih =>
      rcases List.forall_mem_cons.1 hS with ⟨-, hSrest⟩
      rcases List.forall_mem_cons.1 h with ⟨hcommand, hrest⟩
      exact terminates_of_split hP rfl hS hcommand (ih hSrest hrest)

/-- However many rounds a loop has, each is the same block. -/
theorem terminates_times (hP : Preserved S I) {body : List Command} (hS : ∀ c ∈ body, S c)
    (h : (Task.series (.block body)).Terminates I) (count : Nat) : (Task.series (.times count body)).Terminates I := by
  induction count with
  | zero =>
      exact fun m _ => ⟨.finished, m, .done rfl⟩
  | succ count ih =>
      exact terminates_of_split hP rfl hS h ih

theorem terminates_command (hP : Preserved S I) {command : Command} (hS : S command)
    (hforever : command.head ≠ .builtin .forever)
    (hblocks : ∀ body, .block body ∈ command.operands → (Task.series (.block body)).Terminates I)
    (hcalls : ∀ c d values, I c → command.step c = .ok (.call d values) →
      (Task.series (.block d.body)).Terminates I) :
    (Task.command command).Terminates I := by
  intro m hI
  cases hstep : command.step m.context with
  | error fault =>
      exact ⟨_, _, .fault hstep⟩
  | ok s =>
      cases Command.leads_of_step hstep with
      | effect =>
          exact ⟨_, _, .effect hstep⟩
      | stop =>
          exact ⟨_, _, .stop hstep⟩
      | @call name d values =>
          have henter := (hP.call hS hI hstep).2
          rcases hcalls _ d values hI hstep ⟨_, command.pos.line⟩ henter with ⟨o, m', hruns⟩
          exact ⟨_, _, .call hstep hruns⟩
      | @series b _ series head series? block endless =>
          have hparts := hP.enter hS hI hstep series?
          have hseries : (Task.series series).Terminates I := by
            cases series with
            | block body => exact hblocks body block
            | times count body => exact terminates_times hP hparts (hblocks body block) count
            | forever body => exact absurd (head.trans (congrArg _ (endless body rfl))) hforever
          rcases hseries (m.atLine command.pos.line) hI with ⟨o, m', hruns⟩
          exact ⟨o, m', .enter hstep series? hruns⟩

end Task

namespace Program

variable {p : Program}

/-! ## The table of procedures -/

/-- The table holds only definitions of the program, each under its own signature. -/
def Stocked (p : Program) (c : Context) : Prop :=
  ∀ name arity d, c.procedures.find? name arity = some d → p.Defines d ∧ d.signature = Signature.of name arity

theorem stocked_define {c : Context} {d : Definition} (h : p.Stocked c) (hd : p.Defines d) : p.Stocked (c.define d) := by
  intro name arity found hfound
  simp only [Context.define, Procedures.find?_define] at hfound
  split at hfound
  · rename_i hsignature
    cases hfound
    exact ⟨hd, hsignature⟩
  · exact h name arity found hfound

theorem preserved_stocked (p : Program) : Preserved p.Holds p.Stocked where
  effect {command c e} hholds hstocked hstep := by
    rcases c.procedures_perform e with hsame | ⟨d, rfl, -⟩
    · simpa only [Stocked, hsame] using hstocked
    · exact stocked_define hstocked (defines_of_step hholds hstep)
  enter hholds _ hstep hseries := all_holds_of_step hholds hstep hseries
  call {command c d values} hholds hstocked hstep := by
    cases Command.leads_of_step hstep with
    | call head found => exact ⟨fun inner hmem => holds_of_defines (hstocked _ _ _ found).1 hmem, hstocked⟩
    | series head series? => cases series?
  leave hstocked := hstocked

theorem stocked_initial (p : Program) : p.Stocked (Machine.initial.enterDefinitions p).context := by
  have hempty : p.Stocked Machine.initial.context := by
    intro name arity d hfound
    simp [Machine.initial, Machine.ofContext, Context.initial, Procedures.find?] at hfound
  exact List.foldlRecOn p.definitions Context.define hempty fun c hc d hd =>
    stocked_define hc (defines_of_mem_definitions hd)

/-! ## Who calls whom -/

/-- The names that the program defines. -/
def names (p : Program) : Set String :=
  {name | ∃ d, p.Defines d ∧ d.name = name}

/-- A definition of the one name has a call of the other in its body, at any depth; the program defines both. -/
def Calls (p : Program) (caller callee : String) : Prop :=
  (∃ d command, p.Defines d ∧ d.name = caller ∧ Within Command.bodies command d.body ∧ command.head = .call callee) ∧
    callee ∈ p.names

theorem finite_names (hp : p.WellFormed) : p.names.Finite := by
  refine (p.definitions.map Definition.name).finite_toSet.subset ?_
  rintro name ⟨d, hd, rfl⟩
  exact List.mem_map_of_mem (hp.top d hd)

/-- Without recursion the defined names are ordered by their calls, and there are only finitely many of them. -/
theorem wellFoundedOn_calls (hp : p.WellFormed) (hacyclic : ∀ name, ¬ Relation.TransGen p.Calls name name) :
    p.names.WellFoundedOn (Function.swap (Relation.TransGen p.Calls)) := by
  have : IsStrictOrder String (Function.swap (Relation.TransGen p.Calls)) :=
    { irrefl := hacyclic
      trans := fun _ _ _ hab hbc => hbc.trans hab }
  exact (finite_names hp).wellFoundedOn

/-- Every call in the body of a definition is to a name of lower rank. -/
def ranked (p : Program) (rank : String → Nat) : Bool :=
  p.definitions.all fun d =>
    Command.listPasses (fun command =>
      match command.head with
      | .call name => rank name < rank d.name
      | .builtin _ => true) d.body

/-- Names that can be ranked so do not call themselves. -/
theorem acyclic_of_ranked (hp : p.WellFormed) {rank : String → Nat} (h : p.ranked rank = true) (name : String) :
    ¬ Relation.TransGen p.Calls name name := by
  have hcalls : ∀ {a b : String}, p.Calls a b → rank b < rank a := by
    rintro a b ⟨⟨d, command, hd, rfl, hwithin, head⟩, -⟩
    have hpasses := Command.listPasses_iff.1 (List.all_eq_true.1 h d (hp.top d hd)) command hwithin
    simpa [head] using hpasses
  have hdescends : ∀ {a b : String}, Relation.TransGen p.Calls a b → rank b < rank a := by
    intro a b hab
    induction hab with
    | single hab => exact hcalls hab
    | tail _ hbc ih => exact (hcalls hbc).trans ih
  exact fun hcycle => (hdescends hcycle).false

/-- Whatever body the program defines the name with, it ends. -/
def BodiesEnd (p : Program) (name : String) : Prop :=
  ∀ d, p.Defines d → d.name = name → (Task.series (.block d.body)).Terminates p.Stocked

/-- All procedures end that are called somewhere in the commands. -/
def CalleesEnd (p : Program) (commands : List Command) : Prop :=
  ∀ command name, Within Command.bodies command commands → command.head = .call name → p.BodiesEnd name

theorem terminates_of_calleesEnd (hsmall : p.SmallNames)
    (hforever : ∀ command, p.Holds command → command.head ≠ .builtin .forever) (command : Command) :
    p.Holds command → p.CalleesEnd [command] → (Task.command command).Terminates p.Stocked := by
  -- The commands in the blocks of a command have no callees that the command itself does not have.
  induction command using Command.induction_bodies with
  | step command ih =>
      intro hholds hcallees
      refine Task.terminates_command p.preserved_stocked hholds (hforever command hholds) ?_ ?_
      · intro body hblock
        have hbody := Command.mem_bodies_of_block hblock
        have hinside : ∀ inner ∈ body, p.Holds inner := fun inner hmem => hholds.trans hbody (.here hmem)
        refine Task.terminates_block p.preserved_stocked hinside fun inner hmem => ?_
        refine ih body hbody inner hmem (hinside inner hmem) fun called name hwithin => hcallees called name ?_
        exact Within.singleton_iff.2 (.inr ⟨body, hbody, Within.iff_exists_singleton.2 ⟨inner, hmem, hwithin⟩⟩)
      · intro c d values hstocked hstep
        cases Command.leads_of_step hstep with
        | series head series? => cases series?
        | call head found =>
            -- What the table has under the signature of the call is a definition of its name.
            rcases hstocked _ _ _ found with ⟨hd, hsignature⟩
            have hname := hsmall.name_eq hd hholds head hsignature
            exact hcallees command _ (.here List.mem_cons_self) head d hd hname

theorem terminates_block_of_calleesEnd (hsmall : p.SmallNames)
    (hforever : ∀ command, p.Holds command → command.head ≠ .builtin .forever) {body : List Command}
    (hholds : ∀ command ∈ body, p.Holds command) (hcallees : p.CalleesEnd body) :
    (Task.series (.block body)).Terminates p.Stocked := by
  refine Task.terminates_block p.preserved_stocked hholds fun command hmem => ?_
  refine terminates_of_calleesEnd hsmall hforever command (hholds command hmem) fun called name hwithin => ?_
  exact hcallees called name (Within.iff_exists_singleton.2 ⟨command, hmem, hwithin⟩)

/-- Bodies end one after the other, those that call nothing first. -/
theorem bodiesEnd_of_mem_names (hp : p.WellFormed) (hsmall : p.SmallNames)
    (hforever : ∀ command, p.Holds command → command.head ≠ .builtin .forever)
    (hacyclic : ∀ name, ¬ Relation.TransGen p.Calls name name) {name : String} (hname : name ∈ p.names) :
    p.BodiesEnd name := by
  refine (wellFoundedOn_calls hp hacyclic).induction hname ?_
  intro name _ ih d hd hname
  refine terminates_block_of_calleesEnd hsmall hforever (fun inner hmem => holds_of_defines hd hmem) ?_
  intro called callee hwithin head d' hd' hname'
  -- A name that is called here and defined at all is one step further down.
  have hdefined : callee ∈ p.names := ⟨d', hd', hname'⟩
  have hcalls : p.Calls name callee := ⟨⟨d, called, hd, hname, hwithin, head⟩, hdefined⟩
  exact ih callee hdefined (.single hcalls) d' hd' hname'

/-- A program that was read from a source text, has no `forever` in it and defines no procedure that gets back to itself
comes to an end, whatever its loops count to. -/
theorem programs_without_recursion_end {source : String} (h : compile source = .ok p)
    (hforever : ∀ command, p.Holds command → command.head ≠ .builtin .forever)
    (hacyclic : ∀ name, ¬ Relation.TransGen p.Calls name name) :
    ∃ result m' enough, ∀ fuel ≥ enough, Machine.run fuel p Machine.initial = some (result, m') := by
  have hsmall := names_of_compile h
  have hcallees : p.CalleesEnd p := fun _ name _ _ d hd hname =>
    bodiesEnd_of_mem_names (compile_wellFormed h) hsmall hforever hacyclic ⟨d, hd, hname⟩ d hd hname
  have hends := terminates_block_of_calleesEnd hsmall hforever (fun command hmem => .here hmem) hcallees
  rcases hends (Machine.initial.enterDefinitions p) p.stocked_initial with ⟨o, m', hruns⟩
  rcases Machine.exists_run hruns with ⟨enough, hrun⟩
  exact ⟨_, _, enough, fun fuel hle => Machine.run_of_le hle p Machine.initial hrun⟩

/-- A loop that counts to infinity and calls a procedure which is defined twice, with a loop that has no round. -/
def countless : String :=
  "to all :n repeat exp 999 [one :n] end to one :n repeat 0 - :n [bye] end all 7 to one :m show :m end"

theorem countless_rounds_end :
    ∃ p, compile countless = .ok p ∧ (∀ command, p.Holds command → command.head ≠ .builtin .forever) ∧
      (∀ name, ¬ Relation.TransGen p.Calls name name) ∧
      ∃ result m' enough, ∀ fuel ≥ enough, Machine.run fuel p Machine.initial = some (result, m') := by
  have hchecks : (compile countless).toOption.map (fun p : Program =>
      (Command.listPasses (fun command => command.head != .builtin .forever) p,
        p.ranked fun name => if name = "all" then 1 else 0)) = some (true, true) := by
    decide +kernel
  rcases Checked.exists_ok_of_toOption hchecks with ⟨p, hcompile, hpasses⟩
  rcases Prod.mk.inj hpasses with ⟨hnone, hranked⟩
  have hforever : ∀ command, p.Holds command → command.head ≠ .builtin .forever := by
    intro command hholds
    simpa using Command.listPasses_iff.1 hnone command hholds
  have hacyclic := acyclic_of_ranked (compile_wellFormed hcompile) hranked
  exact ⟨p, hcompile, hforever, hacyclic, programs_without_recursion_end hcompile hforever hacyclic⟩

end Program
end TurtleLogo
