import TurtleLogo.Language.Surface
import TurtleLogo.Proofs.StepSpec

/-!
# Statements and commands at any depth

Statements of a text and commands of a program hold others in blocks and in bodies of definitions. `Within` describes what
a list holds in this way at any depth, whatever the kind of its elements; `Statement.bodies` and `Command.bodies` give the
lists that one element holds directly.

The commands that a run meets are those of the program: `Program.preserved_known` says that neither the steps of
commands nor the procedures of the table ever lead out of it, and that no definition of the program gets lost from the
table. So the fault that ends a run is one of a command of the program.
-/

namespace TurtleLogo

/-- An element of a list, or of a list that such an element holds, and so on. -/
inductive Within {α : Type} (bodies : α → List (List α)) (a : α) : List α → Prop where
  | here {list : List α} (mem : a ∈ list) : Within bodies a list
  | inside {outer : α} {inner list : List α} (mem : outer ∈ list) (part : inner ∈ bodies outer)
      (within : Within bodies a inner) : Within bodies a list

namespace Within

variable {α : Type} {bodies : α → List (List α)} {a b : α} {inner list : List α}

theorem trans (h : Within bodies b list) (part : inner ∈ bodies b) (hinner : Within bodies a inner) :
    Within bodies a list := by
  induction h with
  | here mem =>
      exact .inside mem part hinner
  | inside mem part' _ ih =>
      exact .inside mem part' ih

theorem iff_exists_mem (list : List α) :
    Within bodies a list ↔ ∃ b ∈ list, a = b ∨ ∃ inner ∈ bodies b, Within bodies a inner := by
  constructor
  · rintro (⟨mem⟩ | ⟨mem, part, h⟩)
    · exact ⟨a, mem, .inl rfl⟩
    · exact ⟨_, mem, .inr ⟨_, part, h⟩⟩
  · rintro ⟨b, mem, rfl | ⟨inner, part, h⟩⟩
    · exact .here mem
    · exact .inside mem part h

theorem not_nil : ¬ Within bodies a [] := by
  simp [iff_exists_mem []]

theorem singleton_iff : Within bodies a [b] ↔ a = b ∨ ∃ inner ∈ bodies b, Within bodies a inner := by
  simp [iff_exists_mem [b]]

theorem iff_exists_singleton : Within bodies a list ↔ ∃ b ∈ list, Within bodies a [b] := by
  simp only [singleton_iff, iff_exists_mem list]

theorem cons_iff : Within bodies a (b :: list) ↔ Within bodies a [b] ∨ Within bodies a list := by
  rw [singleton_iff, iff_exists_mem (b :: list), iff_exists_mem list]
  simp only [List.mem_cons, exists_eq_or_imp]

end Within

/-! ## Statements -/

namespace Surface

/-- The kind of operand that an argument becomes. -/
def Argument.kind : Argument → OperandKind
  | .value _ => .value
  | .block _ => .block
  | .point _ _ => .point
  | .colour _ => .colour
  | .word _ _ => .name

def Argument.body? : Argument → Option (List Statement)
  | .block body => some body
  | _ => none

def Statement.bodies : Statement → List (List Statement)
  | .definition _ _ body _ => [body]
  | .command _ arguments _ => arguments.filterMap Argument.body?
  | .call _ _ _ => []

theorem Argument.mem_bodies_iff {arguments : List Argument} {body : List Statement} :
    body ∈ arguments.filterMap Argument.body? ↔ .block body ∈ arguments := by
  constructor
  · intro hmem
    rcases List.mem_filterMap.1 hmem with ⟨argument, hargument, hbody⟩
    cases argument with
    | block body' =>
        cases hbody
        exact hargument
    | _ =>
        cases hbody
  · intro hmem
    exact List.mem_filterMap.2 ⟨_, hmem, rfl⟩

end Surface

/-! ## Commands -/

/-- The commands of a block or of the body of a definition. -/
def Operand.body? : Operand → Option (List Command)
  | .block body => some body
  | .definition d => some d.body
  | _ => none

def Command.bodies (command : Command) : List (List Command) :=
  command.operands.filterMap Operand.body?

theorem Command.mem_bodies_of_block {command : Command} {body : List Command} (h : .block body ∈ command.operands) :
    body ∈ command.bodies :=
  List.mem_filterMap.2 ⟨_, h, rfl⟩

theorem Command.mem_bodies_of_definition {command : Command} {d : Definition}
    (h : .definition d ∈ command.operands) : d.body ∈ command.bodies :=
  List.mem_filterMap.2 ⟨_, h, rfl⟩

theorem Command.definition_mem_of_definition? {command : Command} {d : Definition}
    (h : command.definition? = some d) : .definition d ∈ command.operands := by
  unfold definition? at h
  split at h
  · rename_i operands hoperands
    cases h
    simp [hoperands]
  · cases h

namespace Program

/-- The commands of a program at any depth. -/
def Holds (p : Program) (command : Command) : Prop :=
  Within Command.bodies command p

/-- The definitions at the top of a program, in the order of the text. -/
def definitions (p : Program) : List Definition :=
  p.filterMap Command.definition?

/-- Some command of the program, at any depth, has the definition for an operand. -/
def Defines (p : Program) (d : Definition) : Prop :=
  ∃ command, p.Holds command ∧ .definition d ∈ command.operands

/-- Every procedure of the table is made of commands of the program. -/
def Closed (p : Program) (table : Procedures) : Prop :=
  ∀ name arity d, table.find? name arity = some d → ∀ command ∈ d.body, p.Holds command

/-- Every definition at the top of the program has a procedure in the table, itself or one that replaced it. -/
def Covered (p : Program) (table : Procedures) : Prop :=
  ∀ d ∈ p.definitions, (table.find? d.name d.params.length).isSome

/-- The table holds procedures of the program, and one for each of its definitions. -/
structure Known (p : Program) (c : Context) : Prop where
  closed : p.Closed c.procedures
  covered : p.Covered c.procedures

end Program

/-! ## All commands at once -/

/-- What holds of a command whenever it holds of all commands in its bodies holds of every command. -/
theorem Command.induction_bodies {P : Command → Prop}
    (step : ∀ command, (∀ body ∈ command.bodies, ∀ inner ∈ body, P inner) → P command) (command : Command) :
    P command := by
  refine step command fun body hbody inner hinner => ?_
  have hsize : sizeOf inner < sizeOf command := by
    rcases List.mem_filterMap.1 hbody with ⟨operand, hoperand, hpart⟩
    have hlist := List.sizeOf_lt_of_mem hinner
    have hoperands := List.sizeOf_lt_of_mem hoperand
    -- A body is smaller than its operand, which is smaller than the command.
    have hoperand : sizeOf body < sizeOf operand := by
      cases operand with
      | block body' =>
          cases hpart
          simp
      | definition d =>
          cases hpart
          rcases d with ⟨name, params, body⟩
          simp
          omega
      | _ =>
          cases hpart
    rcases command with ⟨head, operands, pos⟩
    simp only [Command.mk.sizeOf_spec]
    simp only at hoperands
    omega
  exact Command.induction_bodies step inner
termination_by sizeOf command

mutual

/-- Whether a test succeeds on the command and on all that it holds. -/
def Command.passes (test : Command → Bool) : Command → Bool
  | ⟨head, operands, pos⟩ => test ⟨head, operands, pos⟩ && Operand.listPasses test operands

def Operand.listPasses (test : Command → Bool) : List Operand → Bool
  | [] => true
  | .block body :: rest => Command.listPasses test body && Operand.listPasses test rest
  | .definition ⟨_, _, body⟩ :: rest => Command.listPasses test body && Operand.listPasses test rest
  | _ :: rest => Operand.listPasses test rest

def Command.listPasses (test : Command → Bool) : List Command → Bool
  | [] => true
  | c :: rest => c.passes test && Command.listPasses test rest

end

section Passing

variable {test : Command → Bool}

theorem Command.listPasses_eq_true {list : List Command} :
    Command.listPasses test list = true ↔ ∀ command ∈ list, command.passes test = true := by
  induction list with
  | nil =>
      simp [listPasses]
  | cons command rest ih =>
      simp [listPasses, ih]

theorem Operand.listPasses_eq_true {operands : List Operand} :
    Operand.listPasses test operands = true ↔
      ∀ body ∈ operands.filterMap Operand.body?, Command.listPasses test body = true := by
  induction operands with
  | nil =>
      simp [listPasses]
  | cons operand rest ih =>
      cases operand with
      | definition d =>
          rcases d with ⟨name, params, body⟩
          simp only [List.filterMap_cons, body?, List.forall_mem_cons, listPasses, Bool.and_eq_true, ih]
      | block body =>
          simp only [List.filterMap_cons, body?, List.forall_mem_cons, listPasses, Bool.and_eq_true, ih]
      | _ =>
          exact ih

/-- The test is made on the command and on everything in its blocks and bodies. -/
theorem Command.passes_iff (command : Command) :
    command.passes test = true ↔ ∀ inner, Within Command.bodies inner [command] → test inner = true := by
  induction command using Command.induction_bodies with
  | step command ih =>
      have hbodies : Operand.listPasses test command.operands = true ↔
          ∀ body ∈ command.bodies, ∀ c ∈ body, ∀ inner, Within Command.bodies inner [c] → test inner = true := by
        rw [Operand.listPasses_eq_true]
        refine forall₂_congr fun body hbody => ?_
        rw [Command.listPasses_eq_true]
        exact forall₂_congr fun c hc => ih body hbody c hc
      have hself : command.passes test = (test command && Operand.listPasses test command.operands) := by
        rcases command with ⟨head, operands, pos⟩
        rw [passes]
      rw [hself, Bool.and_eq_true, hbodies]
      constructor
      · rintro ⟨hcommand, hinside⟩ inner hwithin
        rcases Within.singleton_iff.1 hwithin with rfl | ⟨body, hbody, hinner⟩
        · exact hcommand
        · rcases Within.iff_exists_singleton.1 hinner with ⟨c, hc, hinner⟩
          exact hinside body hbody c hc inner hinner
      · intro h
        refine ⟨h command (.here List.mem_cons_self), fun body hbody c hc inner hinner => h inner ?_⟩
        exact Within.singleton_iff.2 (.inr ⟨body, hbody, Within.iff_exists_singleton.2 ⟨c, hc, hinner⟩⟩)

theorem Command.listPasses_iff {list : List Command} :
    Command.listPasses test list = true ↔ ∀ inner, Within Command.bodies inner list → test inner = true := by
  rw [Command.listPasses_eq_true]
  constructor
  · intro h inner hwithin
    rcases Within.iff_exists_singleton.1 hwithin with ⟨c, hc, hinner⟩
    exact c.passes_iff.1 (h c hc) inner hinner
  · intro h command hmem
    exact command.passes_iff.2 fun inner hinner => h inner (Within.iff_exists_singleton.2 ⟨command, hmem, hinner⟩)

end Passing

/-! ## Commands that a run can meet -/

namespace Context

/-- Only one effect reaches the table of procedures. -/
theorem procedures_perform (c : Context) (e : Effect) :
    (c.perform e).procedures = c.procedures ∨ ∃ d, e = .define d ∧ (c.perform e).procedures = c.procedures.define d := by
  cases e with
  | define d =>
      exact .inr ⟨d, rfl, rfl⟩
  | _ =>
      exact .inl rfl

end Context

namespace Program

variable {p : Program}

theorem holds_of_defines {d : Definition} (h : p.Defines d) {command : Command} (hmem : command ∈ d.body) :
    p.Holds command := by
  rcases h with ⟨outer, houter, hd⟩
  exact houter.trans (Command.mem_bodies_of_definition hd) (.here hmem)

theorem closed_define {table : Procedures} {d : Definition} (h : p.Closed table) (hd : p.Defines d) :
    p.Closed (table.define d) := by
  intro name arity found hfound
  rw [Procedures.find?_define] at hfound
  split at hfound
  · cases hfound
    exact fun command hmem => holds_of_defines hd hmem
  · exact h name arity found hfound

theorem isSome_define {table : Procedures} {name : String} {arity : Nat} (h : (table.find? name arity).isSome)
    (d : Definition) : ((table.define d).find? name arity).isSome := by
  rw [Procedures.find?_define]
  split
  · rfl
  · exact h

theorem known_define {c : Context} {d : Definition} (h : p.Known c) (hd : p.Defines d) : p.Known (c.define d) where
  closed := closed_define h.closed hd
  covered d' hd' := isSome_define (h.covered d' hd') d

/-- Commands define only what the program holds. -/
theorem defines_of_step {command : Command} {c : Context} {d : Definition} (hholds : p.Holds command)
    (hstep : command.step c = .ok (.effect (.define d))) : p.Defines d :=
  ⟨command, hholds, Command.source_of_step hstep⟩

/-- Commands of the program lead to commands of the program. -/
theorem all_holds_of_step {command : Command} {c : Context} {s : Step} {series : Series} (hholds : p.Holds command)
    (hstep : command.step c = .ok s) (hseries : s.series? = some series) : (Task.series series).All p.Holds := by
  cases Command.leads_of_step hstep with
  | series head series? block =>
      rcases Option.some.inj (series?.symm.trans hseries) with rfl
      exact fun inner hmem => hholds.trans (Command.mem_bodies_of_block block) (.here hmem)
  | effect | stop | call =>
      cases hseries

theorem preserved_known (p : Program) : Preserved p.Holds p.Known where
  effect {command c e} hholds hknown hstep := by
    rcases c.procedures_perform e with hsame | ⟨d, rfl, -⟩
    · exact ⟨by simpa [hsame] using hknown.closed, by simpa [hsame] using hknown.covered⟩
    · exact known_define hknown (defines_of_step hholds hstep)
  enter hholds _ hstep hseries := all_holds_of_step hholds hstep hseries
  call {command c d values} hholds hknown hstep := by
    cases Command.leads_of_step hstep with
    | call head found => exact ⟨hknown.closed _ _ _ found, hknown.closed, hknown.covered⟩
    | series head series? => cases series?
  leave hknown := ⟨hknown.closed, hknown.covered⟩

/-! ## Fresh machines -/

theorem defines_of_mem_definitions {d : Definition} (h : d ∈ p.definitions) : p.Defines d := by
  rcases List.mem_filterMap.1 h with ⟨command, hmem, hdefinition⟩
  exact ⟨command, .here hmem, Command.definition_mem_of_definition? hdefinition⟩

theorem closed_foldl {definitions : List Definition} (hdefinitions : ∀ d ∈ definitions, p.Defines d)
    {table : Procedures} (h : p.Closed table) : p.Closed (definitions.foldl Procedures.define table) := by
  induction definitions generalizing table with
  | nil =>
      exact h
  | cons d definitions ih =>
      rcases List.forall_mem_cons.1 hdefinitions with ⟨hd, hrest⟩
      exact ih hrest (closed_define h hd)

/-- What is in the table stays there, and what is entered comes to be there. -/
theorem isSome_foldl {definitions : List Definition} {table : Procedures} {name : String} {arity : Nat}
    (h : (table.find? name arity).isSome ∨ ∃ d ∈ definitions, d.signature = Signature.of name arity) :
    ((definitions.foldl Procedures.define table).find? name arity).isSome := by
  induction definitions generalizing table with
  | nil =>
      simpa using h
  | cons d definitions ih =>
      -- The first definition is in the table from here on; later ones are still to come.
      refine ih ?_
      rcases h with h | ⟨d', hmem, hsignature⟩
      · exact .inl (isSome_define h d)
      · rcases List.mem_cons.1 hmem with rfl | hmem
        · exact .inl (by simp [Procedures.find?_define, hsignature])
        · exact .inr ⟨d', hmem, hsignature⟩

/-- A fresh machine knows all procedures of the program and no others. -/
theorem known_initial (p : Program) : p.Known (Machine.initial.enterDefinitions p).context := by
  rw [Machine.enterDefinitions_eq]
  constructor
  · refine closed_foldl (fun d hd => defines_of_mem_definitions hd) fun name arity d hfound => ?_
    simp [Machine.initial, Machine.ofContext, Context.initial, Procedures.find?] at hfound
  · exact fun d hd => isSome_foldl (.inr ⟨d, hd, rfl⟩)

/-- The fault that ends a run of a program in a fresh machine. -/
def EndsIn (p : Program) (fault : Fault) : Prop :=
  ∃ fuel line m, Machine.run fuel p Machine.initial = some (.error ⟨line, fault⟩, m)

/-- The fault of a run is that of some command of the program. -/
theorem fails_of_endsIn {p : Program} {fault : Fault} (h : p.EndsIn fault) :
    fault = .stopOutsideProcedure ∨ ∃ command c, p.Holds command ∧ p.Known c ∧ Command.Fails c command fault := by
  rcases h with ⟨fuel, line, m, hrun⟩
  have hraised := Machine.raised_of_run p.preserved_known hrun (fun c hmem => .here hmem) p.known_initial
  rcases hraised with hstop | ⟨command, c, hholds, hknown, hstep, -⟩
  · exact .inl hstop
  · exact .inr ⟨command, c, hholds, hknown, Command.fails_of_step hstep⟩

end Program
end TurtleLogo
