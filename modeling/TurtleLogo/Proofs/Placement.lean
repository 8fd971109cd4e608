import Mathlib.Data.List.Nodup
import Mathlib.Data.List.Perm.Basic
import TurtleLogo.Proofs.Exiting
import TurtleLogo.Proofs.Naming

/-!
# The place of a definition

Definitions are entered before a program starts, and entered again where they stand when the program gets there. As long
as no two of them have the same name and number of parameters, the second time changes nothing: a definition does its
work wherever it stands, and also where the program never gets to it.

* `Program.table` — the procedures with which a fresh machine starts a program. It does not depend on the order of the
  definitions (`Procedures.foldl_define_perm`), and a run never changes it (`Program.preserved_table`);
* `Machine.observed` — what is left of an end of an execution when the line of the machine is forgotten;
* `Program.observed_execBlock_filter` — so a run of some commands is observed as one of those commands without the
  definitions among them.
-/

namespace TurtleLogo

/-! ## Tables -/

namespace Procedures

theorem getElem?_define (table : Procedures) (d : Definition) (signature : Signature) :
    (table.define d)[signature]? = if d.signature = signature then some d else table[signature]? := by
  simp [define, Std.ExtTreeMap.getElem?_insert]

/-- A definition that is in the table already is entered without effect. -/
theorem define_eq_self {table : Procedures} {d : Definition} (h : table[d.signature]? = some d) :
    table.define d = table := by
  refine Std.ExtTreeMap.ext_getElem? fun signature => ?_
  rw [getElem?_define]
  by_cases hsignature : d.signature = signature
  · rw [if_pos hsignature, ← hsignature, h]
  · rw [if_neg hsignature]

theorem define_comm {d d' : Definition} (h : d.signature ≠ d'.signature) (table : Procedures) :
    (table.define d).define d' = (table.define d').define d := by
  refine Std.ExtTreeMap.ext_getElem? fun signature => ?_
  simp only [getElem?_define]
  by_cases hd : d.signature = signature
  · have hd' : d'.signature ≠ signature := fun hd' => h (hd.trans hd'.symm)
    simp [hd, hd']
  · simp [hd]

variable {definitions definitions' : List Definition}

/-- Definitions that do not replace each other can be entered in any order. -/
theorem foldl_define_perm (hperm : definitions.Perm definitions')
    (hdistinct : (definitions.map Definition.signature).Nodup) (table : Procedures) :
    definitions.foldl define table = definitions'.foldl define table := by
  refine hperm.foldl_eq' (fun d hd d' hd' table => ?_) table
  by_cases h : d.signature = d'.signature
  · rw [List.inj_on_of_nodup_map hdistinct hd hd' h]
  · exact define_comm h table

/-- None of them replaces another, so each is there in the end. -/
theorem getElem?_foldl_define (hdistinct : (definitions.map Definition.signature).Nodup) {d : Definition}
    (hd : d ∈ definitions) (table : Procedures) : (definitions.foldl define table)[d.signature]? = some d := by
  -- In an order in which it comes last, it is what was entered last.
  rcases List.append_of_mem hd with ⟨before, after, rfl⟩
  have hlast : (before ++ d :: after).Perm ((before ++ after) ++ [d]) :=
    List.perm_middle.trans (List.perm_append_singleton d (before ++ after)).symm
  calc ((before ++ d :: after).foldl define table)[d.signature]?
      = (((before ++ after) ++ [d]).foldl define table)[d.signature]? := by
        rw [foldl_define_perm hlast hdistinct]
    _ = (((before ++ after).foldl define table).define d)[d.signature]? := by
        rw [List.foldl_append, List.foldl_cons, List.foldl_nil]
    _ = some d := by
        rw [getElem?_define, if_pos rfl]

end Procedures

namespace Program

variable {p q : Program}

/-- The procedures with which a fresh machine starts the program. -/
def table (p : Program) : Procedures :=
  p.definitions.foldl Procedures.define ∅

theorem enterDefinitions_initial (p : Program) :
    Machine.initial.enterDefinitions p = ⟨{ Context.initial with procedures := p.table }, 0⟩ :=
  Machine.enterDefinitions_eq Machine.initial p

/-- To enter a definition of the program again changes nothing. -/
theorem define_eq_self (hdistinct : (p.definitions.map Definition.signature).Nodup) {d : Definition}
    (hd : d ∈ p.definitions) {c : Context} (htable : c.procedures = p.table) : c.define d = c := by
  have hsame : p.table.define d = p.table :=
    Procedures.define_eq_self (Procedures.getElem?_foldl_define hdistinct hd ∅)
  rw [Context.define, htable, hsame, ← htable]

/-- No run changes the table: all that its commands define is there. -/
theorem preserved_table (hp : p.WellFormed) (hdistinct : (p.definitions.map Definition.signature).Nodup) :
    Preserved p.Holds (fun c => c.procedures = p.table) where
  effect {command c e} hholds htable hstep := by
    rcases c.procedures_perform e with hsame | ⟨d, rfl, -⟩
    · exact hsame.trans htable
    · have hd := hp.top d (defines_of_step hholds hstep)
      exact (congrArg Context.procedures (define_eq_self hdistinct hd htable)).trans htable
  enter hholds _ hstep hseries := all_holds_of_step hholds hstep hseries
  call {command c d values} hholds htable hstep := by
    have hclosed := p.known_initial.closed
    rw [enterDefinitions_initial] at hclosed
    cases Command.leads_of_step hstep with
    | series head series? => cases series?
    | call head found =>
        rw [htable] at found
        exact ⟨hclosed _ _ _ found, htable⟩
  leave htable := htable

end Program

/-! ## Executions without definitions -/

namespace Command

/-- Whether the command is a definition. -/
def isDefinition (command : Command) : Bool :=
  command.definition?.isSome

theorem WellTyped.step_of_definition? {command : Command} (h : command.WellTyped) {d : Definition}
    (hd : command.definition? = some d) (c : Context) : command.step c = .ok (.effect (.define d)) := by
  rcases command with ⟨head, operands, pos⟩
  have hoperands : operands = [.definition d] := by
    unfold definition? at hd
    split at hd
    · rename_i hone
      cases hd
      exact hone
    · cases hd
  subst hoperands
  -- Only one command takes an operand of this kind.
  cases head with
  | call name => cases h
  | builtin b =>
      cases b with
      | define => rfl
      | _ => cases h

end Command

namespace Machine

/-- The result of a program that ends so, and the context it leaves. -/
def observed (r : Outcome × Machine) : Except RuntimeError Unit × Context :=
  ((ended r).1, r.2.context)

/-- A command does not look at the line of the command before it. -/
theorem exec_line (fuel : Nat) (command : Command) (c : Context) (line line' : Nat) :
    exec fuel command ⟨c, line⟩ = exec fuel command ⟨c, line'⟩ := by
  cases fuel <;> rfl

/-- Nor does a block. The line is still there at the end only if no command was executed, and then it tells nothing that
`f` depends on. -/
theorem map_execBlock_line {β : Type} {f : Outcome × Machine → β}
    (hf : ∀ c line line', f (.finished, ⟨c, line⟩) = f (.finished, ⟨c, line'⟩)) (fuel : Nat) (body : List Command)
    (c : Context) (line line' : Nat) :
    (execBlock fuel body ⟨c, line⟩).map f = (execBlock fuel body ⟨c, line'⟩).map f := by
  cases body with
  | nil => exact congrArg some (hf c line line')
  | cons command rest =>
      cases hx : c.exiting with
      | true =>
          rw [execBlock_of_exiting hx, execBlock_of_exiting hx]
          exact congrArg some (hf c line line')
      | false =>
          have hsame : execBlock fuel (command :: rest) ⟨c, line⟩ = execBlock fuel (command :: rest) ⟨c, line'⟩ := by
            rw [execBlock, execBlock, execAll_cons, execAll_cons, exec_line fuel command c line line']
            simp [proceed, hx]
          rw [hsame]

theorem exec_effect {command : Command} {c : Context} {e : Effect} (hstep : command.step c = .ok (.effect e))
    (fuel line : Nat) : exec (fuel + 1) command ⟨c, line⟩ = some (.finished, ⟨c.perform e, command.pos.line⟩) := by
  simp only [exec, hstep]

/-- Executions that go on in the same way from where the first part has led are observed as the same. -/
theorem observed_proceed (c : Context) (line line' : Nat) (execution : Execution) {rest rest' : Machine → Execution}
    (h : ∀ m', execution = some (.finished, m') → (rest m').map observed = (rest' m').map observed) :
    (proceed ⟨c, line⟩ execution rest).map observed = (proceed ⟨c, line'⟩ execution rest').map observed := by
  cases hx : c.exiting with
  | true =>
      rw [proceed_of_exiting hx, proceed_of_exiting hx]
      rfl
  | false =>
      cases execution with
      | none =>
          simp [proceed, hx]
      | some r =>
          rcases r with ⟨o, m'⟩
          by_cases hfinished : o = .finished
          · subst hfinished
            rw [proceed_of_finished hx rfl, proceed_of_finished hx rfl]
            exact h m' rfl
          · rw [proceed_of_halted hx rfl hfinished, proceed_of_halted hx rfl hfinished]

theorem observed_run (fuel : Nat) (p : Program) (m : Machine) :
    (run fuel p m).map (fun r => (r.1, r.2.context)) = (execBlock fuel p (m.enterDefinitions p)).map observed := by
  rw [run, Option.map_map]
  congr 1
  funext ⟨o, m'⟩
  cases o <;> rfl

end Machine

namespace Program

open Machine (exec execBlock observed)

variable {p q : Program}

/-- Definitions among the commands can be left out. -/
theorem observed_execBlock_filter (hp : p.WellFormed) (hdistinct : (p.definitions.map Definition.signature).Nodup)
    (fuel : Nat) {body : List Command} (hbody : ∀ command ∈ body, p.Holds command) :
    ∀ (c : Context) (line line' : Nat), c.procedures = p.table →
      (execBlock (fuel + 1) body ⟨c, line⟩).map observed =
        (execBlock (fuel + 1) (body.filter (!·.isDefinition)) ⟨c, line'⟩).map observed := by
  induction body with
  | nil =>
      intro c line line' _
      rfl
  | cons command rest ih =>
      intro c line line' htable
      rcases List.forall_mem_cons.1 hbody with ⟨hholds, hrest⟩
      cases hd : command.definition? with
      | none =>
          have hkeep : (command :: rest).filter (!·.isDefinition) = command :: rest.filter (!·.isDefinition) := by
            simp [Command.isDefinition, hd]
          rw [hkeep, execBlock, execBlock, Machine.execAll_cons, Machine.execAll_cons,
            Machine.exec_line _ command c line' line]
          refine Machine.observed_proceed c line line' _ fun m' hexec => ?_
          have hruns := Machine.runs_of_exec (fuel + 1) hexec
          have htable' := (hruns.preserves (preserved_table hp hdistinct) hholds htable).1
          exact ih hrest m'.context m'.line m'.line htable'
      | some d =>
          have hskip : (command :: rest).filter (!·.isDefinition) = rest.filter (!·.isDefinition) := by
            simp [Command.isDefinition, hd]
          rw [hskip]
          cases hx : c.exiting with
          | true =>
              rw [Machine.execBlock_of_exiting hx, Machine.execBlock_of_exiting hx]
              rfl
          | false =>
              -- The definition is in the table already, so that only the line of the machine changes.
              have hmem : d ∈ p.definitions :=
                hp.top d ⟨command, hholds, Command.definition_mem_of_definition? hd⟩
              have hexec := Machine.exec_effect ((hp.typed command hholds).step_of_definition? hd c) fuel line
              rw [Context.perform, define_eq_self hdistinct hmem htable] at hexec
              rw [execBlock, Machine.execAll_cons, Machine.proceed_of_finished hx hexec]
              exact ih hrest c command.pos.line line' htable

/-! ## Programs -/

/-- `q` is `p` with its definitions in other places; all other commands stand in the same order. -/
structure Rearranges (p q : Program) : Prop where
  perm : q.Perm p
  others : q.filter (!·.isDefinition) = p.filter (!·.isDefinition)

/-- A fresh machine ends the program with this result and in this context, once the fuel suffices. -/
def EndsWith (p : Program) (result : Except RuntimeError Unit) (c : Context) : Prop :=
  ∃ enough, ∀ fuel ≥ enough, ∃ line, Machine.run fuel p Machine.initial = some (result, ⟨c, line⟩)

/-- Names in lower case are told apart by the table just as they are written. -/
theorem SmallNames.nodup_signatures (hp : p.SmallNames)
    (hdistinct : (p.definitions.map fun d => (d.name, d.params.length)).Nodup) :
    (p.definitions.map Definition.signature).Nodup := by
  have hinjective : Function.Injective fun key : String × Nat => (⟨key.1, key.2⟩ : Signature) := by
    rintro ⟨name, arity⟩ ⟨name', arity'⟩ h
    cases h
    rfl
  have hkeys : p.definitions.map Definition.signature =
      (p.definitions.map fun d => (d.name, d.params.length)).map fun key => ⟨key.1, key.2⟩ := by
    rw [List.map_map]
    refine List.map_congr_left fun d hd => ?_
    simp [Definition.signature, Signature.of, hp.defined d (defines_of_mem_definitions hd)]
  rw [hkeys]
  exact hdistinct.map hinjective

theorem Rearranges.observed_run (h : p.Rearranges q) (hp : p.WellFormed)
    (hdistinct : (p.definitions.map Definition.signature).Nodup) (fuel : Nat) :
    (Machine.run (fuel + 1) q Machine.initial).map (fun r => (r.1, r.2.context)) =
      (Machine.run (fuel + 1) p Machine.initial).map (fun r => (r.1, r.2.context)) := by
  have htable : q.table = p.table :=
    (Procedures.foldl_define_perm (h.perm.symm.filterMap Command.definition?) hdistinct ∅).symm
  have hholds : ∀ command ∈ q, p.Holds command := fun command hmem => .here (h.perm.subset hmem)
  -- Both programs are observed as the commands that are left without their definitions.
  rw [Machine.observed_run, Machine.observed_run, enterDefinitions_initial, enterDefinitions_initial, htable,
    observed_execBlock_filter hp hdistinct fuel hholds _ 0 0 rfl, h.others,
    ← observed_execBlock_filter hp hdistinct fuel (fun command hmem => .here hmem) _ 0 0 rfl]

theorem endsWith_of_run {fuel : Nat} {result : Except RuntimeError Unit} {m : Machine}
    (h : Machine.run fuel p Machine.initial = some (result, m)) : p.EndsWith result m.context :=
  ⟨fuel, fun _ hle => ⟨m.line, Machine.run_of_le hle p Machine.initial h⟩⟩

/-- There is only one such end. -/
theorem EndsWith.eq_of_run {result result' : Except RuntimeError Unit} {c : Context} (h : p.EndsWith result c)
    {fuel : Nat} {m : Machine} (hrun : Machine.run fuel p Machine.initial = some (result', m)) : result' = result := by
  rcases h with ⟨enough, h⟩
  rcases h (max enough fuel) (Nat.le_max_left enough fuel) with ⟨line, h⟩
  have hmore := Machine.run_of_le (Nat.le_max_right enough fuel) p Machine.initial hrun
  exact congrArg Prod.fst (Option.some.inj (hmore.symm.trans h))

/-- A program ends as soon as another one does that is observed as the same. -/
theorem endsWith_of_observed
    (hsame : ∀ fuel, (Machine.run (fuel + 1) q Machine.initial).map (fun r => (r.1, r.2.context)) =
      (Machine.run (fuel + 1) p Machine.initial).map (fun r => (r.1, r.2.context)))
    {fuel : Nat} {result : Except RuntimeError Unit} {m : Machine}
    (h : Machine.run fuel p Machine.initial = some (result, m)) : q.EndsWith result m.context := by
  have hmore := Machine.run_of_le (Nat.le_succ fuel) p Machine.initial h
  have hobserved := hsame fuel
  rw [hmore, Option.map_some] at hobserved
  rcases Option.map_eq_some_iff.1 hobserved with ⟨⟨result', m'⟩, hrun, hview⟩
  rcases Prod.mk.inj hview with ⟨rfl, hcontext⟩
  exact hcontext ▸ endsWith_of_run hrun

/-- In a program that was read from a source text and defines no procedure twice, definitions can stand anywhere: with
its definitions in other places it ends with the same result and in the same context, or neither program ends. -/
theorem definitions_can_stand_anywhere {source : String} (h : compile source = .ok p)
    (hdistinct : (p.definitions.map fun d => (d.name, d.params.length)).Nodup) (hmoved : p.Rearranges q) :
    (∀ fuel, Machine.run fuel p Machine.initial = none ∧ Machine.run fuel q Machine.initial = none) ∨
      ∃ result c, p.EndsWith result c ∧ q.EndsWith result c := by
  have hsame := hmoved.observed_run (compile_wellFormed h) ((names_of_compile h).nodup_signatures hdistinct)
  by_cases hends : ∃ fuel result m, Machine.run fuel p Machine.initial = some (result, m)
  · rcases hends with ⟨fuel, result, m, hrun⟩
    exact .inr ⟨result, m.context, endsWith_of_run hrun, endsWith_of_observed hsame hrun⟩
  · refine .inl fun fuel => ⟨?_, ?_⟩
    · refine Option.eq_none_iff_forall_ne_some.2 ?_
      rintro ⟨result, m⟩ hrun
      exact hends ⟨fuel, result, m, hrun⟩
    · refine Option.eq_none_iff_forall_ne_some.2 ?_
      rintro ⟨result, m⟩ hrun
      rcases endsWith_of_observed (fun fuel => (hsame fuel).symm) hrun with ⟨enough, hp⟩
      rcases hp enough (Nat.le_refl enough) with ⟨line, hp⟩
      exact hends ⟨enough, result, _, hp⟩

/-- A text whose first call fails, so that its program gets to neither of the definitions. -/
def scattered : String :=
  "f 2 to f :n show :n if :n = 2 [f 3] setpensize 3 - :n end g to g bye end"

/-- With its definitions first the program gets to both of them, and fails in the same way. -/
theorem scattered_definitions_brought_forward :
    ∃ p : Program, compile scattered = .ok p ∧
      (p.definitions.map fun d => (d.name, d.params.length)) = [("f", 1), ("g", 0)] ∧
      p.Rearranges (p.filter Command.isDefinition ++ p.filter (!·.isDefinition)) ∧
      ∃ c, p.EndsWith (.error ⟨1, .invalidPenSize 0⟩) c ∧
        EndsWith (p.filter Command.isDefinition ++ p.filter (!·.isDefinition)) (.error ⟨1, .invalidPenSize 0⟩) c := by
  have hchecks : (compile scattered).toOption.map (fun p : Program =>
      (p.definitions.map fun d => (d.name, d.params.length), (Machine.run 9 p Machine.initial).map Prod.fst)) =
        some ([("f", 1), ("g", 0)], some (.error ⟨1, .invalidPenSize 0⟩)) := by
    decide +kernel
  rcases Checked.exists_ok_of_toOption hchecks with ⟨p, hcompile, hpair⟩
  rcases Prod.mk.inj hpair with ⟨hkeys, hend⟩
  rcases Option.map_eq_some_iff.1 hend with ⟨⟨result, m⟩, hrun, rfl⟩
  have hmoved : p.Rearranges (p.filter Command.isDefinition ++ p.filter (!·.isDefinition)) :=
    { perm := List.filter_append_perm _ p
      others := by simp [List.filter_filter] }
  refine ⟨p, hcompile, hkeys, hmoved, ?_⟩
  rcases definitions_can_stand_anywhere hcompile (by simp [hkeys]) hmoved with hnone | ⟨result, c, hp, hq⟩
  · exact absurd ((hnone 9).1.symm.trans hrun) (by simp)
  · cases hp.eq_of_run hrun
    exact ⟨c, hp, hq⟩

end Program
end TurtleLogo
