import TurtleLogo.Proofs.Typing

/-!
# Calls find their procedures

The number of arguments that a call takes is settled while its text is read, from a header anywhere in the text. The
procedure is looked up while the call runs, by name and number of arguments, in a table that definitions keep changing.
The two agree: a program that defines a name at all has a procedure for every call to it.
-/

namespace TurtleLogo
namespace Program

variable {p : Program}

theorem mem_of_firstDefinition? {name : String} {d : Definition} (h : p.firstDefinition? name = some d) :
    d ∈ p.definitions ∧ d.name = name := by
  have hname := List.find?_some h
  exact ⟨List.mem_of_find?_eq_some h, (beq_iff_eq.1 hname).symm⟩

/-- A name that the program defines has a first definition, which calls to the name fit. -/
theorem WellFormed.exists_first (hp : p.WellFormed) {d : Definition} (hd : p.Defines d) {command : Command}
    (hholds : p.Holds command) (head : command.head = .call d.name) :
    ∃ first, p.firstDefinition? d.name = some first ∧ command.operands.length = first.params.length := by
  have hsome : (p.firstDefinition? d.name).isSome := by
    exact List.find?_isSome.2 ⟨d, hp.top d hd, beq_self_eq_true d.name⟩
  rcases Option.isSome_iff_exists.1 hsome with ⟨first, hfirst⟩
  exact ⟨first, hfirst, hp.counts command d.name first hholds head hfirst⟩

/-- A call that is executed finds a procedure if the program defines its name. -/
theorem WellFormed.not_undefined (hp : p.WellFormed) {d : Definition} (hd : p.Defines d) {command : Command}
    {c : Context} (hholds : p.Holds command) (hknown : p.Known c) (arity : Nat) :
    ¬ Command.Fails c command (.undefinedProcedure d.name arity) := by
  intro hfails
  cases hfails with
  | undefined head hnone =>
      rcases hp.exists_first hd hholds head with ⟨first, hfirst, hlength⟩
      rcases mem_of_firstDefinition? hfirst with ⟨hmem, hname⟩
      -- The procedure may have been replaced since, but only by one that takes as many arguments.
      have hsome := hknown.covered first hmem
      rw [hname, ← hlength, hnone] at hsome
      cases hsome
  | value mem part h =>
      cases Expression.faults_of_eval h
  | range h =>
      exact h

/-- In a program that was read from a source text, all definitions stand at the top; a call to a name that one of them
carries, wherever it stands, has as many operands as the first of them has parameters; and no run of the program ever
misses the procedure of such a name. -/
theorem defined_procedures_are_found {source : String} (h : compile source = .ok p) :
    (∀ d, p.Defines d → d ∈ p.definitions) ∧
      (∀ d command, p.Defines d → p.Holds command → command.head = .call d.name →
        ∃ first, p.firstDefinition? d.name = some first ∧ command.operands.length = first.params.length) ∧
      ∀ d arity, p.Defines d → ¬ p.EndsIn (.undefinedProcedure d.name arity) := by
  have hp := compile_wellFormed h
  refine ⟨hp.top, fun d command hd hholds head => hp.exists_first hd hholds head, ?_⟩
  intro d arity hd hends
  rcases fails_of_endsIn hends with hstop | ⟨command, c, hholds, hknown, hfails⟩
  · cases hstop
  · exact hp.not_undefined hd hholds hknown arity hfails

/-- A call before two definitions of its name, which differ in the number of their parameters. -/
theorem found_before_two_definitions :
    ∃ p, compile "f 1 to f :x show :x end to f :x :y show :y end" = .ok p ∧
      (∃ d command, p.Defines d ∧ p.Holds command ∧ command.head = .call d.name ∧ command.operands.length = 1 ∧
        ∃ first, p.firstDefinition? d.name = some first ∧ command.operands.length = first.params.length) ∧
      ¬ p.EndsIn (.undefinedProcedure "f" 1) := by
  have heads : (compile "f 1 to f :x show :x end to f :x :y show :y end").toOption.map
      (fun p => (p.map fun c => (c.head, c.operands.length), p.definitions.map (·.name))) =
        some ([(.call "f", 1), (.builtin .define, 1), (.builtin .define, 1)], ["f", "f"]) := by
    decide +kernel
  cases hcompile : compile "f 1 to f :x show :x end to f :x :y show :y end" with
  | error errors =>
      simp [hcompile, Except.toOption] at heads
  | ok p =>
      simp only [hcompile, Except.toOption, Option.map_some, Option.some.injEq, Prod.mk.injEq] at heads
      have hd : "f" ∈ p.definitions.map (·.name) := by
        simp [heads.2]
      have hcall : (Head.call "f", 1) ∈ p.map fun c => (c.head, c.operands.length) := by
        simp [heads.1]
      rcases List.mem_map.1 hd with ⟨d, hmem, hname⟩
      rcases List.mem_map.1 hcall with ⟨command, hholds, hcommand⟩
      rcases Prod.mk.inj hcommand with ⟨head, hlength⟩
      rw [← hname] at head
      have hdefines := defines_of_mem_definitions hmem
      have hfound := defined_procedures_are_found hcompile
      refine ⟨p, rfl, ⟨d, command, hdefines, .here hholds, head, hlength, ?_⟩, ?_⟩
      · exact hfound.2.1 d command hdefines (.here hholds) head
      · exact hname ▸ hfound.2.2 d 1 hdefines

end Program
end TurtleLogo
