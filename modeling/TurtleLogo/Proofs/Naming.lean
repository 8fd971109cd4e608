import TurtleLogo.Proofs.Building

/-!
# Names of procedures

A call finds its procedure under a name in lower case. Scanning has already folded the names of a text, so that in a
program which was read from a text a call and a definition stand for the same procedure only if their names are the same
string:

* `Surface.Statement.ListYields.exists_of_within` — a statement at any depth of a tree is spelled by some of the tokens
  that spell the tree;
* `Program.names_of_compile` — the names of calls and definitions are in lower case;
* `Program.SmallNames.name_eq` — a definition under the signature of a call has the name of the call.
-/

namespace TurtleLogo

/-! ## Names of tokens -/

namespace Lexeme

/-- A name, if the token is one, is in lower case. -/
def IsSmall : Lexeme → Prop
  | ident name => name.toLower = name
  | _ => True

theorem isSmall_ofName {name : String} (h : name.toLower = name) : (ofName name).IsSmall := by
  unfold ofName
  split
  · trivial
  split
  · trivial
  split
  · trivial
  · exact h

theorem isSmall_of_ne_ident {l : Lexeme} (h : ∀ name, l ≠ .ident name) : l.IsSmall := by
  cases l with
  | ident name => exact absurd rfl (h name)
  | _ => trivial

theorem isSmall_of_next {previous : Option Char} {c : Char} {rest : List Char} {l : Lexeme} {text : List Char}
    (h : Segment.next previous c rest = .lexeme l text) : l.IsSmall := by
  unfold Segment.next at h
  repeat' split at h
  all_goals cases h
  -- Only words without a quote or a colon are names, and they are folded where they are cut.
  all_goals try trivial
  · exact isSmall_of_ne_ident (Segment.minus_ne_ident _ _)
  · exact isSmall_ofName (Grammar.toLower_toLower _)
  · exact isSmall_of_ne_ident (Segment.sign_ne_ident ‹_›)

end Lexeme

theorem Tokens.isSmall_of_scan {source : String} {tokens : Tokens} (h : Tokens.scan source = .ok tokens) :
    ∀ token ∈ tokens.list, token.lexeme.IsSmall :=
  forall_of_scan Lexeme.isSmall_of_next h

/-! ## Statements at any depth -/

namespace Surface

theorem Statement.ListYields.exists_of_mem {list : List Statement} {tokens : List Token}
    (h : Statement.ListYields list tokens) {s : Statement} (hmem : s ∈ list) : ∃ used, s.Yields used ∧ used ⊆ tokens := by
  induction list generalizing tokens with
  | nil =>
      cases hmem
  | cons first rest ih =>
      cases h with
      | @cons _ _ ts us hfirst hrest =>
          rcases List.mem_cons.1 hmem with rfl | hmem
          · exact ⟨ts, hfirst, List.subset_append_left ts us⟩
          · rcases ih hrest hmem with ⟨used, hyields, hsub⟩
            exact ⟨used, hyields, List.subset_append_of_subset_right ts hsub⟩

theorem Argument.ListYields.exists_of_block {forms : List ArgumentForm} {arguments : List Argument} {tokens : List Token}
    (h : Argument.ListYields forms arguments tokens) {body : List Statement} (hmem : .block body ∈ arguments) :
    ∃ used, Statement.ListYields body used ∧ used ⊆ tokens := by
  induction arguments generalizing forms tokens with
  | nil =>
      cases hmem
  | cons a rest ih =>
      cases h with
      | @cons form forms _ _ ts us ha hrest =>
          rcases List.mem_cons.1 hmem with rfl | hmem
          · cases ha with
            | @block _ inner first last hbody =>
                refine ⟨inner, hbody, fun token htoken => ?_⟩
                simp [htoken]
          · rcases ih hrest hmem with ⟨used, hyields, hsub⟩
            exact ⟨used, hyields, List.subset_append_of_subset_right ts hsub⟩

theorem Statement.Yields.exists_of_mem_bodies {s : Statement} {tokens : List Token} (h : s.Yields tokens)
    {body : List Statement} (hmem : body ∈ s.bodies) : ∃ used, Statement.ListYields body used ∧ used ⊆ tokens := by
  cases h with
  | @definition _ _ _ vars ts pos place last hvars hlist =>
      cases List.mem_singleton.1 hmem
      refine ⟨ts, hlist, fun token htoken => ?_⟩
      simp [htoken]
  | command pos hword harguments =>
      rcases harguments.exists_of_block (Argument.mem_bodies_iff.1 hmem) with ⟨used, hyields, hsub⟩
      exact ⟨used, hyields, List.subset_cons_of_subset _ hsub⟩
  | call =>
      cases hmem

theorem Statement.ListYields.exists_of_within {list : List Statement} {tokens : List Token}
    (h : Statement.ListYields list tokens) {s : Statement} (hwithin : Within Statement.bodies s list) :
    ∃ used, s.Yields used ∧ used ⊆ tokens := by
  induction hwithin generalizing tokens with
  | here mem =>
      exact h.exists_of_mem mem
  | inside mem part _ ih =>
      -- From the list to the statement around, from there to its body, and on from the body.
      rcases h.exists_of_mem mem with ⟨outer, houter, hsub⟩
      rcases houter.exists_of_mem_bodies part with ⟨inner, hinner, hsub'⟩
      rcases ih hinner with ⟨used, hyields, hsub''⟩
      exact ⟨used, hyields, List.Subset.trans (List.Subset.trans hsub'' hsub') hsub⟩

end Surface

/-! ## Names of a program -/

namespace Program

/-- Procedures are called and defined by names in lower case. -/
structure SmallNames (p : Program) : Prop where
  called : ∀ command name, p.Holds command → command.head = .call name → name.toLower = name
  defined : ∀ d, p.Defines d → d.name.toLower = d.name

theorem smallNames_of_tree {tree : List Surface.Statement} {tokens : List Token} {p : Program}
    (hyields : Surface.Statement.ListYields tree tokens) (hsmall : ∀ token ∈ tokens, token.lexeme.IsSmall)
    (h : Command.listOfSurface tree = .ok p) : p.SmallNames where
  called command name hholds head := by
    rcases Command.exists_statement h hholds with ⟨s, hs, hbuilt⟩
    rcases (Command.built_of_ok hbuilt).exists_call head with ⟨arguments, pos, rfl, -⟩
    rcases hyields.exists_of_within hs with ⟨used, hused, hsub⟩
    -- The name of a call is its first token.
    cases hused
    exact hsmall _ (hsub List.mem_cons_self)
  defined d hdefines := by
    rcases hdefines with ⟨command, hholds, hmem⟩
    rcases Command.exists_statement h hholds with ⟨s, hs, hbuilt⟩
    rcases hyields.exists_of_within hs with ⟨used, hused, hsub⟩
    have hdefinition := ((Command.built_of_ok hbuilt).definition?_of_mem hmem).1
    cases Command.built_of_ok hbuilt with
    | definition hbody =>
        cases hdefinition
        -- The name of a definition follows the word `to`.
        cases hused
        exact hsmall _ (hsub (List.mem_cons_of_mem _ List.mem_cons_self))
    | command hoperands =>
        exact absurd hmem (Operand.definition_not_mem hoperands d)
    | call =>
        simp at hmem

theorem names_of_compile {source : String} {p : Program} (h : compile source = .ok p) : p.SmallNames := by
  simp only [compile, Surface.parse, Bind.bind, Except.bind] at h
  split at h
  · cases h
  rename_i tree htree
  split at htree
  · cases htree
  rename_i tokens hscan
  exact smallNames_of_tree (Grammar.treeRead_of_parse htree).1 (Tokens.isSmall_of_scan hscan) h

theorem SmallNames.name_eq {p : Program} (hp : p.SmallNames) {d : Definition} (hd : p.Defines d) {command : Command}
    {name : String} (hholds : p.Holds command) (head : command.head = .call name) {arity : Nat}
    (h : d.signature = Signature.of name arity) : d.name = name :=
  calc d.name
      = d.name.toLower := (hp.defined d hd).symm
    _ = name.toLower := congrArg Signature.name h
    _ = name := hp.called command name hholds head

end Program
end TurtleLogo
