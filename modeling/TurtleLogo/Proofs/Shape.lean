import TurtleLogo.Program.Compile
import TurtleLogo.Proofs.Nesting
import TurtleLogo.Proofs.Reading
import TurtleLogo.Proofs.Scanning

/-!
# The shape of what the grammar accepts

Every statement of a source text, at any depth, has operands of the kinds that its word demands, and a call to a defined
procedure as many as the first header with its name has parameters. This is `Regular`, and it follows from what the
grammar reads: a well-formed tree, spelled by the tokens of the text.

The name `to` is a keyword and never an ordinary name. Token lists in which it is one do not come out of a text, and are
excluded by `Plain`.
-/

namespace TurtleLogo
namespace Grammar

open Surface

/-! ## Regular statements -/

/-- A statement with the arguments that its word demands. A definition inside another statement is never regular. -/
def Regular (env : Env) : Statement → Prop
  | .definition _ _ _ _ => False
  | .command b arguments _ => arguments.map Argument.kind = b.operandKinds
  | .call name arguments _ => ∀ count, env.paramCount? name = some count → arguments.length = count

variable {env : Env}

/-- Only the word `to` stands for a definition. -/
theorem ne_define_of_ofWord? {word : String} {b : Builtin} (h : Builtin.ofWord? word = some b) (hto : word ≠ "to") :
    b ≠ .define := by
  have hwords : ∀ entry ∈ Builtin.words, entry.2 = .define → entry.1 = "to" := by
    decide
  rcases List.lookup_eq_some_iff.1 h with ⟨before, after, hsplit, -⟩
  have hmem : (word, b) ∈ Builtin.words := by
    simp [hsplit]
  exact fun hdefine => hto (hwords _ hmem hdefine)

theorem operandKinds_of_ne_define {b : Builtin} (h : b ≠ .define) :
    b.operandKinds = b.signature.map ArgumentForm.kind := by
  cases b with
  | define => exact absurd rfl h
  | _ => rfl

/-- Well-formed arguments are of the kinds that the signature demands. -/
theorem kinds_of_wellFormed {table : List (String × Nat)} {forms : List ArgumentForm} {arguments : List Argument}
    (h : Argument.ListWellFormed table forms arguments) :
    arguments.map Argument.kind = forms.map ArgumentForm.kind := by
  induction arguments generalizing forms with
  | nil =>
      cases forms with
      | nil => rfl
      | cons => exact h.elim
  | cons a rest ih =>
      cases forms with
      | nil => exact h.elim
      | cons form forms =>
          rcases h with ⟨ha, hrest⟩
          have hkind : a.kind = form.kind := by
            cases form <;> cases a <;> first | rfl | exact ha.elim
          rw [List.map_cons, List.map_cons, hkind, ih hrest]

theorem regular_of_wellFormed {s : Statement} {used : List Token} (hyields : s.Yields used)
    (hformed : s.WellFormed env.headers) (hplain : Plain used) : Regular env s := by
  cases hyields with
  | definition =>
      exact hformed.elim
  | command pos hword =>
      have hto := hplain _ List.mem_cons_self
      have hdefine := ne_define_of_ofWord? hword (by simpa using hto)
      exact (kinds_of_wellFormed hformed).trans (operandKinds_of_ne_define hdefine).symm
  | call =>
      exact hformed.2.1

/-! ## Statements at any depth -/

/-- A list of statements that the grammar can read from some of the tokens. -/
def ReadFrom (table : List (String × Nat)) (tokens : List Token) (body : List Statement) : Prop :=
  ∃ used, Statement.ListYields body used ∧ Statement.ListWellFormed table body ∧ used ⊆ tokens

theorem exists_yields_of_mem {table : List (String × Nat)} {body : List Statement} {tokens : List Token}
    (h : ReadFrom table tokens body) {s : Statement} (hmem : s ∈ body) :
    ∃ used, s.Yields used ∧ s.WellFormed table ∧ used ⊆ tokens := by
  rcases h with ⟨used, hyields, hformed, hsub⟩
  induction body generalizing used with
  | nil =>
      cases hmem
  | cons first rest ih =>
      cases hyields with
      | @cons _ _ ts us hfirst hrest =>
          rcases List.append_subset.1 hsub with ⟨hts, hus⟩
          rcases List.mem_cons.1 hmem with rfl | hmem
          · exact ⟨ts, hfirst, hformed.1, hts⟩
          · exact ih hmem us hrest hformed.2 hus

theorem readFrom_of_block {table : List (String × Nat)} {forms : List ArgumentForm} {arguments : List Argument}
    {used : List Token} (hyields : Argument.ListYields forms arguments used)
    (hformed : Argument.ListWellFormed table forms arguments) {body : List Statement}
    (hmem : .block body ∈ arguments) : ReadFrom table used body := by
  induction arguments generalizing forms used with
  | nil =>
      cases hmem
  | cons a rest ih =>
      cases hyields with
      | @cons form forms _ _ ts us ha hrest =>
          rcases List.mem_cons.1 hmem with rfl | hmem
          · cases ha with
            | @block _ inner first last hbody =>
                refine ⟨inner, hbody, hformed.1, fun token htoken => ?_⟩
                simp [htoken]
          · rcases ih hrest hformed.2 hmem with ⟨inner, hbody, hbodyFormed, hsub⟩
            exact ⟨inner, hbody, hbodyFormed, List.subset_append_of_subset_right ts hsub⟩

theorem readFrom_of_mem_bodies {table : List (String × Nat)} {s : Statement} {used : List Token}
    (hyields : s.Yields used) (hformed : s.WellFormed table) {body : List Statement} (hmem : body ∈ s.bodies) :
    ReadFrom table used body := by
  cases hyields with
  | definition =>
      exact hformed.elim
  | command pos hword harguments =>
      have hblock := Argument.mem_bodies_iff.1 hmem
      rcases readFrom_of_block harguments hformed hblock with ⟨inner, hbody, hbodyFormed, hsub⟩
      exact ⟨inner, hbody, hbodyFormed, List.subset_cons_of_subset _ hsub⟩
  | call =>
      cases hmem

theorem regular_of_readFrom {tokens : List Token} {body : List Statement} {inner : Statement}
    (hread : ReadFrom env.headers tokens body) (hplain : Plain tokens)
    (hwithin : Within Statement.bodies inner body) : Regular env inner := by
  induction hwithin with
  | here mem =>
      rcases exists_yields_of_mem hread mem with ⟨used, hyields, hformed, hsub⟩
      exact regular_of_wellFormed hyields hformed fun token hmem => hplain token (hsub hmem)
  | inside mem part _ ih =>
      rcases exists_yields_of_mem hread mem with ⟨used, hyields, hformed, hsub⟩
      rcases readFrom_of_mem_bodies hyields hformed part with ⟨more, hbody, hbodyFormed, hmore⟩
      exact ih ⟨more, hbody, hbodyFormed, List.Subset.trans hmore hsub⟩

/-! ## Trees -/

/-- What holds of a tree that was read from a whole text. -/
structure TreeRead (env : Env) (tokens : List Token) (tree : List Statement) : Prop where
  regular : ∀ inner, Within Statement.bodies inner tree → Regular env inner ∨ inner ∈ tree ∧ (header? inner).isSome
  headers_eq : headers tokens = tree.filterMap header?

theorem TreeRead.mem_of_header {tokens : List Token} {tree : List Statement} (h : TreeRead env tokens tree)
    {s : Statement} (hs : Within Statement.bodies s tree) (hheader : (header? s).isSome) : s ∈ tree := by
  rcases h.regular s hs with hregular | ⟨hmem, -⟩
  · cases s with
    | definition => exact hregular.elim
    | _ => cases hheader
  · exact hmem

/-- Inside a statement at the top of a text, all statements are regular; itself it may be a definition. -/
theorem regular_or_definition {s inner : Statement} {used : List Token} (hyields : s.Yields used)
    (hformed : s.TopWellFormed env.headers) (hplain : Plain used) (hwithin : Within Statement.bodies inner [s]) :
    Regular env inner ∨ inner = s ∧ (header? s).isSome := by
  rcases Within.singleton_iff.1 hwithin with rfl | ⟨body, hbody, hinner⟩
  · cases inner with
    | definition => exact .inr ⟨rfl, rfl⟩
    | _ => exact .inl (regular_of_wellFormed hyields hformed hplain)
  · refine .inl (regular_of_readFrom ?_ hplain hinner)
    cases hyields with
    | @definition _ _ _ vars ts pos place last hvars hlist =>
        cases List.mem_singleton.1 hbody
        refine ⟨ts, hlist, hformed.2, fun token htoken => ?_⟩
        simp [htoken]
    | command pos hword harguments => exact readFrom_of_mem_bodies (.command pos hword harguments) hformed hbody
    | call pos harguments => exact readFrom_of_mem_bodies (.call pos harguments) hformed hbody

theorem treeRead_of_yields {tokens : List Token} {tree : List Statement} (hyields : Statement.ListYields tree tokens)
    (hformed : ∀ s ∈ tree, s.TopWellFormed env.headers) (hplain : Plain tokens) : TreeRead env tokens tree where
  headers_eq := headers_of_yields hyields hformed
  regular inner hwithin := by
    induction tree generalizing tokens with
    | nil =>
        exact absurd hwithin Within.not_nil
    | cons s tree ih =>
        rcases List.forall_mem_cons.1 hformed with ⟨hs, htree⟩
        cases hyields with
        | cons hfirst hrest =>
            rcases Within.cons_iff.1 hwithin with hwithin | hwithin
            · have hused := fun token hmem => hplain token (List.mem_append_left _ hmem)
              rcases regular_or_definition hfirst hs hused hwithin with hregular | ⟨rfl, hheader⟩
              · exact .inl hregular
              · exact .inr ⟨List.mem_cons_self, hheader⟩
            · have hleft := fun token hmem => hplain token (List.mem_append_right _ hmem)
              rcases ih hrest htree hleft hwithin with hregular | ⟨hmem, hheader⟩
              · exact .inl hregular
              · exact .inr ⟨List.mem_cons_of_mem s hmem, hheader⟩

end Grammar

/-- The tree of a text is regular, and its definitions are those that its tokens announce. -/
theorem Surface.exists_treeRead {source : String} {tree : List Statement} (h : Surface.parse source = .ok tree) :
    ∃ tokens, Grammar.TreeRead (Grammar.Env.ofTokens tokens) tokens.list tree := by
  unfold Surface.parse at h
  cases hscan : Tokens.scan source with
  | error errors =>
      simp [hscan, Bind.bind, Except.bind] at h
  | ok tokens =>
      simp only [hscan, Bind.bind, Except.bind] at h
      rcases Grammar.treeRead_of_parse h with ⟨hyields, hformed⟩
      exact ⟨tokens, Grammar.treeRead_of_yields hyields hformed (Tokens.plain_of_scan hscan)⟩

end TurtleLogo
