import TurtleLogo.Proofs.Building
import TurtleLogo.Proofs.LetterCase
import TurtleLogo.Proofs.Numerals

/-!
# What compiled programs are made of

The words of a program come from the tokens of a text, and tokens have no blanks, brackets or parentheses in them. `Legible`
collects what is known of a program that was compiled: its variables and names are such words, procedures have no name that
is taken, literals are numbers without a sign, and commands have operands of the forms that they demand.

* `Lexeme.spelled_of_next`: what scanning promises of a token;
* `Program.legible_of_compile`: compiled programs are legible.
-/

namespace TurtleLogo

/-! ## Words -/

/-- A text without blanks, brackets and parentheses. -/
def IsWord (text : String) : Prop :=
  ∀ c ∈ text.toList, isWordChar c = true

theorem isWordChar_of_isAlphanum {c : Char} (h : c.isAlphanum = true) : isWordChar c = true := by
  have hne {d : Char} (hd : d.isAlphanum = false) : c ≠ d := by
    rintro rfl
    exact Bool.false_ne_true (hd.symm.trans h)
  simp [isWordChar, isBlank, hne (d := ' ') rfl, hne (d := '\t') rfl, hne (d := '\r') rfl, hne (d := '\n') rfl,
    hne (d := '[') rfl, hne (d := ']') rfl, hne (d := '(') rfl, hne (d := ')') rfl]

theorem isWordChar_of_isNameChar {c : Char} (h : isNameChar c = true) : isWordChar c = true := by
  simp only [isNameChar, Bool.or_eq_true, decide_eq_true_eq] at h
  rcases h with ((h | rfl) | rfl) | rfl
  · exact isWordChar_of_isAlphanum h
  all_goals rfl

theorem isWord_toLower {text : List Char} (h : ∀ c ∈ text, isWordChar c = true) :
    IsWord (String.ofList text).toLower := by
  intro c hc
  rw [← ofList_map_toLower, String.toList_ofList] at hc
  rcases List.mem_map.1 hc with ⟨d, hd, rfl⟩
  rw [isWordChar_toLower]
  exact h d hd

/-- A name that a procedure can have as far as scanning knows. -/
structure IsName (name : String) : Prop where
  isWord : IsWord name
  ne_empty : name ≠ ""
  ne_to : name ≠ "to"
  ne_end : name ≠ "end"

theorem IsName.toList_ne_nil {name : String} (h : IsName name) : name.toList ≠ [] := by
  simpa using h.ne_empty

namespace Lexeme

/-- What is known of the text of a token. -/
def Spelled : Lexeme → Prop
  | word text => IsWord text
  | var name => IsWord name
  | ident name => IsName name
  | _ => True

theorem spelled_ofName {name : String} (hword : IsWord name) (hne : name ≠ "") : (ofName name).Spelled := by
  unfold ofName
  split
  · trivial
  split
  · trivial
  split
  · trivial
  · exact ⟨hword, hne, ‹_›, ‹_›⟩

theorem spelled_minus (previous : Option Char) (rest : List Char) : (Segment.minus previous rest).Spelled := by
  unfold Segment.minus
  repeat' split
  all_goals trivial

theorem spelled_sign {c : Char} {sign : Lexeme} (h : signs.lookup c = some sign) : sign.Spelled := by
  have hsigns : ∀ entry ∈ signs, entry.2.Spelled := by
    simp [signs, Spelled]
  rcases List.lookup_eq_some_iff.1 h with ⟨before, after, hsplit, -⟩
  exact hsigns (c, sign) (by simp [hsplit])

theorem spelled_of_next {previous : Option Char} {c : Char} {rest : List Char} {l : Lexeme} {text : List Char}
    (h : Segment.next previous c rest = .lexeme l text) : l.Spelled := by
  have hword : ∀ d ∈ rest.takeWhile isWordChar, isWordChar d = true := fun d hd => List.mem_takeWhile_imp hd
  have hname : ∀ d ∈ rest.takeWhile isNameChar, isWordChar d = true :=
    fun d hd => isWordChar_of_isNameChar (List.mem_takeWhile_imp hd)
  unfold Segment.next at h
  repeat' split at h
  all_goals cases h
  -- Signs of one or two characters and numbers promise nothing; the others are met in the order of the definition.
  all_goals try trivial
  · exact spelled_minus _ _
  · intro d hd
    rw [String.toList_ofList] at hd
    exact hword d hd
  · exact isWord_toLower hname
  · rename_i hstart
    have hfirst : isWordChar c = true := by
      simp only [Bool.or_eq_true, decide_eq_true_eq] at hstart
      rcases hstart with halpha | rfl
      · exact isWordChar_of_isAlphanum (by simp [Char.isAlphanum, halpha])
      · rfl
    refine spelled_ofName (isWord_toLower (List.forall_mem_cons.2 ⟨hfirst, hname⟩)) ?_
    rw [← ofList_map_toLower]
    simp
  · exact spelled_sign ‹_›

end Lexeme

/-- The tokens of a text, or some of them. -/
def Spelled (tokens : List Token) : Prop :=
  ∀ token ∈ tokens, token.lexeme.Spelled

theorem spelled_of_scan {source : String} {tokens : Tokens} (h : Tokens.scan source = .ok tokens) : Spelled tokens.list :=
  Tokens.forall_of_scan Lexeme.spelled_of_next h

theorem spelled_cons {token : Token} {tokens : List Token} :
    Spelled (token :: tokens) ↔ token.lexeme.Spelled ∧ Spelled tokens :=
  List.forall_mem_cons

theorem spelled_append {first second : List Token} : Spelled (first ++ second) ↔ Spelled first ∧ Spelled second :=
  List.forall_mem_append

/-! ## Legible programs -/

mutual

/-- Literals are numbers without a sign, and variables are words. -/
inductive Expression.Legible : Expression → Prop where
  | number (bits : Nat) : Legible (.number (Number.ofMagnitudeBits bits))
  | var {name : String} (h : IsWord name) : Legible (.var name)
  | apply (op : Operator) {operands : List Expression} (h : Expression.ListLegible operands) :
      Legible (.apply op operands)

inductive Expression.ListLegible : List Expression → Prop where
  | nil : ListLegible []
  | cons {e : Expression} {rest : List Expression} (h : e.Legible) (hrest : Expression.ListLegible rest) :
      ListLegible (e :: rest)

end

inductive ColourExpression.Legible : ColourExpression → Prop where
  | palette {index : Expression} (h : index.Legible) : Legible (.palette index)
  | rgb {red green blue : Expression} (hred : red.Legible) (hgreen : green.Legible) (hblue : blue.Legible) :
      Legible (.rgb red green blue)
  | literal (colour : Colour) : Legible (.literal colour)

mutual

/-- A definition, a command with the operands that it demands, or a call by a name that is not taken. -/
inductive Command.Legible : Command → Prop where
  | definition {name : String} {params : List String} {body : List Command} (pos : Position) (hname : IsWord name)
      (hparams : ∀ param ∈ params, IsWord param) (h : Command.ListLegible body) :
      Command.Legible ⟨.builtin .define, [.definition ⟨name, params, body⟩], pos⟩
  | command {b : Builtin} {operands : List Operand} (pos : Position) (hb : b ≠ .define)
      (h : Operand.ListLegible b.signature operands) : Command.Legible ⟨.builtin b, operands, pos⟩
  | call {name : String} {values : List Expression} (pos : Position) (hname : IsName name)
      (hfree : Grammar.isReserved name = false) (h : Expression.ListLegible values) :
      Command.Legible ⟨.call name, values.map .value, pos⟩

inductive Command.ListLegible : List Command → Prop where
  | nil : Command.ListLegible []
  | cons {c : Command} {rest : List Command} (h : c.Legible) (hrest : Command.ListLegible rest) :
      Command.ListLegible (c :: rest)

/-- An operand in the place of an argument of the given form. -/
inductive Operand.Legible : ArgumentForm → Operand → Prop where
  | value {e : Expression} (h : e.Legible) : Operand.Legible .value (.value e)
  | condition {e : Expression} (h : e.Legible) : Operand.Legible .condition (.value e)
  | block {body : List Command} (h : Command.ListLegible body) : Operand.Legible .block (.block body)
  | point {x y : Expression} (hx : x.Legible) (hy : y.Legible) : Operand.Legible .point (.point x y)
  | colour {c : ColourExpression} (h : c.Legible) : Operand.Legible .colour (.colour c)
  | word {name : String} (h : IsWord name) : Operand.Legible .word (.name name)

inductive Operand.ListLegible : List ArgumentForm → List Operand → Prop where
  | nil : Operand.ListLegible [] []
  | cons {form : ArgumentForm} {forms : List ArgumentForm} {o : Operand} {rest : List Operand} (h : o.Legible form)
      (hrest : Operand.ListLegible forms rest) : Operand.ListLegible (form :: forms) (o :: rest)

end

/-! ## Building -/

/-- Reading a number text never yields a sign. -/
theorem Number.exists_bits_of_read? {text : List Char} {value : Float32} (h : read? text = some value) :
    ∃ bits, value = ofMagnitudeBits bits := by
  simp only [read?] at h
  repeat' split at h
  all_goals cases h
  all_goals exact ⟨_, rfl⟩

theorem Expression.legible_of_numberLiteral {text : String} {pos : Position} {value : Float32}
    (h : numberLiteral text pos = .ok value) : (Expression.number value).Legible := by
  unfold numberLiteral at h
  cases hread : Number.read? text.toList with
  | none =>
      simp [hread] at h
  | some found =>
      simp only [hread, Except.ok.injEq] at h
      subst h
      rcases Number.exists_bits_of_read? hread with ⟨bits, rfl⟩
      exact .number bits

theorem IsWord.toLower {text : String} (h : IsWord text) : IsWord text.toLower := by
  have hlower : IsWord (String.ofList text.toList).toLower := isWord_toLower h
  rwa [String.ofList_toList] at hlower

namespace Surface

mutual

theorem Expr.Yields.legible {e : Expr} {tokens : List Token} {built : Expression} :
    e.Yields tokens → Spelled tokens → Expression.ofSurface e = .ok built → built.Legible
  | .number text pos, _, hbuilt => by
      rcases Checked.ok_of_map hbuilt with ⟨value, hvalue, rfl⟩
      exact Expression.legible_of_numberLiteral hvalue
  | .var name pos, hspelled, hbuilt => by
      cases hbuilt
      exact .var (spelled_cons.1 hspelled).1
  | .thing word pos place, hspelled, hbuilt => by
      cases hbuilt
      have hword : IsWord word := (spelled_cons.1 (spelled_cons.1 hspelled).2).1
      exact .var hword.toLower
  | .binary place hleft hright, hspelled, hbuilt => by
      rw [Expression.ofSurface] at hbuilt
      rcases Checked.ok_of_map₂ hbuilt with ⟨l, r, hl, hr, rfl⟩
      rcases spelled_append.1 hspelled with ⟨hfirst, hsecond⟩
      have hr := hright.legible (spelled_cons.1 hsecond).2 hr
      exact .apply _ (.cons (hleft.legible hfirst hl) (.cons hr .nil))
  | .negate pos hsign h, hspelled, hbuilt => by
      rw [Expression.ofSurface] at hbuilt
      rcases Checked.ok_of_map hbuilt with ⟨e, he, rfl⟩
      exact .apply _ (.cons (h.legible (spelled_cons.1 hspelled).2 he) .nil)
  | .bare pos hword hcount h, hspelled, hbuilt => by
      rw [Expression.ofSurface] at hbuilt
      rcases Checked.ok_of_map hbuilt with ⟨operands, hoperands, rfl⟩
      exact .apply _ (h.legible (spelled_cons.1 hspelled).2 hoperands)
  | .parenthesised pos place last hword h, hspelled, hbuilt => by
      rw [Expression.ofSurface] at hbuilt
      rcases Checked.ok_of_map hbuilt with ⟨operands, hoperands, rfl⟩
      have hinside := (spelled_cons.1 (spelled_cons.1 hspelled).2).2
      exact .apply _ (h.legible (spelled_append.1 hinside).1 hoperands)
  | .group pos last h, hspelled, hbuilt => by
      rw [Expression.ofSurface] at hbuilt
      exact h.legible (spelled_append.1 (spelled_cons.1 hspelled).2).1 hbuilt

theorem Expr.ListYields.legible {list : List Expr} {tokens : List Token} {built : List Expression} :
    Expr.ListYields list tokens → Spelled tokens → Expression.listOfSurface list = .ok built →
      Expression.ListLegible built
  | .nil, _, hbuilt => by
      cases hbuilt
      exact .nil
  | .cons h hrest, hspelled, hbuilt => by
      rw [Expression.listOfSurface] at hbuilt
      rcases Checked.ok_of_map₂ hbuilt with ⟨e, rest, he, hlist, rfl⟩
      rcases spelled_append.1 hspelled with ⟨hfirst, hsecond⟩
      exact .cons (h.legible hfirst he) (hrest.legible hsecond hlist)

end

theorem ColourArgument.Yields.legible {c : ColourArgument} {tokens : List Token} {built : ColourExpression}
    (h : c.Yields tokens) (hspelled : Spelled tokens) (hbuilt : ColourExpression.ofSurface c = .ok built) :
    built.Legible := by
  cases h with
  | word text pos =>
      rw [ColourExpression.ofSurface] at hbuilt
      split at hbuilt
      · cases hbuilt
        exact .literal _
      · cases hbuilt
  | rgb first last hred hgreen hblue =>
      rw [ColourExpression.ofSurface] at hbuilt
      rcases Checked.ok_of_map₂ hbuilt with ⟨f, blue, hf, hb, rfl⟩
      rcases Checked.ok_of_map₂ hf with ⟨red, green, hr, hg, rfl⟩
      simp only [spelled_cons, spelled_append] at hspelled
      rcases hspelled with ⟨-, hts, hus, hvs, -⟩
      exact .rgb (hred.legible hts hr) (hgreen.legible hus hg) (hblue.legible hvs hb)
  | index h =>
      rw [ColourExpression.ofSurface] at hbuilt
      rcases Checked.ok_of_map hbuilt with ⟨index, hindex, rfl⟩
      exact .palette (h.legible hspelled hindex)

section

variable {headers : List (String × Nat)}

mutual

theorem Statement.Yields.legible {s : Statement} {tokens : List Token} {built : Command} :
    s.Yields tokens → s.TopWellFormed headers → Spelled tokens → Command.ofSurface s = .ok built → built.Legible
  | .definition pos place last hvars h, hformed, hspelled, hbuilt => by
      rw [Command.ofSurface] at hbuilt
      rcases Checked.ok_of_map hbuilt with ⟨body, hbody, rfl⟩
      simp only [spelled_cons, spelled_append] at hspelled
      rcases hspelled with ⟨-, hname, hparams, hinside, -⟩
      -- Each parameter is the name of one of the variables after the name of the procedure.
      refine .definition pos (IsName.isWord hname) ?_ (h.legible hformed.2 hinside hbody)
      intro param hmem
      have hlexeme : Lexeme.var param ∈ _ := hvars ▸ List.mem_map_of_mem hmem
      rcases List.mem_map.1 hlexeme with ⟨token, htoken, hvar⟩
      have hparam := hparams token htoken
      rwa [hvar] at hparam
  | .command pos hword h, hformed, hspelled, hbuilt => by
      rw [Command.ofSurface] at hbuilt
      rcases Checked.ok_of_map hbuilt with ⟨operands, hoperands, rfl⟩
      rcases spelled_cons.1 hspelled with ⟨hname, hinside⟩
      -- The word `to` is a keyword, and no other word stands for a definition.
      have hdefine := Grammar.ne_define_of_ofWord? hword (IsName.ne_to hname)
      exact .command pos hdefine (h.legible hformed hinside hoperands)
  | .call pos h, hformed, hspelled, hbuilt => by
      rw [Command.ofSurface] at hbuilt
      rcases Checked.ok_of_map hbuilt with ⟨values, hvalues, rfl⟩
      rcases spelled_cons.1 hspelled with ⟨hname, hinside⟩
      exact .call pos hname hformed.1 (h.legible hinside hvalues)

theorem Statement.ListYields.legible {list : List Statement} {tokens : List Token} {built : List Command} :
    Statement.ListYields list tokens → Statement.ListWellFormed headers list → Spelled tokens →
      Command.listOfSurface list = .ok built → Command.ListLegible built
  | .nil, _, _, hbuilt => by
      rw [Command.listOfSurface] at hbuilt
      cases hbuilt
      exact .nil
  | .cons h hrest, hformed, hspelled, hbuilt => by
      rw [Command.listOfSurface] at hbuilt
      rcases Checked.ok_of_map₂ hbuilt with ⟨c, rest, hc, hlist, rfl⟩
      rcases spelled_append.1 hspelled with ⟨hfirst, hsecond⟩
      exact .cons (h.legible hformed.1.top hfirst hc) (hrest.legible hformed.2 hsecond hlist)

theorem Argument.Yields.legible {form : ArgumentForm} {a : Argument} {tokens : List Token} {built : Operand} :
    a.Yields form tokens → a.WellFormed headers form → Spelled tokens → Operand.ofSurface a = .ok built →
      built.Legible form
  | .value h, _, hspelled, hbuilt => by
      rw [Operand.ofSurface] at hbuilt
      rcases Checked.ok_of_map hbuilt with ⟨e, he, rfl⟩
      exact .value (h.legible hspelled he)
  | .condition h, _, hspelled, hbuilt => by
      rw [Operand.ofSurface] at hbuilt
      rcases Checked.ok_of_map hbuilt with ⟨e, he, rfl⟩
      exact .condition (h.legible hspelled he)
  | .bracketed first last h, _, hspelled, hbuilt => by
      rw [Operand.ofSurface] at hbuilt
      rcases Checked.ok_of_map hbuilt with ⟨e, he, rfl⟩
      exact .condition (h.legible (spelled_append.1 (spelled_cons.1 hspelled).2).1 he)
  | .block first last h, hformed, hspelled, hbuilt => by
      rw [Operand.ofSurface] at hbuilt
      rcases Checked.ok_of_map hbuilt with ⟨body, hbody, rfl⟩
      exact .block (h.legible hformed (spelled_append.1 (spelled_cons.1 hspelled).2).1 hbody)
  | .point first last hx hy, _, hspelled, hbuilt => by
      rw [Operand.ofSurface] at hbuilt
      rcases Checked.ok_of_map₂ hbuilt with ⟨x, y, hx', hy', rfl⟩
      simp only [spelled_cons, spelled_append] at hspelled
      rcases hspelled with ⟨-, hts, hus, -⟩
      exact .point (hx.legible hts hx') (hy.legible hus hy')
  | .colour h, _, hspelled, hbuilt => by
      rw [Operand.ofSurface] at hbuilt
      rcases Checked.ok_of_map hbuilt with ⟨c, hc, rfl⟩
      exact .colour (h.legible hspelled hc)
  | .word text pos, _, hspelled, hbuilt => by
      rw [Operand.ofSurface] at hbuilt
      cases hbuilt
      have hword : IsWord text := (spelled_cons.1 hspelled).1
      exact .word hword.toLower

theorem Argument.ListYields.legible {forms : List ArgumentForm} {list : List Argument} {tokens : List Token}
    {built : List Operand} :
    Argument.ListYields forms list tokens → Argument.ListWellFormed headers forms list → Spelled tokens →
      Operand.listOfSurface list = .ok built → Operand.ListLegible forms built
  | .nil, _, _, hbuilt => by
      rw [Operand.listOfSurface] at hbuilt
      cases hbuilt
      exact .nil
  | .cons h hrest, hformed, hspelled, hbuilt => by
      rw [Operand.listOfSurface] at hbuilt
      rcases Checked.ok_of_map₂ hbuilt with ⟨o, rest, ho, hlist, rfl⟩
      rcases spelled_append.1 hspelled with ⟨hfirst, hsecond⟩
      exact .cons (h.legible hformed.1 hfirst ho) (hrest.legible hformed.2 hsecond hlist)

end

end

end Surface

theorem Command.listLegible_of_tree {headers : List (String × Nat)} {tree : List Surface.Statement} {tokens : List Token}
    {p : Program} (hyields : Surface.Statement.ListYields tree tokens) (hformed : ∀ s ∈ tree, s.TopWellFormed headers)
    (hspelled : Spelled tokens) (hbuilt : Command.listOfSurface tree = .ok p) : Command.ListLegible p := by
  induction tree generalizing tokens p with
  | nil =>
      rw [Command.listOfSurface] at hbuilt
      cases hbuilt
      exact .nil
  | cons s tree ih =>
      cases hyields with
      | cons h hrest =>
          rw [Command.listOfSurface] at hbuilt
          rcases Checked.ok_of_map₂ hbuilt with ⟨c, rest, hc, hlist, rfl⟩
          rcases spelled_append.1 hspelled with ⟨hfirst, hsecond⟩
          rcases List.forall_mem_cons.1 hformed with ⟨hs, htree⟩
          exact .cons (h.legible hs hfirst hc) (ih hrest htree hsecond hlist)

theorem Program.legible_of_compile {source : String} {p : Program} (h : Program.compile source = .ok p) :
    Command.ListLegible p := by
  simp only [Program.compile, Surface.parse, Bind.bind, Except.bind] at h
  split at h
  · cases h
  rename_i tree htree
  split at htree
  · cases htree
  rename_i tokens hscan
  rcases Grammar.treeRead_of_parse htree with ⟨hyields, hformed⟩
  exact Command.listLegible_of_tree hyields hformed (spelled_of_scan hscan) h

end TurtleLogo
