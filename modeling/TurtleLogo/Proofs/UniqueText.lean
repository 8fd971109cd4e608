import TurtleLogo.Proofs.ExpressionText

/-!
# The text of a program identifies it

Two compiled programs with one canonical text are the same program, but for the positions of their commands. Each part of a
program is told from any other that could stand in its place, whatever follows the two, and the parts are put together from
the leaves up:

* `ColourExpression.Legible.eq_of_append`: the first character tells the three ways to choose a colour apart;
* `Head.Legible`: a head is known by its name, which is never the `to` of a definition nor the `end` of a body;
* `Operand.Legible.told` and `Command.Legible.told`: the text of an operand in its place, and of a command, with something
  after it;
* `Program.text_identifies`: so a text has one program.
-/

namespace TurtleLogo

/-! ## Programs without positions -/

mutual

/-- The command without its positions. -/
def Command.unplaced : Command → Command
  | ⟨head, operands, _⟩ => ⟨head, Operand.listUnplaced operands, .start⟩

def Operand.unplaced : Operand → Operand
  | .value e => .value e
  | .block body => .block (Command.listUnplaced body)
  | .point x y => .point x y
  | .colour c => .colour c
  | .name name => .name name
  | .definition d => .definition d.unplaced

def Operand.listUnplaced : List Operand → List Operand
  | [] => []
  | o :: rest => o.unplaced :: Operand.listUnplaced rest

def Definition.unplaced : Definition → Definition
  | ⟨name, params, body⟩ => ⟨name, params, Command.listUnplaced body⟩

def Command.listUnplaced : List Command → List Command
  | [] => []
  | c :: rest => c.unplaced :: Command.listUnplaced rest

end

/-! ## Colours -/

theorem Colour.channelOfDigits?_channelDigits (channel : UInt8) :
    channelOfDigits? (Nat.digitChar (channel.toNat / 16)) (Nat.digitChar (channel.toNat % 16)) = some channel := by
  have hall : ∀ n < 256, channelOfDigits? (Nat.digitChar (n / 16)) (Nat.digitChar (n % 16)) = some (UInt8.ofNat n) := by
    decide +kernel
  rw [hall channel.toNat channel.toNat_lt, UInt8.ofNat_toNat]

theorem Colour.ofHex?_hex (c : Colour) : ofHex? c.hex = some c := by
  simp [ofHex?, hex, channelDigits, channelOfDigits?_channelDigits]

theorem Colour.eq_of_hex_append {c c' : Colour} {r r' : List Char} (h : c.hex.toList ++ r = c'.hex.toList ++ r') :
    c = c' ∧ r = r' := by
  have hlength (colour : Colour) : colour.hex.toList.length = 7 := by
    simp [hex, channelDigits]
  rcases List.append_inj h ((hlength c).trans (hlength c').symm) with ⟨hhex, hrest⟩
  have hread := ofHex?_hex c
  rw [String.toList_inj.1 hhex, ofHex?_hex] at hread
  exact ⟨(Option.some.inj hread).symm, hrest⟩

namespace ColourExpression

theorem toList_text_palette (index : Expression) :
    (palette index).text.toList = '(' :: ("palette (".toList ++ (index.text.toList ++ [')', ')'])) := by
  change ("(palette (" ++ index.text ++ "))").toList = _
  simp

theorem toList_text_rgb (red green blue : Expression) :
    (rgb red green blue).text.toList =
      '[' :: (red.text.toList ++ ' ' :: (green.text.toList ++ ' ' :: (blue.text.toList ++ [']']))) := by
  change ("[" ++ red.text ++ " " ++ green.text ++ " " ++ blue.text ++ "]").toList = _
  simp

/-- The character that a colour begins with. -/
def mark : ColourExpression → Char
  | .palette _ => '('
  | .rgb _ _ _ => '['
  | .literal _ => '#'

theorem exists_text_eq (c : ColourExpression) : ∃ rest, c.text.toList = c.mark :: rest := by
  cases c with
  | palette index => exact ⟨_, toList_text_palette index⟩
  | rgb red green blue => exact ⟨_, toList_text_rgb red green blue⟩
  | literal colour => exact ⟨_, String.toList_ofList⟩

theorem Legible.eq_of_append {a b : ColourExpression} (ha : a.Legible) (hb : b.Legible) {r r' : List Char}
    (h : a.text.toList ++ r = b.text.toList ++ r') : a = b ∧ r = r' := by
  -- The first character tells a palette index, intensities and a literal apart.
  have hmark : a.mark = b.mark := by
    rcases a.exists_text_eq with ⟨rest, hrest⟩
    rcases b.exists_text_eq with ⟨rest', hrest'⟩
    rw [hrest, hrest'] at h
    exact (List.cons.inj h).1
  cases ha with
  | palette hindex =>
      cases hb with
      | palette hindex' =>
          rw [toList_text_palette, toList_text_palette] at h
          simp only [List.cons_append, List.append_assoc, List.nil_append, List.cons.injEq, true_and] at h
          rcases hindex.eq_of_append hindex' rfl (List.append_cancel_left h) with ⟨rfl, hrest⟩
          exact ⟨rfl, (List.cons.inj hrest).2⟩
      | rgb | literal => cases hmark
  | rgb hred hgreen hblue =>
      cases hb with
      | rgb hred' hgreen' hblue' =>
          rw [toList_text_rgb, toList_text_rgb] at h
          simp only [List.cons_append, List.append_assoc, List.nil_append, List.cons.injEq, true_and] at h
          rcases hred.eq_of_append hred' rfl h with ⟨rfl, hafterRed⟩
          rcases hgreen.eq_of_append hgreen' rfl hafterRed with ⟨rfl, hafterGreen⟩
          rcases hblue.eq_of_append hblue' rfl hafterGreen with ⟨rfl, hrest⟩
          exact ⟨rfl, hrest⟩
      | palette | literal => cases hmark
  | literal colour =>
      cases hb with
      | literal colour' =>
          rcases Colour.eq_of_hex_append h with ⟨rfl, hrest⟩
          exact ⟨rfl, hrest⟩
      | palette | rgb => cases hmark

end ColourExpression

/-! ## Operands -/

namespace Operand

theorem toList_listText_cons (first : Operand) (rest : List Operand) :
    (listText (first :: rest)).toList = ' ' :: '(' :: (first.text.toList ++ ')' :: (listText rest).toList) := by
  change (" (" ++ first.text ++ ")" ++ listText rest).toList = _
  simp

theorem bounded_listText_append (list : List Operand) (r : List Char) : Bounded ((listText list).toList ++ ')' :: r) := by
  cases list with
  | nil => exact .cons rfl r
  | cons first rest =>
      rw [toList_listText_cons]
      exact .cons rfl _

theorem listText_map_value (values : List Expression) : listText (values.map .value) = Expression.listText values := by
  induction values with
  | nil => rfl
  | cons e values ih => exact congrArg (" (" ++ e.text ++ ")" ++ ·) ih

/-- The text of the operand up to its closing parenthesis is that of no other operand in its place. -/
def Told (form : ArgumentForm) (a : Operand) : Prop :=
  ∀ ⦃b : Operand⦄ ⦃r r' : List Char⦄, b.Legible form →
    a.text.toList ++ ')' :: r = b.text.toList ++ ')' :: r' → a.unplaced = b.unplaced ∧ r = r'

/-- The texts of the operands are those of no other operands that a head takes. -/
def ListTold (taken : List Operand → Prop) (as : List Operand) : Prop :=
  ∀ ⦃bs : List Operand⦄ ⦃r r' : List Char⦄, taken bs →
    (listText as).toList ++ ')' :: r = (listText bs).toList ++ ')' :: r' →
      listUnplaced as = listUnplaced bs ∧ r = r'

theorem eq_of_value_append {a b : Expression} (ha : a.Legible) (hb : b.Legible) {r r' : List Char}
    (h : (value a).text.toList ++ ')' :: r = (value b).text.toList ++ ')' :: r') :
    (value a).unplaced = (value b).unplaced ∧ r = r' := by
  rcases ha.eq_of_append hb rfl h with ⟨rfl, hrest⟩
  exact ⟨rfl, hrest⟩

theorem told_value {e : Expression} (he : e.Legible) : Told .value (value e) := by
  intro b r r' hb h
  cases hb with
  | value hb => exact eq_of_value_append he hb h

theorem told_condition {e : Expression} (he : e.Legible) : Told .condition (value e) := by
  intro b r r' hb h
  cases hb with
  | condition hb => exact eq_of_value_append he hb h

theorem toList_text_point (x y : Expression) :
    (point x y).text.toList = '[' :: (x.text.toList ++ ' ' :: (y.text.toList ++ [']'])) := by
  change ("[" ++ x.text ++ " " ++ y.text ++ "]").toList = _
  simp

theorem told_point {x y : Expression} (hx : x.Legible) (hy : y.Legible) : Told .point (point x y) := by
  intro b r r' hb h
  cases hb with
  | @point x' y' hx' hy' =>
      rw [toList_text_point, toList_text_point] at h
      simp only [List.cons_append, List.append_assoc, List.nil_append, List.cons.injEq, true_and] at h
      rcases hx.eq_of_append hx' rfl h with ⟨rfl, hafterX⟩
      rcases hy.eq_of_append hy' rfl hafterX with ⟨rfl, hrest⟩
      exact ⟨rfl, (List.cons.inj hrest).2⟩

theorem told_colour {c : ColourExpression} (hc : c.Legible) : Told .colour (colour c) := by
  intro b r r' hb h
  cases hb with
  | colour hb =>
      rcases hc.eq_of_append hb h with ⟨rfl, hrest⟩
      exact ⟨rfl, (List.cons.inj hrest).2⟩

theorem toList_text_name (word : String) : (name word).text.toList = '"' :: word.toList := by
  change ("\"" ++ word).toList = _
  simp

theorem told_name {word : String} (hword : IsWord word) : Told .word (name word) := by
  intro b r r' hb h
  cases hb with
  | @word word' hword' =>
      rw [toList_text_name, toList_text_name] at h
      rcases eq_of_word_append hword hword' (.cons rfl r) (.cons rfl r') (List.cons.inj h).2 with ⟨hsame, hrest⟩
      rw [String.toList_inj.1 hsame]
      exact ⟨rfl, (List.cons.inj hrest).2⟩

theorem listTold_nil : ListTold (ListLegible []) [] := by
  intro bs r r' hbs h
  cases hbs
  exact ⟨rfl, by simpa using h⟩

theorem listTold_cons {form : ArgumentForm} {forms : List ArgumentForm} {first : Operand} {rest : List Operand}
    (hfirst : Told form first) (hrest : ListTold (ListLegible forms) rest) :
    ListTold (ListLegible (form :: forms)) (first :: rest) := by
  intro bs r r' hbs h
  cases hbs with
  | cons hb hbs =>
      rw [toList_listText_cons, toList_listText_cons] at h
      simp only [List.cons_append, List.append_assoc, List.cons.injEq, true_and] at h
      rcases hfirst hb h with ⟨hsame, hmore⟩
      rcases hrest hbs hmore with ⟨hlist, hr⟩
      exact ⟨congrArg₂ List.cons hsame hlist, hr⟩

theorem ListLegible.ne_definition {forms : List ArgumentForm} {operands : List Operand} (h : ListLegible forms operands)
    (d : Definition) : operands ≠ [.definition d] := by
  rintro rfl
  cases h with
  | cons hoperand _ => cases hoperand

end Operand

/-! ## Heads -/

namespace Head

/-- The head that a word stands for. -/
def ofName (name : String) : Head :=
  match Builtin.ofWord? name with
  | some b => .builtin b
  | none => .call name

/-- A head that is known by its name, which is a word and neither `to` nor `end`. -/
structure Legible (head : Head) : Prop where
  isName : IsName head.name
  ofName_eq : ofName head.name = head

theorem legible_builtin {b : Builtin} (hb : b ≠ .define) : Legible (.builtin b) := by
  have hword : IsWord b.name := by
    cases b <;> exact List.all_eq_true.1 rfl
  have hname := b.ofWord?_name
  have hne : b.name ≠ "" ∧ b.name ≠ "end" := by
    cases b <;> decide
  refine ⟨⟨hword, hne.1, fun hto => hb ?_, hne.2⟩, ?_⟩
  · rw [show b.name = "to" from hto] at hname
    exact (Option.some.inj hname).symm
  · rw [ofName, name, hname]

theorem legible_call {name : String} (hname : IsName name) (hfree : Grammar.isReserved name = false) :
    Legible (.call name) := by
  refine ⟨hname, ?_⟩
  simp only [Grammar.isReserved, Bool.or_eq_false_iff, Option.isSome_eq_false_iff, Option.isNone_iff_eq_none] at hfree
  rw [Head.name, ofName, hfree.1]

theorem Legible.eq_of_name {head head' : Head} (h : head.Legible) (h' : head'.Legible)
    (hname : head.name.toList = head'.name.toList) : head = head' := by
  rw [← h.ofName_eq, String.toList_inj.1 hname, h'.ofName_eq]

/-- The operands that a head takes in a program. -/
def Takes : Head → List Operand → Prop
  | .builtin b, operands => Operand.ListLegible b.signature operands
  | .call _, operands => ∃ values, Expression.ListLegible values ∧ operands = values.map .value

theorem Takes.ne_definition {head : Head} {operands : List Operand} (h : head.Takes operands) (d : Definition) :
    operands ≠ [.definition d] := by
  cases head with
  | builtin b =>
      exact Operand.ListLegible.ne_definition h d
  | call name =>
      rcases h with ⟨values, -, rfl⟩
      cases values <;> simp

end Head

/-! ## Commands -/

namespace Command

theorem text_eq {head : Head} {operands : List Operand} (hdefinition : ∀ d, operands ≠ [.definition d]) (pos : Position) :
    (⟨head, operands, pos⟩ : Command).text =
      if operands.isEmpty then head.name else "(" ++ head.name ++ Operand.listText operands ++ ")" := by
  rw [text]
  exact hdefinition

theorem toList_text_nil (head : Head) (pos : Position) :
    (⟨head, [], pos⟩ : Command).text.toList = head.name.toList := by
  rw [text_eq (by simp)]
  rfl

theorem toList_text_cons {head : Head} {first : Operand} {rest : List Operand} (h : head.Takes (first :: rest))
    (pos : Position) :
    (⟨head, first :: rest, pos⟩ : Command).text.toList =
      '(' :: (head.name.toList ++ ((Operand.listText (first :: rest)).toList ++ [')'])) := by
  rw [text_eq h.ne_definition, if_neg (by simp)]
  simp

/-- The text of parameters. -/
def paramsText (params : List String) : List Char :=
  params.flatMap fun p => ' ' :: ':' :: p.toList

theorem toList_text_definition (name : String) (params : List String) (body : List Command) (pos : Position) :
    (⟨.builtin .define, [.definition ⟨name, params, body⟩], pos⟩ : Command).text.toList =
      ['t', 'o'] ++ ' ' :: (name.toList ++ (paramsText params ++
        '\n' :: ((closedLines body).toList ++ ['e', 'n', 'd']))) := by
  have hparams : (String.join (params.map fun p => " :" ++ p)).toList = paramsText params := by
    simp [paramsText, String.toList_join, List.flatMap_map]
  change ("to " ++ name ++ String.join (params.map fun p => " :" ++ p) ++ "\n" ++ closedLines body ++ "end").toList = _
  simp [hparams]

/-- A legible command is a definition, or a head with operands that it takes. -/
theorem Legible.definition_or_takes {c : Command} (h : c.Legible) :
    (∃ name params body pos, IsWord name ∧ (∀ param ∈ params, IsWord param) ∧ ListLegible body ∧
      c = ⟨.builtin .define, [.definition ⟨name, params, body⟩], pos⟩) ∨
      ∃ head operands pos, head.Legible ∧ head.Takes operands ∧ c = ⟨head, operands, pos⟩ := by
  cases h with
  | definition pos hname hparams hbody => exact .inl ⟨_, _, _, pos, hname, hparams, hbody, rfl⟩
  | command pos hb h => exact .inr ⟨_, _, pos, Head.legible_builtin hb, h, rfl⟩
  | call pos hname hfree h => exact .inr ⟨_, _, pos, Head.legible_call hname hfree, ⟨_, h, rfl⟩, rfl⟩

/-- The text of the command, whatever follows it, is the text of no other command. -/
def Told (a : Command) : Prop :=
  ∀ ⦃b : Command⦄ ⦃r r' : List Char⦄, b.Legible → Bounded r → Bounded r' →
    a.text.toList ++ r = b.text.toList ++ r' → a.unplaced = b.unplaced ∧ r = r'

/-- Only a definition begins with the word `to`. -/
theorem definition_ne_of_takes {name : String} {params : List String} {body : List Command} {pos pos' : Position}
    {head : Head} {operands : List Operand} (hhead : head.Legible) (htakes : head.Takes operands) {r r' : List Char}
    (hr' : Bounded r') :
    (⟨.builtin .define, [.definition ⟨name, params, body⟩], pos⟩ : Command).text.toList ++ r ≠
      (⟨head, operands, pos'⟩ : Command).text.toList ++ r' := by
  rw [toList_text_definition]
  cases operands with
  | nil =>
      rw [toList_text_nil, List.append_assoc, List.cons_append]
      intro h
      have hto : ∀ c ∈ ['t', 'o'], isWordChar c = true := List.all_eq_true.1 rfl
      have hname := (eq_of_word_append hto hhead.isName.isWord (.cons rfl _) hr' h).1
      exact hhead.isName.ne_to (String.toList_inj.1 hname.symm)
  | cons first rest =>
      rw [toList_text_cons htakes]
      intro h
      cases (List.cons.inj h).1

theorem told_of_takes {head : Head} {operands : List Operand} (hhead : head.Legible) (htakes : head.Takes operands)
    (htold : Operand.ListTold head.Takes operands) (pos : Position) : Told ⟨head, operands, pos⟩ := by
  intro b r r' hb hr hr' h
  rcases hb.definition_or_takes with ⟨_, _, _, _, -, -, -, rfl⟩ | ⟨head', operands', pos', hhead', htakes', rfl⟩
  · exact absurd h.symm (definition_ne_of_takes hhead htakes hr)
  cases operands with
  | nil =>
      rw [toList_text_nil] at h
      cases operands' with
      | nil =>
          rw [toList_text_nil] at h
          rcases eq_of_word_append hhead.isName.isWord hhead'.isName.isWord hr hr' h with ⟨hname, hrest⟩
          cases hhead.eq_of_name hhead' hname
          exact ⟨rfl, hrest⟩
      | cons first' rest' =>
          rw [toList_text_cons htakes'] at h
          exact absurd h (word_append_ne_cons hhead.isName.toList_ne_nil hhead.isName.isWord rfl)
  | cons first rest =>
      rw [toList_text_cons htakes] at h
      cases operands' with
      | nil =>
          rw [toList_text_nil] at h
          exact absurd h.symm (word_append_ne_cons hhead'.isName.toList_ne_nil hhead'.isName.isWord rfl)
      | cons first' rest' =>
          rw [toList_text_cons htakes'] at h
          simp only [List.cons_append, List.append_assoc, List.nil_append, List.cons.injEq, true_and] at h
          -- The names are equal, so that both commands take operands of the same forms.
          rcases eq_of_word_append hhead.isName.isWord hhead'.isName.isWord (Operand.bounded_listText_append _ _)
            (Operand.bounded_listText_append _ _) h with ⟨hname, hoperands⟩
          cases hhead.eq_of_name hhead' hname
          rcases htold htakes' hoperands with ⟨hsame, hrest⟩
          exact ⟨congrArg (Command.mk head · .start) hsame, hrest⟩

/-! ## Definitions -/

theorem bounded_paramsText_append (params : List String) (r : List Char) : Bounded (paramsText params ++ '\n' :: r) := by
  cases params with
  | nil => exact .cons rfl r
  | cons p params => exact .cons rfl _

theorem eq_of_paramsText_append {params params' : List String} (hparams : ∀ p ∈ params, IsWord p)
    (hparams' : ∀ p ∈ params', IsWord p) {r r' : List Char}
    (h : paramsText params ++ '\n' :: r = paramsText params' ++ '\n' :: r') : params = params' ∧ r = r' := by
  induction params generalizing params' with
  | nil =>
      cases params' with
      | nil => exact ⟨rfl, (List.cons.inj h).2⟩
      | cons => cases (List.cons.inj h).1
  | cons p params ih =>
      cases params' with
      | nil =>
          cases (List.cons.inj h).1
      | cons p' params' =>
          simp only [paramsText, List.flatMap_cons, List.cons_append, List.append_assoc, List.cons.injEq, true_and] at h
          rcases List.forall_mem_cons.1 hparams with ⟨hp, hparams⟩
          rcases List.forall_mem_cons.1 hparams' with ⟨hp', hparams'⟩
          rcases eq_of_word_append hp hp' (bounded_paramsText_append params r) (bounded_paramsText_append params' r') h with
            ⟨hsame, hmore⟩
          rcases ih hparams hparams' hmore with ⟨rfl, hrest⟩
          exact ⟨by rw [String.toList_inj.1 hsame], hrest⟩

/-- The text of a body up to its `end` is that of no other body. -/
def BodyTold (body : List Command) : Prop :=
  ∀ ⦃body' : List Command⦄ ⦃r r' : List Char⦄, ListLegible body' → Bounded r → Bounded r' →
    (closedLines body).toList ++ (['e', 'n', 'd'] ++ r) = (closedLines body').toList ++ (['e', 'n', 'd'] ++ r') →
      listUnplaced body = listUnplaced body' ∧ r = r'

theorem toList_closedLines_cons (c : Command) (rest : List Command) :
    (closedLines (c :: rest)).toList = c.text.toList ++ '\n' :: (closedLines rest).toList := by
  change (c.text ++ "\n" ++ closedLines rest).toList = _
  simp

/-- No line of a body is taken for its `end`. -/
theorem Legible.ne_end {c : Command} (h : c.Legible) {r r' : List Char} (hr : Bounded r) (hr' : Bounded r') :
    c.text.toList ++ r ≠ ['e', 'n', 'd'] ++ r' := by
  rcases h.definition_or_takes with ⟨name, params, body, pos, -, -, -, rfl⟩ | ⟨head, operands, pos, hhead, htakes, rfl⟩
  · rw [toList_text_definition]
    intro h
    cases (List.cons.inj h).1
  cases operands with
  | nil =>
      rw [toList_text_nil]
      intro h
      have hend : ∀ c ∈ ['e', 'n', 'd'], isWordChar c = true := List.all_eq_true.1 rfl
      have hname := (eq_of_word_append hhead.isName.isWord hend hr hr' h).1
      exact hhead.isName.ne_end (String.toList_inj.1 hname)
  | cons first rest =>
      rw [toList_text_cons htakes]
      intro h
      cases (List.cons.inj h).1

theorem bodyTold_nil : BodyTold [] := by
  intro body' r r' hbody' hr hr' h
  cases hbody' with
  | nil =>
      exact ⟨rfl, List.append_cancel_left (List.append_cancel_left h)⟩
  | cons hc hrest =>
      rw [toList_closedLines_cons, List.append_assoc] at h
      exact absurd h.symm (hc.ne_end (.cons rfl _) hr)

theorem bodyTold_cons {c : Command} {rest : List Command} (hlegible : c.Legible) (hc : c.Told) (hrest : BodyTold rest) :
    BodyTold (c :: rest) := by
  intro body' r r' hbody' hr hr' h
  rw [toList_closedLines_cons, List.append_assoc] at h
  cases hbody' with
  | nil =>
      exact absurd h (hlegible.ne_end (.cons rfl _) hr')
  | cons hc' hrest' =>
      rw [toList_closedLines_cons, List.append_assoc] at h
      rcases hc hc' (.cons rfl _) (.cons rfl _) h with ⟨hsame, hmore⟩
      rcases hrest hrest' hr hr' (List.cons.inj hmore).2 with ⟨hlist, hend⟩
      exact ⟨congrArg₂ List.cons hsame hlist, hend⟩

theorem told_definition {name : String} {params : List String} {body : List Command} (hname : IsWord name)
    (hparams : ∀ p ∈ params, IsWord p) (hbody : BodyTold body) (pos : Position) :
    Told ⟨.builtin .define, [.definition ⟨name, params, body⟩], pos⟩ := by
  intro b r r' hb hr hr' h
  rcases hb.definition_or_takes with
    ⟨name', params', body', pos', hname', hparams', hbody', rfl⟩ | ⟨head, operands, pos', hhead, htakes, rfl⟩
  · -- Name, parameters and body are cut off one after the other.
    rw [toList_text_definition, toList_text_definition] at h
    simp only [List.cons_append, List.append_assoc, List.nil_append, List.cons.injEq, true_and] at h
    rcases eq_of_word_append hname hname' (bounded_paramsText_append params _) (bounded_paramsText_append params' _) h with
      ⟨hsame, hafterName⟩
    rcases eq_of_paramsText_append hparams hparams' hafterName with ⟨rfl, hafterParams⟩
    rcases hbody hbody' hr hr' hafterParams with ⟨hlist, hrest⟩
    cases String.toList_inj.1 hsame
    exact ⟨congrArg (fun body => Command.mk (.builtin .define) [.definition ⟨name, params, body⟩] .start) hlist, hrest⟩
  · exact absurd h (definition_ne_of_takes hhead htakes hr')

/-! ## Lines -/

/-- The text is at its end, or a block ends here. -/
def Closes (text : List Char) : Prop :=
  ∀ c ∈ text.head?, c = ']'

/-- The lines after the first one. -/
def moreLines : List Command → List Char
  | [] => []
  | c :: rest => '\n' :: (c.text.toList ++ moreLines rest)

theorem toList_lines_cons (c : Command) (rest : List Command) :
    (lines (c :: rest)).toList = c.text.toList ++ moreLines rest := by
  induction rest generalizing c with
  | nil => exact (List.append_nil _).symm
  | cons d rest ih =>
      change (c.text ++ "\n" ++ lines (d :: rest)).toList = _
      simp [ih, moreLines]

theorem bounded_moreLines_append (list : List Command) {r : List Char} (hr : Closes r) : Bounded (moreLines list ++ r) := by
  cases list with
  | nil =>
      intro c hc
      rw [hr c hc]
      rfl
  | cons => exact .cons rfl _

/-- The text of commands up to the end of their block is that of no other commands. -/
def LinesTold (list : List Command) : Prop :=
  ∀ ⦃list' : List Command⦄ ⦃r r' : List Char⦄, ListLegible list' → Closes r → Closes r' →
    (lines list).toList ++ r = (lines list').toList ++ r' → listUnplaced list = listUnplaced list' ∧ r = r'

/-- The same for the lines after the first one. -/
def MoreTold (list : List Command) : Prop :=
  ∀ ⦃list' : List Command⦄ ⦃r r' : List Char⦄, ListLegible list' → Closes r → Closes r' →
    moreLines list ++ r = moreLines list' ++ r' → listUnplaced list = listUnplaced list' ∧ r = r'

theorem Closes.ne_cons {r rest : List Char} {c : Char} (h : Closes r) (hc : c ≠ ']') : r ≠ c :: rest := by
  rintro rfl
  exact hc (h c rfl)

theorem moreTold_nil : MoreTold [] := by
  intro list' r r' hlist' hr hr' h
  cases hlist' with
  | nil => exact ⟨rfl, h⟩
  | cons => exact absurd h (hr.ne_cons (by decide))

theorem moreTold_cons {c : Command} {rest : List Command} (hc : c.Told) (hrest : MoreTold rest) : MoreTold (c :: rest) := by
  intro list' r r' hlist' hr hr' h
  cases hlist' with
  | nil =>
      exact absurd h.symm (hr'.ne_cons (by decide))
  | cons hc' hrest' =>
      simp only [moreLines, List.cons_append, List.append_assoc, List.cons.injEq, true_and] at h
      rcases hc hc' (bounded_moreLines_append _ hr) (bounded_moreLines_append _ hr') h with ⟨hsame, hmore⟩
      rcases hrest hrest' hr hr' hmore with ⟨hlist, hend⟩
      exact ⟨congrArg₂ List.cons hsame hlist, hend⟩

/-- A block does not end where a command begins. -/
theorem Legible.ne_of_closes {c : Command} (h : c.Legible) {r rest : List Char} (hr : Closes r) :
    r ≠ c.text.toList ++ rest := by
  rcases h.definition_or_takes with ⟨name, params, body, pos, -, -, -, rfl⟩ | ⟨head, operands, pos, hhead, htakes, rfl⟩
  · rw [toList_text_definition]
    exact hr.ne_cons (by decide)
  cases operands with
  | nil =>
      rw [toList_text_nil]
      rcases List.exists_cons_of_ne_nil hhead.isName.toList_ne_nil with ⟨c, word, hword⟩
      have hc : isWordChar c = true := hhead.isName.isWord c (by simp [hword])
      rw [hword]
      refine hr.ne_cons ?_
      rintro rfl
      cases hc
  | cons first rest =>
      rw [toList_text_cons htakes]
      exact hr.ne_cons (by decide)

/-- With a line break before them, the lines of some commands are lines after another one. -/
theorem linesTold_of_moreTold {list : List Command} (hlegible : ListLegible list) (hmore : MoreTold list) :
    LinesTold list := by
  intro list' r r' hlist' hr hr' h
  -- The first command of either list decides whether the other has one too.
  cases hlegible with
  | nil =>
      cases hlist' with
      | nil =>
          exact ⟨rfl, h⟩
      | cons hc' =>
          rw [toList_lines_cons, List.append_assoc] at h
          exact absurd h (hc'.ne_of_closes hr)
  | cons hc =>
      rw [toList_lines_cons] at h
      cases hlist' with
      | nil =>
          rw [List.append_assoc] at h
          exact absurd h.symm (hc.ne_of_closes hr')
      | cons hc' hrest' =>
          rw [toList_lines_cons] at h
          exact hmore (.cons hc' hrest') hr hr' (congrArg ('\n' :: ·) h)

end Command

theorem Operand.told_block {body : List Command} (hbody : Command.LinesTold body) : Told .block (block body) := by
  have htext (list : List Command) : (block list).text.toList = '[' :: ((Command.lines list).toList ++ [']']) := by
    change ("[" ++ Command.lines list ++ "]").toList = _
    simp
  intro b r r' hb h
  cases hb with
  | @block body' hbody' =>
      rw [htext, htext] at h
      simp only [List.cons_append, List.append_assoc, List.nil_append, List.cons.injEq, true_and] at h
      have hcloses (text : List Char) : Command.Closes (']' :: text) := by
        rintro c ⟨⟩
        rfl
      rcases hbody hbody' (hcloses _) (hcloses _) h with ⟨hlist, hrest⟩
      simp only [List.cons.injEq, true_and] at hrest
      exact ⟨congrArg block hlist, hrest⟩

theorem Operand.listTold_values {values : List Expression} (h : Expression.ListLegible values) (name : String) :
    ListTold (Head.call name).Takes (values.map .value) := by
  intro bs r r' hbs hsame
  rcases hbs with ⟨values', hvalues', rfl⟩
  rw [listText_map_value, listText_map_value] at hsame
  rcases h.told hvalues' hsame with ⟨rfl, hrest⟩
  exact ⟨rfl, hrest⟩

/-! ## Programs -/

mutual

theorem Command.Legible.told : {c : Command} → c.Legible → c.Told
  | _, .definition pos hname hparams h => Command.told_definition hname hparams h.bodyTold pos
  | _, .command pos hb h => Command.told_of_takes (Head.legible_builtin hb) h h.told pos
  | _, .call pos hname hfree h =>
      Command.told_of_takes (Head.legible_call hname hfree) ⟨_, h, rfl⟩ (Operand.listTold_values h _) pos

theorem Command.ListLegible.bodyTold : {list : List Command} → Command.ListLegible list → Command.BodyTold list
  | _, .nil => Command.bodyTold_nil
  | _, .cons h hrest => Command.bodyTold_cons h h.told hrest.bodyTold

theorem Command.ListLegible.moreTold : {list : List Command} → Command.ListLegible list → Command.MoreTold list
  | _, .nil => Command.moreTold_nil
  | _, .cons h hrest => Command.moreTold_cons h.told hrest.moreTold

theorem Operand.Legible.told : {form : ArgumentForm} → {o : Operand} → o.Legible form → o.Told form
  | _, _, .value h => Operand.told_value h
  | _, _, .condition h => Operand.told_condition h
  | _, _, .block h => Operand.told_block (Command.linesTold_of_moreTold h h.moreTold)
  | _, _, .point hx hy => Operand.told_point hx hy
  | _, _, .colour h => Operand.told_colour h
  | _, _, .word h => Operand.told_name h

theorem Operand.ListLegible.told : {forms : List ArgumentForm} → {list : List Operand} →
    Operand.ListLegible forms list → Operand.ListTold (Operand.ListLegible forms) list
  | _, _, .nil => Operand.listTold_nil
  | _, _, .cons h hrest => Operand.listTold_cons h.told hrest.told

end

/-- The canonical text of a compiled program identifies it: two programs with one text have the same commands in the same
order, with the same operands, literals, names, colours, blocks and definitions. Only their positions may differ. -/
theorem Program.text_identifies {s t : String} {p q : Program} (hp : Program.compile s = .ok p)
    (hq : Program.compile t = .ok q) (h : Program.text p = Program.text q) :
    Command.listUnplaced p = Command.listUnplaced q := by
  have hclosed : Command.Closes [] := by
    rintro c ⟨⟩
  have hlines : (Command.lines p).toList ++ [] = (Command.lines q).toList ++ [] := by
    rw [show Command.lines p = Command.lines q from h]
  have htold := Command.linesTold_of_moreTold (legible_of_compile hp) (legible_of_compile hp).moreTold
  exact (htold (legible_of_compile hq) hclosed hclosed hlines).1

/-- An instance with a definition, a block, a point, a colour and a word with a semicolon in it. -/
theorem Program.two_spellings_have_one_program :
    ∃ p q,
      Program.compile "to f :x repeat 2 [ fd :x setpos [ 1 sum 2 3 ] ] make \"a;b .5 end setpc \"red f 1" = .ok p ∧
        Program.compile "to f :x repeat 2[forward :x setpos[1 2+3]] make \"A;B 0.50 end setpc \"#FF0000 f 1" = .ok q ∧
          Program.text p = Program.text q ∧ Command.listUnplaced p = Command.listUnplaced q := by
  let first := "to f :x repeat 2 [ fd :x setpos [ 1 sum 2 3 ] ] make \"a;b .5 end setpc \"red f 1"
  let second := "to f :x repeat 2[forward :x setpos[1 2+3]] make \"A;B 0.50 end setpc \"#FF0000 f 1"
  let common :=
    "to f :x\n(repeat (2) ([(forward (:x))\n(setpos ([1 (sum (2) (3))]))]))\n(make (\"a;b) (0.5))\nend\n" ++
      "(setpencolor (#ff0000))\n(f (1))"
  have htexts : (Program.compile first).toOption.map Program.text = some common ∧
      (Program.compile second).toOption.map Program.text = some common := by
    decide +kernel
  rcases htexts with ⟨hfirst, hsecond⟩
  rcases Option.map_eq_some_iff.1 hfirst with ⟨p, hp, hptext⟩
  rcases Option.map_eq_some_iff.1 hsecond with ⟨q, hq, hqtext⟩
  have hp := Checked.toOption_eq_some.1 hp
  have hq := Checked.toOption_eq_some.1 hq
  have htext := hptext.trans hqtext.symm
  exact ⟨p, q, hp, hq, htext, text_identifies hp hq htext⟩

end TurtleLogo
