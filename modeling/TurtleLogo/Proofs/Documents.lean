import Mathlib.Data.List.Forall2
import TurtleLogo.Page.Svg
import TurtleLogo.Proofs.ExpressionText
import TurtleLogo.Proofs.Places

/-!
# Documents and the drawings they show

Nothing in a document runs into what comes next to it, because each part is ended by a character that it does not hold:

* `Number.ofText?_text` — numbers can be read back, infinities and NaN included, and their texts hold no separators;
* `Svg.Element.attributes_eq` — quotes end the values of attributes;
* `Stroke.style_inj`, `Figure.path_inj` — commas and spaces end the numbers in a style and in a path;
* `Page.piecesAt_svg` — line breaks end the elements.

So pages with the same document differ at most in how their arcs are given, and not in the points of these.
-/

namespace TurtleLogo

/-! ## The texts of numbers -/

namespace Number

open Float.Model (Format UnpackedFloat)
open Float.Model.UnpackedFloat (pack)

theorem neg_abs_of_isNegative {x : Float32} (h : x.isFinite = true) (hsign : isNegative x = true) : -x.abs = x := by
  have hsigns (f : UnpackedFloat) : f.abs = f ∨ f.abs.neg = f := by
    cases f with
    | notANumber => exact .inl rfl
    | infinity s | zero s | finite s m e hm =>
        cases s with
        | positive => exact .inl rfl
        | negative => exact .inr rfl
  rcases hsigns (unpacked x) with hsame | hopposite
  · -- A number that is its own magnitude has no sign.
    have habs : x.abs = x := eq_of_toBitVec ((congrArg (pack Format.binary32) hsame).trans (pack_unpacked x))
    have hnone := isNegative_abs h
    rw [habs, hsign] at hnone
    cases hnone
  · refine eq_of_toBitVec ?_
    change pack Format.binary32 (unpacked x.abs).neg = _
    rw [unpacked_abs h, hopposite, pack_unpacked]

theorem eq_of_not_isFinite {x : Float32} (h : ¬ x.isFinite = true) : x = 0 / 0 ∨ x = 1 / 0 ∨ x = -(1 / 0) := by
  have hbits := pack_unpacked x
  rcases unpacked_of_not_isFinite (Bool.eq_false_of_not_eq_true h) with hnan | ⟨s, hs⟩
  · rw [hnan] at hbits
    exact .inl (eq_of_toBitVec hbits.symm)
  · rw [hs] at hbits
    cases s with
    | positive => exact .inr (.inl (eq_of_toBitVec hbits.symm))
    | negative => exact .inr (.inr (eq_of_toBitVec hbits.symm))

theorem ofText?_chars_abs {x : Float32} (h : x.isFinite = true) :
    ofText? (String.ofList (chars x.abs)) = some x.abs ∧ ofText? (String.ofList ('-' :: chars x.abs)) = some (-x.abs) := by
  have hmagnitude := readMagnitude?_chars (magnitudeBits x)
  rw [ofMagnitudeBits_eq_abs h] at hmagnitude
  unfold ofText?
  constructor
  · -- The text begins with a digit, so neither a minus sign nor `NaN` is read.
    rcases exists_chars h with ⟨c, cs, hchars, hc, -⟩
    rw [String.toList_ofList]
    split
    · next heq =>
        cases hchars.symm.trans heq
        cases hc
    · next heq =>
        cases hchars.symm.trans heq
        cases hc
    · exact hmagnitude
  · simp [hmagnitude]

/-- Every number can be read back from its text. -/
theorem ofText?_text (x : Float32) : ofText? (text x) = some x := by
  by_cases hfinite : x.isFinite = true
  · rcases ofText?_chars_abs hfinite with ⟨hplain, hsigned⟩
    rw [text, chars_eq hfinite]
    cases hsign : isNegative x with
    | true => rw [if_pos rfl, hsigned, neg_abs_of_isNegative hfinite hsign]
    | false => rw [if_neg Bool.false_ne_true, hplain, abs_eq_self hfinite hsign]
  · rcases eq_of_not_isFinite hfinite with rfl | rfl | rfl <;> decide

theorem text_inj {x y : Float32} (h : text x = text y) : x = y := by
  have hread := ofText?_text x
  rw [h, ofText?_text] at hread
  exact (Option.some.inj hread).symm

/-- The characters of which the texts of numbers consist. -/
def isTextChar (c : Char) : Bool :=
  c.isDigit || c ∈ ['-', '.', 'i', 'n', 'f', 'N', 'a']

theorem isTextChar_of_mem_text {x : Float32} {c : Char} (h : c ∈ (text x).toList) : isTextChar c = true := by
  rw [text, String.toList_ofList] at h
  by_cases hfinite : x.isFinite = true
  · rcases exists_chars hfinite with ⟨d, ds, hchars, hd, hds⟩
    have hmagnitude : ∀ c ∈ chars x.abs, isTextChar c = true := by
      rw [hchars]
      refine List.forall_mem_cons.2 ⟨by simp [isTextChar, hd], fun e he => ?_⟩
      have hnumber := hds e he
      simp only [isNumberChar, Bool.or_eq_true, decide_eq_true_eq] at hnumber
      rcases hnumber with hdigit | rfl
      · simp [isTextChar, hdigit]
      · rfl
    rw [chars_eq hfinite] at h
    split at h
    · rcases List.mem_cons.1 h with rfl | h
      · rfl
      · exact hmagnitude c h
    · exact hmagnitude c h
  · -- Only three numbers are left, and their texts are short.
    have htexts : ∀ y ∈ [0 / 0, 1 / 0, -(1 / 0)], (chars y).all isTextChar = true := by decide
    have hmem : x ∈ [0 / 0, 1 / 0, -(1 / 0)] := by simpa using eq_of_not_isFinite hfinite
    exact List.all_eq_true.1 (htexts x hmem) c h

theorem notMem_text {c : Char} (hc : isTextChar c = false) (x : Float32) : c ∉ (text x).toList := by
  intro hmem
  have htext := isTextChar_of_mem_text hmem
  rw [hc] at htext
  cases htext

end Number

/-! ## Texts with separators -/

/-- The texts between the occurrences of a character. -/
def piecesAt (separator : Char) (text : String) : List String :=
  (text.toList.splitOn separator).map String.ofList

theorem intercalate_cons (separator : Char) (piece : List Char) (pieces : List (List Char)) :
    [separator].intercalate (piece :: pieces) = piece ++ pieces.flatMap (separator :: ·) := by
  induction pieces generalizing piece with
  | nil => simp
  | cons next pieces ih => simp [List.intercalate_cons_cons, ih]

/-- A text of pieces with separators between them has just these pieces, if none of them holds the separator. -/
theorem piecesAt_eq {separator : Char} {text piece : String} {pieces : List String}
    (hfree : ∀ s ∈ piece :: pieces, separator ∉ s.toList)
    (htext : text.toList = piece.toList ++ pieces.flatMap fun s => separator :: s.toList) :
    piecesAt separator text = piece :: pieces := by
  have hjoined : text.toList = [separator].intercalate ((piece :: pieces).map String.toList) := by
    rw [htext, List.map_cons, intercalate_cons, List.flatMap_map]
  rw [piecesAt, hjoined, List.splitOn_intercalate separator ?_ (by simp)]
  · simp
  · simpa using hfree

/-- A piece that does not hold a character is determined by a text in which the character comes next. -/
theorem eq_of_terminated {separator : Char} {ending piece piece' rest rest' : List Char} (hending : ending = [separator])
    (hpiece : separator ∉ piece) (hpiece' : separator ∉ piece')
    (h : piece ++ (ending ++ rest) = piece' ++ (ending ++ rest')) : piece = piece' ∧ rest = rest' := by
  subst hending
  -- On the pieces: where one of them ends first, its separator would stand in the other.
  induction piece generalizing piece' with
  | nil =>
      cases piece' with
      | nil => exact ⟨rfl, (List.cons.inj h).2⟩
      | cons c piece' => exact absurd ((List.cons.inj h).1 ▸ List.mem_cons_self) hpiece'
  | cons c piece ih =>
      cases piece' with
      | nil => exact absurd ((List.cons.inj h).1 ▸ List.mem_cons_self) hpiece
      | cons d piece' =>
          rcases List.cons.inj h with ⟨rfl, htail⟩
          rcases ih (fun hmem => hpiece (.tail _ hmem)) (fun hmem => hpiece' (.tail _ hmem)) htail with ⟨rfl, hrest⟩
          exact ⟨rfl, hrest⟩

theorem notMem_toString {c : Char} (hc : c.isDigit = false) (n : Nat) : c ∉ (toString n).toList := by
  intro hmem
  have hdigit : c.isDigit = true := Nat.isDigit_of_mem_toDigits (b := 10) (by decide) (by decide) (by simpa using hmem)
  rw [hc] at hdigit
  cases hdigit

/-! ## Elements -/

namespace Svg

/-- The characters that would end a value or a line. -/
def reserved : List Char :=
  ['"', '\'', '<', '>', '\n']

/-- A text that can be quoted as it is. -/
def IsPlain (text : String) : Prop :=
  ∀ c ∈ reserved, c ∉ text.toList

instance (text : String) : Decidable (IsPlain text) :=
  List.decidableBAll _ reserved

@[simp]
theorem isPlain_append {s t : String} : IsPlain (s ++ t) ↔ IsPlain s ∧ IsPlain t := by
  simp only [IsPlain, String.toList_append, List.mem_append, not_or, forall_and]

@[simp]
theorem isPlain_join {texts : List String} : IsPlain (String.join texts) ↔ ∀ s ∈ texts, IsPlain s := by
  simp only [IsPlain, String.toList_join, List.mem_flatMap, not_exists, not_and]
  exact ⟨fun h s hs c hc => h c hc s hs, fun h c hc s hs => h s hs c hc⟩

@[simp]
theorem isPlain_toString (n : Nat) : IsPlain (toString n) := by
  have hdigits : ∀ c ∈ reserved, c.isDigit = false := by simp [reserved]
  exact fun c hc => notMem_toString (hdigits c hc) n

@[simp]
theorem isPlain_text (x : Float32) : IsPlain (Number.text x) := by
  have hchars : ∀ c ∈ reserved, Number.isTextChar c = false := by simp [reserved, Number.isTextChar]
  exact fun c hc => Number.notMem_text (hchars c hc) x

/-- A name with attributes. -/
structure Element where
  name : String
  attributes : List (String × String)

namespace Element

/-- The text of an element before the bracket that closes it. -/
def opening (e : Element) : String :=
  "<" ++ e.name ++ String.join (e.attributes.map fun a => Svg.attribute a.1 a.2)

/-- Neither the names nor the values need quoting. -/
structure IsPlain (e : Element) : Prop where
  name : Svg.IsPlain e.name
  keys : ∀ a ∈ e.attributes, Svg.IsPlain a.1
  values : ∀ a ∈ e.attributes, Svg.IsPlain a.2

theorem newline_notMem_opening {e : Element} (h : e.IsPlain) : '\n' ∉ e.opening.toList := by
  have hnewline : '\n' ∈ reserved := by decide
  have hattribute : ∀ a ∈ e.attributes, '\n' ∉ (Svg.attribute a.1 a.2).toList := by
    intro a ha
    have hkey := h.keys a ha _ hnewline
    have hvalue := h.values a ha _ hnewline
    simp [Svg.attribute, hkey, hvalue]
  have hname := h.name _ hnewline
  simp only [opening, String.toList_append, String.toList_join, List.flatMap_map, List.mem_append, List.mem_flatMap, not_or,
    not_exists, not_and]
  exact ⟨⟨by decide, hname⟩, hattribute⟩

/-- The value of an attribute is determined by a text that begins with the attribute. -/
theorem value_eq {key value value' : String} {rest rest' : List Char} (hvalue : Svg.IsPlain value)
    (hvalue' : Svg.IsPlain value')
    (h : (Svg.attribute key value).toList ++ rest = (Svg.attribute key value').toList ++ rest') :
    value = value' ∧ rest = rest' := by
  have hquote : '"' ∈ reserved := by decide
  simp only [Svg.attribute, String.toList_append, List.append_assoc] at h
  have hquoted := List.append_cancel_left (List.append_cancel_left (List.append_cancel_left h))
  rcases eq_of_terminated rfl (hvalue _ hquote) (hvalue' _ hquote) hquoted with ⟨hsame, hrest⟩
  exact ⟨String.toList_inj.1 hsame, hrest⟩

/-- Attributes with the same names are determined by a text that begins with them. -/
theorem attributes_eq {as bs : List (String × String)} {rest rest' : List Char}
    (hkeys : as.map Prod.fst = bs.map Prod.fst) (has : ∀ a ∈ as, Svg.IsPlain a.2) (hbs : ∀ b ∈ bs, Svg.IsPlain b.2)
    (h : as.flatMap (fun a => (Svg.attribute a.1 a.2).toList) ++ rest =
      bs.flatMap (fun b => (Svg.attribute b.1 b.2).toList) ++ rest') :
    as = bs := by
  -- On the attributes: the names say that both lists have the same length, and the quotes where the next one begins.
  induction as generalizing bs with
  | nil =>
      cases bs with
      | nil => rfl
      | cons b bs => cases hkeys
  | cons a as ih =>
      cases bs with
      | nil => cases hkeys
      | cons b bs =>
          rcases a with ⟨key, value⟩
          rcases b with ⟨key', value'⟩
          rcases List.cons.inj hkeys with ⟨hkey, hmore⟩
          cases hkey
          rcases List.forall_mem_cons.1 has with ⟨hvalue, hvalues⟩
          rcases List.forall_mem_cons.1 hbs with ⟨hvalue', hvalues'⟩
          rw [List.flatMap_cons, List.flatMap_cons, List.append_assoc, List.append_assoc] at h
          rcases value_eq hvalue hvalue' h with ⟨hsame, hrest⟩
          cases hsame
          rw [ih hmore hvalues hvalues' hrest]

theorem attributes_eq_of_opening {e e' : Element} {ending : String} (h : e.opening ++ ending = e'.opening ++ ending)
    (he : e.IsPlain) (he' : e'.IsPlain) (hname : e.name = e'.name)
    (hkeys : e.attributes.map Prod.fst = e'.attributes.map Prod.fst) : e.attributes = e'.attributes := by
  have hchars := String.toList_inj.2 h
  simp only [opening, hname, String.toList_append, String.toList_join, List.flatMap_map, List.append_assoc] at hchars
  exact attributes_eq hkeys he.values he'.values (List.append_cancel_left (List.append_cancel_left hchars))

end Element

end Svg

/-! ## The lines of a document -/

/-- The name of the element a figure is drawn by. -/
def Figure.tag : Figure → String
  | segment _ _ => "line"
  | arc _ => "path"

/-- The element of a mark. -/
def Mark.element (m : Mark) : Svg.Element where
  name := m.figure.tag
  attributes :=
    match m.figure with
    | .segment start finish =>
        [("x1", Number.text start.x), ("y1", Number.text start.y), ("x2", Number.text finish.x),
          ("y2", Number.text finish.y), ("style", m.stroke.style)]
    | .arc _ => [("fill", "none"), ("style", m.stroke.style), ("d", m.figure.path)]

/-- The element that holds those of the marks. -/
def Page.header (p : Page) : Svg.Element where
  name := "svg"
  attributes :=
    [("xmlns", "http://www.w3.org/2000/svg"), ("width", toString p.width.toNat), ("height", toString p.height.toNat)]

theorem Mark.svg_eq (m : Mark) : m.svg = m.element.opening ++ "/>" := by
  rcases m with ⟨_ | _, stroke⟩ <;>
    simp [← String.toList_inj, Mark.svg, Mark.element, Figure.tag, Svg.Element.opening]

theorem Stroke.isPlain_style (s : Stroke) : Svg.IsPlain s.style := by
  simp only [style, Colour.rgb, Svg.isPlain_append, Svg.isPlain_toString]
  decide

theorem Figure.isPlain_path (f : Figure) : Svg.IsPlain f.path := by
  have hpoint (p : Point) : Svg.IsPlain p.text := by
    simp only [Point.text, Svg.isPlain_append, Svg.isPlain_text]
    decide
  simp only [path, Svg.isPlain_append, Svg.isPlain_join, List.forall_mem_map]
  exact ⟨⟨by decide, hpoint _⟩, fun p _ => ⟨by decide, hpoint p⟩⟩

theorem Mark.isPlain_element (m : Mark) : m.element.IsPlain := by
  have hstyle := m.stroke.isPlain_style
  have hpath := m.figure.isPlain_path
  rcases m with ⟨⟨start, finish⟩ | a, stroke⟩
  · constructor
    · change Svg.IsPlain "line"
      decide
    · simp only [element, List.forall_mem_cons]
      decide
    · simp [element, hstyle]
  · constructor
    · change Svg.IsPlain "path"
      decide
    · simp only [element, List.forall_mem_cons]
      decide
    · have hfill : Svg.IsPlain "none" := by decide
      simp [element, hstyle, hpath, hfill]

theorem Page.isPlain_header (p : Page) : p.header.IsPlain := by
  constructor
  · change Svg.IsPlain "svg"
    decide
  · simp only [header, List.forall_mem_cons]
    decide
  · simp only [header, List.forall_mem_cons, Svg.isPlain_toString, List.not_mem_nil, false_implies, implies_true, and_true]
    decide

/-- Characters put before texts can as well be put after them, but for the first and the last. -/
theorem flatMap_cons_append {α : Type} (c : Char) (f : α → List Char) (l : List α) :
    l.flatMap (fun a => c :: f a) ++ [c] = c :: l.flatMap (fun a => f a ++ [c]) := by
  induction l with
  | nil => rfl
  | cons a l ih => simp [ih]

/-- The lines of a document: the header, one line for each mark, and the end. -/
theorem Page.piecesAt_svg (p : Page) :
    piecesAt '\n' p.svg =
      (p.header.opening ++ ">") :: (p.canvas.map (fun m => m.element.opening ++ "/>") ++ ["</svg>"]) := by
  apply piecesAt_eq
  · have hheader := Svg.Element.newline_notMem_opening p.isPlain_header
    have hmark (m : Mark) := Svg.Element.newline_notMem_opening m.isPlain_element
    simp only [List.forall_mem_cons, List.forall_mem_append, List.forall_mem_map, String.toList_append]
    refine ⟨?_, fun m _ => ?_, by decide, nofun⟩
    · simp [hheader]
    · simp [hmark m]
  · have htext : p.svg.toList = (p.header.opening ++ ">").toList ++
        ('\n' :: p.canvas.flatMap (fun m => m.svg.toList ++ ['\n']) ++ "</svg>".toList) := by
      simp [Page.svg, Page.header, Svg.Element.opening, List.flatMap_map]
    -- The document has a line break after each line, and pieces have separators before them.
    rw [htext, ← flatMap_cons_append]
    simp [Mark.svg_eq, List.flatMap_map]

/-! ## What a document tells -/

theorem toString_inj {m n : Nat} (h : (toString m).toList = (toString n).toList) : m = n :=
  Nat.repr_inj.1 (String.toList_inj.1 h)

theorem Stroke.style_inj {s t : Stroke} (h : s.style = t.style) : s = t := by
  have hchars := String.toList_inj.2 h
  simp only [style, Colour.rgb, String.toList_append, List.append_assoc] at hchars
  -- The channels are read from left to right, up to the character after each.
  have hred := List.append_cancel_left (List.append_cancel_left hchars)
  rcases eq_of_terminated rfl (notMem_toString rfl _) (notMem_toString rfl _) hred with ⟨hr, hgreen⟩
  rcases eq_of_terminated rfl (notMem_toString rfl _) (notMem_toString rfl _) hgreen with ⟨hg, hblue⟩
  rcases eq_of_terminated rfl (notMem_toString rfl _) (notMem_toString rfl _) hblue with ⟨hb, hwidth⟩
  have hw := List.append_cancel_left hwidth
  rcases s with ⟨⟨r, g, b⟩, width⟩
  rcases t with ⟨⟨r', g', b'⟩, width'⟩
  cases UInt8.toNat_inj.1 (toString_inj hr)
  cases UInt8.toNat_inj.1 (toString_inj hg)
  cases UInt8.toNat_inj.1 (toString_inj hb)
  cases UInt32.toNat_inj.1 (toString_inj hw)
  rfl

theorem Point.eq_of_text {p q : Point} (hx : Number.text p.x = Number.text q.x) (hy : Number.text p.y = Number.text q.y) :
    p = q := by
  cases p
  cases q
  cases Number.text_inj hx
  cases Number.text_inj hy
  rfl

namespace Figure

/-- The words of a path after the first. -/
def furtherWords (points : List Point) : List String :=
  points.flatMap fun p => ["L", Number.text p.x, Number.text p.y]

theorem furtherWords_inj {points more : List Point} (h : furtherWords points = furtherWords more) : points = more := by
  induction points generalizing more with
  | nil =>
      cases more with
      | nil => rfl
      | cons q more => cases h
  | cons p points ih =>
      cases more with
      | nil => cases h
      | cons q more =>
          simp only [furtherWords, List.flatMap_cons, List.cons_append, List.nil_append, List.cons.injEq, true_and] at h
          rcases h with ⟨hx, hy, hmore⟩
          rw [Point.eq_of_text hx hy, ih hmore]

theorem piecesAt_path (f : Figure) :
    piecesAt ' ' f.path =
      "M" :: Number.text f.firstPoint.x :: Number.text f.firstPoint.y :: furtherWords f.furtherPoints := by
  have hnumber := Number.notMem_text (c := ' ') rfl
  apply piecesAt_eq
  · have hfurther : ∀ s ∈ furtherWords f.furtherPoints, ' ' ∉ s.toList := by
      simp only [furtherWords, List.mem_flatMap, List.mem_cons, List.not_mem_nil, or_false]
      rintro s ⟨p, -, rfl | rfl | rfl⟩
      · decide
      · exact hnumber p.x
      · exact hnumber p.y
    simp only [List.forall_mem_cons]
    exact ⟨by decide, hnumber _, hnumber _, hfurther⟩
  · simp [path, Point.text, furtherWords, List.flatMap_assoc, List.flatMap_map]

theorem path_inj {f g : Figure} (h : f.path = g.path) : f.outline = g.outline := by
  have hpieces := f.piecesAt_path
  rw [h, piecesAt_path] at hpieces
  simp only [List.cons.injEq, true_and] at hpieces
  rcases hpieces with ⟨hx, hy, hfurther⟩
  rw [outline, outline, Point.eq_of_text hx hy, furtherWords_inj hfurther]

/-- An arc is drawn by its extent and direction, however far it goes beyond a full turn. -/
theorem outline_of_extent (a : Arc) {s t : Float32}
    (hextent : Arc.extent { a with sweep := s } = Arc.extent { a with sweep := t })
    (hdirection : Arc.direction { a with sweep := s } = Arc.direction { a with sweep := t }) :
    outline (arc { a with sweep := s }) = outline (arc { a with sweep := t }) := by
  have hpoint : Arc.pointAt { a with sweep := s } = Arc.pointAt { a with sweep := t } := rfl
  have hchords : Arc.chords { a with sweep := s } = Arc.chords { a with sweep := t } := by
    rw [Arc.chords, Arc.chords, hextent]
  have hchord : Arc.chordPoint { a with sweep := s } = Arc.chordPoint { a with sweep := t } := by
    funext i
    rw [Arc.chordPoint, Arc.chordPoint, hpoint, hdirection]
  have hlast : Arc.lastPoint { a with sweep := s } = Arc.lastPoint { a with sweep := t } := by
    rw [Arc.lastPoint, Arc.lastPoint, hpoint, hdirection, hextent, hchords]
  simp only [outline, firstPoint, furtherPoints, hchords, hchord, hlast]

theorem path_of_outline {f g : Figure} (h : f.outline = g.outline) : f.path = g.path := by
  rcases List.cons.inj h with ⟨hfirst, hfurther⟩
  rw [path, path, hfirst, hfurther]

theorem path_of_extent (a : Arc) {s t : Float32}
    (hextent : Arc.extent { a with sweep := s } = Arc.extent { a with sweep := t })
    (hdirection : Arc.direction { a with sweep := s } = Arc.direction { a with sweep := t }) :
    path (arc { a with sweep := s }) = path (arc { a with sweep := t }) :=
  path_of_outline (outline_of_extent a hextent hdirection)

end Figure

/-- Marks that cannot be told apart on a page: drawn by the same kind of element, with the same stroke, and through the same
points. -/
structure Mark.LooksLike (m n : Mark) : Prop where
  kind : m.figure.tag = n.figure.tag
  stroke : m.stroke = n.stroke
  points : m.figure.outline = n.figure.outline

theorem Mark.looksLike_of_opening {m n : Mark} (h : m.element.opening ++ "/>" = n.element.opening ++ "/>") :
    m.LooksLike n := by
  have hm := m.isPlain_element
  have hn := n.isPlain_element
  rcases m with ⟨⟨start, finish⟩ | a, stroke⟩ <;> rcases n with ⟨⟨start', finish'⟩ | a', stroke'⟩
  · have hattributes := Svg.Element.attributes_eq_of_opening h hm hn rfl (by simp [element])
    simp only [element, List.cons.injEq, Prod.mk.injEq, true_and, and_true] at hattributes
    rcases hattributes with ⟨hx, hy, hx', hy', hstyle⟩
    cases Point.eq_of_text hx hy
    cases Point.eq_of_text hx' hy'
    exact ⟨rfl, Stroke.style_inj hstyle, rfl⟩
  -- Elements of different kinds differ in the first letter of their names.
  · have hchars := String.toList_inj.2 h
    simp [element, Figure.tag, Svg.Element.opening] at hchars
  · have hchars := String.toList_inj.2 h
    simp [element, Figure.tag, Svg.Element.opening] at hchars
  · have hattributes := Svg.Element.attributes_eq_of_opening h hm hn rfl (by simp [element])
    simp only [element, List.cons.injEq, Prod.mk.injEq, true_and, and_true] at hattributes
    rcases hattributes with ⟨hstyle, hpath⟩
    exact ⟨rfl, Stroke.style_inj hstyle, Figure.path_inj hpath⟩

/-- The size of a page is determined by the first line of its document. -/
theorem Page.size_of_opening {p q : Page} (h : p.header.opening ++ ">" = q.header.opening ++ ">") :
    p.width = q.width ∧ p.height = q.height := by
  have hattributes := Svg.Element.attributes_eq_of_opening h p.isPlain_header q.isPlain_header rfl (by simp [header])
  simp only [header, List.cons.injEq, Prod.mk.injEq, true_and, and_true] at hattributes
  rcases hattributes with ⟨hwidth, hheight⟩
  exact ⟨UInt32.toNat_inj.1 (Nat.repr_inj.1 hwidth), UInt32.toNat_inj.1 (Nat.repr_inj.1 hheight)⟩

namespace Page

/-- A document shows its drawing unmistakably. Its lines are the header, one element for each mark, in their order, and the
end, and no attribute holds a character that would end it early. So pages with the same document have the same size, and
their marks look alike one by one. -/
theorem svg_determines_drawing (p : Page) :
    piecesAt '\n' p.svg =
        (p.header.opening ++ ">") :: (p.canvas.map (fun m => m.element.opening ++ "/>") ++ ["</svg>"]) ∧
      (piecesAt '\n' p.svg).length = p.canvas.length + 2 ∧
      (∀ e ∈ p.header :: p.canvas.map Mark.element, ∀ a ∈ e.attributes, Svg.IsPlain a.2) ∧
      ∀ q : Page, p.svg = q.svg →
        p.width = q.width ∧ p.height = q.height ∧ p.canvas.length = q.canvas.length ∧
          List.Forall₂ Mark.LooksLike p.canvas q.canvas := by
  have hlines := p.piecesAt_svg
  refine ⟨hlines, by simp [hlines], ?_, fun q hsame => ?_⟩
  · simp only [List.forall_mem_cons, List.forall_mem_map]
    exact ⟨p.isPlain_header.values, fun m _ => m.isPlain_element.values⟩
  · rw [hsame, q.piecesAt_svg] at hlines
    -- The documents have the same lines, and each line tells its part.
    rcases List.cons.inj hlines.symm with ⟨hheader, hmore⟩
    have hmarks := List.append_cancel_right hmore
    rcases size_of_opening hheader with ⟨hwidth, hheight⟩
    have hlooks : List.Forall₂ Mark.LooksLike p.canvas q.canvas := by
      rw [← List.forall₂_eq_eq_eq, List.forall₂_map_left_iff, List.forall₂_map_right_iff] at hmarks
      exact hmarks.imp fun m n h => Mark.looksLike_of_opening h
    exact ⟨hwidth, hheight, hlooks.length_eq, hlooks⟩

/-- Circles of which more than a full turn is drawn, one farther than the other. -/
theorem svg_of_retraced_circles :
    let circled (sweep : Float32) : Page := ⟨4, 7, [⟨.arc ⟨⟨1, 2⟩, 0, 3, sweep⟩, ⟨⟨0, 128, 255⟩, 3⟩⟩]⟩
    circled 7 ≠ circled 8 ∧ (circled 7).svg = (circled 8).svg ∧
      List.Forall₂ Mark.LooksLike (circled 7).canvas (circled 8).canvas := by
  intro circled
  have hpath : Figure.path (.arc ⟨⟨1, 2⟩, 0, 3, 7⟩) = Figure.path (.arc ⟨⟨1, 2⟩, 0, 3, 8⟩) :=
    Figure.path_of_extent ⟨⟨1, 2⟩, 0, 3, 7⟩ (by decide) (by decide)
  have hsvg : (circled 7).svg = (circled 8).svg := by
    simp only [circled, svg, List.map_cons, Mark.svg, hpath]
  refine ⟨by decide, hsvg, ?_⟩
  exact ((svg_determines_drawing (circled 7)).2.2.2 (circled 8) hsvg).2.2.2

end Page

end TurtleLogo
