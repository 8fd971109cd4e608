import TurtleLogo.Proofs.Moments
import TurtleLogo.Proofs.Placement
import TurtleLogo.Proofs.Rounding

/-!
# What is true of every context

A context comes into being empty and is changed by those who hold it: they ask for effects, open and close frames in any
order, and run programs, some of which fail. This module says what no such history can break:

* `Context.Reachable` — the contexts that come about in this way;
* `Context.Sound` — the stack of frames, the table of procedures and the widths of strokes are in order;
* `Context.sound_perform`, `Context.sound_enter`, `Context.sound_enterCall`, `Context.sound_leaveCall` — each change keeps them
  so, and with `Reaches.keeps_always` so does an execution;
* `Context.Sound.binds` — in a sound context a call that finds a definition has one argument for each parameter.
-/

namespace TurtleLogo

/-! ## Frames -/

namespace Scopes

/-- All frames, the one in use first. -/
def frames (s : Scopes) : List Frame :=
  s.top :: s.below

/-- Every name that is bound in a frame is bound in the frame above it. -/
def Nested (s : Scopes) : Prop :=
  s.frames.IsChain fun upper lower => ∀ name ∈ lower, name ∈ upper

theorem nested_bind {s : Scopes} (h : s.Nested) (name : String) (value : Float32) : (s.bind name value).Nested := by
  unfold Nested frames at *
  rw [List.isChain_cons] at h ⊢
  refine ⟨fun lower hlower other hother => ?_, h.2⟩
  exact Std.ExtTreeMap.mem_insert.2 (.inr (h.1 lower hlower other hother))

theorem nested_bindAll {s : Scopes} (h : s.Nested) (names : List String) (values : List Float32) :
    (s.bindAll names values).Nested :=
  List.foldlRecOn _ _ h fun _ hs binding _ => nested_bind hs binding.1 binding.2

/-- A new frame is a copy of the one below it. -/
theorem nested_enter {s : Scopes} (h : s.Nested) : s.enter.Nested :=
  List.isChain_cons_cons.2 ⟨fun _ hname => hname, h⟩

theorem nested_leave {s : Scopes} (h : s.Nested) : s.leave.Nested := by
  unfold leave
  split
  · exact h
  · next caller below hbelow =>
      unfold Nested frames at h
      rw [hbelow] at h
      exact h.tail

theorem read_bindAll_of_not_mem {name : String} {names : List String} (hname : name ∉ names) (s : Scopes)
    (values : List Float32) : (s.bindAll names values).read name = s.read name := by
  induction names generalizing s values with
  | nil => rfl
  | cons first names ih =>
      cases values with
      | nil => rfl
      | cons value values =>
          rcases not_or.1 (mt List.mem_cons.2 hname) with ⟨hne, hrest⟩
          calc ((s.bind first value).bindAll names values).read name
              = (s.bind first value).read name := ih hrest _ _
            _ = s.read name := by rw [read_bind, if_neg (Ne.symm hne)]

/-- Each name has the value that stands in its place, unless the name is bound again behind it. -/
theorem read_bindAll (s : Scopes) {name : String} {names : List String} {value : Float32} {values : List Float32} {i : Nat}
    (hname : names[i]? = some name) (hvalue : values[i]? = some value) (hlast : name ∉ names.drop (i + 1)) :
    (s.bindAll names values).read name = value := by
  induction names generalizing s values i with
  | nil => cases hname
  | cons first names ih =>
      cases values with
      | nil => cases hvalue
      | cons firstValue values =>
          cases i with
          | zero =>
              cases hname
              cases hvalue
              calc ((s.bind name value).bindAll names values).read name
                  = (s.bind name value).read name := read_bindAll_of_not_mem hlast _ _
                _ = value := by rw [read_bind, if_pos rfl]
          | succ i => exact ih (s.bind first firstValue) hname hvalue hlast

end Scopes

/-! ## Sound contexts -/

namespace Context

structure Sound (c : Context) : Prop where
  /-- There is a frame in use. -/
  frames : c.scopes.frames ≠ []
  nested : c.scopes.Nested
  /-- A procedure stands under its name in lower case and the number of its parameters. -/
  filed : ∀ (signature : Signature) (d : Definition), c.procedures[signature]? = some d →
    d.name.toLower = signature.name ∧ d.params.length = signature.arity
  penWidth : 1 ≤ c.drawing.pen.stroke.width
  markWidth : ∀ mark ∈ c.drawing.canvas, 1 ≤ mark.stroke.width

/-- Every parameter is bound to one argument, and no argument is left over. A name that stands twice among the parameters
keeps the later argument. -/
structure Binds (c : Context) (d : Definition) (values : List Float32) : Prop where
  length : values.length = d.params.length
  bound : ∀ (i : Nat) (name : String) (value : Float32), d.params[i]? = some name → values[i]? = some value →
    name ∉ d.params.drop (i + 1) → (c.enterCall d values).valueOf name = value

end Context

/-- An effect that can be asked for. Any number can be asked for as a pen size, but only the whole part of one that is at
least one becomes a width. -/
def Effect.Granted : Effect → Prop
  | .setPenWidth width => ∃ size, Context.penWidth size = .ok width
  | _ => True

theorem Effect.From.granted {c : Context} {command : Command} {e : Effect} (h : e.From c command) : e.Granted := by
  cases e with
  | setPenWidth width => exact h
  | _ => trivial

namespace Context

variable {c : Context}

theorem one_le_of_penWidth {size : Float32} {width : UInt32} (h : penWidth size = .ok width) : 1 ≤ width := by
  unfold penWidth at h
  split at h
  · next hsize =>
      cases h
      exact Number.one_le_toUInt32 hsize
  · cases h

theorem sound_initial : initial.Sound where
  frames := List.cons_ne_nil _ _
  nested := List.isChain_singleton _
  filed signature d hd := by simp [initial] at hd
  penWidth := by decide
  markWidth mark hmark := by simp [initial, Drawing.initial] at hmark

/-- Only the drawing changes: strokes keep their widths if the pen does and all new marks are made with it. -/
theorem Sound.draw (h : c.Sound) {drawing : Drawing} (hpen : 1 ≤ drawing.pen.stroke.width)
    (hcanvas : ∀ mark ∈ drawing.canvas, mark ∈ c.drawing.canvas ∨ mark.stroke = c.drawing.pen.stroke) :
    Sound { c with drawing } where
  frames := h.frames
  nested := h.nested
  filed := h.filed
  penWidth := hpen
  markWidth mark hmark := by
    rcases hcanvas mark hmark with hold | hnew
    · exact h.markWidth mark hold
    · rw [hnew]
      exact h.penWidth

theorem Sound.withScopes (h : c.Sound) {scopes : Scopes} (hnested : scopes.Nested) : Sound { c with scopes } where
  frames := List.cons_ne_nil _ _
  nested := hnested
  filed := h.filed
  penWidth := h.penWidth
  markWidth := h.markWidth

theorem mem_canvas_mark {d : Drawing} {figure : Figure} {mark : Mark} (h : mark ∈ (d.mark figure).canvas) :
    mark ∈ d.canvas ∨ mark.stroke = d.pen.stroke := by
  unfold Drawing.mark at h
  split at h
  · rcases Array.mem_push.1 h with hold | rfl
    · exact .inl hold
    · exact .inr rfl
  · exact .inl h

theorem pen_mark (d : Drawing) (figure : Figure) : (d.mark figure).pen = d.pen := by
  unfold Drawing.mark
  split <;> rfl

theorem Sound.penWidth_mark (h : c.Sound) (figure : Figure) : 1 ≤ (c.drawing.mark figure).pen.stroke.width := by
  rw [pen_mark]
  exact h.penWidth

theorem sound_define (h : c.Sound) (d : Definition) : (c.define d).Sound where
  frames := h.frames
  nested := h.nested
  filed signature d' hd' := by
    change (c.procedures.define d)[signature]? = some d' at hd'
    rw [Procedures.getElem?_define] at hd'
    split at hd'
    · next hsignature =>
        cases hd'
        rw [← hsignature]
        exact ⟨rfl, rfl⟩
    · exact h.filed signature d' hd'
  penWidth := h.penWidth
  markWidth := h.markWidth

theorem sound_perform (h : c.Sound) {e : Effect} (granted : e.Granted) : (c.perform e).Sound := by
  cases e with
  | moveTo target | arc sweep radius =>
      exact h.draw (h.penWidth_mark _) fun mark hmark => mem_canvas_mark hmark
  | face | turn | setPenDown | setPenColour | setSlot =>
      exact h.draw h.penWidth fun mark hmark => .inl hmark
  | home =>
      -- The pen is put back to its first width.
      exact h.draw (show (1 : UInt32) ≤ 1 by decide) fun mark hmark => .inl hmark
  | setPenWidth width =>
      rcases granted with ⟨size, hsize⟩
      exact h.draw (one_le_of_penWidth hsize) fun mark hmark => .inl hmark
  | bind name value =>
      exact h.withScopes (Scopes.nested_bind h.nested name value)
  | define d =>
      exact sound_define h d
  | print | exit | rest =>
      exact ⟨h.frames, h.nested, h.filed, h.penWidth, h.markWidth⟩

theorem sound_enter (h : c.Sound) : Sound { c with scopes := c.scopes.enter } :=
  h.withScopes (Scopes.nested_enter h.nested)

theorem sound_enterCall (h : c.Sound) (d : Definition) (values : List Float32) : (c.enterCall d values).Sound :=
  h.withScopes (Scopes.nested_bindAll (Scopes.nested_enter h.nested) d.params values)

theorem sound_leaveCall (h : c.Sound) : c.leaveCall.Sound :=
  h.withScopes (Scopes.nested_leave h.nested)

theorem kept_sound : Kept (fun _ _ => True) Sound where
  effect _ h hstep := sound_perform h (Command.source_of_step hstep).granted
  call d values h := sound_enterCall h d values
  leave := sound_leaveCall

/-- The table has a definition only under its own number of parameters, which is the number of arguments of the call. -/
theorem Sound.binds (h : c.Sound) {command : Command} {d : Definition} {values : List Float32}
    (hstep : command.step c = .ok (.call d values)) : values.length = command.operands.length ∧ c.Binds d values := by
  cases Command.leads_of_step hstep with
  | series head series? => cases series?
  | call head found length =>
      -- The definition was looked up by the number of operands.
      have hlength : d.params.length = command.operands.length := (h.filed _ d found).2
      refine ⟨length, length.trans hlength.symm, ?_⟩
      intro i name value hname hvalue hlast
      exact Scopes.read_bindAll c.scopes.enter hname hvalue hlast

/-! ## Histories -/

/-- The contexts that a new one can become. -/
inductive Reachable : Context → Prop where
  | initial : Reachable initial
  | effect {c : Context} {e : Effect} (before : Reachable c) (granted : e.Granted) : Reachable (c.perform e)
  | enter {c : Context} (before : Reachable c) : Reachable { c with scopes := c.scopes.enter }
  | leave {c : Context} (before : Reachable c) : Reachable { c with scopes := c.scopes.leave }
  /-- A program has ended, in whatever way. -/
  | run {fuel : Nat} {p : Program} {m m' : Machine} {result : Except RuntimeError Unit} (before : Reachable m.context)
      (ends : Machine.run fuel p m = some (result, m')) : Reachable m'.context
  /-- Commands are being executed. -/
  | during {t : Task} {m : Machine} {log : List Event} {c : Context} (before : Reachable m.context)
      (reaches : Reaches t m log c) : Reachable c

theorem Reachable.sound (h : Reachable c) : c.Sound := by
  induction h with
  | initial => exact sound_initial
  | effect _ granted ih => exact sound_perform ih granted
  | enter _ ih => exact sound_enter ih
  | leave _ ih => exact sound_leaveCall ih
  | @run fuel p m m' result _ ends ih =>
      rcases Machine.reaches_of_run ends with ⟨log, hreaches⟩
      -- The definitions of the program are entered before its first command is started.
      have hentered : (m.enterDefinitions p).context.Sound := List.foldlRecOn _ _ ih fun _ hc d _ => sound_define hc d
      exact hreaches.keeps_always kept_sound hentered
  | during _ reaches ih => exact reaches.keeps_always kept_sound ih

/-- Whatever was done to a context, it has a frame, frames hold the names of those below them, procedures stand where they
are looked for, no stroke is without width, and calls bind what they should. -/
theorem reachable_contexts_are_sound (h : Reachable c) :
    c.Sound ∧ ∀ (command : Command) (d : Definition) (values : List Float32), command.step c = .ok (.call d values) →
      values.length = command.operands.length ∧ c.Binds d values :=
  ⟨h.sound, fun _ _ _ hstep => h.sound.binds hstep⟩

/-- A context whose holder has closed a frame too many and then opened one. -/
def unbalanced : Context :=
  let c := initial.perform (.bind "n" 4)
  let closed := { c with scopes := c.scopes.leave }
  { closed with scopes := closed.scopes.enter }

theorem reachable_unbalanced : Reachable unbalanced :=
  .enter (.leave (.effect .initial trivial))

/-- Draws a line and then asks for a pen of no width. -/
def fadingLine : Definition :=
  { name := "fade"
    params := ["n", "size"]
    body :=
      [ ⟨.builtin .setPenSize, [.value (.var "size")], ⟨2, 1⟩⟩,
        ⟨.builtin .setX, [.value (.var "n")], ⟨3, 1⟩⟩,
        ⟨.builtin .setPenSize, [.value (.number 0)], ⟨4, 1⟩⟩ ] }

def fadeCall : Command :=
  ⟨.call "fade", [.value (.number 30), .value (.var "n")], ⟨6, 1⟩⟩

theorem sound_after_failed_call :
    (∃ m', Machine.run 6 [⟨.builtin .define, [.definition fadingLine], ⟨1, 1⟩⟩, fadeCall] (Machine.ofContext unbalanced) =
        some (.error ⟨4, .invalidPenSize 0⟩, m') ∧ m'.context.drawing.canvas.size = 1 ∧ m'.context.Sound) ∧
      (unbalanced.define fadingLine).Binds fadingLine [30, 4] := by
  refine ⟨?_, ?_⟩
  · have hend : (Machine.run 6 [⟨.builtin .define, [.definition fadingLine], ⟨1, 1⟩⟩, fadeCall]
        (Machine.ofContext unbalanced)).map (fun r => (r.1, r.2.context.drawing.canvas.size)) =
          some (.error ⟨4, .invalidPenSize 0⟩, 1) := by
      decide +kernel
    rcases Option.map_eq_some_iff.1 hend with ⟨⟨result, m'⟩, hrun, hsize⟩
    simp only [Prod.mk.injEq] at hsize
    rcases hsize with ⟨rfl, hcanvas⟩
    exact ⟨m', hrun, hcanvas, (reachable_contexts_are_sound (.run reachable_unbalanced hrun)).1⟩
  · have hdefined : Reachable (unbalanced.perform (.define fadingLine)) := .effect reachable_unbalanced trivial
    have hfound : (unbalanced.procedures.define fadingLine).find? "fade" 2 = some fadingLine := by
      rw [Procedures.find?_define, if_pos (by decide +kernel)]
    have hvalues : (unbalanced.perform (.define fadingLine)).evalArguments "fade" 0 fadeCall.operands = .ok [30, 4] := by
      decide
    have hstep : fadeCall.step (unbalanced.perform (.define fadingLine)) = .ok (.call fadingLine [30, 4]) := by
      change callStep _ "fade" fadeCall.operands = _
      unfold callStep
      rw [show (unbalanced.perform (.define fadingLine)).procedures.find? "fade" fadeCall.operands.length =
        some fadingLine from hfound, hvalues]
      rfl
    exact ((reachable_contexts_are_sound hdefined).2 fadeCall fadingLine [30, 4] hstep).2

end Context
end TurtleLogo
