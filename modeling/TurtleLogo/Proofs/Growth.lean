import Mathlib.Data.List.Basic
import TurtleLogo.Proofs.Tracing

/-!
# Nothing is taken back

What a program has drawn and shown stays, a program that wishes to exit goes on wishing it, and a procedure once defined
is always there under its name and number of parameters, if perhaps with another body. This holds from any moment of an
execution to any later one, whether the execution finishes, stops or fails:

* `Context.Grows a b` — nothing of `a` has been taken back in `b`;
* `Context.grows_perform` — no effect takes anything back;
* `Runs.grows` — so no execution does;
* `Traces.grows` — each context in which a command is started lies between the one at the beginning of the execution and
  the one at its end.
-/

namespace TurtleLogo

/-- A mark is added to the others or left out. -/
theorem Drawing.canvas_mark (d : Drawing) (figure : Figure) :
    d.canvas.toList <+: (d.mark figure).canvas.toList := by
  unfold mark
  by_cases hdown : d.pen.isDown = true
  · simp [hdown]
  · simp [hdown]

namespace Context

/-- Marks and lines have only been added, the wish to exit has not been dropped, and no procedure has disappeared. -/
structure Grows (a b : Context) : Prop where
  canvas : a.drawing.canvas.toList <+: b.drawing.canvas.toList
  transcript : a.transcript.toList <+: b.transcript.toList
  exiting : a.exiting = true → b.exiting = true
  procedures : ∀ signature ∈ a.procedures, signature ∈ b.procedures

namespace Grows

theorem refl (c : Context) : Grows c c where
  canvas := List.prefix_rfl
  transcript := List.prefix_rfl
  exiting := id
  procedures _ := id

theorem trans {a b c : Context} (hab : Grows a b) (hbc : Grows b c) : Grows a c where
  canvas := hab.canvas.trans hbc.canvas
  transcript := hab.transcript.trans hbc.transcript
  exiting hx := hbc.exiting (hab.exiting hx)
  procedures signature hmem := hbc.procedures signature (hab.procedures signature hmem)

end Grows

/-! ## Single changes -/

/-- Turtle, pen and palette may change as long as the canvas keeps its marks. -/
theorem grows_drawing (c : Context) {drawing : Drawing}
    (h : c.drawing.canvas.toList <+: drawing.canvas.toList) : Grows c { c with drawing } where
  canvas := h
  transcript := List.prefix_rfl
  exiting := id
  procedures _ := id

theorem grows_define (c : Context) (d : Definition) : Grows c (c.define d) where
  canvas := List.prefix_rfl
  transcript := List.prefix_rfl
  exiting := id
  procedures _ hmem := Std.ExtTreeMap.mem_insert.2 (.inr hmem)

theorem grows_perform (c : Context) (e : Effect) : Grows c (c.perform e) := by
  cases e with
  | moveTo target =>
      exact c.grows_drawing (c.drawing.canvas_mark _)
  | arc sweep radius =>
      exact c.grows_drawing (c.drawing.canvas_mark _)
  | face | turn | home | setPenDown | setPenWidth | setPenColour | setSlot =>
      exact c.grows_drawing List.prefix_rfl
  | print line =>
      have hshown : c.transcript.toList <+: (c.transcript.push line).toList := by
        simp
      exact ⟨List.prefix_rfl, hshown, id, fun _ => id⟩
  | define d =>
      exact c.grows_define d
  | exit =>
      exact ⟨List.prefix_rfl, List.prefix_rfl, fun _ => rfl, fun _ => id⟩
  | bind | rest =>
      exact ⟨List.prefix_rfl, List.prefix_rfl, id, fun _ => id⟩

/-- Frames come and go with calls; nothing else does. -/
theorem grows_enterCall (c : Context) (d : Definition) (values : List Float32) : Grows c (c.enterCall d values) :=
  ⟨List.prefix_rfl, List.prefix_rfl, id, fun _ => id⟩

theorem grows_leaveCall (c : Context) : Grows c c.leaveCall :=
  ⟨List.prefix_rfl, List.prefix_rfl, id, fun _ => id⟩

theorem grows_foldl_define (definitions : List Definition) (c : Context) : Grows c (definitions.foldl define c) := by
  induction definitions generalizing c with
  | nil =>
      exact .refl c
  | cons d definitions ih =>
      exact (c.grows_define d).trans (ih (c.define d))

/-- Any commands at all keep what a context `start` had. -/
theorem preserved_grows (start : Context) : Preserved (fun _ => True) (Grows start) where
  effect _ h _ := h.trans (grows_perform _ _)
  enter _ _ _ _ _ _ := trivial
  call _ h _ := ⟨fun _ _ => trivial, h.trans (grows_enterCall _ _ _)⟩
  leave h := h.trans (grows_leaveCall _)

end Context

/-! ## Executions -/

open Context (Grows)

theorem Task.all_true (t : Task) : t.All fun _ => True := by
  cases t with
  | command c => exact trivial
  | series s => exact fun _ _ => trivial

theorem Runs.grows {t : Task} {m m' : Machine} {o : Outcome} (h : Runs t m o m') : Grows m.context m'.context :=
  (h.preserves (Context.preserved_grows m.context) t.all_true (.refl m.context)).1

/-- At every moment of an execution all is there that was there at its beginning, and nothing of that moment is missing at
its end. -/
theorem Traces.grows {t : Task} {m m' : Machine} {o : Outcome} {log : List Event} (h : Traces t m log (some (o, m')))
    {event : Event} (hmem : event ∈ log) :
    Grows m.context event.machine.context ∧ Grows event.machine.context m'.context := by
  have hruns := h.runs
  generalize hresult : some (o, m') = result at h
  induction h generalizing o m' event with
  | begun | done | exiting =>
      cases hmem
  | fault | effect | stop =>
      -- The only event is the beginning of the execution itself.
      rcases List.mem_singleton.1 hmem with rfl
      exact ⟨.refl _, hruns.grows⟩
  | enter step series? traces ih =>
      rcases List.mem_cons.1 hmem with rfl | hmem
      · exact ⟨.refl _, hruns.grows⟩
      · subst hresult
        exact ih hmem traces.runs rfl
  | @call command m d values inner result step traces ih =>
      rcases List.mem_cons.1 hmem with rfl | hmem
      · exact ⟨.refl _, hruns.grows⟩
      · -- The event belongs to the body, which lies between the beginning and the end of the call.
        rcases List.mem_map.1 hmem with ⟨event', hmem', rfl⟩
        rcases Option.map_eq_some_iff.1 hresult.symm with ⟨⟨o', n⟩, rfl, hreturned⟩
        rcases ih hmem' traces.runs rfl with ⟨hbefore, hafter⟩
        have hn : n.leaveCall = m' := congrArg Prod.snd ((Machine.returned_eq o' n).symm.trans hreturned)
        subst hn
        exact ⟨(m.context.grows_enterCall d values).trans hbefore, hafter.trans n.context.grows_leaveCall⟩
  | next hx split first rest ihFirst ihRest =>
      subst hresult
      rcases List.mem_append.1 hmem with hmem | hmem
      · rcases ihFirst hmem first.runs rfl with ⟨hbefore, hafter⟩
        exact ⟨hbefore, hafter.trans rest.runs.grows⟩
      · rcases ihRest hmem rest.runs rfl with ⟨hbefore, hafter⟩
        exact ⟨first.runs.grows.trans hbefore, hafter⟩
  | halt hx split first halted ih =>
      subst hresult
      exact ih hmem first.runs rfl

/-! ## Executions with fuel -/

namespace Machine

/-- However a command, a block or a program ends, it has taken nothing back, neither of what was there when it began nor
of what has been added on the way. -/
theorem output_only_grows (fuel : Nat) (m m' : Machine) :
    (∀ command o, exec fuel command m = some (o, m') → Grows m.context m'.context) ∧
    (∀ body o, execBlock fuel body m = some (o, m') → Grows m.context m'.context) ∧
    (∀ p result, run fuel p m = some (result, m') → Grows m.context m'.context) ∧
    (∀ t o log event, Traces t m log (some (o, m')) → event ∈ log →
      Grows m.context event.machine.context ∧ Grows event.machine.context m'.context) := by
  refine ⟨?_, ?_, ?_, ?_⟩
  · intro command o h
    exact (runs_of_exec fuel h).grows
  · intro body o h
    exact (runs_of_execBlock h).grows
  · intro p result h
    rcases runs_of_run h with ⟨o, hruns, -⟩
    have hentered : Grows m.context (m.enterDefinitions p).context := Context.grows_foldl_define _ _
    exact hentered.trans hruns.grows
  · intro t o log event h hmem
    exact h.grows hmem

/-- A context with a mark on its canvas, a line shown and a procedure defined. -/
def usedContext : Context :=
  { Context.initial with
    drawing := Drawing.initial.moveTo ⟨30, 0⟩
    transcript := #["7"]
    procedures := Procedures.define ∅ ⟨"rest", [], []⟩ }

/-- A program that draws, shows and then fails, in a procedure that is called by a loop. -/
def failingDrawing : Program :=
  [ ⟨.builtin .define, [.definition
      { name := "draw"
        params := ["n"]
        body :=
          [ ⟨.builtin .setX, [.value (.var "n")], ⟨2, 1⟩⟩,
            ⟨.builtin .print, [.value (.var "n")], ⟨3, 1⟩⟩,
            ⟨.builtin .setPenSize, [.value (.number 0)], ⟨4, 1⟩⟩ ] }], ⟨1, 1⟩⟩,
    ⟨.builtin .repeatBlock, [.value (.number 2), .block [⟨.call "draw", [.value (.number 5)], ⟨6, 3⟩⟩]], ⟨6, 1⟩⟩ ]

theorem failing_drawing_only_grows :
    ∃ m', run 6 failingDrawing (ofContext usedContext) = some (.error ⟨4, .invalidPenSize 0⟩, m') ∧
      m'.context.drawing.canvas.size = 2 ∧ m'.context.transcript.size = 2 ∧ Grows usedContext m'.context := by
  have hend : (run 6 failingDrawing (ofContext usedContext)).map
      (fun r => (r.1, r.2.context.drawing.canvas.size, r.2.context.transcript.size)) =
        some (.error ⟨4, .invalidPenSize 0⟩, 2, 2) := by
    decide +kernel
  rcases Option.map_eq_some_iff.1 hend with ⟨⟨result, m'⟩, hrun, hsizes⟩
  simp only [Prod.mk.injEq] at hsizes
  rcases hsizes with ⟨rfl, hcanvas, htranscript⟩
  exact ⟨m', hrun, hcanvas, htranscript, (output_only_grows 6 _ m').2.2.1 _ _ hrun⟩

end Machine
end TurtleLogo
