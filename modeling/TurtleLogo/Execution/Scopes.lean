import Std.Data.ExtTreeMap
import TurtleLogo.Program.Basic

/-!
# Bindings

Variables live in frames, one for each procedure call that has not ended and one below them all. A call starts with
a copy of the caller's frame, so that its own bindings end with it. Procedures live in one table for all frames, under
their name in lower case and the number of their parameters.

Both maps are extensional: two with the same entries are equal.
-/

namespace TurtleLogo

/-- The variables of one call. -/
abbrev Frame := Std.ExtTreeMap String Float32

/-- The frame in use and the frames of its callers, the nearest first. -/
structure Scopes where
  top : Frame
  below : List Frame

namespace Scopes

def initial : Scopes := ⟨∅, []⟩

/-- The value of a variable; a name without a binding has the value zero. -/
def read (s : Scopes) (name : String) : Float32 :=
  s.top.getD name 0

def bind (s : Scopes) (name : String) (value : Float32) : Scopes :=
  { s with top := s.top.insert name value }

/-- A new frame with the bindings of the old one. -/
def enter (s : Scopes) : Scopes :=
  ⟨s.top, s.top :: s.below⟩

/-- Back to the caller's frame; the lowest frame stays. -/
def leave (s : Scopes) : Scopes :=
  match s.below with
  | [] => s
  | caller :: below => ⟨caller, below⟩

/-- The number of frames. -/
def depth (s : Scopes) : Nat :=
  s.below.length + 1

@[simp] theorem leave_enter (s : Scopes) : s.enter.leave = s := rfl

@[simp] theorem depth_enter (s : Scopes) : s.enter.depth = s.depth + 1 := rfl

@[simp] theorem depth_bind (s : Scopes) (name : String) (value : Float32) :
    (s.bind name value).depth = s.depth := rfl

theorem read_bind (s : Scopes) (name other : String) (value : Float32) :
    (s.bind name value).read other = if name = other then value else s.read other := by
  simp [read, bind, Std.ExtTreeMap.getD_insert]

/-- The scopes in which names are bound to values, in order. -/
def bindAll (s : Scopes) (names : List String) (values : List Float32) : Scopes :=
  (names.zip values).foldl (fun scopes binding => scopes.bind binding.1 binding.2) s

end Scopes

/-- What tells procedures apart. -/
structure Signature where
  name : String
  arity : Nat
  deriving DecidableEq, Repr

namespace Signature

/-- Signatures in order of their names, those of one name in order of their arities. -/
def order : Signature → Signature → Ordering :=
  compareLex (compareOn Signature.name) (compareOn Signature.arity)

instance : Std.TransCmp order :=
  inferInstanceAs (Std.TransCmp (compareLex (compareOn Signature.name) (compareOn Signature.arity)))

instance : Std.LawfulEqCmp order where
  eq_of_compare {a b} h := by
    simp only [order, compareLex, compareOn, Ordering.then_eq_eq, Std.LawfulEqCmp.compare_eq_iff_eq] at h
    cases a
    cases b
    simp_all

/-- The signature of a name in any case. -/
def of (name : String) (arity : Nat) : Signature :=
  ⟨name.toLower, arity⟩

end Signature

def Definition.signature (d : Definition) : Signature :=
  Signature.of d.name d.params.length

/-- The defined procedures; a later definition replaces an earlier one of the same signature. -/
abbrev Procedures := Std.ExtTreeMap Signature Definition Signature.order

namespace Procedures

def define (p : Procedures) (d : Definition) : Procedures :=
  p.insert d.signature d

def find? (p : Procedures) (name : String) (arity : Nat) : Option Definition :=
  p[Signature.of name arity]?

theorem find?_define (p : Procedures) (d : Definition) (name : String) (arity : Nat) :
    (p.define d).find? name arity =
      if d.signature = Signature.of name arity then some d else p.find? name arity := by
  simp [find?, define, Std.ExtTreeMap.getElem?_insert]

end Procedures
end TurtleLogo
