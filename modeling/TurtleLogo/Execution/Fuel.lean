import TurtleLogo.Execution.Machine

/-!
# More fuel keeps a result

An execution that ends within some fuel ends in the same way within any greater amount. So it makes sense to speak of the
result of a command, whatever the fuel it was found with.
-/

namespace TurtleLogo
namespace Machine

/-- `g` gives every result that `f` gives. -/
def Extends {α : Type} (f g : α → Machine → Execution) : Prop :=
  ∀ a m r, f a m = some r → g a m = some r

theorem execAll_extends {f g : Command → Machine → Execution} (h : Extends f g) :
    Extends (execAll f) (execAll g) := by
  intro commands
  induction commands with
  | nil =>
      intro m r hr
      exact hr
  | cons command rest ih =>
      intro m r hr
      unfold execAll at hr ⊢
      split at hr
      · rename_i hx
        simpa [hx] using hr
      · rename_i hx
        cases hf : f command m with
        | none => simp [hf] at hr
        | some result =>
            obtain ⟨outcome, next⟩ := result
            rw [hf] at hr
            rw [if_neg hx, h command m _ hf]
            cases outcome with
            | finished => exact ih next r hr
            | stopped => exact hr
            | failed error => exact hr

theorem repeatTimes_extends {f g : Machine → Execution} (h : ∀ m r, f m = some r → g m = some r) :
    Extends (repeatTimes f) (repeatTimes g) := by
  intro count
  induction count with
  | zero =>
      intro m r hr
      exact hr
  | succ count ih =>
      intro m r hr
      unfold repeatTimes at hr ⊢
      split at hr
      · rename_i hx
        simpa [hx] using hr
      · rename_i hx
        cases hf : f m with
        | none => simp [hf] at hr
        | some result =>
            obtain ⟨outcome, next⟩ := result
            rw [hf] at hr
            rw [if_neg hx, h m _ hf]
            cases outcome with
            | finished => exact ih next r hr
            | stopped => exact hr
            | failed error => exact hr

theorem repeatForever_succ {f g : Machine → Execution} (h : ∀ m r, f m = some r → g m = some r) (fuel : Nat) :
    ∀ m r, repeatForever f fuel m = some r → repeatForever g (fuel + 1) m = some r := by
  induction fuel with
  | zero =>
      intro m r hr
      simp [repeatForever] at hr
  | succ fuel ih =>
      intro m r hr
      unfold repeatForever at hr ⊢
      split at hr
      · rename_i hx
        simpa [hx] using hr
      · rename_i hx
        cases hf : f m with
        | none => simp [hf] at hr
        | some result =>
            obtain ⟨outcome, next⟩ := result
            rw [hf] at hr
            rw [if_neg hx, h m _ hf]
            cases outcome with
            | finished => exact ih next r hr
            | stopped => exact hr
            | failed error => exact hr

theorem exec_succ (fuel : Nat) : Extends (exec fuel) (exec (fuel + 1)) := by
  induction fuel with
  | zero =>
      intro command m r hr
      simp [exec] at hr
  | succ fuel ih =>
      have blocks := execAll_extends ih
      intro command m r hr
      obtain ⟨context, line⟩ := m
      rw [exec] at hr ⊢
      cases hs : command.step context with
      | error fault =>
          rw [hs] at hr
          exact hr
      | ok step =>
          rw [hs] at hr
          cases step with
          | effect e => exact hr
          | stop => exact hr
          | run body => exact blocks body _ r hr
          | times count body => exact repeatTimes_extends (blocks body) count _ r hr
          | forever body => exact repeatForever_succ (blocks body) fuel _ r hr
          | call d values =>
              obtain ⟨result, hresult, rfl⟩ := Option.map_eq_some_iff.1 hr
              exact Option.map_eq_some_iff.2 ⟨result, blocks _ _ _ hresult, rfl⟩

/-- A result found with some fuel is found with any more. -/
theorem exec_of_le {fuel more : Nat} (h : fuel ≤ more) : Extends (exec fuel) (exec more) := by
  induction h with
  | refl =>
      intro command m r hr
      exact hr
  | step _ ih =>
      intro command m r hr
      exact exec_succ _ command m r (ih command m r hr)

theorem execBlock_of_le {fuel more : Nat} (h : fuel ≤ more) : Extends (execBlock fuel) (execBlock more) :=
  execAll_extends (exec_of_le h)

/-- A program's result does not change with more fuel. -/
theorem run_of_le {fuel more : Nat} (h : fuel ≤ more) (p : Program) (m : Machine)
    {r : Except RuntimeError Unit × Machine} (hr : run fuel p m = some r) : run more p m = some r := by
  obtain ⟨result, hresult, rfl⟩ := Option.map_eq_some_iff.1 hr
  exact Option.map_eq_some_iff.2 ⟨result, execBlock_of_le h _ _ _ hresult, rfl⟩

end Machine
end TurtleLogo
