import TurtleLogo.Proofs.Placement
import TurtleLogo.Proofs.Rounding

/-!
# Loops are long blocks

A loop that goes round a number of times does what the block does in which its body is written out as often. The machine
does not know this: it looks for the wish to exit in two places, before the commands of a block and before the rounds of a
loop, and passes stops and errors on in two places.

* `Number.repeatCount_eq` — how often a loop goes round;
* `Machine.execBlock_append` — two blocks written as one are executed one after the other;
* `Machine.repeatTimes_eq_execBlock` — so the rounds of a loop can be written one after the other.
-/

namespace TurtleLogo

/-! ## Whole parts of numbers -/

namespace Number

open Float.Model (UnpackedFloat)

theorem toNat_ofNatClamp (n : Nat) : (UInt64.ofNatClamp n).toNat = min n (twoTo 64 - 1) := by
  have hsize : UInt64.size - 1 = twoTo 64 - 1 := rfl
  unfold UInt64.ofNatClamp
  split
  · next h =>
      rw [UInt64.toNat_ofNatLT, ← hsize]
      omega
  · next h =>
      rw [UInt64.toNat_ofNatLT, ← hsize]
      omega

section Steps

variable {x : Float32}

theorem steps_of_zero {s : UnpackedFloat.Sign} (h : unpacked x = .zero s) : steps x = 0 := by
  have hfinite : (unpacked x).isFinite = true := by rw [h]; rfl
  have hbits : magnitudeBits x = 0 := by
    simpa [h, Occupies] using (unpacked_spec (x := x) hfinite).2
  simp [steps, hbits]

/-- The last bit of a mantissa counts for a power of two, and so for a number of steps. -/
theorem steps_of_finite {s : UnpackedFloat.Sign} {m : Nat} {e : Int} {hm : 0 < m} (h : unpacked x = .finite s m e hm) :
    -149 ≤ e ∧ steps x = m * 2 ^ (e + 149).toNat := by
  have hfinite : (unpacked x).isFinite = true := by rw [h]; rfl
  have hspec := unpacked_spec (x := x) hfinite
  rw [h] at hspec
  rcases hspec with ⟨⟨hlt, hlow, -, hform⟩, hbits⟩
  simp only [Occupies] at hbits
  have htwo : twoTo 23 = 2 ^ 23 := rfl
  refine ⟨hlow, ?_⟩
  unfold steps
  rcases Nat.lt_or_ge m (2 ^ 23) with hsmall | hlead
  · have he : e = -149 := by omega
    have hfield : magnitudeBits x / twoTo 23 = 0 := by rw [htwo]; omega
    have hfraction : magnitudeBits x % twoTo 23 = m := by rw [htwo]; omega
    rw [if_pos hfield, hfraction, he]
    exact (Nat.mul_one m).symm
  · have hfield : magnitudeBits x / twoTo 23 = (e + 149).toNat + 1 := by rw [htwo]; omega
    have hfraction : twoTo 23 + magnitudeBits x % twoTo 23 = m := by rw [htwo]; omega
    rw [if_neg (by omega), hfraction, hfield]
    rfl

theorem whole_eq (m : Nat) {e : Int} (he : -149 ≤ e) :
    m * 2 ^ e.toNat / 2 ^ (-e).toNat = m * 2 ^ (e + 149).toNat / stepsPerOne := by
  have hone : stepsPerOne = 2 ^ 149 := rfl
  rw [hone]
  rcases Int.le_total 0 e with hpos | hneg
  · have hdown : (-e).toNat = 0 := by omega
    have hup : (e + 149).toNat = e.toNat + 149 := by omega
    rw [hdown, hup, Nat.pow_zero, Nat.div_one, Nat.pow_add, ← Nat.mul_assoc, Nat.mul_div_cancel _ (Nat.two_pow_pos _)]
  · have hup : e.toNat = 0 := by omega
    have hdown : 2 ^ 149 = 2 ^ (-e).toNat * 2 ^ (e + 149).toNat := by
      rw [← Nat.pow_add]
      congr 1
      omega
    rw [hup, hdown, Nat.pow_zero, Nat.mul_one, Nat.mul_div_mul_right _ _ (Nat.two_pow_pos _)]

end Steps

/-- The whole part of a number that is not negative, and what stands for infinity. -/
theorem toNat_toInt {x : Float32} (hnan : x.isNaN = false) (hneg : ¬ x < 0) (low high : Int) :
    (UnpackedFloat.toInt low high (unpacked x)).toNat = if x.isInf then high.toNat else steps x / stepsPerOne := by
  have hlt : ¬ (unpacked x).lt (.zero .positive) = true := fun h => hneg (lt_iff.2 h)
  change (unpacked x).isNaN = false at hnan
  change _ = if (unpacked x).isInf = true then _ else _
  cases h : unpacked x with
  | notANumber =>
      rw [h] at hnan
      cases hnan
  | zero s =>
      rw [steps_of_zero h]
      rfl
  | infinity s =>
      cases s with
      | negative =>
          rw [h] at hlt
          exact absurd rfl hlt
      | positive => rfl
  | finite s m e hm =>
      cases s with
      | negative =>
          rw [h] at hlt
          exact absurd rfl hlt
      | positive =>
          rcases steps_of_finite h with ⟨he, hsteps⟩
          rw [UnpackedFloat.toInt, roundToInt_positive, Int.toNat_natCast, whole_eq m he, hsteps]
          rfl

theorem toNat_toUInt64 {x : Float32} (hnan : x.isNaN = false) (hneg : ¬ x < 0) :
    x.toUInt64.toNat = if x.isInf then twoTo 64 - 1 else min (steps x / stepsPerOne) (twoTo 64 - 1) := by
  have hcount : x.toUInt64.toNat = min (UnpackedFloat.toInt 0 (UInt64.size - 1) (unpacked x)).toNat (twoTo 64 - 1) :=
    toNat_ofNatClamp _
  rw [hcount, toNat_toInt hnan hneg]
  split <;> rfl

/-- A loop does not go round for a number that is negative or no number at all. Otherwise it goes round as often as the
whole part of the number says, up to the greatest number of sixty-four bits. -/
theorem repeatCount_eq (x : Float32) :
    repeatCount x =
      if x.isNaN = true ∨ x < 0 then 0
      else if x.isInf then twoTo 64 - 1
      else min (steps x / stepsPerOne) (twoTo 64 - 1) := by
  have hzero : (0 : Float32).toUInt64.toNat = 0 := by decide
  unfold repeatCount greatest
  by_cases hnan : x.isNaN = true
  · rw [if_pos hnan, if_pos (.inl hnan)]
    exact hzero
  · by_cases hneg : x < 0
    · rw [if_neg hnan, if_pos hneg, if_pos (.inr hneg)]
      exact hzero
    · rw [if_neg hnan, if_neg hneg, if_neg (not_or.2 ⟨hnan, hneg⟩)]
      exact toNat_toUInt64 (Bool.not_eq_true _ ▸ hnan) hneg

end Number

/-! ## Blocks one after the other -/

namespace Machine

/-- Goes on with the rest if an execution has finished. -/
def andThen (execution : Execution) (rest : Machine → Execution) : Execution :=
  match execution with
  | some (.finished, next) => rest next
  | other => other

theorem proceed_eq_andThen {m : Machine} (hx : m.context.exiting = false) (execution : Execution)
    (rest : Machine → Execution) : proceed m execution rest = andThen execution rest := by
  unfold proceed
  rw [hx]
  rfl

theorem andThen_andThen (execution : Execution) (rest last : Machine → Execution) :
    andThen (andThen execution rest) last = andThen execution fun next => andThen (rest next) last := by
  rcases execution with _ | ⟨o, m⟩
  · rfl
  · cases o <;> rfl

theorem execBlock_append (fuel : Nat) (first second : List Command) (m : Machine) :
    execBlock fuel (first ++ second) m = andThen (execBlock fuel first m) (execBlock fuel second) := by
  induction first generalizing m with
  | nil => rfl
  | cons command rest ih =>
      cases hx : m.context.exiting with
      | true =>
          -- Neither block does anything.
          rw [execBlock_of_exiting hx, execBlock_of_exiting hx]
          exact (execBlock_of_exiting hx fuel second).symm
      | false =>
          calc execBlock fuel (command :: (rest ++ second)) m
              = andThen (exec fuel command m) (execBlock fuel (rest ++ second)) := proceed_eq_andThen hx _ _
            _ = andThen (exec fuel command m) fun next => andThen (execBlock fuel rest next) (execBlock fuel second) := by
              rw [funext ih]
            _ = andThen (andThen (exec fuel command m) (execBlock fuel rest)) (execBlock fuel second) :=
              (andThen_andThen _ _ _).symm
            _ = andThen (execBlock fuel (command :: rest) m) (execBlock fuel second) :=
              congrArg (andThen · _) (proceed_eq_andThen hx _ _).symm

/-! ## Rounds one after the other -/

theorem repeatTimes_eq_execBlock (fuel count : Nat) (body : List Command) (m : Machine) :
    repeatTimes (execBlock fuel body) count m = execBlock fuel (List.replicate count body).flatten m := by
  induction count generalizing m with
  | zero => rfl
  | succ count ih =>
      rw [List.replicate_succ, List.flatten_cons, execBlock_append, repeatTimes_succ]
      cases hx : m.context.exiting with
      | true =>
          rw [proceed_of_exiting hx, execBlock_of_exiting hx]
          exact (execBlock_of_exiting hx fuel _).symm
      | false => rw [proceed_eq_andThen hx, funext ih]

/-- The outcome of an execution and the context it leaves; the line of the machine is forgotten. -/
def visible (r : Outcome × Machine) : Outcome × Context :=
  (r.1, r.2.context)

/-- A loop spends one unit of fuel on itself. -/
theorem exec_repeat {m : Machine} {count : Expression} {value : Float32} (heval : m.context.eval count = .ok value)
    (fuel : Nat) (body : List Command) (pos : Position) :
    exec (fuel + 1) ⟨.builtin .repeatBlock, [.value count, .block body], pos⟩ m =
      execBlock fuel (List.replicate (Number.repeatCount value) body).flatten ⟨m.context, pos.line⟩ := by
  have hstep : Command.step m.context ⟨.builtin .repeatBlock, [.value count, .block body], pos⟩ =
      .ok (.times (Number.repeatCount value) body) := by
    simp [Command.step, Builtin.step, Context.evalOperand, Operand.asValue, Operand.asBlock, heval, Bind.bind, Except.bind,
      Pure.pure, Except.pure]
  rw [exec, hstep, ← repeatTimes_eq_execBlock]
  rfl

/-- A loop and the block of its rounds end with the same outcome, an error with its line included, and leave the same
context, if they end at all. The number of rounds is the whole part of the value that the count has when the loop begins,
whatever the rounds do to it. Blocks of two parts are executed part by part. -/
theorem repeat_is_unrolling :
    (∀ (m : Machine) (count : Expression) (value : Float32), m.context.eval count = .ok value →
      ∀ (fuel : Nat) (body : List Command) (pos : Position),
        (exec (fuel + 1) ⟨.builtin .repeatBlock, [.value count, .block body], pos⟩ m).map visible =
          (execBlock fuel (List.replicate (Number.repeatCount value) body).flatten m).map visible) ∧
    (∀ value : Float32, Number.repeatCount value =
      if value.isNaN = true ∨ value < 0 then 0
      else if value.isInf then Number.twoTo 64 - 1
      else min (Number.steps value / Number.stepsPerOne) (Number.twoTo 64 - 1)) ∧
    (∀ (fuel : Nat) (first second : List Command) (m : Machine),
      execBlock fuel (first ++ second) m = andThen (execBlock fuel first m) (execBlock fuel second)) := by
  refine ⟨?_, Number.repeatCount_eq, execBlock_append⟩
  intro m count value heval fuel body pos
  rw [exec_repeat heval]
  exact map_execBlock_line (fun _ _ _ => rfl) fuel _ m.context pos.line m.line

/-- A round that takes one from the variable that the loop counts with, shows it, and stops when less than two is left. -/
def dwindlingRound : List Command :=
  [ ⟨.builtin .make, [.name "n", .value (.apply .difference [.var "n", .number 1])], ⟨1, 12⟩⟩,
    ⟨.builtin .print, [.value (.var "n")], ⟨2, 1⟩⟩,
    ⟨.builtin .ifThen, [.value (.apply .less [.var "n", .number 2]), .block [⟨.builtin .stop, [], ⟨3, 12⟩⟩]], ⟨3, 1⟩⟩ ]

/-- The loop counts to five, since it looks at the variable only once, and is stopped in its fourth round. -/
theorem dwindling_count_is_unrolled :
    let m := ofContext (Context.initial.perform (.bind "n" 5.5))
    let loop : Command := ⟨.builtin .repeatBlock, [.value (.var "n"), .block dwindlingRound], ⟨1, 1⟩⟩
    m.context.eval (.var "n") = .ok 5.5 ∧ Number.repeatCount 5.5 = 5 ∧
      (exec 5 loop m).map (fun r => (r.1, r.2.context.transcript)) = some (.stopped, #["4.5", "3.5", "2.5", "1.5"]) ∧
      (exec 5 loop m).map visible = (execBlock 4 (List.replicate 5 dwindlingRound).flatten m).map visible := by
  intro m loop
  have heval : m.context.eval (.var "n") = .ok 5.5 := by
    decide
  have hcount : Number.repeatCount 5.5 = 5 := by
    decide
  have hunrolled := repeat_is_unrolling.1 m (.var "n") 5.5 heval 4 dwindlingRound ⟨1, 1⟩
  rw [hcount] at hunrolled
  exact ⟨heval, hcount, by decide, hunrolled⟩

end Machine
end TurtleLogo
