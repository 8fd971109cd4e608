import TurtleLogo.Execution.Context
import TurtleLogo.Proofs.ExpressionText
import TurtleLogo.Proofs.Places
import TurtleLogo.Proofs.Unrolling

/-!
# Slots of the palette

A program names a slot by a number, of which only the whole part counts. On the way from the number to the slot nothing is
rounded and nothing is taken for something else:

* `Number.trunc_spec` — what is left when the fraction of a finite number is cut off is a number of the format again, and it is
  the whole part exactly;
* `Palette.slotOf?_eq_some_iff`, `Palette.exists_slotOf?_iff` — so a number has a slot if its whole part lies from zero to
  fifteen, and the slot has this number;
* `Palette.slotByWord?_eq` — a cast that clamps what it cannot hold leads to the same slots;
* `Palette.Call.get_performAll` — after any calls a slot has the colour that was put there last.
-/

namespace TurtleLogo

namespace Number

open Float.Model (UnpackedFloat)
open Float.Model.UnpackedFloat (Sign)

variable {x : Float32}

/-! ## Whole parts -/

theorem signedSteps_neg (f : UnpackedFloat) : signedSteps f.neg = -signedSteps f := by
  cases f with
  | finite s m e hm => exact apply_neg s _
  | infinity s | zero s | notANumber => rfl

theorem place_lt {f : UnpackedFloat} (h : Fits 104 f) : place f < infinityBits := by
  cases f with
  | infinity s | notANumber => exact h.elim
  | zero s => exact Int.natCast_pos.2 (by decide)
  | finite s m e hm =>
      rcases h with ⟨hlt, hlow, htop, -⟩
      cases s <;> simp only [place, Sign.apply, infinityBits_eq] <;> omega

theorem place_ofMagnitudeBits {bits : Nat} (h : bits < infinityBits) : place (unpacked (ofMagnitudeBits bits)) = bits := by
  have hbits : magnitudeBits (ofMagnitudeBits bits) = bits := by
    rw [magnitudeBits, toNat_toBits_ofMagnitudeBits h]
    exact Nat.mod_eq_of_lt (h.trans (by decide))
  rcases unpacked_spec (isFinite_ofMagnitudeBits h) with ⟨hfits, hoccupies⟩
  have habs : unpacked (ofMagnitudeBits bits) = (unpacked (ofMagnitudeBits bits)).abs := by
    have hunpack := unpacked_abs (isFinite_ofMagnitudeBits h)
    rwa [abs_ofMagnitudeBits h] at hunpack
  rw [hbits] at hoccupies
  generalize unpacked (ofMagnitudeBits bits) = f at *
  cases f with
  | infinity s | notANumber => exact hfits.elim
  | zero s => exact congrArg Nat.cast hoccupies.symm
  | finite s m e hm =>
      cases s with
      | positive => exact hoccupies
      | negative => cases habs

/-- A number of steps that some number has is rounded to that number. -/
theorem nearest_spec {f : UnpackedFloat} {num : Nat} (hf : Fits 104 f) (hnum : signedSteps f = num) :
    (nearest num stepsPerOne).isFinite = true ∧ signedSteps (unpacked (nearest num stepsPerOne)) = num := by
  have hbits : (nearestBits num stepsPerOne : Int) = place f := by
    rw [← roundedPlace_signedSteps hf, hnum]
    exact (roundedPlace_apply .positive num).symm
  have hlt : nearestBits num stepsPerOne < infinityBits := by
    have hplace := place_lt hf
    omega
  have hfinite := isFinite_ofMagnitudeBits hlt
  rw [nearest_eq]
  refine ⟨hfinite, ?_⟩
  rw [← hnum]
  exact signedSteps_eq_of_place_eq (unpacked_spec hfinite).1 hf ((place_ofMagnitudeBits hlt).trans hbits)

/-- The format has all whole numbers that a mantissa can hold. -/
theorem exists_fits_of_lt {n : Nat} (h : n < 2 ^ 24) : ∃ f, Fits 104 f ∧ signedSteps f = (n * stepsPerOne : Nat) := by
  rcases Nat.eq_zero_or_pos n with rfl | hn
  · exact ⟨.zero .positive, trivial, rfl⟩
  · -- The leading one is moved to the top of the mantissa.
    have hlog : n.log2 < 24 := (Nat.log2_lt hn.ne').2 h
    have hshifted : (n * 2 ^ (23 - n.log2)).log2 = 23 := by
      rw [← Nat.shiftLeft_eq, log2_shiftLeft hn.ne']
      omega
    have hpos : 0 < n * 2 ^ (23 - n.log2) := Nat.mul_pos hn (Nat.two_pow_pos _)
    rw [Nat.log2_eq_iff hpos.ne'] at hshifted
    refine ⟨.finite .positive (n * 2 ^ (23 - n.log2)) (n.log2 - 23) hpos,
      ⟨hshifted.2, by omega, by omega, .inl hshifted.1⟩, ?_⟩
    have hpow : (2 : Nat) ^ (23 - n.log2) * 2 ^ ((n.log2 : Int) - 23 + 149).toNat = stepsPerOne := by
      rw [← Nat.pow_add, show stepsPerOne = 2 ^ 149 from rfl]
      congr 1
      omega
    rw [signedSteps, Nat.mul_assoc, hpow]
    rfl

/-- What is left of a number after its fraction is cut off is a number of the format again. -/
theorem exists_whole (hx : x.isFinite = true) :
    ∃ f, Fits 104 f ∧ signedSteps f = (steps x / stepsPerOne * stepsPerOne : Nat) := by
  have hone : stepsPerOne = 2 ^ 149 := rfl
  have hfits := (unpacked_spec hx).1
  cases hux : unpacked x with
  | infinity s | notANumber =>
      rw [hux] at hfits
      exact hfits.elim
  | zero s =>
      refine ⟨.zero s, trivial, ?_⟩
      rw [steps_of_zero hux, Nat.zero_div, Nat.zero_mul]
      rfl
  | finite s m e hm =>
      rw [hux] at hfits
      rcases hfits with ⟨hlt, hlow, htop, hform⟩
      rcases steps_of_finite hux with ⟨-, hsteps⟩
      rcases le_or_gt 0 e with hpos | hneg
      · -- There is no fraction.
        refine ⟨.finite .positive m e hm, ⟨hlt, hlow, htop, hform⟩, ?_⟩
        have hdvd : stepsPerOne ∣ steps x := by
          rw [hsteps, hone]
          exact (Nat.pow_dvd_pow 2 (by omega)).mul_left m
        rw [Nat.div_mul_cancel hdvd, hsteps]
        rfl
      · have hwhole : steps x / stepsPerOne < 2 ^ 24 := by
          rw [Nat.div_lt_iff_lt_mul (by decide), hsteps, hone]
          exact Nat.mul_lt_mul_of_lt_of_le hlt (Nat.pow_le_pow_right (by decide) (by omega)) (Nat.two_pow_pos _)
        exact exists_fits_of_lt hwhole

theorem nearest_one (n : Nat) : nearest n 1 = nearest (n * stepsPerOne) stepsPerOne := by
  have hone : 0 < stepsPerOne := by decide
  simp only [nearest, Nat.div_one, Nat.mul_div_cancel _ hone, Nat.one_mul]
  rw [Nat.mul_comm stepsPerOne, divRoundEven_mul_right _ _ hone]

/-- Cutting off the fraction leaves the whole part. -/
theorem trunc_spec (hx : x.isFinite = true) :
    (trunc x).isFinite = true ∧ signedSteps (unpacked (trunc x)) = toInt x * stepsPerOne := by
  rcases exists_whole hx with ⟨f, hfits, hf⟩
  rcases nearest_spec hfits hf with ⟨hfinite, hexact⟩
  rw [← nearest_one] at hfinite hexact
  rw [trunc, if_pos hx, toInt, withSignOf]
  split
  · refine ⟨isFinite_neg hfinite, ?_⟩
    rw [unpacked_neg hfinite, signedSteps_neg, hexact]
    push_cast
    rw [Int.neg_mul]
  · refine ⟨hfinite, ?_⟩
    rw [hexact]
    push_cast
    rfl

/-- The whole part of a finite number as the library casts it. -/
theorem toInt_unpacked (hx : x.isFinite = true) (low high : Int) :
    (unpacked x).toInt low high = (signedSteps (unpacked x)).tdiv stepsPerOne := by
  have hfits := (unpacked_spec hx).1
  cases hux : unpacked x with
  | infinity s | notANumber =>
      rw [hux] at hfits
      exact hfits.elim
  | zero s => exact (Int.zero_tdiv _).symm
  | finite s m e hm =>
      have hsign : UnpackedFloat.roundToInt s m e = s.apply (UnpackedFloat.roundToInt .positive m e) := rfl
      rw [UnpackedFloat.toInt, hsign, roundToInt_positive, whole_eq m (steps_of_finite hux).1, signedSteps]
      cases s with
      | positive => exact Int.ofNat_tdiv _ _
      | negative =>
          rw [Sign.apply, Sign.apply, Int.neg_tdiv]
          exact congrArg Neg.neg (Int.ofNat_tdiv _ _)

theorem isFinite_of_trunc (h : (trunc x).isFinite = true) : x.isFinite = true := by
  by_contra hx
  rw [trunc, if_neg hx] at h
  exact hx h

/-! ## Comparisons with finite numbers -/

theorem beq_iff_le {x y : Float32} : (x == y) = true ↔ x ≤ y ∧ y ≤ x := by
  refine ⟨fun h => ?_, fun h => beq_of_le h.1 h.2⟩
  rcases beq_iff_rank.1 h with ⟨hx, hy, hrank⟩
  exact ⟨le_iff_rank.2 ⟨hx, hy, hrank.le⟩, le_iff_rank.2 ⟨hy, hx, hrank.ge⟩⟩

theorem isFinite_of_between {low high : Float32} (hlow : low.isFinite = true) (hhigh : high.isFinite = true) (hle : low ≤ x)
    (hge : x ≤ high) : x.isFinite = true := by
  have hends {y : Float32} (hy : y.isFinite = true) (s : Sign) : unpacked y ≠ .infinity s := by
    intro hinfinite
    exact Bool.false_ne_true ((congrArg UnpackedFloat.isFinite hinfinite).symm.trans hy)
  rcases le_iff_rank.1 hle with ⟨-, hnumber, hlowRank⟩
  have hhighRank := (le_iff_rank.1 hge).2.2
  by_contra hinfinite
  rcases unpacked_of_not_isFinite (Bool.eq_false_of_not_eq_true hinfinite) with hnan | ⟨s, hs⟩
  · cases hnumber.symm.trans (congrArg UnpackedFloat.isNaN hnan)
  · rw [hs] at hlowRank hhighRank
    cases s with
    | positive => exact hhighRank.not_gt (rank_between (hends hhigh)).2
    | negative => exact hlowRank.not_gt (rank_between (hends hlow)).1

end Number

/-! ## Numbers of slots -/

namespace Palette

theorem slot?_eq_some_iff {index : Int} {slot : Fin 16} : slot? index = some slot ↔ index = slot.val := by
  unfold slot?
  split
  · next h =>
      rw [Option.some.injEq, Fin.ext_iff]
      change index.toNat = slot.val ↔ index = slot.val
      omega
  · next h =>
      refine iff_of_false nofun ?_
      omega

theorem slot_spec (slot : Fin 16) :
    (Float32.ofNat slot.val).isFinite = true ∧
      Number.signedSteps (Number.unpacked (Float32.ofNat slot.val)) = slot.val * Number.stepsPerOne := by
  revert slot
  decide

/-- The slot of a number is the one whose number is left when the fraction is cut off. -/
theorem slotOf?_eq_some_iff {index : Float32} {slot : Fin 16} :
    slotOf? index = some slot ↔ (Number.trunc index == Float32.ofNat slot.val) = true := by
  rcases slot_spec slot with ⟨hslot, hsteps⟩
  rw [Number.beq_iff_le]
  unfold slotOf?
  split
  · next hfinite =>
      rcases Number.trunc_spec hfinite with ⟨htrunc, hexact⟩
      rw [slot?_eq_some_iff, ← Number.signedSteps_le_iff htrunc hslot, ← Number.signedSteps_le_iff hslot htrunc,
        ← le_antisymm_iff, hexact, hsteps]
      exact (Int.mul_eq_mul_right_iff (by decide)).symm
  · next hfinite =>
      refine iff_of_false nofun ?_
      rintro ⟨hle, hge⟩
      exact hfinite (Number.isFinite_of_trunc (Number.isFinite_of_between hslot hslot hge hle))

theorem exists_slotOf?_iff {index : Float32} :
    (∃ slot, slotOf? index = some slot) ↔ 0 ≤ Number.trunc index ∧ Number.trunc index ≤ 15 := by
  constructor
  · rintro ⟨slot, hslot⟩
    have hslots : ∀ slot : Fin 16, 0 ≤ Float32.ofNat slot.val ∧ Float32.ofNat slot.val ≤ 15 := by decide
    rcases Number.beq_iff_le.1 (slotOf?_eq_some_iff.1 hslot) with ⟨hle, hge⟩
    exact ⟨Number.le_transitive (hslots slot).1 hge, Number.le_transitive hle (hslots slot).2⟩
  · rintro ⟨hle, hge⟩
    rcases slot_spec 0 with ⟨hzero, hzeroSteps⟩
    rcases slot_spec 15 with ⟨hlast, hlastSteps⟩
    have htrunc := Number.isFinite_of_between hzero hlast hle hge
    have hfinite := Number.isFinite_of_trunc htrunc
    have hlow := (Number.signedSteps_le_iff hzero htrunc).2 hle
    have hhigh := (Number.signedSteps_le_iff htrunc hlast).2 hge
    rw [(Number.trunc_spec hfinite).2] at hlow hhigh
    rw [hzeroSteps] at hlow
    rw [hlastSteps] at hhigh
    have hone : (0 : Int) < Number.stepsPerOne := by decide
    have hnonneg := Int.le_of_mul_le_mul_right hlow hone
    have hsmall := Int.le_of_mul_le_mul_right hhigh hone
    refine ⟨⟨(Number.toInt index).toNat, by omega⟩, ?_⟩
    rw [slotOf?, if_pos hfinite, slot?_eq_some_iff]
    exact (Int.toNat_of_nonneg hnonneg).symm

/-! ## Slots by way of machine words -/

/-- The slot that is found when the fraction is cut off and the rest, if it is finite, is cast to a word of sixty-four bits. -/
def slotByWord? (index : Float32) : Option (Fin 16) :=
  let cut := Number.trunc index
  if cut.isFinite then slot? (Number.unpacked cut).toInt64.toInt else none

theorem slot?_ofIntClamp (n : Int) : slot? (Int64.ofIntClamp n).toInt = slot? n := by
  have hmin : Int64.minValue.toInt = -2 ^ 63 := by decide
  have hmax : Int64.maxValue.toInt = 2 ^ 63 - 1 := by decide
  ext slot
  rw [slot?_eq_some_iff, slot?_eq_some_iff]
  unfold Int64.ofIntClamp
  split_ifs with hlow hhigh
  · rw [Int64.toInt_ofIntLE]
  · rw [hmax] at hhigh ⊢
    omega
  · rw [hmin] at hlow ⊢
    omega

/-- The cast clamps what it cannot hold, and no slot has a number that is clamped to. -/
theorem slotByWord?_eq (index : Float32) : slotByWord? index = slotOf? index := by
  unfold slotByWord? slotOf?
  by_cases hfinite : index.isFinite = true
  · rcases Number.trunc_spec hfinite with ⟨htrunc, hexact⟩
    have hcast : (Number.unpacked (Number.trunc index)).toInt64 = Int64.ofIntClamp (Number.toInt index) := by
      rw [Float.Model.UnpackedFloat.toInt64, Number.toInt_unpacked htrunc, hexact, Int.mul_tdiv_cancel _ (by decide)]
    rw [if_pos htrunc, if_pos hfinite, hcast, slot?_ofIntClamp]
  · rw [if_neg hfinite, if_neg fun htrunc => hfinite (Number.isFinite_of_trunc htrunc)]

/-! ## Calls -/

/-- A call that asks for a colour of the palette, or puts one there. -/
inductive Call where
  | look (index : Float32)
  | put (index : Float32) (colour : Colour)

namespace Call

def index : Call → Float32
  | look index => index
  | put index _ => index

/-- What a call answers, which is a colour only if it asked for one, and the context after it. -/
def perform (c : Context) : Call → Except Fault (Option Colour) × Context
  | look index => ((c.paletteColour index).map some, c)
  | put index colour =>
      match Context.slot index with
      | .ok slot => (.ok none, c.perform (.setSlot slot colour))
      | .error fault => (.error fault, c)

/-- The colour that a call puts into a slot. -/
def putInto (slot : Fin 16) : Call → Option Colour
  | look _ => none
  | put index colour => if Number.trunc index == Float32.ofNat slot.val then some colour else none

/-- The context after some calls, of which any may have failed. -/
def performAll (c : Context) (calls : List Call) : Context :=
  calls.foldl (fun c call => (call.perform c).2) c

/-- The colour that was put into a slot last. -/
def lastPut (calls : List Call) (slot : Fin 16) : Option Colour :=
  calls.reverse.findSome? (putInto slot)

section

variable (c : Context) (call : Call) {slot : Fin 16}

/-- What a call answers if it finds its slot. -/
def found (slot : Fin 16) : Call → Option Colour
  | look _ => some (c.drawing.palette.get slot)
  | put _ _ => none

theorem perform_of_some (h : slotOf? call.index = some slot) : (call.perform c).1 = .ok (call.found c slot) := by
  cases call with
  | look index | put index colour =>
      have hslot : Context.slot index = .ok slot := by rw [Context.slot, show slotOf? index = some slot from h]
      simp only [perform, Context.paletteColour, hslot]
      rfl

theorem perform_of_none (h : slotOf? call.index = none) :
    call.perform c = (.error (.paletteIndex (Number.trunc call.index)), c) := by
  cases call with
  | look index | put index colour =>
      have hslot : Context.slot index = .error (.paletteIndex (Number.trunc index)) := by
        rw [Context.slot, show slotOf? index = none from h]
      simp only [perform, Context.paletteColour, hslot]
      rfl

end

/-- One call changes the slot for which it is meant and no other. -/
theorem get_perform (c : Context) (call : Call) (slot : Fin 16) :
    (call.perform c).2.drawing.palette.get slot = (call.putInto slot).getD (c.drawing.palette.get slot) := by
  cases call with
  | look index => rfl
  | put index colour =>
      simp only [putInto, ← slotOf?_eq_some_iff]
      cases hslot : slotOf? index with
      | none =>
          rw [perform_of_none c (put index colour) hslot]
          rfl
      | some target =>
          have hput : ((put index colour).perform c).2.drawing.palette = c.drawing.palette.put target colour := by
            simp only [perform, Context.slot, hslot]
            rfl
          simp only [hput, get_put, Option.some.injEq]
          split <;> rfl

/-- After some calls a slot has the colour that was put there last. -/
theorem get_performAll (c : Context) (calls : List Call) (slot : Fin 16) :
    (performAll c calls).drawing.palette.get slot = (lastPut calls slot).getD (c.drawing.palette.get slot) := by
  induction calls generalizing c with
  | nil => rfl
  | cons call calls ih =>
      have hlast : lastPut (call :: calls) slot = (lastPut calls slot).or (call.putInto slot) := by
        simp [lastPut, List.findSome?_append]
      rw [performAll, List.foldl_cons, ← performAll, ih, get_perform, hlast]
      cases lastPut calls slot <;> rfl

end Call

/-- The palette is a store of sixteen slots, whatever calls came before. A call succeeds if and only if its number, cut toward
zero, is one from zero to fifteen. If not, it fails with what was left of the number and changes nothing. A call that asks for a
colour gets the one that was put last under a number of the same slot, or the first colour of the slot. The cast to a word of
sixty-four bits finds the same slots, so that no number outside is clamped into the palette. -/
theorem calls_address_slots (calls : List Call) (call : Call) :
    let c := Call.performAll Context.initial calls
    let index := Number.trunc call.index
    ((∃ answer, (call.perform c).1 = .ok answer) ↔ 0 ≤ index ∧ index ≤ 15) ∧
      (¬ (0 ≤ index ∧ index ≤ 15) → call.perform c = (.error (.paletteIndex index), c)) ∧
      (∀ asked answer, call = .look asked → (call.perform c).1 = .ok answer →
        ∃ slot : Fin 16, (index == Float32.ofNat slot.val) = true ∧
          answer = some ((Call.lastPut calls slot).getD (initial.get slot))) ∧
      ∀ slot : Fin 16, slotByWord? call.index = some slot ↔ (index == Float32.ofNat slot.val) = true := by
  intro c index
  have hrange : (∃ slot, slotOf? call.index = some slot) ↔ 0 ≤ index ∧ index ≤ 15 := exists_slotOf?_iff
  refine ⟨?_, ?_, ?_, fun slot => by rw [slotByWord?_eq, slotOf?_eq_some_iff]⟩
  · rw [← hrange]
    cases hslot : slotOf? call.index with
    | none => simp [Call.perform_of_none c call hslot]
    | some slot => simp [Call.perform_of_some c call hslot]
  · intro hout
    rw [← hrange, not_exists] at hout
    exact Call.perform_of_none c call (Option.eq_none_iff_forall_ne_some.2 hout)
  · rintro asked answer rfl hanswer
    cases hslot : slotOf? asked with
    | none => simp [Call.perform_of_none c (.look asked) hslot] at hanswer
    | some slot =>
        rw [Call.perform_of_some c (.look asked) hslot, Except.ok.injEq] at hanswer
        refine ⟨slot, slotOf?_eq_some_iff.1 hslot, ?_⟩
        rw [← hanswer, Call.found, Call.get_performAll]
        rfl

/-- Of six colours that are put into the palette three find a slot, two of them the same. -/
theorem latest_of_six_is_found :
    let calls : List Call := [.put 1.9 ⟨9, 9, 9⟩, .put 17 ⟨1, 1, 1⟩, .put (-0.9) ⟨2, 2, 2⟩, .put Number.nan ⟨3, 3, 3⟩,
      .put 1 ⟨4, 4, 4⟩, .put 18446744073709551616 ⟨5, 5, 5⟩]
    ((Call.look 1.5).perform (Call.performAll Context.initial calls)).1 = .ok (some ⟨4, 4, 4⟩) ∧
      ((Call.look (-0.1)).perform (Call.performAll Context.initial calls)).1 = .ok (some ⟨2, 2, 2⟩) := by
  intro calls
  have hfound (asked : Float32) (hasked : 0 ≤ Number.trunc asked ∧ Number.trunc asked ≤ 15) {colour : Colour}
      (hcolour : ∀ slot : Fin 16, (Number.trunc asked == Float32.ofNat slot.val) = true →
        (Call.lastPut calls slot).getD (initial.get slot) = colour) :
      ((Call.look asked).perform (Call.performAll Context.initial calls)).1 = .ok (some colour) := by
    rcases calls_address_slots calls (.look asked) with ⟨hsuccess, -, hanswers, -⟩
    rcases hsuccess.2 hasked with ⟨answer, hanswer⟩
    rcases hanswers asked answer rfl hanswer with ⟨slot, hslot, rfl⟩
    rw [hanswer, hcolour slot hslot]
  exact ⟨hfound 1.5 (by decide +kernel) (by decide +kernel), hfound (-0.1) (by decide +kernel) (by decide +kernel)⟩

end Palette
end TurtleLogo
