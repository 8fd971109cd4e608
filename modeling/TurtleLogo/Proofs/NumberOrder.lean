import Mathlib.Data.Prod.Lex
import TurtleLogo.Proofs.Rounding

/-!
# The order of numbers

Numbers are compared by their signs, exponents and mantissas, and NaN compares with nothing. Each number but NaN has a place
in one linear order, its `rank`, which both zeros share:

* `le_iff_rank`, `lt_iff_rank`, `beq_iff_rank` — comparing numbers is comparing ranks, if neither is NaN;
* `picks_least`, `picks_greatest` — of two numbers, `least` and `greatest` choose one that comes before both of them, each in
  its direction, and pass NaN over;
* `Foremost` — what such choices lead to when they are made all over a list, whatever the order of the choices.
-/

namespace TurtleLogo
namespace Number

open Float.Model (UnpackedFloat)
open Float.Model.UnpackedFloat (Sign)

/-! ## Ranks -/

/-- Where a number stands among the others. Infinities are farther from zero than all other numbers, of which those with the
greater exponents are farther, and of these those with the greater mantissas. -/
def rank : UnpackedFloat → ℤ ×ₗ ℤ ×ₗ ℤ
  | .infinity s => toLex (s.apply 2, toLex (0, 0))
  | .finite s m e _ => toLex (s.apply 1, toLex (s.apply e, s.apply m))
  | .zero _ | .notANumber => toLex (0, toLex (0, 0))

theorem rank_between {f : UnpackedFloat} (h : ∀ s, f ≠ .infinity s) :
    rank (.infinity .negative) < rank f ∧ rank f < rank (.infinity .positive) := by
  cases f with
  | infinity s => exact absurd rfl (h s)
  | notANumber => decide
  | zero s => cases s <;> decide
  | finite s m e hm => cases s <;> simp [rank, Sign.apply, Prod.Lex.toLex_lt_toLex]

theorem compare_eq_lt_iff {f g : UnpackedFloat} (hf : f.isNaN = false) (hg : g.isNaN = false) :
    f.compare g = some .lt ↔ rank f < rank g := by
  fun_cases UnpackedFloat.compare f g with
  | case1 => cases hf
  | case2 => cases hg
  | case3 s s' => cases s <;> cases s' <;> decide
  -- One of the two is an infinity and the other is not.
  | case4 g _ hg => exact iff_of_false nofun (rank_between hg).2.not_gt
  | case5 g _ hg => exact iff_of_true rfl (rank_between hg).1
  | case6 f _ hf => exact iff_of_true rfl (rank_between hf).2
  | case7 f _ hf => exact iff_of_false nofun (rank_between hf).1.not_gt
  | case13 m e hm m' e' hm' =>
      simp [rank, Sign.apply, Prod.Lex.toLex_lt_toLex, Ordering.then_eq_gt, compare_gt_iff_gt]
  | case16 m e hm m' e' hm' =>
      simp [rank, Sign.apply, Prod.Lex.toLex_lt_toLex, Ordering.then_eq_lt, compare_lt_iff_lt]
  | _ => simp [rank, Sign.apply, Prod.Lex.toLex_lt_toLex]

theorem isNaN_of_compare_eq {f g : UnpackedFloat} {o : Ordering} (h : f.compare g = some o) :
    f.isNaN = false ∧ g.isNaN = false := by
  cases f with
  | notANumber => cases h
  | _ =>
      cases g with
      | notANumber => cases h
      | _ => exact ⟨rfl, rfl⟩

theorem compare_eq_cmp {f g : UnpackedFloat} (hf : f.isNaN = false) (hg : g.isNaN = false) :
    f.compare g = some (cmp (rank f) (rank g)) := by
  have hswap : g.compare f = (f.compare g).map Ordering.swap := compare_swap f g
  rcases lt_trichotomy (rank f) (rank g) with hlt | heq | hgt
  · rw [(cmp_eq_lt_iff _ _).2 hlt, compare_eq_lt_iff hf hg]
    exact hlt
  · rcases Option.isSome_iff_exists.1 (isSome_compare hf hg) with ⟨o, ho⟩
    rw [ho] at hswap
    rw [(cmp_eq_eq_iff _ _).2 heq, ho]
    cases o with
    | eq => rfl
    | lt => exact absurd ((compare_eq_lt_iff hf hg).1 ho) heq.not_lt
    | gt => exact absurd ((compare_eq_lt_iff hg hf).1 hswap) heq.not_gt
  · have hless := (compare_eq_lt_iff hg hf).2 hgt
    rw [(cmp_eq_gt_iff _ _).2 hgt]
    rw [compare_swap g f, hless]
    rfl

/-- Two numbers compare as their ranks do, if neither is NaN. -/
theorem compare_eq_some_iff {f g : UnpackedFloat} {o : Ordering} :
    f.compare g = some o ↔ f.isNaN = false ∧ g.isNaN = false ∧ cmp (rank f) (rank g) = o := by
  constructor
  · intro h
    rcases isNaN_of_compare_eq h with ⟨hf, hg⟩
    exact ⟨hf, hg, Option.some.inj ((compare_eq_cmp hf hg).symm.trans h)⟩
  · rintro ⟨hf, hg, rfl⟩
    exact compare_eq_cmp hf hg

section

variable {x y z : Float32}

theorem lt_iff_rank : x < y ↔ x.isNaN = false ∧ y.isNaN = false ∧ rank (unpacked x) < rank (unpacked y) := by
  rw [lt_iff, UnpackedFloat.lt, beq_iff_eq, compare_eq_some_iff, cmp_eq_lt_iff]
  rfl

theorem beq_iff_rank : (x == y) = true ↔ x.isNaN = false ∧ y.isNaN = false ∧ rank (unpacked x) = rank (unpacked y) := by
  change (((unpacked x).compare (unpacked y)) == some .eq) = true ↔ _
  rw [beq_iff_eq, compare_eq_some_iff, cmp_eq_eq_iff]
  rfl

theorem le_iff_rank : x ≤ y ↔ x.isNaN = false ∧ y.isNaN = false ∧ rank (unpacked x) ≤ rank (unpacked y) := by
  rw [le_iff, UnpackedFloat.le, Option.any_eq_true]
  constructor
  · rintro ⟨o, h, hle⟩
    rcases compare_eq_some_iff.1 h with ⟨hx, hy, rfl⟩
    refine ⟨hx, hy, not_lt.1 fun hgt => ?_⟩
    rw [(cmp_eq_gt_iff _ _).2 hgt] at hle
    cases hle
  · rintro ⟨hx, hy, hle⟩
    refine ⟨_, compare_eq_some_iff.2 ⟨hx, hy, rfl⟩, ?_⟩
    cases hcmp : cmp (rank (unpacked x)) (rank (unpacked y)) with
    | lt | eq => rfl
    | gt => exact absurd ((cmp_eq_gt_iff _ _).1 hcmp) hle.not_gt

theorem le_of_less (h : x < y) : x ≤ y := by
  rcases lt_iff_rank.1 h with ⟨hx, hy, hlt⟩
  exact le_iff_rank.2 ⟨hx, hy, hlt.le⟩

theorem le_self (h : x.isNaN = false) : x ≤ x :=
  le_iff_rank.2 ⟨h, h, le_rfl⟩

theorem le_transitive (hxy : x ≤ y) (hyz : y ≤ z) : x ≤ z := by
  rcases le_iff_rank.1 hxy with ⟨hx, -, hxy⟩
  rcases le_iff_rank.1 hyz with ⟨-, hz, hyz⟩
  exact le_iff_rank.2 ⟨hx, hz, hxy.trans hyz⟩

/-- Numbers that are at most one another are the same number, but for the sign of a zero. -/
theorem beq_of_le (hxy : x ≤ y) (hyx : y ≤ x) : (x == y) = true := by
  rcases le_iff_rank.1 hxy with ⟨hx, hy, hle⟩
  rcases le_iff_rank.1 hyx with ⟨-, -, hge⟩
  exact beq_iff_rank.2 ⟨hx, hy, le_antisymm hle hge⟩

end

/-! ## Foremost numbers -/

/-- One of the numbers that comes before all of them, those left out that are NaN. -/
structure Foremost (before : Float32 → Float32 → Prop) (numbers : List Float32) (m : Float32) : Prop where
  mem : m ∈ numbers
  before : ∀ x ∈ numbers, x.isNaN = false → before m x

/-- A choice between two numbers of one that comes before both. -/
structure Picks (before : Float32 → Float32 → Prop) (pick : Float32 → Float32 → Float32) : Prop where
  number : ∀ {a b}, before a b → a.isNaN = false
  refl : ∀ {a}, a.isNaN = false → before a a
  trans : ∀ {a b c}, before a b → before b c → before a c
  choice : ∀ a b, pick a b = a ∨ pick a b = b
  left : ∀ a b, a.isNaN = false → before (pick a b) a
  right : ∀ a b, b.isNaN = false → before (pick a b) b

theorem picks_least : Picks (· ≤ ·) least where
  number h := (le_iff_rank.1 h).1
  refl := le_self
  trans := le_transitive
  choice a b := by
    unfold least
    split_ifs <;> simp
  left a b ha := by
    unfold least
    split_ifs with hnan hlt
    · cases ha.symm.trans hnan
    · exact le_of_less hlt
    · exact le_self ha
  right a b hb := by
    unfold least
    split_ifs with hnan hlt
    · exact le_self hb
    · exact le_self hb
    · exact le_of_not_lt hb (Bool.eq_false_of_not_eq_true hnan) hlt

theorem picks_greatest : Picks (· ≥ ·) greatest where
  number h := (le_iff_rank.1 h).2.1
  refl := le_self
  trans hab hbc := le_transitive hbc hab
  choice a b := by
    unfold greatest
    split_ifs <;> simp
  left a b ha := by
    unfold greatest
    split_ifs with hnan hlt
    · cases ha.symm.trans hnan
    · exact le_of_less hlt
    · exact le_self ha
  right a b hb := by
    unfold greatest
    split_ifs with hnan hlt
    · exact le_self hb
    · exact le_self hb
    · exact le_of_not_lt (Bool.eq_false_of_not_eq_true hnan) hb hlt

namespace Foremost

variable {before : Float32 → Float32 → Prop} {pick : Float32 → Float32 → Float32} {xs ys : List Float32} {a b : Float32}

theorem single (hpick : Picks before pick) (a : Float32) : Foremost before [a] a where
  mem := List.mem_singleton_self a
  before x hmem hx := by
    cases List.mem_singleton.1 hmem
    exact hpick.refl hx

theorem append (hpick : Picks before pick) (hxs : Foremost before xs a) (hys : Foremost before ys b) :
    Foremost before (xs ++ ys) (pick a b) where
  mem := by
    rcases hpick.choice a b with h | h
    · rw [h]
      exact List.mem_append_left ys hxs.mem
    · rw [h]
      exact List.mem_append_right xs hys.mem
  before x hmem hx := by
    rcases List.mem_append.1 hmem with hmem | hmem
    · have hax := hxs.before x hmem hx
      exact hpick.trans (hpick.left a b (hpick.number hax)) hax
    · have hbx := hys.before x hmem hx
      exact hpick.trans (hpick.right a b (hpick.number hbx)) hbx

theorem isNaN_eq_false (hpick : Picks before pick) (h : Foremost before xs a) {x : Float32} (hmem : x ∈ xs)
    (hx : x.isNaN = false) : a.isNaN = false :=
  hpick.number (h.before x hmem hx)

/-- The same numbers in another order have the same one foremost. -/
theorem both_before (hpick : Picks before pick) (hxs : Foremost before xs a) (hys : Foremost before ys b)
    (hperm : xs.Perm ys) {x : Float32} (hmem : x ∈ xs) (hx : x.isNaN = false) : before a b ∧ before b a := by
  have ha : a.isNaN = false := hxs.isNaN_eq_false hpick hmem hx
  have hb : b.isNaN = false := hys.isNaN_eq_false hpick (hperm.mem_iff.1 hmem) hx
  exact ⟨hxs.before b (hperm.mem_iff.2 hys.mem) hb, hys.before a (hperm.mem_iff.1 hxs.mem) ha⟩

end Foremost

end Number
end TurtleLogo
