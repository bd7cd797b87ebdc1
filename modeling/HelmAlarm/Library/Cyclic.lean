import Mathlib.Algebra.Order.Floor.Ring
import Mathlib.Tactic.FieldSimp
import Mathlib.Tactic.Ring

/-!
# Cursors on a circle

A cursor goes round a circle of circumference `p` in equal steps. It may be brought
back to the circle at once, each time it leaves it (`wrapped`), or late, only when it
is looked at the next time and found outside (`late`). The two stand at the same place
whenever they are looked at: `late_iterate`.
-/

namespace HelmAlarm.Library.Cyclic

universe u

variable {K : Type u} [Field K] [LinearOrder K] [FloorRing K] {p x y step : K}

/-- The place of `x` on the circle. -/
def wrapped (p x : K) : K := x - p * ⌊x / p⌋

/-- A cursor that is looked at is brought back to the circle if it has left it. -/
def late (p x : K) : K := if p ≤ x then wrapped p x else x

/-- It is looked at, and goes on. -/
def advance (p step x : K) : K := late p x + step

theorem wrapped_eq_fract (hp : p ≠ 0) (x : K) : wrapped p x = p * Int.fract (x / p) := by
  unfold wrapped Int.fract
  rw [mul_sub, mul_div_cancel₀ x hp]

variable [IsStrictOrderedRing K]

theorem wrapped_nonneg (hp : 0 < p) : 0 ≤ wrapped p x := by
  rw [wrapped_eq_fract hp.ne']
  exact mul_nonneg hp.le (Int.fract_nonneg _)

theorem wrapped_lt (hp : 0 < p) : wrapped p x < p := by
  rw [wrapped_eq_fract hp.ne']
  exact mul_lt_of_lt_one_right hp (Int.fract_lt_one _)

/-- A cursor on the circle stays where it is. -/
theorem wrapped_of_lt (h0 : 0 ≤ x) (hlt : x < p) : wrapped p x = x := by
  have hp : 0 < p := lt_of_le_of_lt h0 hlt
  have hfloor : ⌊x / p⌋ = 0 := Int.floor_eq_zero_iff.mpr ⟨div_nonneg h0 hp.le, (div_lt_one hp).mpr hlt⟩
  rw [wrapped, hfloor, Int.cast_zero, mul_zero, sub_zero]

/-- It does not matter whether a cursor goes on before or after it is brought back. -/
theorem wrapped_wrapped_add (hp : 0 < p) : wrapped p (wrapped p x + y) = wrapped p (x + y) := by
  have hne : p ≠ 0 := hp.ne'
  have hdiv : (wrapped p x + y) / p = (x + y) / p - (⌊x / p⌋ : ℤ) := by
    unfold wrapped
    field_simp
    ring
  rw [wrapped_eq_fract hne (wrapped p x + y), wrapped_eq_fract hne (x + y), hdiv, Int.fract_sub_intCast]

theorem late_eq_wrapped (h0 : 0 ≤ x) : late p x = wrapped p x := by
  unfold late
  split
  · rfl
  · rename_i hlt
    exact (wrapped_of_lt h0 (not_le.mp hlt)).symm

/-- However often it was looked at, a cursor that is brought back late is found where one that never
was brought back would be. -/
theorem late_iterate (hp : 0 < p) (h0 : 0 ≤ x) (hstep : 0 ≤ step) (n : ℕ) :
    0 ≤ (advance p step)^[n] x ∧ late p ((advance p step)^[n] x) = wrapped p (x + n * step) := by
  induction n with
  | zero =>
    refine ⟨h0, ?_⟩
    rw [Function.iterate_zero_apply, late_eq_wrapped h0, Nat.cast_zero, zero_mul, add_zero]
  | succ n ih =>
    obtain ⟨-, hlate⟩ := ih
    have hnonneg : 0 ≤ (advance p step)^[n + 1] x := by
      rw [Function.iterate_succ_apply', advance, hlate]
      exact add_nonneg (wrapped_nonneg hp) hstep
    refine ⟨hnonneg, ?_⟩
    rw [late_eq_wrapped hnonneg, Function.iterate_succ_apply', advance, hlate, wrapped_wrapped_add hp]
    congr 1
    push_cast
    ring

end HelmAlarm.Library.Cyclic
