import Mathlib.Algebra.Order.Ring.Int

/-!
# Wall-clock times

The wall clock and the two computations the daemon makes on it: reading it as
`i64` milliseconds since the epoch, and adding a delay to such a reading without
leaving the `i64` range. A `Duration` is a number of milliseconds, which is what
both of its constructors in the source (`from_millis`, `from_secs`) are given.
-/

namespace HelmAlarm.Daemon

/-- A reading of the wall clock, in milliseconds since the epoch. The system keeps its clock
below `2^63` nanoseconds, so a reading fits an `i64`; a clock before the epoch is read as
`0` (`unwrap_or_default`). -/
structure WallClock where
  /-- Milliseconds since the epoch. -/
  ms : ℕ
  /-- The reading fits. -/
  fits : ms < 2 ^ 63

/-- `SystemTime::now().duration_since(UNIX_EPOCH).unwrap_or_default().as_millis() as i64`. -/
def WallClock.nowMs (c : WallClock) : Int64 := Int64.ofNat c.ms

/-- `i64::MAX`. -/
def i64Max : ℤ := 2 ^ 63 - 1

/-- `i64::saturating_add`. -/
def saturatingAdd (a b : Int64) : Int64 := Int64.ofInt (max (-2 ^ 63) (min i64Max (a.toInt + b.toInt)))

/-- `i64::try_from(delay.as_millis()).unwrap_or(i64::MAX)`. -/
def delayMs (delay : ℕ) : Int64 := if (delay : ℤ) ≤ i64Max then Int64.ofNat delay else Int64.ofInt i64Max

/-- `now_ms.saturating_add(i64::try_from(delay.as_millis()).unwrap_or(i64::MAX))`. -/
def fireAt (now : WallClock) (delay : ℕ) : Int64 := saturatingAdd now.nowMs (delayMs delay)

theorem toInt_ofInt_of_range {n : ℤ} (h₁ : -2 ^ 63 ≤ n) (h₂ : n ≤ i64Max) : (Int64.ofInt n).toInt = n := by
  have h₂' : n < 2 ^ 63 := by unfold i64Max at h₂; omega
  rw [Int64.toInt_ofInt, Int.bmod_eq_of_le (by simpa using h₁) (by simpa using h₂')]

/-- A reading says the milliseconds of the clock. -/
@[simp] theorem WallClock.toInt_nowMs (c : WallClock) : c.nowMs.toInt = c.ms := by
  have := c.fits
  exact toInt_ofInt_of_range (n := c.ms) (by omega) (by unfold i64Max; omega)

theorem toInt_saturatingAdd (a b : Int64) :
    (saturatingAdd a b).toInt = max (-2 ^ 63) (min i64Max (a.toInt + b.toInt)) :=
  toInt_ofInt_of_range (le_max_left _ _) (max_le (by decide) (min_le_left _ _))

theorem toInt_delayMs (delay : ℕ) : (delayMs delay).toInt = min (delay : ℤ) i64Max := by
  unfold delayMs
  split
  · rename_i h
    rw [min_eq_left h]
    exact toInt_ofInt_of_range (n := delay) (by omega) h
  · rename_i h
    rw [min_eq_right (le_of_not_ge h)]
    exact toInt_ofInt_of_range (by decide) le_rfl

/-- The fire time is the clock's time plus the delay, held at `i64::MAX`. -/
theorem toInt_fireAt (now : WallClock) (delay : ℕ) :
    (fireAt now delay).toInt = min (now.ms + delay : ℤ) i64Max := by
  have hnow := now.fits
  rw [fireAt, toInt_saturatingAdd, now.toInt_nowMs, toInt_delayMs]
  unfold i64Max
  omega

end HelmAlarm.Daemon
