import Mathlib.Data.List.Basic
import Mathlib.Algebra.Order.Ring.Nat
import Mathlib.Tactic.Ring

/-!
# Little-endian words and byte cursors

Fixed-width words as byte lists, least significant byte first, and the two ways
a decoder reads a byte list at a cursor: one byte (`l[i]?`) and a range
(`getRange`, the checked slice `l.get(i..j)`). A decoder that walks over
`pre ++ field ++ rest` with its cursor at `pre.length` reads exactly `field`
(`getElem?_cursor`, `getRange_cursor`), and `ofLe_leBytes` says that a word survives
being written and read.
-/

namespace HelmAlarm.Library

/-- The `w` low bytes of `n`, least significant first. -/
def leBytes : ℕ → ℕ → List UInt8
  | 0, _ => []
  | w + 1, n => UInt8.ofNat n :: leBytes w (n / 256)

/-- The number whose bytes are given, least significant first. -/
def ofLe : List UInt8 → ℕ
  | [] => 0
  | b :: bs => b.toNat + 256 * ofLe bs

@[simp] theorem length_leBytes (w n : ℕ) : (leBytes w n).length = w := by
  induction w generalizing n with
  | zero => rfl
  | succ w ih => simp [leBytes, ih]

/-- A number that fits in `w` bytes is what its bytes spell. -/
theorem ofLe_leBytes {w n : ℕ} (h : n < 256 ^ w) : ofLe (leBytes w n) = n := by
  induction w generalizing n with
  | zero => simp only [pow_zero, Nat.lt_one_iff] at h; simp [leBytes, ofLe, h]
  | succ w ih =>
    have hdiv : n / 256 < 256 ^ w := Nat.div_lt_of_lt_mul (by rw [pow_succ] at h; omega)
    simp only [leBytes, ofLe, ih hdiv, UInt8.toNat_ofNat']
    omega

theorem ofLe_lt (l : List UInt8) : ofLe l < 256 ^ l.length := by
  induction l with
  | nil => simp [ofLe]
  | cons b bs ih =>
    have hb := b.toNat_lt
    simp only [ofLe, List.length_cons, pow_succ]
    omega

/-! ### Reading at a cursor -/

variable {α : Type*}

/-- The checked slice `l.get(i..j)`: `none` when the range is not within the list. -/
def getRange (l : List α) (i j : ℕ) : Option (List α) :=
  if i ≤ j ∧ j ≤ l.length then some ((l.drop i).take (j - i)) else none

theorem getRange_eq_some {l r : List α} {i j : ℕ} (h : getRange l i j = some r) :
    i ≤ j ∧ j ≤ l.length ∧ r = (l.drop i).take (j - i) ∧ r.length = j - i := by
  unfold getRange at h
  split at h
  · rename_i hij
    obtain rfl := Option.some.inj h
    exact ⟨hij.1, hij.2, rfl, by simp; omega⟩
  · cases h

/-- The byte at the cursor. -/
theorem getElem?_cursor (pre : List α) (x : α) (rest : List α) :
    (pre ++ x :: rest)[pre.length]? = some x := by simp

/-- The range that starts at the cursor. -/
theorem getRange_cursor (pre field rest : List α) :
    getRange (pre ++ (field ++ rest)) pre.length (pre.length + field.length) = some field := by
  simp [getRange]

end HelmAlarm.Library
