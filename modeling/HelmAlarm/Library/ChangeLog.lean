import Mathlib.Data.List.Chain

/-!
# Change logs

The log of a variable: each time it changes, the value it changes to is appended.
`ChangeLog a₀ log a` says that `log` is such a log of a variable that began as
`a₀` and is now `a`, so that no entry is the same as the one before it.
-/

namespace HelmAlarm.Library

variable {α : Type*} {a₀ a b : α} {log rest : List α}

/-- `log` is the log of a variable that was `a₀` and is `a`. -/
structure ChangeLog (a₀ : α) (log : List α) (a : α) : Prop where
  /-- Each entry is a change. -/
  alternate : (a₀ :: log).IsChain (· ≠ ·)
  /-- The last is to the value the variable has. -/
  last : log.getLastD a₀ = a

namespace ChangeLog

theorem nil : ChangeLog a [] a := ⟨.singleton a, rfl⟩

/-- The variable changes. -/
theorem snoc (h : ChangeLog a₀ log a) (hne : a ≠ b) : ChangeLog a₀ (log ++ [b]) b := by
  refine ⟨?_, by simp⟩
  rw [← List.cons_append]
  refine h.alternate.append (.singleton b) ?_
  have hlast := h.last
  rw [List.getLastD_eq_getLast?] at hlast
  simp only [List.getLast?_cons, hlast, Option.mem_def, Option.some.injEq, List.head?_cons]
  rintro _ rfl _ rfl
  exact hne

/-- The first entries of a log are one. -/
theorem alternate_of_append (h : ChangeLog a₀ (log ++ rest) a) : (a₀ :: log).IsChain (· ≠ ·) := by
  have halt := h.alternate
  rw [← List.cons_append] at halt
  exact halt.left_of_append

end ChangeLog

end HelmAlarm.Library
