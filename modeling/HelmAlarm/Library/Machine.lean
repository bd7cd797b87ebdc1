import Mathlib.Data.List.Basic

/-!
# Guarded machines and their runs

A machine is a step function `σ → α → Option σ`: an action takes a state to the
next one, or is not possible there (`none`). The same definition is replayed on
a concrete list of actions (`exec`) and reasoned about (`Run`).

A run carries a condition `ok` on its steps, a property of the state before the
step and of the action taken, so that "every run whose steps all meet the
condition" is `Run m ok`. The rules are:

* `Run.invariant` — what holds at the start and is kept by every step that meets
  the condition holds at the end; `Run.invariant_trace` is the same for a
  property that also speaks of the actions taken so far;
* `Passes` — the steps of a run, and `run_iff_passes`: a run meets its condition when
  each of its steps does;
* `track` — a history variable, which records what happened and on which the
  condition of a step may depend;
* `Run.simulate` — forward simulation of one machine by another, and `Run.refine`, in
  which the other machine's actions are found as it goes;
* `Run.countP_le`, `Run.ranked` — how many steps one party can take, and what it comes to in
  so many of them, whatever the others do.
-/

namespace HelmAlarm.Library

universe u v w x

/-- A guarded machine: the state an action leads to, if it is possible. -/
abbrev Machine (σ : Type u) (α : Type v) := σ → α → Option σ

namespace Machine

variable {σ : Type u} {α : Type v} {τ : Type w} {β : Type x}

/-- Replay a list of actions. -/
def exec (m : Machine σ α) : σ → List α → Option σ
  | s, [] => some s
  | s, a :: as => (m s a).bind fun t => exec m t as

/-- A run from `s` to `t` by the actions `as`, each of which is possible and meets the
condition `ok` in the state it is taken in. -/
inductive Run (m : Machine σ α) (ok : σ → α → Prop) : σ → List α → σ → Prop where
  /-- No action. -/
  | nil {s : σ} : Run m ok s [] s
  /-- One action, then the others. -/
  | cons {s t u : σ} {a : α} {as : List α} :
      ok s a → m s a = some t → Run m ok t as u → Run m ok s (a :: as) u

/-- The condition that asks nothing. -/
def anyStep : σ → α → Prop := fun _ _ => True

instance (s : σ) (a : α) : Decidable (anyStep s a) := .isTrue trivial

variable {m : Machine σ α} {ok ok' : σ → α → Prop} {s t u : σ} {a : α} {as bs : List α}

theorem Run.single (hok : ok s a) (h : m s a = some t) : Run m ok s [a] t := .cons hok h .nil

theorem Run.append (h₁ : Run m ok s as t) (h₂ : Run m ok t bs u) : Run m ok s (as ++ bs) u := by
  induction h₁ with
  | nil => exact h₂
  | cons hok hs _ ih => exact .cons hok hs (ih h₂)

theorem Run.snoc (h : Run m ok s as t) (hok : ok t a) (hs : m t a = some u) :
    Run m ok s (as ++ [a]) u := h.append (.single hok hs)

/-- A run by `as ++ bs` passes through a state between the two. -/
theorem Run.of_append (h : Run m ok s (as ++ bs) u) :
    ∃ t, Run m ok s as t ∧ Run m ok t bs u := by
  induction as generalizing s with
  | nil => exact ⟨s, .nil, h⟩
  | cons a as ih =>
    cases h with
    | cons hok hs h =>
      obtain ⟨t, h₁, h₂⟩ := ih h
      exact ⟨t, .cons hok hs h₁, h₂⟩

theorem Run.mono (hmono : ∀ s a, ok s a → ok' s a) (h : Run m ok s as t) : Run m ok' s as t := by
  induction h with
  | nil => exact .nil
  | cons hok hs _ ih => exact .cons (hmono _ _ hok) hs ih

/-- What holds at the start and is kept by every step holds at the end. -/
theorem Run.invariant {I : σ → Prop}
    (hstep : ∀ s a t, I s → ok s a → m s a = some t → I t)
    (h : Run m ok s as t) (h₀ : I s) : I t := by
  induction h with
  | nil => exact h₀
  | cons hok hs _ ih => exact ih (hstep _ _ _ h₀ hok hs)

/-- Every step of a run is taken where an invariant holds. -/
theorem Run.with_invariant {I : σ → Prop} (hstep : ∀ s a t, I s → ok s a → m s a = some t → I t)
    (h : Run m ok s as t) (h₀ : I s) : Run m (fun s a => ok s a ∧ I s) s as t := by
  induction h with
  | nil => exact .nil
  | cons hok hs _ ih => exact .cons ⟨hok, h₀⟩ hs (ih (hstep _ _ _ h₀ hok hs))

/-- The invariant rule for a property of the actions taken so far and the state reached. -/
theorem Run.invariant_trace {P : List α → σ → Prop} (h₀ : P [] s)
    (hstep : ∀ as t a u, P as t → ok t a → m t a = some u → P (as ++ [a]) u)
    (h : Run m ok s as t) : P as t := by
  suffices H : ∀ pre, P pre s → P (pre ++ as) t by simpa using H [] h₀
  clear h₀
  induction h with
  | nil => intro pre hp; simpa using hp
  | @cons s t u a as hok hs _ ih =>
    intro pre hp
    have := ih (pre ++ [a]) (hstep pre s a t hp hok hs)
    simpa using this

/-! ### Replaying -/

@[simp] theorem exec_nil (m : Machine σ α) (s : σ) : m.exec s [] = some s := rfl

@[simp] theorem exec_cons (m : Machine σ α) (s : σ) (a : α) (as : List α) :
    m.exec s (a :: as) = (m s a).bind fun t => m.exec t as := rfl

theorem exec_append (m : Machine σ α) (s : σ) (as bs : List α) :
    m.exec s (as ++ bs) = (m.exec s as).bind fun t => m.exec t bs := by
  induction as generalizing s with
  | nil => rfl
  | cons a as ih =>
    simp only [List.cons_append, exec_cons]
    cases m s a with
    | none => rfl
    | some t => exact ih t

/-- Replaying a list is a run that asks nothing of its steps. -/
theorem exec_eq_some_iff : m.exec s as = some t ↔ Run m anyStep s as t := by
  constructor
  · intro h
    induction as generalizing s with
    | nil =>
      simp only [exec_nil, Option.some.injEq] at h
      exact h ▸ .nil
    | cons a as ih =>
      rw [exec_cons, Option.bind_eq_some_iff] at h
      obtain ⟨u, hs, h⟩ := h
      exact .cons trivial hs (ih h)
  · intro h
    induction h with
    | nil => rfl
    | cons _ hs _ ih => rw [exec_cons, hs]; exact ih

theorem Run.exec (h : Run m ok s as t) : m.exec s as = some t :=
  exec_eq_some_iff.mpr (h.mono fun _ _ _ => trivial)

/-- Replay a list of actions while checking the condition of each step. -/
def execIf (m : Machine σ α) (ok : σ → α → Prop) [∀ s a, Decidable (ok s a)] : σ → List α → Option σ
  | s, [] => some s
  | s, a :: as => if ok s a then (m s a).bind fun t => execIf m ok t as else none

/-- A replay that passes its checks is a run. -/
theorem Run.of_execIf [∀ s a, Decidable (ok s a)] (h : m.execIf ok s as = some t) : Run m ok s as t := by
  induction as generalizing s with
  | nil =>
    simp only [execIf, Option.some.injEq] at h
    exact h ▸ .nil
  | cons a as ih =>
    rw [execIf] at h
    split at h
    · rename_i hok
      obtain ⟨u, hs, h⟩ := Option.bind_eq_some_iff.mp h
      exact .cons hok hs (ih h)
    · cases h

/-- A replay that passes its checks and ends in `P` is a run that does. -/
theorem Run.exists_of_execIf [∀ s a, Decidable (ok s a)] {P : σ → Prop} [DecidablePred P]
    (h : (m.execIf ok s as).any (fun t => decide (P t)) = true) : ∃ t, Run m ok s as t ∧ P t := by
  cases ht : m.execIf ok s as with
  | none => rw [ht] at h; cases h
  | some t => rw [ht] at h; exact ⟨t, .of_execIf ht, of_decide_eq_true h⟩

/-- A run ends where the replay of its actions does. -/
theorem Run.ends (h : Run m ok s as t) {P : σ → Prop} [DecidablePred P]
    (hP : (m.exec s as).any (fun t => decide (P t)) = true) : P t := by
  rw [h.exec] at hP
  exact of_decide_eq_true hP

/-! ### The steps of a run -/

/-- The replay of `as` from `s` takes the step from `t` by `a` to `u`. -/
def Passes (m : Machine σ α) (s : σ) (as : List α) (t : σ) (a : α) (u : σ) : Prop :=
  ∃ bs cs, as = bs ++ a :: cs ∧ m.exec s bs = some t ∧ m t a = some u

theorem Passes.cons {b : α} {r : σ} (hs : m r b = some s) (h : Passes m s as t a u) :
    Passes m r (b :: as) t a u := by
  obtain ⟨bs, cs, rfl, hexec, hstep⟩ := h
  refine ⟨b :: bs, cs, rfl, ?_, hstep⟩
  rw [exec_cons, hs]
  exact hexec

/-- The steps of a run are those of a longer one. -/
theorem Passes.append (h : Passes m s as t a u) (bs : List α) : Passes m s (as ++ bs) t a u := by
  obtain ⟨as, cs, rfl, hexec, hstep⟩ := h
  exact ⟨as, cs ++ bs, by rw [List.append_assoc, List.cons_append], hexec, hstep⟩

/-- The last step of a run is one of its steps. -/
theorem Run.passes_last (h : Run m ok s as t) (hs : m t a = some u) : Passes m s (as ++ [a]) t a u :=
  ⟨as, [], rfl, h.exec, hs⟩

/-- A run through a step, cut there. -/
theorem Passes.cut {r : σ} (hp : Passes m s as t a u) (h : Run m ok s as r) :
    ∃ bs cs, as = bs ++ a :: cs ∧ Run m ok s bs t ∧ ok t a ∧ m t a = some u ∧ Run m ok u cs r := by
  obtain ⟨bs, cs, rfl, hexec, hstep⟩ := hp
  obtain ⟨t', h₁, h₂⟩ := h.of_append
  obtain rfl : t' = t := Option.some.inj (h₁.exec.symm.trans hexec)
  cases h₂ with
  | cons hok hs h₂ =>
    obtain rfl := Option.some.inj (hs.symm.trans hstep)
    exact ⟨bs, cs, rfl, h₁, hok, hs, h₂⟩

/-- A run meets a condition when each of its steps does. -/
theorem run_iff_passes {r : σ} :
    Run m ok s as r ↔ Run m anyStep s as r ∧ ∀ t a u, Passes m s as t a u → ok t a := by
  constructor
  · intro h
    refine ⟨h.mono fun _ _ _ => trivial, fun t a u hp => ?_⟩
    obtain ⟨-, -, -, -, hok, -⟩ := hp.cut h
    exact hok
  · rintro ⟨h, hall⟩
    induction h with
    | nil => exact .nil
    | @cons s t u a as _ hs _ ih =>
      exact .cons (hall s a t ⟨[], as, rfl, rfl, hs⟩) hs (ih fun t' a' u' hp => hall t' a' u' (hp.cons hs))

/-! ### History variables -/

/-- The machine with a history variable of type `τ` beside its state: `upd` says how a step
from `s` by `a` to `t` changes it. It never influences what steps are possible. -/
def track (m : Machine σ α) (upd : τ → σ → α → σ → τ) : Machine (σ × τ) α :=
  fun p a => (m p.1 a).map fun t => (t, upd p.2 p.1 a t)

theorem track_eq_some_iff {upd : τ → σ → α → σ → τ} {p q : σ × τ} :
    m.track upd p a = some q ↔ m p.1 a = some q.1 ∧ q.2 = upd p.2 p.1 a q.1 := by
  obtain ⟨t, h'⟩ := q
  simp only [track, Option.map_eq_some_iff, Prod.mk.injEq]
  constructor
  · rintro ⟨u, hu, rfl, rfl⟩
    exact ⟨hu, rfl⟩
  · rintro ⟨hu, rfl⟩
    exact ⟨t, hu, rfl, rfl⟩

theorem track_of_step {upd : τ → σ → α → σ → τ} (hs : m s a = some t) (h : τ) :
    m.track upd (s, h) a = some (t, upd h s a t) := track_eq_some_iff.mpr ⟨hs, rfl⟩

/-- Every run has a history. -/
theorem Run.track (upd : τ → σ → α → σ → τ) (h : Run m ok s as t) (h₀ : τ) :
    ∃ h₁, Run (m.track upd) (fun p a => ok p.1 a) (s, h₀) as (t, h₁) := by
  induction h generalizing h₀ with
  | nil => exact ⟨h₀, .nil⟩
  | @cons s t u a as hok hs _ ih =>
    obtain ⟨h₁, hr⟩ := ih (upd h₀ s a t)
    exact ⟨h₁, .cons hok (track_eq_some_iff.mpr ⟨hs, rfl⟩) hr⟩

/-! ### Simulation -/

/-- What an observer sees of a run: `f` says what each step shows. -/
def observe (m : Machine σ α) (f : σ → α → List β) : σ → List α → List β
  | _, [] => []
  | s, a :: as => f s a ++ ((m s a).map fun t => observe m f t as).getD []

/-- Forward simulation: when every step that meets the condition is matched by the other
machine doing what the observer sees of it, so is every run. -/
theorem Run.simulate {n : Machine τ β} {R : σ → τ → Prop} {f : σ → α → List β}
    (hsim : ∀ s a s' t, R s t → ok s a → m s a = some s' →
      ∃ t', n.exec t (f s a) = some t' ∧ R s' t')
    {s' : σ} (h : Run m ok s as s') {t : τ} (h₀ : R s t) :
    ∃ t', n.exec t (m.observe f s as) = some t' ∧ R s' t' := by
  induction h generalizing t with
  | nil => exact ⟨t, rfl, h₀⟩
  | @cons s s₁ s' a as hok hs _ ih =>
    obtain ⟨t₁, he, hR⟩ := hsim _ _ _ _ h₀ hok hs
    obtain ⟨t', he', hR'⟩ := ih hR
    refine ⟨t', ?_, hR'⟩
    rw [observe, hs, Option.map_some, Option.getD_some, exec_append, he]
    exact he'

/-- Forward simulation by a run that meets a condition of its own: when every step is matched by
such a run, so is every run. -/
theorem Run.refine {n : Machine τ β} {okn : τ → β → Prop} {R : σ → τ → Prop}
    (hsim : ∀ s a s' t, R s t → ok s a → m s a = some s' → ∃ bs t', Run n okn t bs t' ∧ R s' t')
    {s' : σ} (h : Run m ok s as s') {t : τ} (h₀ : R s t) : ∃ bs t', Run n okn t bs t' ∧ R s' t' := by
  induction h generalizing t with
  | nil => exact ⟨[], t, .nil, h₀⟩
  | cons hok hs _ ih =>
    obtain ⟨bs, t₁, hrun, hR⟩ := hsim _ _ _ _ h₀ hok hs
    obtain ⟨cs, t', hrun', hR'⟩ := ih hR
    exact ⟨bs ++ cs, t', hrun.append hrun', hR'⟩

/-! ### Ranks -/

/-- A rank that every step of one party lowers, and that no step of another raises, bounds the steps of
that party. -/
theorem Run.countP_le {I : σ → Prop} (mine : α → Bool) (rank : σ → ℕ)
    (hI : ∀ s a t, I s → ok s a → m s a = some t → I t)
    (hrank : ∀ s a t, I s → ok s a → m s a = some t → rank t ≤ rank s ∧ (mine a = true → rank t < rank s))
    (h : Run m ok s as t) (h₀ : I s) : as.countP mine ≤ rank s := by
  induction h with
  | nil => exact Nat.zero_le _
  | @cons s t u a as hok hs _ ih =>
    obtain ⟨hle, hlt⟩ := hrank s a t h₀ hok hs
    have hcount := ih (hI s a t h₀ hok hs)
    rw [List.countP_cons]
    cases hmine : mine a with
    | true =>
      have := hlt hmine
      simp only [if_true]
      omega
    | false =>
      simp only [Bool.false_eq_true, if_false]
      omega

/-- A rank that every step of one party lowers until a goal, and that no step of another raises, is
used up by as many steps of that party, and the goal is reached: `I` is an invariant, and `G` the
goal, which is not left again. -/
theorem Run.ranked {I G : σ → Prop} (mine : α → Bool) (rank : σ → ℕ)
    (hI : ∀ s a t, I s → ok s a → m s a = some t → I t)
    (hG : ∀ s a t, I s → ok s a → m s a = some t → G s → G t)
    (hzero : ∀ s, I s → rank s = 0 → G s)
    (hrank : ∀ s a t, I s → ok s a → m s a = some t → ¬ G s →
      rank t ≤ rank s ∧ (mine a = true → rank t < rank s))
    (h : Run m ok s as t) (h₀ : I s) (hcount : rank s ≤ as.countP mine) : G t := by
  induction h with
  | nil => exact hzero _ h₀ (Nat.le_zero.mp hcount)
  | @cons s t u a as hok hs hrest ih =>
    by_cases hgoal : G s
    · have hkept := hrest.invariant (I := fun s => I s ∧ G s)
        (fun s a t hIG hok hs => ⟨hI s a t hIG.1 hok hs, hG s a t hIG.1 hok hs hIG.2⟩)
        ⟨hI s a t h₀ hok hs, hG s a t h₀ hok hs hgoal⟩
      exact hkept.2
    · obtain ⟨hle, hlt⟩ := hrank s a t h₀ hok hs hgoal
      apply ih (hI s a t h₀ hok hs)
      rw [List.countP_cons] at hcount
      cases hmine : mine a with
      | true =>
        have := hlt hmine
        simp only [hmine, if_true] at hcount
        omega
      | false =>
        simp only [hmine, Bool.false_eq_true, if_false] at hcount
        omega

end Machine

end HelmAlarm.Library
