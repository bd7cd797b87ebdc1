import Mathlib.Data.List.Basic

/-!
# Pools of threads

Concurrent parties are a list of local states: party `i` is at `l[i]?`, it moves
by `l.set i b`, and a new party is added by `l ++ [b]`. The lemmas say where the
parties of the pool after such a move come from.
-/

namespace HelmAlarm.Library.Pool

variable {α β : Type*} {l : List α} {a b x : α} {i j : ℕ}

/-- After party `i` moved to `b`, a party is either that one, or where it was. -/
theorem of_set (h : (l.set i b)[j]? = some x) : j = i ∧ x = b ∨ j ≠ i ∧ l[j]? = some x := by
  by_cases hij : j = i
  · subst hij
    rw [List.getElem?_set_self'] at h
    cases hl : l[j]? with
    | none => simp [hl] at h
    | some a =>
      simp only [hl, Option.map_eq_map, Option.map_some, Function.const_apply, Option.some.injEq] at h
      exact .inl ⟨rfl, h.symm⟩
  · rw [List.getElem?_set_ne (Ne.symm hij)] at h
    exact .inr ⟨hij, h⟩

/-- The party that moved is where it moved to. -/
theorem set_self (h : l[i]? = some a) : (l.set i b)[i]? = some b := by
  rw [List.getElem?_set_self']
  simp [h]

/-- The others are where they were. -/
theorem set_of_ne (hij : j ≠ i) : (l.set i b)[j]? = l[j]? := List.getElem?_set_ne (Ne.symm hij)

/-- After a party was added, a party is either that one, or where it was. -/
theorem of_add (h : (l ++ [b])[j]? = some x) : j = l.length ∧ x = b ∨ l[j]? = some x := by
  rcases Nat.lt_trichotomy j l.length with hj | rfl | hj
  · rw [List.getElem?_append_left hj] at h
    exact .inr h
  · simp only [List.getElem?_concat_length, Option.some.injEq] at h
    exact .inl ⟨rfl, h.symm⟩
  · rw [List.getElem?_eq_none (by simp; omega)] at h
    cases h

/-- A party stays where it is when another is added. -/
theorem add_of_some (h : l[j]? = some x) : (l ++ [b])[j]? = some x := by
  rw [List.getElem?_append_left (List.getElem?_eq_some_iff.mp h).1]
  exact h

theorem add_self : (l ++ [b])[l.length]? = some b := List.getElem?_concat_length

/-- The party that moved is in the pool. -/
theorem mem_set_self (h : l[i]? = some a) : b ∈ l.set i b := List.mem_of_getElem? (set_self h)

/-- A party that is not where the mover was did not move. -/
theorem mem_set_of_ne (h : l[i]? = some a) (hx : x ∈ l) (hne : x ≠ a) : x ∈ l.set i b := by
  obtain ⟨j, hj⟩ := List.mem_iff_getElem?.mp hx
  have hji : j ≠ i := by
    rintro rfl
    exact hne (Option.some.inj (hj.symm.trans h))
  exact List.mem_of_getElem? ((set_of_ne hji).trans hj)

/-- What holds of every party still does when one moves to where it holds. -/
theorem forall_set {P : α → Prop} (h : ∀ x ∈ l, P x) (hb : P b) : ∀ x ∈ l.set i b, P x := by
  intro x hx
  rcases List.mem_or_eq_of_mem_set hx with hx | rfl
  · exact h x hx
  · exact hb

theorem forall_add {P : α → Prop} (h : ∀ x ∈ l, P x) (hb : P b) : ∀ x ∈ l ++ [b], P x := by
  intro x hx
  rcases List.mem_append.mp hx with hx | hx
  · exact h x hx
  · exact List.mem_singleton.mp hx ▸ hb

/-- Where the parties are, after one moved. -/
theorem map_set (f : α → β) (h : l[i]? = some a) :
    (fun j => (l.set i b)[j]?.map f) = Function.update (fun j => l[j]?.map f) i (some (f b)) := by
  funext j
  by_cases hj : j = i
  · subst hj
    rw [set_self h, Function.update_self, Option.map_some]
  · rw [set_of_ne hj, Function.update_of_ne hj]

/-- Where the parties are, after one was added. -/
theorem map_add (f : α → β) :
    (fun j => (l ++ [b])[j]?.map f) = Function.update (fun j => l[j]?.map f) l.length (some (f b)) := by
  funext j
  rcases Nat.lt_trichotomy j l.length with hj | rfl | hj
  · rw [List.getElem?_append_left hj, Function.update_of_ne (Nat.ne_of_lt hj)]
  · rw [add_self, Function.update_self, Option.map_some]
  · have hle : (l ++ [b]).length ≤ j := by
      rw [List.length_append]
      exact hj
    rw [Function.update_of_ne (Nat.ne_of_gt hj), List.getElem?_eq_none (Nat.le_of_lt hj), List.getElem?_eq_none hle]

/-! ### One at a time -/

/-- No two parties of the pool are in `p`. -/
def AtMostOne (p : α → Prop) (l : List α) : Prop :=
  ∀ (i j : ℕ) (x y : α), l[i]? = some x → l[j]? = some y → p x → p y → i = j

variable {p : α → Prop}

/-- When a party is in `p`, no other one is. -/
theorem AtMostOne.eq_or (h : AtMostOne p l) (hi : l[i]? = some a) (ha : p a) (hx : x ∈ l) : x = a ∨ ¬ p x := by
  obtain ⟨j, hj⟩ := List.mem_iff_getElem?.mp hx
  by_cases hp : p x
  · obtain rfl := h _ _ _ _ hj hi hp ha
    exact .inl (Option.some.inj (hj.symm.trans hi))
  · exact .inr hp

/-- The one party that is in `p` may move. -/
theorem AtMostOne.set (h : AtMostOne p l) (hi : l[i]? = some a) (ha : p a) : AtMostOne p (l.set i b) := by
  intro j k x y hj hk hx hy
  rcases of_set hj with ⟨rfl, -⟩ | ⟨hji, hj'⟩
  · rcases of_set hk with ⟨rfl, -⟩ | ⟨hki, hk'⟩
    · rfl
    · exact absurd (h _ _ _ _ hk' hi hy ha) hki
  · exact absurd (h _ _ _ _ hj' hi hx ha) hji

/-- A party may be added when none is in `p`. -/
theorem AtMostOne.add (h : ∀ x ∈ l, ¬ p x) : AtMostOne p (l ++ [b]) := by
  intro j k x y hj hk hx hy
  rcases of_add hj with ⟨rfl, -⟩ | hj'
  · rcases of_add hk with ⟨rfl, -⟩ | hk'
    · rfl
    · exact absurd hy (h y (List.mem_of_getElem? hk'))
  · exact absurd hx (h x (List.mem_of_getElem? hj'))

theorem atMostOne_nil : AtMostOne p ([] : List α) := by
  intro i j x y hi
  cases hi

/-- Of the parties after the one in `p` moved, the others are not in `p`. -/
theorem AtMostOne.forall_set (h : AtMostOne p l) (hi : l[i]? = some a) (ha : p a) {q : α → Prop} (hb : q b)
    (hq : ∀ x ∈ l, ¬ p x → q x) : ∀ x ∈ l.set i b, q x := by
  intro x hx
  obtain ⟨j, hj⟩ := List.mem_iff_getElem?.mp hx
  rcases of_set hj with ⟨-, rfl⟩ | ⟨hji, hj'⟩
  · exact hb
  · exact hq x (List.mem_of_getElem? hj') fun hp => hji (h _ _ _ _ hj' hi hp ha)

end HelmAlarm.Library.Pool
