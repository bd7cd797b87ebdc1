import HelmAlarm.Daemon.AlarmDaemon
import HelmAlarm.Daemon.Grammar

/-!
# A failed save and the calls after it

Calls made one after the other, the saves of some of which fail. What is on disk is
then the state asked for by the last call that was saved, `stored_calls`, and what is
in memory the state asked for last, `inner_calls`. A call is saved only if it changes
the state in memory: one that asks for the state the failed call had asked for returns
before the save. So a call made while the store works repairs a save that failed if it
asks for another state, or if it asks for the very state that was saved last, and not
else: `agrees_after_call_iff`.
-/

namespace HelmAlarm.Daemon.AlarmDaemon

variable {d : AlarmDaemon} {saved : State} {f : Faults}

/-- The state asked for last in a run of calls; at its start it was `state`. -/
def lastAsked (state : State) : List (Call × Faults) → State
  | [] => state
  | c :: cs => lastAsked c.1.desired cs

/-- The call is saved: it asks for another state than the one in memory, and its save succeeds. -/
def Saves (d : AlarmDaemon) (c : Call × Faults) : Prop :=
  d.inner ≠ c.1.desired ∧ (d.persistence.save c.2 c.1.desired.toPersisted).1 = .ok ()

instance (d : AlarmDaemon) (c : Call × Faults) : Decidable (d.Saves c) := inferInstanceAs (Decidable (_ ∧ _))

/-- The state asked for by the last call of a run that was saved; if none was, it is `saved`. -/
def lastSaved (saved : State) (d : AlarmDaemon) : List (Call × Faults) → State
  | [] => saved
  | c :: cs => lastSaved (if d.Saves c then c.1.desired else saved) (d.call c.2 c.1).2 cs

/-- One state is read back as another when it was saved. -/
def ReadsBackAs (saved state : State) : Prop := decodeState (encodeState saved.toPersisted) = .ok state.toPersisted

instance (saved state : State) : Decidable (ReadsBackAs saved state) := inferInstanceAs (Decidable (_ = _))

/-! ### What a call does, and a run of them -/

/-- A call leaves the state it asks for in memory. -/
theorem inner_call (f : Faults) (d : AlarmDaemon) (c : Call) : (d.call f c).2.inner = c.desired := by
  rw [call_eq, transitionTo_inner]

theorem inner_calls (d : AlarmDaemon) (cs : List (Call × Faults)) : (d.calls cs).inner = lastAsked d.inner cs := by
  induction cs generalizing d with
  | nil => rfl
  | cons c cs ih =>
    have hrest := ih (d.call c.2 c.1).2
    rw [inner_call] at hrest
    exact hrest

/-- A call that is saved puts the state it asks for on disk; any other leaves what is there. -/
theorem stored_call (h : d.persistence.stored = decodeState (encodeState saved.toPersisted)) (c : Call × Faults) :
    (d.call c.2 c.1).2.persistence.stored =
      decodeState (encodeState (if d.Saves c then c.1.desired else saved).toPersisted) := by
  rw [call_eq]
  by_cases hd : d.inner = c.1.desired
  · rw [← hd, transitionTo_self, if_neg fun hs => hs.1 hd]
    exact h
  · rw [transitionTo_of_ne hd]
    cases hsave : (d.persistence.save c.2 c.1.desired.toPersisted).1 with
    | ok u =>
      rw [if_pos ⟨hd, hsave⟩]
      exact Persistence.stored_save hsave
    | error e =>
      have hfails : ¬ d.Saves c := by
        intro hs
        rw [hs.2] at hsave
        cases hsave
      rw [if_neg hfails]
      exact (Persistence.stored_save_of_error hsave).trans h

/-- What is on disk after a run of calls is the state asked for by the last one that was saved. -/
theorem stored_calls (h : d.persistence.stored = decodeState (encodeState saved.toPersisted))
    (cs : List (Call × Faults)) :
    (d.calls cs).persistence.stored = decodeState (encodeState (lastSaved saved d cs).toPersisted) := by
  induction cs generalizing d saved with
  | nil => exact h
  | cons c cs ih => exact ih (stored_call h c)

/-- What is read from disk fits. -/
theorem fits_of_stored {p : Persistence} {state : PersistedState} (h : p.stored = .ok state) : state.Fits := by
  rw [Persistence.stored_eq] at h
  cases hfile : p.file with
  | none =>
    rw [hfile] at h
    obtain rfl := Except.ok.inj h
    simp [PersistedState.Fits]
  | some db =>
    simp only [hfile] at h
    obtain ⟨-, h⟩ := Persistence.attempt_bind_eq_ok h
    obtain ⟨-, h⟩ := Persistence.attempt_bind_eq_ok h
    split at h
    · obtain rfl := Except.ok.inj h
      simp [PersistedState.Fits]
    · obtain ⟨-, h⟩ := Persistence.attempt_bind_eq_ok h
      split at h
      · obtain rfl := Except.ok.inj h
        simp [PersistedState.Fits]
      · exact fits_of_decodeState h

/-- A daemon that agrees with its disk is one that has saved its state. -/
theorem Agrees.stored (h : d.Agrees) : d.persistence.stored = decodeState (encodeState d.inner.toPersisted) :=
  h.trans (decodeState_encodeState (fits_of_stored h)).symm

/-- Whichever saves of a run fail, disk and memory agree after it exactly when the state that was saved
last is read back as the one that was asked for last. -/
theorem agrees_calls_iff (h : d.Agrees) (cs : List (Call × Faults)) :
    (d.calls cs).Agrees ↔ ReadsBackAs (lastSaved d.inner d cs) (lastAsked d.inner cs) := by
  rw [Agrees, stored_calls h.stored, inner_calls]
  rfl

/-! ### The next call -/

/-- In every run of calls from a daemon that agrees with its disk, whichever of their saves fail: after a
call made while a save would succeed, disk and memory agree exactly when the call asks for another state
than the one before it (and its sound id fits), or the call before it asked for the same, and what the
last call that was saved asked for is read back as that state too. -/
theorem agrees_after_call_iff {d₀ : AlarmDaemon} (hd : d₀.Agrees) (before : List (Call × Faults)) (c : Call)
    (hworks : ∀ snapshot, ((d₀.calls before).persistence.save f snapshot).1 = .ok ()) :
    ((d₀.calls before).call f c).2.Agrees ↔
      (c.desired ≠ lastAsked d₀.inner before ∧ c.desired.toPersisted.Fits) ∨
      (c.desired = lastAsked d₀.inner before ∧ ReadsBackAs (lastSaved d₀.inner d₀ before) c.desired) := by
  have hinner := inner_calls d₀ before
  have hagrees := agrees_calls_iff hd before
  rw [call_eq]
  by_cases h : (d₀.calls before).inner = c.desired
  · -- the call is for the state in memory, and saves nothing
    rw [← h, transitionTo_self, hagrees, hinner]
    simp
  · have hne : c.desired ≠ lastAsked d₀.inner before := fun heq => h (hinner.trans heq.symm)
    rw [transitionTo_of_ne h, Agrees, Persistence.stored_save (hworks _), decodeState_encodeState_iff]
    simp [hne]

/-- A daemon armed for a sound, on a disk that says so. -/
def armedDaemon : AlarmDaemon :=
  AlarmDaemon.calls ⟨.disarmed, {}⟩ [(.armWithSound "builtin:horn" (some 3000), .none)]

/-- A disarm whose commit fails. -/
def unsavedDisarm : List (Call × Faults) := [(.disarm, { commit := some "disk full" })]

/-- To arm again repairs it: that is another state than the one asked for before. -/
theorem agrees_after_call_iff_arm_again :
    ¬ (armedDaemon.calls unsavedDisarm).Agrees ∧
      ((armedDaemon.calls unsavedDisarm).call .none (.armWithSound "builtin:horn" (some 3000))).2.Agrees :=
  ⟨by decide, (agrees_after_call_iff (by decide) unsavedDisarm _ fun snapshot => Persistence.save_none snapshot _).mpr
    (.inl (by decide))⟩

/-- The commit of `disarm` fails; the client disarms again, with the store working. The second
call finds memory disarmed and returns: the disk still says armed. -/
theorem disarm_again_is_not_saved :
    armedDaemon.Agrees ∧
    ¬ ((armedDaemon.calls unsavedDisarm).call .none .disarm).2.Agrees ∧
    ((armedDaemon.calls unsavedDisarm).call .none .disarm).2.persistence.stored =
      .ok ⟨true, some 3000, some "builtin:horn"⟩ := by
  decide

end HelmAlarm.Daemon.AlarmDaemon
