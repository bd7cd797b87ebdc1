import HelmAlarm.Daemon.Persistence

/-!
# The alarm daemon

`AlarmDaemon` of `daemon/alarm_daemon.rs`, one call at a time: starting from the
persisted state, and `transition_to`, which swaps the in-memory state and then
saves it. A save that fails is only logged, so memory and disk can come apart;
`Agrees` says that they have not.

The part of `transition_to` under the write lock is `State.swap`; the concurrent
models use the same function.

The optional persistence of the source is left out: only the test constructor
makes a daemon without one.
-/

namespace HelmAlarm.Daemon

/-- What `transition_to` does under the write lock: nothing when the state is the desired one
already; else the new state, the snapshot to persist, and the transition to report. -/
def State.swap (state desired : State) : Option (State × PersistedState × Transition) :=
  if state = desired then none
  else some (desired, desired.toPersisted, .changed state.status desired.status)

theorem State.swap_self (state : State) : state.swap state = none := if_pos rfl

theorem State.swap_of_ne {state desired : State} (h : state ≠ desired) :
    state.swap desired = some (desired, desired.toPersisted, .changed state.status desired.status) := if_neg h

/-- In-memory daemon state shared by the IPC handlers, and its persistence. -/
structure AlarmDaemon where
  /-- The state. -/
  inner : State
  /-- Where it is saved. -/
  persistence : Persistence
  deriving DecidableEq, Repr

/-- The calls by which the daemon's state is changed. -/
inductive Call where
  /-- `arm_with_sound`. -/
  | armWithSound (soundId : String) (nextFireUnixMs : Option Int64)
  /-- `disarm`. -/
  | disarm
  deriving DecidableEq, Repr

/-- The state a call asks for. -/
def Call.desired : Call → State
  | .armWithSound soundId nextFireUnixMs => .armed (some soundId) nextFireUnixMs
  | .disarm => .disarmed

namespace AlarmDaemon

/-- `new_persistent`: a daemon with the state found on disk, and what it finds out about the
time it was down. -/
def newPersistent (f : Faults) (now : WallClock) (p : Persistence) :
    Except PersistenceError (AlarmDaemon × StartupRecovery) :=
  match p.load f with
  | (.error e, _) => .error e
  | (.ok persisted, p) => .ok (⟨.ofPersisted persisted, p⟩, Persistence.evaluateRecovery now persisted)

/-- `transition_to`. A save that fails is logged, and the transition stands. -/
def transitionTo (f : Faults) (desired : State) (d : AlarmDaemon) : Transition × AlarmDaemon :=
  match d.inner.swap desired with
  | none => (.noChange, d)
  | some (state, snapshot, transition) => (transition, ⟨state, (d.persistence.save f snapshot).2⟩)

/-- `arm_with_sound`. -/
def armWithSound (f : Faults) (soundId : String) (nextFireUnixMs : Option Int64) (d : AlarmDaemon) :
    Transition × AlarmDaemon :=
  d.transitionTo f (.armed (some soundId) nextFireUnixMs)

/-- `disarm`. -/
def disarm (f : Faults) (d : AlarmDaemon) : Transition × AlarmDaemon := d.transitionTo f .disarmed

/-- `status`. -/
def status (d : AlarmDaemon) : AlarmStatus := d.inner.status

/-- `current_sound`. -/
def currentSound (d : AlarmDaemon) : Option String := d.inner.currentSound

/-- One of the two calls. -/
def call (f : Faults) (d : AlarmDaemon) : Call → Transition × AlarmDaemon
  | .armWithSound soundId nextFireUnixMs => d.armWithSound f soundId nextFireUnixMs
  | .disarm => d.disarm f

theorem call_eq (f : Faults) (d : AlarmDaemon) (c : Call) : d.call f c = d.transitionTo f c.desired := by
  cases c <;> rfl

/-- Calls made one after the other, each with what fails while it saves. -/
def calls (d : AlarmDaemon) (cs : List (Call × Faults)) : AlarmDaemon :=
  cs.foldl (fun d c => (d.call c.2 c.1).2) d

/-- What is on disk is the state in memory. -/
def Agrees (d : AlarmDaemon) : Prop := d.persistence.stored = .ok d.inner.toPersisted

instance (d : AlarmDaemon) : Decidable d.Agrees := inferInstanceAs (Decidable (_ = _))

/-! ### What a transition does -/

/-- A transition leaves the state it was asked for in memory. -/
@[simp] theorem transitionTo_inner (f : Faults) (desired : State) (d : AlarmDaemon) :
    (d.transitionTo f desired).2.inner = desired := by
  unfold transitionTo
  by_cases h : d.inner = desired
  · simp only [h, State.swap_self]
  · simp only [State.swap_of_ne h]

/-- To ask for the state the daemon has is not to change it, and nothing is saved. -/
theorem transitionTo_self (f : Faults) (d : AlarmDaemon) : d.transitionTo f d.inner = (.noChange, d) := by
  rw [transitionTo, State.swap_self]

/-- A transition that changes the state saves it. -/
theorem transitionTo_of_ne {f : Faults} {desired : State} {d : AlarmDaemon} (h : d.inner ≠ desired) :
    d.transitionTo f desired =
      (.changed d.inner.status desired.status, ⟨desired, (d.persistence.save f desired.toPersisted).2⟩) := by
  rw [transitionTo, State.swap_of_ne h]

/-- The flag changes when the status asked for is another one. -/
theorem flag_transitionTo (f : Faults) (desired : State) (d : AlarmDaemon) :
    (d.transitionTo f desired).1.flag =
      if d.status = desired.status then none else some desired.status.isArmed := by
  by_cases h : d.inner = desired
  · rw [← h, transitionTo_self]
    simp [Transition.flag, status]
  · rw [transitionTo_of_ne h]
    by_cases hs : d.inner.status = desired.status <;> simp [Transition.flag, status, hs]

/-- After a transition that changes the state and is saved, disk and memory agree exactly when
the sound id fits. -/
theorem agrees_transitionTo_of_ne {desired : State} {d : AlarmDaemon} (h : d.inner ≠ desired) :
    (d.transitionTo .none desired).2.Agrees ↔ desired.toPersisted.Fits := by
  rw [transitionTo_of_ne h, Agrees, Persistence.stored_save_none]
  exact decodeState_encodeState_iff

/-- A daemon that agrees with its disk still does after a transition whose save works, if the
sound id fits. -/
theorem Agrees.transitionTo {desired : State} {d : AlarmDaemon} (h : d.Agrees)
    (hfits : desired.toPersisted.Fits) : (d.transitionTo .none desired).2.Agrees := by
  by_cases hd : d.inner = desired
  · subst hd
    rw [transitionTo_self]
    exact h
  · exact (agrees_transitionTo_of_ne hd).mpr hfits

/-- A daemon started on a disk that can be read agrees with it. -/
theorem newPersistent_agrees {f : Faults} {now : WallClock} {p : Persistence} {d : AlarmDaemon}
    {r : StartupRecovery} (h : newPersistent f now p = .ok (d, r)) (hp : (p.load f).1 = p.stored) :
    d.Agrees ∧ p.stored = .ok d.inner.toPersisted := by
  have hs := Persistence.stored_load f p
  unfold newPersistent at h
  split at h
  · cases h
  · rename_i persisted q hl
    rw [hl] at hp hs
    obtain ⟨rfl, -⟩ := Prod.mk.inj (Except.ok.inj h)
    simp only [Agrees, State.toPersisted_ofPersisted]
    exact ⟨hs.trans hp.symm, hp.symm⟩

/-- A start whose stat of the file fails comes up disarmed, whatever is on disk, and leaves it there. -/
theorem newPersistent_of_stat {f : Faults} (hstat : f.stat ≠ none) (now : WallClock) (p : Persistence) :
    newPersistent f now p = .ok (⟨.disarmed, p⟩, ⟨false⟩) := by
  rw [newPersistent, Persistence.load_of_stat hstat]
  rfl

/-- A process whose start can stat the file has the state that one has whose start met no fault. -/
theorem newPersistent_none_of_ok {f : Faults} {now : WallClock} {p : Persistence} {r : AlarmDaemon × StartupRecovery}
    (hstat : f.stat = none) (h : newPersistent f now p = .ok r) : newPersistent .none now p = .ok r := by
  unfold newPersistent at h ⊢
  cases hload : p.load f with
  | mk result q =>
    rw [hload] at h
    cases result with
    | error e => cases h
    | ok state =>
      rw [Persistence.load_none_of_ok hstat hload]
      exact h

end AlarmDaemon

end HelmAlarm.Daemon
