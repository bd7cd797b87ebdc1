/-!
# The daemon's state

The data of `daemon/alarm_status.rs`, `daemon/transition.rs`, `daemon/state.rs`,
`persistence/persisted_state.rs` and `persistence/startup_recovery.rs`. The
daemon holds one alarm: a status, the wall-clock time it is to fire at in
milliseconds, and the id of the sound selected for it. What goes to disk is
`State.toPersisted`; `State.ofPersisted` is how a restarted daemon reads it back.
-/

namespace HelmAlarm.Daemon

/-- Current armed/disarmed status of the daemon. -/
inductive AlarmStatus where
  /-- Alarm is not armed. -/
  | disarmed
  /-- Alarm is armed. -/
  | armed
  deriving DecidableEq, Repr

/-- Whether the alarm is currently armed. -/
def AlarmStatus.isArmed : AlarmStatus → Bool
  | .disarmed => false
  | .armed => true

@[simp] theorem AlarmStatus.isArmed_armed : AlarmStatus.armed.isArmed = true := rfl

@[simp] theorem AlarmStatus.isArmed_disarmed : AlarmStatus.disarmed.isArmed = false := rfl

theorem AlarmStatus.isArmed_inj {a b : AlarmStatus} : a.isArmed = b.isArmed ↔ a = b := by
  cases a <;> cases b <;> simp

theorem AlarmStatus.isArmed_eq_true {a : AlarmStatus} : a.isArmed = true ↔ a = .armed := by
  cases a <;> simp

/-- The persisted form of the state. -/
structure PersistedState where
  /-- Whether the alarm is armed. -/
  armed : Bool := false
  /-- When it fires, in milliseconds since the epoch. -/
  nextFireUnixMs : Option Int64 := none
  /-- The selected sound. -/
  currentSound : Option String := none
  deriving DecidableEq, Repr

/-- The daemon's in-memory state. -/
structure State where
  /-- Armed or not. -/
  status : AlarmStatus
  /-- When the alarm fires, in milliseconds since the epoch. -/
  nextFireUnixMs : Option Int64
  /-- The selected sound. -/
  currentSound : Option String
  deriving DecidableEq, Repr

namespace State

/-- Disarmed state with no scheduled fire and no selected sound. -/
def disarmed : State := ⟨.disarmed, none, none⟩

/-- Armed state with the given selected sound and optional fire timestamp. -/
def armed (soundId : Option String) (nextFireUnixMs : Option Int64) : State :=
  ⟨.armed, nextFireUnixMs, soundId⟩

/-- What is written to disk for this state. -/
def toPersisted (s : State) : PersistedState :=
  ⟨s.status.isArmed, s.nextFireUnixMs, s.currentSound⟩

/-- The state a daemon starts with after reading `p` from disk. -/
def ofPersisted (p : PersistedState) : State :=
  ⟨if p.armed then .armed else .disarmed, p.nextFireUnixMs, p.currentSound⟩

@[simp] theorem status_disarmed : disarmed.status = .disarmed := rfl

@[simp] theorem currentSound_disarmed : disarmed.currentSound = none := rfl

@[simp] theorem status_armed (id : Option String) (t : Option Int64) : (armed id t).status = .armed := rfl

@[simp] theorem nextFireUnixMs_armed (id : Option String) (t : Option Int64) :
    (armed id t).nextFireUnixMs = t := rfl

@[simp] theorem currentSound_armed (id : Option String) (t : Option Int64) :
    (armed id t).currentSound = id := rfl

@[simp] theorem toPersisted_disarmed : disarmed.toPersisted = {} := rfl

@[simp] theorem ofPersisted_default : ofPersisted {} = disarmed := rfl

/-- Nothing of the state is lost in its persisted form. -/
@[simp] theorem ofPersisted_toPersisted (s : State) : ofPersisted s.toPersisted = s := by
  obtain ⟨status, t, id⟩ := s
  cases status <;> rfl

@[simp] theorem toPersisted_ofPersisted (p : PersistedState) : (ofPersisted p).toPersisted = p := by
  obtain ⟨a, t, id⟩ := p
  cases a <;> rfl

end State

/-- Result of an arm/disarm call: did the state actually change? -/
inductive Transition where
  /-- Requested state already matched current state. -/
  | noChange
  /-- State changed from one value to another. -/
  | changed (fromStatus toStatus : AlarmStatus)
  deriving DecidableEq, Repr

/-- The value a transition changed the armed flag to, if it did. -/
def Transition.flag : Transition → Option Bool
  | .changed fromStatus toStatus => if fromStatus ≠ toStatus then some toStatus.isArmed else none
  | .noChange => none

/-- What a start finds out about the time the daemon was down. -/
structure StartupRecovery where
  /-- The armed alarm's fire time has passed. -/
  missedWhileDown : Bool
  deriving DecidableEq, Repr

end HelmAlarm.Daemon
