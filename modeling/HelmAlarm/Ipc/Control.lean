import HelmAlarm.Audio.Sounds
import HelmAlarm.Daemon.AlarmDaemon

/-!
# The control object

`Control` of `ipc/control.rs`: the four methods that change the alarm, the two
that read it, and the trigger task a call of Arm or Snooze spawns. This module
holds the parts the methods are made of (`schedule`, `cancelPending`, `spawn` …)
and the methods run from their start to their end with nothing in between; the
module `HelmAlarm.Ipc.Handlers` runs the same parts one at a time.

A task is kept after it has ended, so that a `JoinHandle` is its place in
`Control.tasks`. Dropping a handle detaches the task: that is why overwriting
`triggerTask` changes nothing in `tasks`.

Logging is left out. `list_sounds`, which changes nothing of this, is in the module
`HelmAlarm.Ipc.Listing`.
-/

namespace HelmAlarm.Ipc

open HelmAlarm.Daemon HelmAlarm.Audio

/-- The errors a method replies with (`zbus::fdo::Error`). -/
inductive FdoError where
  /-- `org.freedesktop.DBus.Error.InvalidArgs`. -/
  | invalidArgs (message : String)
  /-- `org.freedesktop.DBus.Error.Failed`. -/
  | failed (message : String)
  deriving DecidableEq, Repr

/-- The environment variables of the process. -/
abbrev Env := String → Option String

/-- What a method finds around it when it runs. -/
structure Host where
  /-- The file system. -/
  fs : FileSystem
  /-- The wall clock. -/
  wall : WallClock
  /-- The clock of the timers, in milliseconds. It is not the wall clock. -/
  mono : ℕ

/-! ### Trigger tasks -/

/-- What a call of `schedule_trigger_with_delay` has worked out before it changes anything. -/
structure Schedule where
  /-- The sound to play. -/
  soundId : String
  /-- The file it was resolved to. -/
  soundPath : String
  /-- The delay, in milliseconds. -/
  delay : ℕ
  /-- The wall-clock time it ends at. -/
  fireAt : Int64
  deriving DecidableEq, Repr

/-- The state the daemon is armed with for this schedule. -/
def Schedule.desired (sch : Schedule) : State := .armed (some sch.soundId) (some sch.fireAt)

/-- Where a trigger task stands. Its only await point is its sleep. -/
inductive Phase where
  /-- Waiting for the end of its sleep. -/
  | sleeping
  /-- Past its sleep, about to decode the file. -/
  | woken
  /-- The file is decoded, about to play it. -/
  | decoded (sound : DecodedSound)
  /-- It has ended. -/
  | finished
  deriving DecidableEq, Repr

/-- The task may still call `player.play`. -/
def Phase.isLive : Phase → Bool
  | .finished => false
  | _ => true

/-- The task is past its only await point, and has not ended. -/
def Phase.isRunning : Phase → Bool
  | .woken | .decoded _ => true
  | .sleeping | .finished => false

/-- A trigger task. -/
structure Task where
  /-- What it was spawned for. -/
  schedule : Schedule
  /-- When its sleep ends, on the clock of the timers. -/
  deadline : ℕ
  /-- Where it stands. -/
  phase : Phase
  deriving DecidableEq, Repr

/-- `JoinHandle::abort`. A task is dropped at its await point; one that is past it runs on. -/
def Task.abort (task : Task) : Task :=
  match task.phase with
  | .sleeping => { task with phase := .finished }
  | _ => task

/-- The task after it decoded its file. -/
def Task.decode (fs : FileSystem) (task : Task) : Task :=
  match fs.fromPath task.schedule.soundPath with
  | some sound => { task with phase := .decoded sound }
  | none => { task with phase := .finished }

@[simp] theorem Task.schedule_abort (task : Task) : task.abort.schedule = task.schedule := by
  unfold Task.abort
  split <;> rfl

@[simp] theorem Task.deadline_abort (task : Task) : task.abort.deadline = task.deadline := by
  unfold Task.abort
  split <;> rfl

@[simp] theorem Phase.isLive_finished : Phase.finished.isLive = false := rfl

@[simp] theorem Phase.isLive_sleeping : Phase.sleeping.isLive = true := rfl

/-- A task that is not past its sleep is ended by an abort. -/
theorem Task.isLive_abort {task : Task} (h : task.phase.isRunning = false) : task.abort.phase.isLive = false := by
  unfold Task.abort
  cases hp : task.phase with
  | sleeping => rfl
  | finished => simp [hp]
  | woken => simp [hp, Phase.isRunning] at h
  | decoded sound => simp [hp, Phase.isRunning] at h

theorem Task.isLive_of_isLive_abort {task : Task} (h : task.abort.phase.isLive = true) :
    task.phase.isLive = true := by
  unfold Task.abort at h
  cases hp : task.phase with
  | finished => simp [hp] at h
  | _ => rfl

/-! ### The control object -/

/-- `DEFAULT_TRIGGER_DELAY`, in milliseconds. -/
def defaultTriggerDelay : ℕ := 3000

/-- The value of a run of digits, if all are. -/
def digits (cs : List Char) : Option ℕ :=
  cs.foldlM (fun n c => if c.isDigit then some (10 * n + (c.toNat - '0'.toNat)) else none) 0

/-- `str::parse::<u64>`: one or more digits after an optional sign, of a value that fits. -/
def parseU64 (s : String) : Option ℕ :=
  let cs := match s.toList with
    | '+' :: cs => cs
    | cs => cs
  if cs = [] then none else (digits cs).filter (· < 2 ^ 64)

/-- D-Bus control object, with the tasks it spawned and the signals it emitted. -/
structure Control where
  /-- The daemon's state and store. -/
  daemon : AlarmDaemon
  /-- The sound directories. -/
  sounds : SoundLibrary
  /-- The delay of Arm, in milliseconds. -/
  triggerDelay : ℕ
  /-- The handle of the pending trigger. -/
  triggerTask : Option ℕ := none
  /-- The trigger tasks spawned so far, in order. -/
  tasks : List Task := []
  /-- The commands issued to the player so far. -/
  player : List PlayerCommand := []
  /-- The `StateChanged` signals emitted so far. -/
  signals : List Bool := []
  deriving DecidableEq, Repr

namespace Control

/-- `Control::new`. -/
def new (env : Env) (daemon : AlarmDaemon) : Control where
  daemon := daemon
  sounds := .fromEnv env
  triggerDelay := ((env "ALARM_DAEMON_TRIGGER_DELAY_MS").bind parseU64).getD defaultTriggerDelay

/-! ### The parts of the methods -/

/-- The start of `schedule_trigger_with_delay`: the sound id is resolved, and the fire time
computed. -/
def schedule (h : Host) (soundId : String) (delay : ℕ) (c : Control) : Except FdoError Schedule :=
  match c.sounds.resolvePath h.fs soundId with
  | .error e => .error (.invalidArgs e.toString)
  | .ok soundPath => .ok ⟨soundId, soundPath, delay, fireAt h.wall delay⟩

/-- The first half of `cancel_pending`: the handle is taken and its task aborted, under the lock. -/
def takeTrigger (c : Control) : Control :=
  match c.triggerTask with
  | none => c
  | some i => { c with triggerTask := none, tasks := c.tasks.modify i Task.abort }

/-- The second half of `cancel_pending`: the player is stopped. -/
def stopPlayer (c : Control) : Control := { c with player := c.player ++ [.stop] }

/-- `cancel_pending`. -/
def cancelPending (c : Control) : Control := c.takeTrigger.stopPlayer

/-- `tokio::spawn` of a trigger task, and its handle. -/
def spawn (h : Host) (sch : Schedule) (c : Control) : ℕ × Control :=
  (c.tasks.length, { c with tasks := c.tasks ++ [⟨sch, h.mono + sch.delay, .sleeping⟩] })

/-- The handle is stored; one that was there is dropped, which detaches its task. -/
def storeTrigger (i : ℕ) (c : Control) : Control := { c with triggerTask := some i }

/-- What a method does with the transition it made: `StateChanged` when the flag changed. -/
def announce (transition : Transition) (c : Control) : Control :=
  match transition with
  | .changed fromStatus toStatus =>
    if fromStatus ≠ toStatus then { c with signals := c.signals ++ [toStatus.isArmed] } else c
  | .noChange => c

/-! ### The methods -/

/-- The rest of `schedule_trigger_with_delay`, from `cancel_pending` on. -/
def startTrigger (h : Host) (f : Faults) (sch : Schedule) (c : Control) : Transition × Control :=
  let c := c.cancelPending
  let (transition, daemon) := c.daemon.armWithSound f sch.soundId (some sch.fireAt)
  let (handle, c) := { c with daemon := daemon }.spawn h sch
  (transition, c.storeTrigger handle)

/-- `schedule_trigger_with_delay`. -/
def scheduleTriggerWithDelay (h : Host) (f : Faults) (soundId : String) (delay : ℕ) (c : Control) :
    Except FdoError Transition × Control :=
  match c.schedule h soundId delay with
  | .error e => (.error e, c)
  | .ok sch =>
    let (transition, c) := c.startTrigger h f sch
    (.ok transition, c)

/-- `schedule_trigger`. -/
def scheduleTrigger (h : Host) (f : Faults) (soundId : String) (c : Control) :
    Except FdoError Transition × Control :=
  c.scheduleTriggerWithDelay h f soundId c.triggerDelay

/-- `arm`. -/
def arm (h : Host) (f : Faults) (soundId : String) (c : Control) : Except FdoError Unit × Control :=
  match c.scheduleTrigger h f soundId with
  | (.error e, c) => (.error e, c)
  | (.ok transition, c) => (.ok (), c.announce transition)

/-- What `disarm` and `dismiss` do: the pending trigger is cancelled, and the daemon disarmed. -/
def cancelAndDisarm (f : Faults) (c : Control) : Except FdoError Unit × Control :=
  let c := c.cancelPending
  let (transition, daemon) := c.daemon.disarm f
  (.ok (), { c with daemon := daemon }.announce transition)

/-- `disarm`. -/
def disarm (f : Faults) (c : Control) : Except FdoError Unit × Control := c.cancelAndDisarm f

/-- The checks of `snooze`, and the sound it schedules again. -/
def snoozeSound (durationS : UInt32) (c : Control) : Except FdoError String :=
  if durationS = 0 then .error (.invalidArgs "duration_s must be > 0")
  else
    match c.daemon.currentSound with
    | none => .error (.failed "cannot snooze: no armed alarm sound")
    | some soundId => .ok soundId

/-- The delay of `snooze`, in milliseconds. -/
def snoozeDelay (durationS : UInt32) : ℕ := durationS.toNat * 1000

/-- `snooze`. Its transition is not announced. -/
def snooze (h : Host) (f : Faults) (durationS : UInt32) (c : Control) : Except FdoError Unit × Control :=
  match c.snoozeSound durationS with
  | .error e => (.error e, c)
  | .ok soundId =>
    match c.scheduleTriggerWithDelay h f soundId (snoozeDelay durationS) with
    | (.error e, c) => (.error e, c)
    | (.ok _, c) => (.ok (), c)

/-- `dismiss`. -/
def dismiss (f : Faults) (c : Control) : Except FdoError Unit × Control := c.cancelAndDisarm f

/-- `status`. -/
def status (c : Control) : Bool := c.daemon.status.isArmed

/-- `current_sound`: the empty string when there is none. -/
def currentSound (c : Control) : String := c.daemon.currentSound.getD ""

/-! ### The trigger -/

/-- The sleep of task `i` is over. -/
def wake (h : Host) (i : ℕ) (c : Control) : Option Control :=
  match c.tasks[i]? with
  | some ⟨sch, deadline, .sleeping⟩ =>
    if deadline ≤ h.mono then some { c with tasks := c.tasks.set i ⟨sch, deadline, .woken⟩ } else none
  | _ => none

/-- Task `i` decodes its file. -/
def decode (h : Host) (i : ℕ) (c : Control) : Option Control :=
  match c.tasks[i]? with
  | some ⟨sch, deadline, .woken⟩ =>
    some { c with tasks := c.tasks.set i (Task.decode h.fs ⟨sch, deadline, .woken⟩) }
  | _ => none

/-- Task `i` plays what it decoded, and ends. -/
def play (i : ℕ) (c : Control) : Option Control :=
  match c.tasks[i]? with
  | some ⟨sch, deadline, .decoded sound⟩ =>
    match VolumeProfile.new 1 .immediate false with
    | .error _ => some { c with tasks := c.tasks.set i ⟨sch, deadline, .finished⟩ }
    | .ok profile =>
      some { c with
        tasks := c.tasks.set i ⟨sch, deadline, .finished⟩
        player := c.player ++ [.play sound profile] }
  | _ => none

/-! ### What the parts leave alone -/

variable {c : Control} {n : ℕ}

@[simp] theorem daemon_takeTrigger : c.takeTrigger.daemon = c.daemon := by
  unfold takeTrigger
  split <;> rfl

@[simp] theorem signals_takeTrigger : c.takeTrigger.signals = c.signals := by
  unfold takeTrigger
  split <;> rfl

/-- After `cancel_pending` took the handle, none is held. -/
@[simp] theorem triggerTask_takeTrigger : c.takeTrigger.triggerTask = none := by
  unfold takeTrigger
  split
  · assumption
  · rfl

@[simp] theorem length_tasks_takeTrigger : c.takeTrigger.tasks.length = c.tasks.length := by
  unfold takeTrigger
  split
  · rfl
  · exact List.length_modify _ _ _

/-- Only the task whose handle is held is aborted. -/
theorem tasks_takeTrigger :
    c.takeTrigger.tasks[n]? = if c.triggerTask = some n then c.tasks[n]?.map Task.abort else c.tasks[n]? := by
  unfold takeTrigger
  cases hc : c.triggerTask with
  | none => simp
  | some m => simp only [List.getElem?_modify, Option.some.injEq]; split <;> simp

@[simp] theorem daemon_announce (transition : Transition) : (c.announce transition).daemon = c.daemon := by
  unfold announce
  repeat' split
  all_goals rfl

@[simp] theorem tasks_announce (transition : Transition) : (c.announce transition).tasks = c.tasks := by
  unfold announce
  repeat' split
  all_goals rfl

@[simp] theorem triggerTask_announce (transition : Transition) :
    (c.announce transition).triggerTask = c.triggerTask := by
  unfold announce
  repeat' split
  all_goals rfl

/-- A transition is announced when it changed the flag. -/
theorem signals_announce (transition : Transition) :
    (c.announce transition).signals = c.signals ++ transition.flag.toList := by
  cases transition with
  | noChange => simp [announce, Transition.flag]
  | changed a b => by_cases hab : a = b <;> simp [announce, Transition.flag, hab]

/-- Nothing but the signals. -/
theorem announce_eq (transition : Transition) :
    c.announce transition = { c with signals := c.signals ++ transition.flag.toList } := by
  rw [← signals_announce]
  unfold announce
  repeat' split
  all_goals rfl

/-- Taking the handle changes nothing but it, and the task. -/
theorem takeTrigger_eq : c.takeTrigger = { c with triggerTask := none, tasks := c.takeTrigger.tasks } := by
  obtain ⟨daemon, sounds, triggerDelay, triggerTask, tasks, player, signals⟩ := c
  cases triggerTask <;> rfl

/-! ### What the methods do -/

theorem cancelPending_eq : c.cancelPending =
    { c with triggerTask := none, tasks := c.takeTrigger.tasks, player := c.player ++ [.stop] } := by
  rw [cancelPending, takeTrigger_eq]
  rfl

theorem startTrigger_eq (h : Host) (f : Faults) (sch : Schedule) : c.startTrigger h f sch =
    ((c.daemon.transitionTo f sch.desired).1, { c with
      daemon := (c.daemon.transitionTo f sch.desired).2
      tasks := c.takeTrigger.tasks ++ [⟨sch, h.mono + sch.delay, .sleeping⟩]
      triggerTask := some c.tasks.length
      player := c.player ++ [.stop] }) := by
  rw [startTrigger, cancelPending_eq, ← length_tasks_takeTrigger]
  rfl

theorem cancelAndDisarm_eq (f : Faults) : c.cancelAndDisarm f =
    (.ok (), { c with
      daemon := (c.daemon.transitionTo f .disarmed).2
      tasks := c.takeTrigger.tasks
      triggerTask := none
      player := c.player ++ [.stop]
      signals := c.signals ++ (c.daemon.transitionTo f .disarmed).1.flag.toList }) := by
  rw [cancelAndDisarm, cancelPending_eq]
  simp only [announce_eq]
  rfl

/-! ### The pending trigger -/

/-- Task `n` may still play. -/
def Live (c : Control) (n : ℕ) : Prop := ∃ task, c.tasks[n]? = some task ∧ task.phase.isLive = true

instance : Decidable (c.Live n) :=
  decidable_of_iff (c.tasks[n]?.any fun task => task.phase.isLive)
    (by cases h : c.tasks[n]? <;> simp [Live, h])

/-- The task whose handle is held. -/
def pendingTask (c : Control) : Option Task := c.triggerTask.bind fun n => c.tasks[n]?

theorem pendingTask_eq {task : Task} (hc : c.triggerTask = some n) (ht : c.tasks[n]? = some task) :
    c.pendingTask = some task := by
  rw [pendingTask, hc]
  exact ht

/-- A task that is live after the handle was taken was live before. -/
theorem Live.of_takeTrigger (h : c.takeTrigger.Live n) : c.Live n := by
  obtain ⟨task, ht, hl⟩ := h
  rw [tasks_takeTrigger] at ht
  split at ht
  · obtain ⟨task', ht', rfl⟩ := Option.map_eq_some_iff.mp ht
    exact ⟨task', ht', Task.isLive_of_isLive_abort hl⟩
  · exact ⟨task, ht, hl⟩

/-- When the pending trigger is not past its sleep, taking its handle ends it. -/
theorem not_live_takeTrigger (hrun : c.pendingTask.all fun task => !task.phase.isRunning)
    (hc : c.triggerTask = some n) : ¬ c.takeTrigger.Live n := by
  rintro ⟨task, ht, hl⟩
  rw [tasks_takeTrigger, if_pos hc] at ht
  obtain ⟨task', ht', rfl⟩ := Option.map_eq_some_iff.mp ht
  rw [pendingTask_eq hc ht'] at hrun
  have hended : task'.abort.phase.isLive = false := Task.isLive_abort (by simpa using hrun)
  rw [hended] at hl
  cases hl

theorem not_live_of_pendingTask (hend : c.pendingTask.all fun task => !task.phase.isLive)
    (hc : c.triggerTask = some n) : ¬ c.Live n := by
  rintro ⟨task, ht, hl⟩
  rw [pendingTask_eq hc ht] at hend
  simp [hl] at hend

end Control

end HelmAlarm.Ipc
