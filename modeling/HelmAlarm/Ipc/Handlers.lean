import HelmAlarm.Library.Machine
import HelmAlarm.Library.Pool
import HelmAlarm.Ipc.Control
import Mathlib.Logic.Relation

/-!
# Handlers at their await points

zbus runs the methods of `Control` concurrently. A handler takes its steps in the
order of the source, one lock or one effect at a time (`Pc`, `Control.move`), and
between two of them anything may happen: steps of other handlers, of the trigger
tasks, of the clocks, changes of the file system, and a restart of the process.
`step` is the machine of all these.

`Moves.handle` connects it with the methods run in one piece: a handler that
nothing comes between does what the method does.
-/

namespace HelmAlarm.Ipc

open HelmAlarm.Library HelmAlarm.Daemon HelmAlarm.Audio

/-- A method call that changes the alarm. -/
inductive Request where
  /-- Arm. -/
  | arm (soundId : String)
  /-- Disarm. -/
  | disarm
  /-- Snooze. -/
  | snooze (durationS : UInt32)
  /-- Dismiss. -/
  | dismiss
  deriving DecidableEq, Repr

/-- The method ends the alarm. -/
def Request.isAck : Request → Bool
  | .disarm | .dismiss => true
  | .arm _ | .snooze _ => false

/-- What a method that was not rejected does. -/
inductive Job where
  /-- It schedules a trigger; the transition is announced by `arm`, and not by `snooze`. -/
  | schedule (sch : Schedule) (announces : Bool)
  /-- It cancels the trigger and disarms. -/
  | disarm
  deriving DecidableEq, Repr

/-- The state the daemon is to be in. -/
def Job.desired : Job → State
  | .schedule sch _ => sch.desired
  | .disarm => .disarmed

/-- The transition is announced. -/
def Job.announces : Job → Bool
  | .schedule _ announces => announces
  | .disarm => true

/-- Where a handler stands: what it does next. -/
inductive Pc where
  /-- Check the request. -/
  | begin
  /-- Take the handle of the pending trigger and abort it (`cancel_pending`). -/
  | takeTrigger (job : Job)
  /-- Stop the player (`cancel_pending`). -/
  | stopPlayer (job : Job)
  /-- Swap the state (`transition_to`). -/
  | swap (job : Job)
  /-- Save the state (`transition_to`). -/
  | save (job : Job) (snapshot : PersistedState) (transition : Transition)
  /-- Spawn the trigger task. -/
  | spawn (sch : Schedule) (announces : Bool) (transition : Transition)
  /-- Store its handle. -/
  | store (sch : Schedule) (announces : Bool) (transition : Transition) (handle : ℕ)
  /-- Announce the transition. -/
  | announce (job : Job) (transition : Transition)
  /-- Nothing: it has returned. -/
  | done (reply : Except FdoError Job)
  deriving DecidableEq, Repr

/-- The handler has returned. -/
def Pc.isDone : Pc → Bool
  | .done _ => true
  | _ => false

theorem Pc.eq_done {pc : Pc} (h : pc.isDone = true) : ∃ reply, pc = .done reply := by
  cases pc with
  | done reply => exact ⟨reply, rfl⟩
  | _ => cases h

/-- Where a handler stands after its transition. -/
def Job.afterTransition : Job → Transition → Pc
  | .schedule sch announces, transition => .spawn sch announces transition
  | .disarm, transition => .announce .disarm transition

/-- The checks of a method, before it changes anything. -/
def Control.begin (h : Host) (c : Control) : Request → Except FdoError Job
  | .arm soundId => (c.schedule h soundId c.triggerDelay).map fun sch => .schedule sch true
  | .snooze durationS =>
    match c.snoozeSound durationS with
    | .error e => .error e
    | .ok soundId => (c.schedule h soundId (Control.snoozeDelay durationS)).map fun sch => .schedule sch false
  | .disarm | .dismiss => .ok .disarm

/-- What the checks of a method find: one case for each way they end. -/
inductive Begun (h : Host) (c : Control) : Request → Except FdoError Job → Prop where
  /-- The sound of an Arm is not resolved. -/
  | armRejected {soundId : String} {e : FdoError} (hs : c.schedule h soundId c.triggerDelay = .error e) :
      Begun h c (.arm soundId) (.error e)
  /-- An Arm is accepted. -/
  | armed {soundId : String} {sch : Schedule} (hs : c.schedule h soundId c.triggerDelay = .ok sch) :
      Begun h c (.arm soundId) (.ok (.schedule sch true))
  /-- There is nothing to snooze, or no time to snooze it for. -/
  | snoozeRejected {durationS : UInt32} {e : FdoError} (hd : c.snoozeSound durationS = .error e) :
      Begun h c (.snooze durationS) (.error e)
  /-- The sound of a Snooze is not resolved any more. -/
  | snoozeUnresolved {durationS : UInt32} {soundId : String} {e : FdoError}
      (hd : c.snoozeSound durationS = .ok soundId)
      (hs : c.schedule h soundId (Control.snoozeDelay durationS) = .error e) :
      Begun h c (.snooze durationS) (.error e)
  /-- A Snooze is accepted. -/
  | snoozed {durationS : UInt32} {soundId : String} {sch : Schedule} (hd : c.snoozeSound durationS = .ok soundId)
      (hs : c.schedule h soundId (Control.snoozeDelay durationS) = .ok sch) :
      Begun h c (.snooze durationS) (.ok (.schedule sch false))
  /-- A Disarm or Dismiss has nothing to check. -/
  | acked {request : Request} (hack : request.isAck = true) : Begun h c request (.ok .disarm)

/-- The checks end in one of these ways. -/
theorem Control.begun (h : Host) (c : Control) (request : Request) : Begun h c request (c.begin h request) := by
  cases request with
  | arm soundId =>
    cases hs : c.schedule h soundId c.triggerDelay with
    | error e => simpa [begin, hs, Except.map] using Begun.armRejected hs
    | ok sch => simpa [begin, hs, Except.map] using Begun.armed hs
  | snooze durationS =>
    cases hd : c.snoozeSound durationS with
    | error e => simpa [begin, hd] using Begun.snoozeRejected hd
    | ok soundId =>
      cases hs : c.schedule h soundId (snoozeDelay durationS) with
      | error e => simpa [begin, hd, hs, Except.map] using Begun.snoozeUnresolved hd hs
      | ok sch => simpa [begin, hd, hs, Except.map] using Begun.snoozed hd hs
  | disarm => exact .acked rfl
  | dismiss => exact .acked rfl

theorem Control.begun_of_begin {h : Host} {c : Control} {request : Request} {r : Except FdoError Job}
    (hb : c.begin h request = r) : Begun h c request r := hb ▸ c.begun h request

/-- One step of a handler of `request`; `f` is what fails of a save. -/
def Control.move (h : Host) (f : Faults) (request : Request) (c : Control) : Pc → Option (Control × Pc)
  | .begin =>
    match c.begin h request with
    | .error e => some (c, .done (.error e))
    | .ok job => some (c, .takeTrigger job)
  | .takeTrigger job => some (c.takeTrigger, .stopPlayer job)
  | .stopPlayer job => some (c.stopPlayer, .swap job)
  | .swap job =>
    match c.daemon.inner.swap job.desired with
    | none => some (c, job.afterTransition .noChange)
    | some (state, snapshot, transition) =>
      some ({ c with daemon.inner := state }, .save job snapshot transition)
  | .save job snapshot transition =>
    some ({ c with daemon.persistence := (c.daemon.persistence.save f snapshot).2 },
      job.afterTransition transition)
  | .spawn sch announces transition =>
    let (handle, c) := c.spawn h sch
    some (c, .store sch announces transition handle)
  | .store sch announces transition handle =>
    some (c.storeTrigger handle, .announce (.schedule sch announces) transition)
  | .announce job transition => some (if job.announces then c.announce transition else c, .done (.ok job))
  | .done _ => none

/-- What a step of a handler does: one case for each place in the source. -/
inductive Moved (h : Host) (request : Request) : Control → Pc → Control → Pc → Prop where
  /-- The request is rejected. -/
  | rejected {c : Control} {e : FdoError} (hb : c.begin h request = .error e) :
      Moved h request c .begin c (.done (.error e))
  /-- The request is accepted. -/
  | accepted {c : Control} {job : Job} (hb : c.begin h request = .ok job) :
      Moved h request c .begin c (.takeTrigger job)
  /-- The pending trigger is taken and aborted. -/
  | taken {c : Control} {job : Job} : Moved h request c (.takeTrigger job) c.takeTrigger (.stopPlayer job)
  /-- The player is stopped. -/
  | stopped {c : Control} {job : Job} : Moved h request c (.stopPlayer job) c.stopPlayer (.swap job)
  /-- The state is the desired one already. -/
  | kept {c : Control} {job : Job} (hd : c.daemon.inner = job.desired) :
      Moved h request c (.swap job) c (job.afterTransition .noChange)
  /-- The state is changed. -/
  | swapped {c : Control} {job : Job} (hd : c.daemon.inner ≠ job.desired) :
      Moved h request c (.swap job) { c with daemon.inner := job.desired } (.save job job.desired.toPersisted
        (.changed c.daemon.inner.status job.desired.status))
  /-- The save has run. -/
  | saved {c : Control} {job : Job} {snapshot : PersistedState} {transition : Transition} (f : Faults) :
      Moved h request c (.save job snapshot transition)
        { c with daemon.persistence := (c.daemon.persistence.save f snapshot).2 } (job.afterTransition transition)
  /-- The trigger task is spawned. -/
  | spawned {c : Control} {sch : Schedule} {announces : Bool} {transition : Transition} :
      Moved h request c (.spawn sch announces transition)
        { c with tasks := c.tasks ++ [⟨sch, h.mono + sch.delay, .sleeping⟩] }
        (.store sch announces transition c.tasks.length)
  /-- Its handle is stored. -/
  | stored {c : Control} {sch : Schedule} {announces : Bool} {transition : Transition} {handle : ℕ} :
      Moved h request c (.store sch announces transition handle) (c.storeTrigger handle)
        (.announce (.schedule sch announces) transition)
  /-- The transition is announced, or discarded. -/
  | announced {c : Control} {job : Job} {transition : Transition} :
      Moved h request c (.announce job transition) (if job.announces then c.announce transition else c)
        (.done (.ok job))

/-- A step of a handler is one of these. -/
theorem Control.moved_of_move {h : Host} {f : Faults} {request : Request} {c c' : Control} {pc pc' : Pc}
    (hm : c.move h f request pc = some (c', pc')) : Moved h request c pc c' pc' := by
  cases pc with
  | begin =>
    simp only [Control.move] at hm
    split at hm
    · rename_i e hb
      obtain ⟨rfl, rfl⟩ := Prod.mk.inj (Option.some.inj hm)
      exact .rejected hb
    · rename_i job hb
      obtain ⟨rfl, rfl⟩ := Prod.mk.inj (Option.some.inj hm)
      exact .accepted hb
  | swap job =>
    simp only [Control.move] at hm
    by_cases hd : c.daemon.inner = job.desired
    · rw [hd, State.swap_self] at hm
      obtain ⟨rfl, rfl⟩ := Prod.mk.inj (Option.some.inj hm)
      exact .kept hd
    · rw [State.swap_of_ne hd] at hm
      obtain ⟨rfl, rfl⟩ := Prod.mk.inj (Option.some.inj hm)
      exact .swapped hd
  | takeTrigger job =>
    obtain ⟨rfl, rfl⟩ := Prod.mk.inj (Option.some.inj hm)
    exact .taken
  | stopPlayer job =>
    obtain ⟨rfl, rfl⟩ := Prod.mk.inj (Option.some.inj hm)
    exact .stopped
  | save job snapshot transition =>
    obtain ⟨rfl, rfl⟩ := Prod.mk.inj (Option.some.inj hm)
    exact .saved f
  | spawn sch announces transition =>
    obtain ⟨rfl, rfl⟩ := Prod.mk.inj (Option.some.inj hm)
    exact .spawned
  | store sch announces transition handle =>
    obtain ⟨rfl, rfl⟩ := Prod.mk.inj (Option.some.inj hm)
    exact .stored
  | announce job transition =>
    obtain ⟨rfl, rfl⟩ := Prod.mk.inj (Option.some.inj hm)
    exact .announced
  | done reply => cases hm

/-! ### A handler with nothing in between -/

/-- A method run in one piece. -/
def Control.handle (h : Host) (f : Faults) (c : Control) : Request → Except FdoError Unit × Control
  | .arm soundId => c.arm h f soundId
  | .disarm => c.disarm f
  | .snooze durationS => c.snooze h f durationS
  | .dismiss => c.dismiss f

namespace Control

variable {h : Host} {f : Faults} {request : Request} {c : Control}

/-- A method that is rejected changes nothing. -/
theorem handle_of_error {e : FdoError} (hb : c.begin h request = .error e) :
    c.handle h f request = (.error e, c) := by
  cases begun_of_begin hb with
  | armRejected hs => simp only [handle, arm, scheduleTrigger, scheduleTriggerWithDelay, hs]
  | snoozeRejected hd => simp only [handle, snooze, hd]
  | snoozeUnresolved hd hs => simp only [handle, snooze, scheduleTriggerWithDelay, hd, hs]

/-- A method that schedules a trigger starts it, and announces the transition if it is Arm. -/
theorem handle_of_schedule {sch : Schedule} {announces : Bool}
    (hb : c.begin h request = .ok (.schedule sch announces)) :
    c.handle h f request = (.ok (),
      if announces then (c.startTrigger h f sch).2.announce (c.startTrigger h f sch).1
      else (c.startTrigger h f sch).2) := by
  cases begun_of_begin hb with
  | armed hs => simp [handle, arm, scheduleTrigger, scheduleTriggerWithDelay, hs]
  | snoozed hd hs => simp [handle, snooze, scheduleTriggerWithDelay, hd, hs]

/-- Only a Disarm or Dismiss is a job to disarm. -/
theorem isAck_of_begin (hb : c.begin h request = .ok .disarm) : request.isAck = true := by
  cases begun_of_begin hb with
  | acked hack => exact hack

/-- The other methods cancel and disarm. -/
theorem handle_of_disarm (hb : c.begin h request = .ok .disarm) :
    c.handle h f request = c.cancelAndDisarm f := by
  have hack := isAck_of_begin hb
  cases request with
  | disarm | dismiss => rfl
  | arm soundId | snooze durationS => cases hack

end Control

/-- Steps of a handler that nothing comes between. -/
abbrev Moves (h : Host) (f : Faults) (request : Request) : Control × Pc → Control × Pc → Prop :=
  Relation.ReflTransGen fun a b => a.1.move h f request a.2 = some b

namespace Moves

variable {h : Host} {f : Faults} {request : Request} {c : Control}

theorem cancel (job : Job) : Moves h f request (c, .takeTrigger job) (c.cancelPending, .swap job) :=
  .head rfl (.single rfl)

theorem transition (job : Job) :
    Moves h f request (c, .swap job) ({ c with daemon := (c.daemon.transitionTo f job.desired).2 },
      job.afterTransition (c.daemon.transitionTo f job.desired).1) := by
  by_cases hd : c.daemon.inner = job.desired
  · rw [← hd, AlarmDaemon.transitionTo_self]
    refine .single ?_
    simp only [Control.move, hd, State.swap_self]
  · have hswap : c.move h f request (.swap job) = some ({ c with daemon.inner := job.desired },
        .save job job.desired.toPersisted (.changed c.daemon.inner.status job.desired.status)) := by
      simp only [Control.move, State.swap_of_ne hd]
    rw [AlarmDaemon.transitionTo_of_ne hd]
    exact .head hswap (.single rfl)

/-- A handler of Disarm or Dismiss, after its checks, of which there are none. -/
theorem disarm :
    Moves h f request (c, .takeTrigger .disarm) ((c.cancelAndDisarm f).2, .done (.ok .disarm)) :=
  ((cancel .disarm).trans (transition .disarm)).tail rfl

/-- A handler of Arm or Snooze, after its checks. -/
theorem schedule (sch : Schedule) (announces : Bool) :
    Moves h f request (c, .takeTrigger (.schedule sch announces))
      ((c.startTrigger h f sch).2, .announce (.schedule sch announces) (c.startTrigger h f sch).1) :=
  (((cancel _).trans (transition _)).tail rfl).tail rfl

end Moves

/-- A handler that nothing comes between does what the method does, and replies the same. -/
theorem Moves.handle (h : Host) (f : Faults) (request : Request) (c : Control) :
    ∃ reply, Moves h f request (c, .begin) ((c.handle h f request).2, .done reply) ∧
      (reply.map fun _ => ()) = (c.handle h f request).1 := by
  cases hb : c.begin h request with
  | error e =>
    have hmove : c.move h f request .begin = some (c, .done (.error e)) := by simp only [Control.move, hb]
    rw [Control.handle_of_error hb]
    exact ⟨_, .single hmove, rfl⟩
  | ok job =>
    have hmove : c.move h f request .begin = some (c, .takeTrigger job) := by simp only [Control.move, hb]
    cases job with
    | disarm =>
      rw [Control.handle_of_disarm hb]
      exact ⟨_, .head hmove Moves.disarm, rfl⟩
    | schedule sch announces =>
      rw [Control.handle_of_schedule hb]
      exact ⟨_, .head hmove ((Moves.schedule sch announces).tail rfl), rfl⟩

/-- A handler. -/
structure Handler where
  /-- What it was called for. -/
  request : Request
  /-- Where it stands. -/
  pc : Pc
  deriving DecidableEq, Repr

/-- The process and what is around it. -/
structure Sys where
  /-- What the methods find around them. -/
  host : Host
  /-- The control object. -/
  control : Control
  /-- The handlers, in the order of the calls. -/
  handlers : List Handler

/-- What can happen. -/
inductive Act where
  /-- A client calls a method. -/
  | request (r : Request)
  /-- Handler `i` takes a step. -/
  | advance (i : ℕ) (f : Faults)
  /-- The sleep of task `i` ends. -/
  | wake (i : ℕ)
  /-- Task `i` decodes its file. -/
  | decode (i : ℕ)
  /-- Task `i` plays its sound. -/
  | play (i : ℕ)
  /-- Time passes. -/
  | tick (ms : ℕ) (wall : WallClock)
  /-- The file system changes. -/
  | files (fs : FileSystem)
  /-- The process ends and is started again. -/
  | restart (env : Env)

/-- Time passes: the clock of the timers moves on, the wall clock is whatever it is set to. -/
def Host.tick (ms : ℕ) (wall : WallClock) (h : Host) : Host := { h with wall := wall, mono := h.mono + ms }

/-- What is left of the tasks of a process that ended. -/
def endTasks (tasks : List Task) : List Task := tasks.map fun task => { task with phase := .finished }

/-- The machine. -/
def step : Machine Sys Act := fun s act =>
  match act with
  | .request r => some { s with handlers := s.handlers ++ [⟨r, .begin⟩] }
  | .advance i f =>
    match s.handlers[i]? with
    | none => none
    | some ⟨request, pc⟩ =>
      (s.control.move s.host f request pc).map fun (control, pc) =>
        { s with control := control, handlers := s.handlers.set i ⟨request, pc⟩ }
  | .wake i => (s.control.wake s.host i).map fun control => { s with control := control }
  | .decode i => (s.control.decode s.host i).map fun control => { s with control := control }
  | .play i => (s.control.play i).map fun control => { s with control := control }
  | .tick ms wall => some { s with host := s.host.tick ms wall }
  | .files fs => some { s with host := { s.host with fs := fs } }
  | .restart env =>
    match AlarmDaemon.newPersistent .none s.host.wall s.control.daemon.persistence.crashed with
    | .error _ => none
    | .ok (daemon, _) =>
      some { s with
        control := { Control.new env daemon with tasks := endTasks s.control.tasks }
        handlers := [] }

/-- A process that has just been started, on whatever was on disk. -/
def fresh (host : Host) (env : Env) (daemon : AlarmDaemon) : Sys := ⟨host, .new env daemon, []⟩

/-- Every handler has returned. -/
def AllDone (s : Sys) : Prop := ∀ hd ∈ s.handlers, hd.pc.isDone = true

instance (s : Sys) : Decidable (AllDone s) := inferInstanceAs (Decidable (∀ hd ∈ s.handlers, _))

/-! ### What each action does -/

/-- The trigger task that takes a step. -/
def Act.task : Act → Option ℕ
  | .wake i | .decode i | .play i => some i
  | _ => none

/-- What a step of the machine does: one case for each kind of party. -/
inductive Stepped : Sys → Act → Sys → Prop where
  /-- A client calls a method. -/
  | requested {s : Sys} (r : Request) :
      Stepped s (.request r) { s with handlers := s.handlers ++ [⟨r, .begin⟩] }
  /-- A handler takes a step. -/
  | advanced {s : Sys} {i : ℕ} {f : Faults} {request : Request} {pc pc' : Pc} {control : Control}
      (hi : s.handlers[i]? = some ⟨request, pc⟩) (hm : Moved s.host request s.control pc control pc') :
      Stepped s (.advance i f) { s with control := control, handlers := s.handlers.set i ⟨request, pc'⟩ }
  /-- A live trigger task takes a step, after which it is past its sleep. -/
  | ran {s : Sys} {act : Act} {i : ℕ} {task : Task} {phase : Phase} {player : List PlayerCommand}
      (ha : act.task = some i) (hi : s.control.tasks[i]? = some task) (hlive : task.phase.isLive = true)
      (hwake : task.phase = .sleeping → act = .wake i) (hphase : phase ≠ .sleeping) :
      Stepped s act { s with
        control.tasks := s.control.tasks.set i { task with phase := phase }
        control.player := player }
  /-- Time passes. -/
  | ticked {s : Sys} (ms : ℕ) (wall : WallClock) : Stepped s (.tick ms wall) { s with host := s.host.tick ms wall }
  /-- The file system changes. -/
  | refiled {s : Sys} (fs : FileSystem) : Stepped s (.files fs) { s with host := { s.host with fs := fs } }
  /-- The process is started again, from what is on disk; its handlers and tasks have ended. -/
  | restarted {s : Sys} {env : Env} {daemon : AlarmDaemon} (ha : daemon.Agrees)
      (hs : s.control.daemon.persistence.stored = .ok daemon.inner.toPersisted) :
      Stepped s (.restart env) { s with
        control := { Control.new env daemon with tasks := endTasks s.control.tasks }
        handlers := [] }

variable {s t : Sys} {i : ℕ}

/-- A sleeping task whose deadline has come wakes. -/
theorem step_wake (h : step s (.wake i) = some t) :
    ∃ sch deadline, s.control.tasks[i]? = some ⟨sch, deadline, .sleeping⟩ ∧ deadline ≤ s.host.mono ∧
      t = { s with control.tasks := s.control.tasks.set i ⟨sch, deadline, .woken⟩ } := by
  obtain ⟨control, hw, rfl⟩ := Option.map_eq_some_iff.mp h
  unfold Control.wake at hw
  split at hw
  · rename_i sch deadline hi
    split at hw
    · rename_i hle
      obtain rfl := Option.some.inj hw
      exact ⟨sch, deadline, hi, hle, rfl⟩
    · cases hw
  · cases hw

theorem step_decode (h : step s (.decode i) = some t) :
    ∃ sch deadline, s.control.tasks[i]? = some ⟨sch, deadline, .woken⟩ ∧
      t = { s with control.tasks := s.control.tasks.set i (Task.decode s.host.fs ⟨sch, deadline, .woken⟩) } := by
  obtain ⟨control, hw, rfl⟩ := Option.map_eq_some_iff.mp h
  unfold Control.decode at hw
  split at hw
  · rename_i sch deadline hi
    obtain rfl := Option.some.inj hw
    exact ⟨sch, deadline, hi, rfl⟩
  · cases hw

/-- A task that has decoded its file plays it, and ends. -/
theorem step_play (h : step s (.play i) = some t) :
    ∃ sch deadline sound, s.control.tasks[i]? = some ⟨sch, deadline, .decoded sound⟩ ∧
      t = { s with
        control.tasks := s.control.tasks.set i ⟨sch, deadline, .finished⟩
        control.player := s.control.player ++ [.play sound .alarm] } := by
  obtain ⟨control, hw, rfl⟩ := Option.map_eq_some_iff.mp h
  unfold Control.play at hw
  split at hw
  · rename_i sch deadline sound hi
    rw [VolumeProfile.new_alarm] at hw
    obtain rfl := Option.some.inj hw
    exact ⟨sch, deadline, sound, hi, rfl⟩
  · cases hw

/-- A step of the machine is one of these. -/
theorem stepped_of_step {act : Act} (h : step s act = some t) : Stepped s act t := by
  cases act with
  | request r =>
    obtain rfl := Option.some.inj h
    exact .requested r
  | advance i f =>
    simp only [step] at h
    split at h
    · cases h
    · rename_i request pc hi
      obtain ⟨⟨control, pc'⟩, hm, rfl⟩ := Option.map_eq_some_iff.mp h
      exact .advanced hi (Control.moved_of_move hm)
  | wake i =>
    obtain ⟨sch, deadline, hi, -, rfl⟩ := step_wake h
    exact .ran rfl hi rfl (fun _ => rfl) (by simp)
  | decode i =>
    obtain ⟨sch, deadline, hi, rfl⟩ := step_decode h
    unfold Task.decode
    split <;> exact .ran rfl hi rfl (by simp) (by simp)
  | play i =>
    obtain ⟨sch, deadline, sound, hi, rfl⟩ := step_play h
    exact .ran rfl hi rfl (by simp) (by simp)
  | tick ms wall =>
    obtain rfl := Option.some.inj h
    exact .ticked ms wall
  | files fs =>
    obtain rfl := Option.some.inj h
    exact .refiled fs
  | restart env =>
    simp only [step] at h
    split at h
    · cases h
    · rename_i daemon r hn
      obtain ⟨ha, hs⟩ := AlarmDaemon.newPersistent_agrees hn rfl
      obtain rfl := Option.some.inj h
      exact .restarted ha ((Persistence.stored_crashed _).symm.trans hs)

/-! ### A process to try things on -/

/-- A sound of one sample. -/
def hornSound : DecodedSound := ⟨[1], 1, 8000, by decide, Nat.one_pos, by decide⟩

/-- A file system with one sound. -/
def hornFiles : FileSystem where
  pathExists path := path = "/usr/share/helm/sounds/horn.wav"
  fromPath path := if path = "/usr/share/helm/sounds/horn.wav" then some hornSound else none
  pathFits := by
    intro path hp
    obtain rfl : path = "/usr/share/helm/sounds/horn.wav" := by simpa using hp
    decide

/-- What is around the process: these files, and the first second of the epoch. -/
def hornHost : Host := ⟨hornFiles, ⟨1000, by decide⟩, 0⟩

/-- The time at which an alarm armed then fires. -/
def hornTime : WallClock := ⟨4000, by decide⟩

/-- A time when it is past. -/
def hornPast : WallClock := ⟨10000, by decide⟩

/-- A daemon started with no file, in the default environment. -/
def hornProcess : Sys := fresh hornHost (fun _ => none) ⟨.disarmed, {}⟩

/-- Handler `i` takes `n` steps. -/
def advances (i n : ℕ) : List Act := List.replicate n (.advance i .none)

/-- An Arm from its start to its end, the first call of the process. -/
def arming : List Act := .request (.arm "builtin:horn") :: advances 0 8

end HelmAlarm.Ipc
