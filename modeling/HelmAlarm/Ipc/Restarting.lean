import HelmAlarm.Ipc.Sequential

/-!
# An armed alarm and the restarts of the daemon

A start of the daemon reads the state from disk, and no trigger: `trigger_task` of a
new control object is empty, and nothing schedules the alarm that was read. So an
alarm that is armed when the daemon is started, with its time still to come, stays
armed and is never played: `lost_of_start`.

When no start finds such an alarm, none is lost, wherever the daemon is stopped and
started: whenever it is up, an armed alarm whose time is still to come has a trigger
that will play it, `armed_is_scheduled`. The clock of the timers and the wall clock
go together, but for the time the wall clock is set ahead (`setAhead`).
-/

namespace HelmAlarm.Ipc

open HelmAlarm.Library HelmAlarm.Daemon HelmAlarm.Audio

/-- By how much the wall clock has been set ahead from `h₀` to `h`: it has gone on for longer than
the clock of the timers. -/
def setAhead (h₀ h : Host) : ℤ := ((h.wall.ms : ℤ) - h₀.wall.ms) - ((h.mono : ℤ) - h₀.mono)

/-- Task `n` is the trigger of the alarm that `c` is armed with, in a run from `h₀`. -/
structure WillPlay (h₀ h : Host) (c : Control) (n : ℕ) (task : Task) : Prop where
  /-- Its handle is held. -/
  held : c.triggerTask = some n
  /-- It was spawned. -/
  spawned : c.tasks[n]? = some task
  /-- It waits for the end of its sleep. -/
  asleep : task.phase = .sleeping
  /-- It is for the current sound and the next fire time. -/
  current : c.daemon.inner = task.schedule.desired
  /-- It plays a file of that sound. -/
  candidate : task.schedule.soundPath ∈ c.sounds.candidates task.schedule.soundId
  /-- The file is there. -/
  inPlace : h.fs.pathExists task.schedule.soundPath = true
  /-- It does not end its sleep before the fire time. -/
  notEarly : task.schedule.fireAt.toInt ≤ (h.wall.ms : ℤ) + task.deadline - h.mono
  /-- Nor after it, but for the time the wall clock was set ahead. -/
  notLate : min ((h.wall.ms : ℤ) + task.deadline - h.mono) i64Max ≤ task.schedule.fireAt.toInt + setAhead h₀ h

/-- Saves succeed, the wall clock never goes back, and the files of accepted sounds stay in place. -/
def Kept (s : Service) : Event → Prop
  | .call _ f => f = .none
  | .tick ms wall => s.host.wall.ms + ms ≤ wall.ms
  | .files fs => ∀ c ∈ s.node.control, ∀ task ∈ c.tasks,
      s.host.fs.pathExists task.schedule.soundPath = true → fs.pathExists task.schedule.soundPath = true
  | .fire _ | .stop | .start _ => True

instance (s : Service) (event : Event) : Decidable (Kept s event) := by
  cases event <;> unfold Kept <;> infer_instance

/-- No start finds a stored alarm that is armed, with its time still to come. -/
def startsLate (s : Service) (event : Event) : Bool :=
  match event, s.node with
  | .start _, .down p =>
    match p.stored with
    | .ok persisted => !persisted.armed || persisted.nextFireUnixMs.all fun t => t ≤ s.host.wall.nowMs
    | .error _ => true
  | _, _ => true

/-- The events of a run in which no alarm is lost. -/
def Restartable (s : Service) (event : Event) : Prop := Kept s event ∧ startsLate s event = true

instance (s : Service) (event : Event) : Decidable (Restartable s event) := inferInstanceAs (Decidable (_ ∧ _))

variable {h₀ h : Host} {c : Control} {n : ℕ} {task : Task} {s t : Service} {event : Event}

/-- An alarm that is armed, with its time still to come, has its trigger. -/
structure NotLost (h₀ : Host) (s : Service) : Prop where
  /-- The wall clock has not gone back. -/
  ahead : 0 ≤ setAhead h₀ s.host
  /-- The trigger is there. -/
  trigger : ∀ (c : Control), s.node = .up c → c.status = true → ∀ time ∈ c.daemon.inner.nextFireUnixMs,
    (s.host.wall.ms : ℤ) < time.toInt → ∃ n task, WillPlay h₀ s.host c n task

/-- The trigger comes when the wall clock says so. -/
theorem WillPlay.le_of_deadline {t : Int64} (hw : WillPlay h₀ h c n task)
    (ht : t ∈ c.daemon.inner.nextFireUnixMs) (hle : task.deadline ≤ h.mono) : t.toInt ≤ h.wall.ms := by
  have hearly := hw.notEarly
  rw [hw.current] at ht
  obtain rfl : task.schedule.fireAt = t := Option.some.inj ht
  omega

theorem WillPlay.tick {ms : ℕ} {wall : WallClock} (hw : WillPlay h₀ h c n task)
    (hle : h.wall.ms + ms ≤ wall.ms) : WillPlay h₀ (h.tick ms wall) c n task := by
  have hearly := hw.notEarly
  have hlate := hw.notLate
  refine ⟨hw.held, hw.spawned, hw.asleep, hw.current, hw.candidate, hw.inPlace, ?_, ?_⟩
  · simp only [Host.tick]
    omega
  · simp only [setAhead, Host.tick] at hlate ⊢
    omega

/-- A call that schedules a trigger leaves the alarm with it. -/
theorem willPlay_of_scheduled {request : Request} {f : Faults} {sch : Schedule} {announces : Bool}
    {signals : List Bool} (hb : c.begin h request = .ok (.schedule sch announces)) (hahead : 0 ≤ setAhead h₀ h) :
    WillPlay h₀ h { c with
      daemon := (c.daemon.transitionTo f sch.desired).2
      tasks := c.takeTrigger.tasks ++ [⟨sch, h.mono + sch.delay, .sleeping⟩]
      triggerTask := some c.tasks.length
      player := c.player ++ [.stop]
      signals := signals } c.tasks.length ⟨sch, h.mono + sch.delay, .sleeping⟩ := by
  obtain ⟨hp, hfire, -⟩ := Control.begin_eq_schedule hb
  obtain ⟨hcand, hexists⟩ := SoundLibrary.resolvePath_eq_ok hp
  have htime := toInt_fireAt h.wall sch.delay
  rw [← hfire] at htime
  refine ⟨rfl, ?_, rfl, AlarmDaemon.transitionTo_inner _ _ _, hcand, hexists, ?_, ?_⟩
  · rw [← Control.length_tasks_takeTrigger]
    exact Pool.add_self
  · simp only [htime]
    push_cast
    omega
  · have htimer : ((h.wall.ms : ℤ) + (h.mono + sch.delay : ℕ) - h.mono) = h.wall.ms + sch.delay := by
      push_cast
      omega
    simp only [htimer, htime]
    exact le_add_of_nonneg_right hahead

/-- The trigger plays the sound when its sleep has ended. -/
theorem WillPlay.plays {wall : WallClock} {sound : DecodedSound} (hw : WillPlay h₀ s.host c n task)
    (hs : s.node = .up c) (hsound : s.host.fs.fromPath task.schedule.soundPath = some sound) :
    ∃ t, serve.exec s [.tick (task.deadline - s.host.mono) wall, .fire n] = some t ∧
      t.node.control.map Control.player = some (c.player ++ [.play sound .alarm]) := by
  obtain ⟨sch, deadline, phase⟩ := task
  obtain rfl : phase = .sleeping := hw.asleep
  have hfire := Control.fire_of_sleeping (h := s.host.tick (deadline - s.host.mono) wall) hw.spawned
    (by simp only [Host.tick]; omega)
  have hcommand : Task.command (s.host.tick (deadline - s.host.mono) wall).fs ⟨sch, deadline, .sleeping⟩ =
      some (.play sound .alarm) := by
    rw [Task.command, Host.tick, hsound]
    rfl
  refine ⟨{ s with
    host := s.host.tick (deadline - s.host.mono) wall
    node := .up { c with
      tasks := c.tasks.set n ⟨sch, deadline, .finished⟩
      player := c.player ++ [.play sound .alarm] } }, ?_, rfl⟩
  rw [hcommand] at hfire
  simp only [serve, Machine.exec_cons, Machine.exec_nil, Option.bind_some, hs, hfire, Option.map_some,
    Option.toList_some]

/-- The state that is found by a start that does not come too early is not to fire any more. -/
theorem due_of_startsLate {persistence : Persistence} {replies : List (Except FdoError Unit)} {env : Env}
    {daemon : AlarmDaemon} (hstored : persistence.stored = .ok daemon.inner.toPersisted)
    (hstart : startsLate ⟨h, .down persistence, replies⟩ (.start env) = true)
    (harmed : daemon.status.isArmed = true) :
    ∀ t ∈ daemon.inner.nextFireUnixMs, t.toInt ≤ h.wall.ms := by
  intro t ht
  simp only [startsLate, hstored, State.toPersisted] at hstart
  rw [AlarmDaemon.status] at harmed
  rw [harmed, ht] at hstart
  have hle : t ≤ h.wall.nowMs := by simpa using hstart
  rw [← h.wall.toInt_nowMs]
  exact Int64.le_iff_toInt_le.mp hle

theorem NotLost.step (hI : NotLost h₀ s) (hok : Restartable s event) (hs : serve s event = some t) :
    NotLost h₀ t := by
  obtain ⟨hahead, htrigger⟩ := hI
  obtain ⟨hkept, hstart⟩ := hok
  cases served_of_serve hs with
  | called hh =>
    refine ⟨hahead, ?_⟩
    rintro _ ⟨⟩ harmed time htime hfuture
    cases hh with
    | rejected hb => exact htrigger _ rfl harmed time htime hfuture
    | scheduled hb => exact ⟨_, _, willPlay_of_scheduled hb hahead⟩
    | ended hack => simp [Control.status, AlarmDaemon.status] at harmed
  | @fired host c replies i sch deadline hi hle =>
    refine ⟨hahead, ?_⟩
    rintro _ ⟨⟩ harmed time htime hfuture
    obtain ⟨n, task, hw⟩ := htrigger c rfl harmed time htime hfuture
    have hne : n ≠ i := by
      rintro rfl
      obtain rfl := Option.some.inj (hw.spawned.symm.trans hi)
      exact absurd (hw.le_of_deadline htime hle) (not_le.mpr hfuture)
    exact ⟨n, task, hw.held, (Pool.set_of_ne hne).trans hw.spawned, hw.asleep, hw.current, hw.candidate,
      hw.inPlace, hw.notEarly, hw.notLate⟩
  | ticked ms wall =>
    have hle : s.host.wall.ms + ms ≤ wall.ms := hkept
    refine ⟨?_, fun c hc harmed time htime hfuture => ?_⟩
    · simp only [setAhead, Host.tick] at hahead ⊢
      omega
    · have hnow : (s.host.wall.ms : ℤ) < time.toInt := by
        simp only [Host.tick] at hfuture
        omega
      obtain ⟨n, task, hw⟩ := htrigger c hc harmed time htime hnow
      exact ⟨n, task, hw.tick hle⟩
  | refiled fs =>
    refine ⟨hahead, fun c hc harmed time htime hfuture => ?_⟩
    obtain ⟨n, task, hw⟩ := htrigger c hc harmed time htime hfuture
    have hplace := hkept c (by rw [hc]; rfl) task (List.mem_of_getElem? hw.spawned) hw.inPlace
    exact ⟨n, task, hw.held, hw.spawned, hw.asleep, hw.current, hw.candidate, hplace, hw.notEarly, hw.notLate⟩
  | stopped => exact ⟨hahead, by rintro c ⟨⟩⟩
  | @started host p replies env daemon ha hstored =>
    refine ⟨hahead, ?_⟩
    rintro _ ⟨⟩ harmed time htime hfuture
    have hdue := due_of_startsLate hstored hstart harmed time htime
    exact absurd hdue (not_le.mpr hfuture)

/-- In every run of calls made one at a time, triggers, stops and starts, from whatever was on disk,
in which saves succeed, the wall clock never goes back, accepted files stay in place, and no start
finds an alarm that is armed with its time still to come: whenever the daemon is up and armed, and
`next_fire_unix_ms` is still to come, a trigger sleeps that will play the current sound at that
time. -/
theorem armed_is_scheduled {persistence : Persistence} {es : List Event} {time : Int64}
    (hrun : Machine.Run serve Restartable ⟨h₀, .down persistence, []⟩ es s)
    (hs : s.node = .up c) (harmed : c.status = true) (htime : c.daemon.inner.nextFireUnixMs = some time)
    (hfuture : (s.host.wall.ms : ℤ) < time.toInt) :
    ∃ n task, WillPlay h₀ s.host c n task ∧
      ∀ wall sound, s.host.fs.fromPath task.schedule.soundPath = some sound →
        ∃ t, serve.exec s [.tick (task.deadline - s.host.mono) wall, .fire n] = some t ∧
          t.node.control.map Control.player = some (c.player ++ [.play sound .alarm]) := by
  have hinit : NotLost h₀ ⟨h₀, .down persistence, []⟩ := ⟨by simp [setAhead], by rintro c ⟨⟩⟩
  have hI := hrun.invariant (fun _ _ _ hI hok hstep => hI.step hok hstep) hinit
  obtain ⟨n, task, hw⟩ := hI.trigger c hs harmed time htime hfuture
  exact ⟨n, task, hw, fun wall sound hsound => hw.plays hs hsound⟩

/-- An Arm that is missed while the daemon is down, and a Snooze after the next start. -/
def snoozingMissed : List Event :=
  [.start fun _ => none, .call (.arm "builtin:horn") .none, .tick 1000 ⟨2000, by decide⟩, .stop,
    .tick 8000 hornPast, .start fun _ => none, .call (.snooze 60) .none, .tick 1000 ⟨11500, by decide⟩]

theorem armed_is_scheduled_snoozing_missed :
    ∃ s c n task, Machine.Run serve Restartable ⟨hornHost, .down {}, []⟩ snoozingMissed s ∧ s.node = .up c ∧
      c.daemon.inner = .armed (some "builtin:horn") (some 70000) ∧ setAhead hornHost s.host = 500 ∧
      WillPlay hornHost s.host c n task := by
  obtain ⟨s, hrun, hinner, hwall, hahead⟩ : ∃ s : Service,
      Machine.Run serve Restartable ⟨hornHost, .down {}, []⟩ snoozingMissed s ∧
        s.node.control.map (fun c => c.daemon.inner) = some (.armed (some "builtin:horn") (some 70000)) ∧
        s.host.wall.ms = 11500 ∧ setAhead hornHost s.host = 500 := Machine.Run.exists_of_execIf (by decide)
  obtain ⟨c, hc, hinner⟩ := Option.map_eq_some_iff.mp hinner
  have harmed : c.status = true := by rw [Control.status, AlarmDaemon.status, hinner]; rfl
  have htime : c.daemon.inner.nextFireUnixMs = some 70000 := by rw [hinner]; rfl
  obtain ⟨n, task, hw, -⟩ := armed_is_scheduled hrun (Node.eq_up hc) harmed htime (by rw [hwall]; decide)
  exact ⟨s, c, n, task, hrun, Node.eq_up hc, hinner, hahead, hw⟩

/-- A start that finds an alarm that is armed, with its time still to come, leaves it so, without
a trigger. -/
theorem lost_of_start {env : Env} (hs : serve s (.start env) = some t)
    (hearly : startsLate s (.start env) = false) :
    ∃ c time, t.node = .up c ∧ c.status = true ∧ c.daemon.inner.nextFireUnixMs = some time ∧
      (t.host.wall.ms : ℤ) < time.toInt ∧ ∀ n, ¬ c.Live n := by
  cases served_of_serve hs with
  | @started host p replies _ daemon ha hstored =>
    simp only [startsLate, hstored, State.toPersisted, Bool.or_eq_false_iff, Bool.not_eq_false'] at hearly
    obtain ⟨harmed, hnext⟩ := hearly
    cases htime : daemon.inner.nextFireUnixMs with
    | none => simp [htime] at hnext
    | some time =>
      refine ⟨_, time, rfl, harmed, htime, ?_, ?_⟩
      · rw [htime] at hnext
        have hle : ¬ time ≤ host.wall.nowMs := by simpa using hnext
        rw [← host.wall.toInt_nowMs]
        exact not_le.mp fun h => hle (Int64.le_iff_toInt_le.mpr h)
      · rintro n ⟨task, ht, -⟩
        cases ht

/-- The daemon is stopped and started again before an alarm that it was armed with. -/
def restartingEarly : List Event :=
  [.start fun _ => none, .call (.arm "builtin:horn") .none, .stop, .start fun _ => none]

/-- The alarm is armed, its time is still to come, and no task is live. -/
theorem restart_loses_armed_alarm :
    ∃ s c, Machine.Run serve Kept ⟨hornHost, .down {}, []⟩ restartingEarly s ∧ s.node = .up c ∧
      c.status = true ∧ c.daemon.inner.nextFireUnixMs = some 4000 ∧ s.host.wall.ms = 1000 ∧
      ∀ n, ¬ c.Live n := by
  obtain ⟨s, hrun, hcontrol, hwall⟩ : ∃ s : Service,
      Machine.Run serve Kept ⟨hornHost, .down {}, []⟩ restartingEarly s ∧
        (s.node.control.map fun c => (c.status, c.daemon.inner.nextFireUnixMs, c.tasks)) =
          some (true, some 4000, []) ∧
        s.host.wall.ms = 1000 := Machine.Run.exists_of_execIf (by decide)
  obtain ⟨c, hc, heq⟩ := Option.map_eq_some_iff.mp hcontrol
  simp only [Prod.mk.injEq] at heq
  obtain ⟨hstatus, hnext, htasks⟩ := heq
  refine ⟨s, c, hrun, Node.eq_up hc, hstatus, hnext, hwall, ?_⟩
  rintro n ⟨task, ht, -⟩
  rw [htasks] at ht
  cases ht

end HelmAlarm.Ipc
