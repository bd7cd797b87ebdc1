import HelmAlarm.Ipc.Alarm
import HelmAlarm.Ipc.Sequential

/-!
# The daemon is the alarm

Calls made one at a time, within one process that was started on an empty store
and whose saves succeed: the daemon does what the alarm of `HelmAlarm.Ipc.Alarm`
does. `inputs` says what an event is to the alarm, and `Represents` which account
of the alarm a control object stands for; every run of the daemon is matched by a
run of the alarm, `refines_alarm`.
-/

namespace HelmAlarm.Ipc

open HelmAlarm.Library HelmAlarm.Daemon HelmAlarm.Audio

/-- The account of an alarm whose sounds are ids, whose files are paths, and whose files decode
to PCM audio. -/
abbrev HelmAccount := Account String String DecodedSound

/-- The sounds that can be resolved, and the files they are resolved to. -/
def Control.files (h : Host) (c : Control) (soundId : String) : Option String :=
  (c.sounds.resolvePath h.fs soundId).toOption

/-- What a call is to the alarm. -/
def Request.input (files : String → Option String) (now : ℕ) : Request → Input String String DecodedSound
  | .arm soundId => .arm soundId files now
  | .snooze durationS => .snooze durationS.toNat files now
  | .disarm | .dismiss => .acknowledge

/-- What an event is to the alarm. -/
def inputs (s : Service) (event : Event) : List (Input String String DecodedSound) :=
  match event, s.node with
  | .call request _, .up c => [request.input (c.files s.host) s.host.wall.ms]
  | .fire _, _ => [.fire s.host.fs.fromPath]
  | _, _ => []

/-- What the player is told. -/
def Command.issued : Command String DecodedSound → PlayerCommand
  | .silence => .stop
  | .play _ audio => .play audio .alarm

/-- The control object stands for the account. -/
structure Represents (c : Control) (a : HelmAccount) : Prop where
  /-- `status` is whether the alarm is on. -/
  status : c.status = a.alarm.isOn
  /-- `current_sound` is its sound. -/
  currentSound : c.daemon.currentSound = a.alarm.sound
  /-- `next_fire_unix_ms` is its time. -/
  nextFire : c.daemon.inner.nextFireUnixMs.map Int64.toInt = a.alarm.fireAt
  /-- So it is on disk. -/
  stored : c.daemon.Agrees
  /-- A live task is the one whose handle is held; it sleeps, and is for the alarm, which has not fired. -/
  trigger : ∀ (n : ℕ) (task : Task), c.tasks[n]? = some task → task.phase.isLive = true →
    c.triggerTask = some n ∧ task.phase = .sleeping ∧
      a.alarm = .on task.schedule.soundId task.schedule.soundPath task.schedule.fireAt.toInt false
  /-- An alarm that is on and has not fired has a live task. -/
  pending : a.alarm.isPending = true → ∃ n, c.Live n
  /-- The player was told what the alarm says. -/
  player : c.player = a.commands.map Command.issued
  /-- `StateChanged` was emitted when the alarm was turned on or off. -/
  signals : c.signals = a.changes

variable {h : Host} {c : Control} {a : HelmAccount} {request : Request} {sch : Schedule} {n : ℕ}

namespace Represents

/-- There is a live task exactly when the alarm is on and has not fired. -/
theorem live_iff (hr : Represents c a) : (∃ n, c.Live n) ↔ a.alarm.isPending = true := by
  refine ⟨?_, hr.pending⟩
  rintro ⟨n, task, ht, hl⟩
  rw [(hr.trigger n task ht hl).2.2]
  rfl

theorem triggerTask_of_live (hr : Represents c a) (hn : c.Live n) : c.triggerTask = some n := by
  obtain ⟨task, ht, hl⟩ := hn
  exact (hr.trigger n task ht hl).1

/-- Between calls no task is past its sleep, so that `cancel_pending` ends the pending one. -/
theorem not_live_takeTrigger (hr : Represents c a) (n : ℕ) : ¬ c.takeTrigger.Live n := by
  intro hl
  have hc := hr.triggerTask_of_live hl.of_takeTrigger
  refine Control.not_live_takeTrigger ?_ hc hl
  obtain ⟨task, ht, hlive⟩ := hl.of_takeTrigger
  rw [Control.pendingTask_eq hc ht]
  simp [(hr.trigger n task ht hlive).2.1, Phase.isRunning]

end Represents

/-! ### The calls -/

theorem files_eq_some {soundId path : String} (hp : c.sounds.resolvePath h.fs soundId = .ok path) :
    c.files h soundId = some path := by
  rw [Control.files, hp]
  rfl

theorem files_eq_none {soundId : String} {delay : ℕ} {e : FdoError} (hs : c.schedule h soundId delay = .error e) :
    c.files h soundId = none := by
  unfold Control.schedule at hs
  split at hs
  · rename_i hp
    rw [Control.files, hp]
    rfl
  · cases hs

theorem snoozeSound_eq_ok {durationS : UInt32} {soundId : String} (hs : c.snoozeSound durationS = .ok soundId) :
    durationS.toNat ≠ 0 ∧ c.daemon.currentSound = some soundId := by
  unfold Control.snoozeSound at hs
  split at hs
  · cases hs
  · rename_i hd
    refine ⟨fun h0 => hd (UInt32.toNat_inj.mp h0), ?_⟩
    split at hs
    · cases hs
    · rename_i hc
      rw [hc, Except.ok.inj hs]

theorem snoozeSound_eq_error {durationS : UInt32} {e : FdoError} (hs : c.snoozeSound durationS = .error e) :
    durationS.toNat = 0 ∨ c.daemon.currentSound = none := by
  unfold Control.snoozeSound at hs
  split at hs
  · rename_i hd
    exact .inl (by rw [hd]; rfl)
  · split at hs
    · rename_i hc
      exact .inr hc
    · cases hs

theorem alarm_of_no_sound (hs : a.alarm.sound = none) : a.alarm = .off := by
  cases ha : a.alarm with
  | off => rfl
  | on sound file t fired =>
    rw [ha] at hs
    cases hs

theorem alarm_of_sound {soundId : String} (hs : a.alarm.sound = some soundId) :
    ∃ file t fired, a.alarm = .on soundId file t fired := by
  cases ha : a.alarm with
  | off =>
    rw [ha] at hs
    cases hs
  | on sound file t fired =>
    rw [ha] at hs
    obtain rfl := Option.some.inj hs
    exact ⟨file, t, fired, rfl⟩

/-- A call that is rejected is one that the alarm rejects. -/
theorem step_of_rejected {e : FdoError} (hr : Represents c a) (hb : c.begin h request = .error e) :
    Account.step c.triggerDelay i64Max a (request.input (c.files h) h.wall.ms) = some a.reject := by
  cases Control.begun_of_begin hb with
  | armRejected hs => simp only [Request.input, Account.step, Account.arm, files_eq_none hs]
  | snoozeRejected hd =>
    rcases snoozeSound_eq_error hd with hzero | hcur
    · simp only [Request.input, Account.step, Account.snooze, if_pos hzero]
    · have ha := alarm_of_no_sound (hr.currentSound.symm.trans hcur)
      simp only [Request.input, Account.step, Account.snooze, ha, ite_self]
  | snoozeUnresolved hd hs =>
    obtain ⟨hzero, hcur⟩ := snoozeSound_eq_ok hd
    obtain ⟨file, t, fired, ha⟩ := alarm_of_sound (hr.currentSound.symm.trans hcur)
    simp only [Request.input, Account.step, Account.snooze, if_neg hzero, ha, Account.arm, files_eq_none hs]

/-- A call that schedules a trigger turns the alarm on. -/
theorem step_of_scheduled {announces : Bool} (hr : Represents c a)
    (hb : c.begin h request = .ok (.schedule sch announces)) :
    Account.step c.triggerDelay i64Max a (request.input (c.files h) h.wall.ms) =
      some (a.turnOn sch.soundId sch.soundPath sch.fireAt.toInt) := by
  obtain ⟨hp, hfire, hkind⟩ := Control.begin_eq_schedule hb
  rw [hfire, toInt_fireAt]
  rcases hkind with ⟨rfl, -, hdelay⟩ | ⟨durationS, rfl, -, hdelay, hsound⟩
  · simp only [Request.input, Account.step, Account.arm, files_eq_some hp, hdelay]
  · obtain ⟨hd, hcur⟩ := snoozeSound_eq_ok hsound
    obtain ⟨file, t, fired, ha⟩ := alarm_of_sound (hr.currentSound.symm.trans hcur)
    simp only [Request.input, Account.step, Account.snooze, if_neg hd, ha, Account.arm, files_eq_some hp, hdelay,
      Control.snoozeDelay]

/-- Only a Snooze discards its transition, and it is accepted while the alarm is on only. -/
theorem status_of_silent (hr : Represents c a) (hb : c.begin h request = .ok (.schedule sch false)) :
    c.status = true := by
  obtain ⟨-, -, ⟨-, hann, -⟩ | ⟨durationS, -, -, -, hsound⟩⟩ := Control.begin_eq_schedule hb
  · cases hann
  · obtain ⟨file, t, fired, ha⟩ := alarm_of_sound (hr.currentSound.symm.trans (snoozeSound_eq_ok hsound).2)
    rw [hr.status, ha]
    rfl

theorem Represents.turnOn {announces : Bool} (hr : Represents c a)
    (hb : c.begin h request = .ok (.schedule sch announces)) :
    Represents { c with
      daemon := (c.daemon.transitionTo .none sch.desired).2
      tasks := c.takeTrigger.tasks ++ [⟨sch, h.mono + sch.delay, .sleeping⟩]
      triggerTask := some c.tasks.length
      player := c.player ++ [.stop]
      signals := if announces ∧ c.status = false then c.signals ++ [true] else c.signals }
      (a.turnOn sch.soundId sch.soundPath sch.fireAt.toInt) := by
  have hp := (Control.begin_eq_schedule hb).1
  refine ⟨?_, ?_, ?_, hr.stored.transitionTo (fits_of_resolvePath hp), ?_, ?_, ?_, ?_⟩
  · simp [Control.status, AlarmDaemon.status, Schedule.desired, Account.turnOn, Alarm.isOn]
  · simp [AlarmDaemon.currentSound, Schedule.desired, Account.turnOn, Alarm.sound]
  · simp [Schedule.desired, Account.turnOn, Alarm.fireAt]
  · intro n task ht hl
    rcases Pool.of_add ht with ⟨rfl, rfl⟩ | ht
    · exact ⟨by simp, rfl, rfl⟩
    · exact absurd ⟨task, ht, hl⟩ (hr.not_live_takeTrigger n)
  · intro _
    exact ⟨_, _, Pool.add_self, rfl⟩
  · simp [hr.player, Account.turnOn, Command.issued]
  · have hstatus := hr.status
    cases announces with
    | false =>
      rw [status_of_silent hr hb] at hstatus
      simp [Account.turnOn, ← hstatus, hr.signals]
    | true => cases hs : c.status <;> simp [hs, Account.turnOn, ← hstatus, hr.signals]

theorem Represents.turnOff (hr : Represents c a) :
    Represents { c with
      daemon := (c.daemon.transitionTo .none .disarmed).2
      tasks := c.takeTrigger.tasks
      triggerTask := none
      player := c.player ++ [.stop]
      signals := if c.status then c.signals ++ [false] else c.signals } a.turnOff := by
  refine ⟨?_, ?_, ?_, hr.stored.transitionTo (by intro id hid; cases hid), ?_, ?_, ?_, ?_⟩
  · simp [Control.status, AlarmDaemon.status, Account.turnOff, Alarm.isOn]
  · simp [AlarmDaemon.currentSound, Account.turnOff, Alarm.sound]
  · simp [State.disarmed, Account.turnOff, Alarm.fireAt]
  · exact fun n task ht hl => absurd ⟨task, ht, hl⟩ (hr.not_live_takeTrigger n)
  · intro hp
    cases hp
  · simp [hr.player, Account.turnOff, Command.issued]
  · have hstatus := hr.status
    cases hs : c.status <;> simp [hs, Account.turnOff, ← hstatus, hr.signals]

/-- A trigger that fires is the alarm's timer. -/
theorem Represents.fire {i deadline : ℕ} (hr : Represents c a)
    (hi : c.tasks[i]? = some ⟨sch, deadline, .sleeping⟩) :
    ∃ b, Account.step c.triggerDelay i64Max a (.fire h.fs.fromPath) = some b ∧ b.replies = a.replies ∧
      Represents { c with
        tasks := c.tasks.set i ⟨sch, deadline, .finished⟩
        player := c.player ++ (Task.command h.fs ⟨sch, deadline, .sleeping⟩).toList } b := by
  obtain ⟨hc, -, ha⟩ := hr.trigger i _ hi rfl
  refine ⟨_, by rw [Account.step, Account.fire, ha], ?_, ?_⟩
  · rfl
  · have hstatus := hr.status
    have hsound := hr.currentSound
    have hfire := hr.nextFire
    rw [ha] at hstatus hsound hfire
    refine ⟨hstatus, hsound, hfire, hr.stored, ?_, ?_, ?_, hr.signals⟩
    · intro n task ht hl
      rcases Pool.of_set ht with ⟨-, rfl⟩ | ⟨hne, ht⟩
      · cases hl
      · exact absurd (Option.some.inj ((hr.trigger n task ht hl).1.symm.trans hc)) hne
    · intro hp
      cases hp
    · simp only [hr.player, Task.command, List.map_append]
      cases h.fs.fromPath sch.soundPath <;> rfl

/-! ### Whole runs -/

/-- Nothing fails of a save. -/
def Event.saves : Event → Bool
  | .call _ f => f = .none
  | _ => true

/-- The events of one process whose saves succeed. -/
def Steady (_ : Service) (event : Event) : Prop := event.inProcess = true ∧ event.saves = true

instance (s : Service) (event : Event) : Decidable (Steady s event) := inferInstanceAs (Decidable (_ ∧ _))

/-- A process that was started on an empty store. -/
def booted (host : Host) (env : Env) : Service := ⟨host, .up (.new env ⟨.disarmed, {}⟩), []⟩

theorem represents_new (env : Env) : Represents (.new env ⟨.disarmed, {}⟩) {} where
  status := rfl
  currentSound := rfl
  nextFire := rfl
  stored := (by decide : AlarmDaemon.Agrees ⟨.disarmed, {}⟩)
  trigger := by intro n task ht; cases ht
  pending := by intro hp; cases hp
  player := rfl
  signals := rfl

/-- The service is up, and stands for the account and what was replied. -/
def Simulates (triggerDelay : ℕ) (s : Service) (a : HelmAccount) : Prop :=
  ∃ c, s.node = .up c ∧ c.triggerDelay = triggerDelay ∧ Represents c a ∧ s.replies.map Except.isOk = a.replies

/-- Whatever happens to the daemon is matched by the alarm. -/
theorem Simulates.step {triggerDelay : ℕ} {s t : Service} {event : Event} (hsim : Simulates triggerDelay s a)
    (hok : Steady s event) (hs : serve s event = some t) :
    ∃ b, (Account.step triggerDelay i64Max).exec a (inputs s event) = some b ∧ Simulates triggerDelay t b := by
  obtain ⟨host, node, replies⟩ := s
  obtain ⟨c, rfl, rfl, hr, hreplies⟩ := hsim
  obtain ⟨hin, hsaves⟩ := hok
  simp only at hreplies
  cases served_of_serve hs with
  | @called _ _ _ _ request f reply hh =>
    obtain rfl : f = .none := by simpa [Event.saves] using hsaves
    have hone : ∀ b, Account.step c.triggerDelay i64Max a (request.input (c.files host) host.wall.ms) = some b →
        (Account.step c.triggerDelay i64Max).exec a (inputs ⟨host, .up c, replies⟩ (.call request .none)) =
          some b := by
      intro b hb
      simp only [inputs, Machine.exec_cons, hb, Option.bind_some, Machine.exec_nil]
    cases hh with
    | rejected hb =>
      refine ⟨_, hone _ (step_of_rejected hr hb), _, rfl, rfl, ?_, ?_⟩
      · exact ⟨hr.status, hr.currentSound, hr.nextFire, hr.stored, hr.trigger, hr.pending, hr.player, hr.signals⟩
      · simp [hreplies, Account.reject, Except.isOk, Except.toBool]
    | scheduled hb =>
      refine ⟨_, hone _ (step_of_scheduled hr hb), _, rfl, rfl, hr.turnOn hb, ?_⟩
      simp [hreplies, Account.turnOn, Except.isOk, Except.toBool]
    | ended hack =>
      refine ⟨_, hone a.turnOff ?_, _, rfl, rfl, hr.turnOff, ?_⟩
      · cases request with
        | disarm | dismiss => rfl
        | arm soundId | snooze durationS => cases hack
      · simp [hreplies, Account.turnOff, Except.isOk, Except.toBool]
  | fired hi hle =>
    obtain ⟨b, hb, hsame, hrb⟩ := hr.fire (h := host) hi
    refine ⟨b, ?_, _, rfl, rfl, hrb, hreplies.trans hsame.symm⟩
    simp only [inputs, Machine.exec_cons, hb, Option.bind_some, Machine.exec_nil]
  | ticked ms wall => exact ⟨a, rfl, c, rfl, rfl, hr, hreplies⟩
  | refiled fs => exact ⟨a, rfl, c, rfl, rfl, hr, hreplies⟩
  | stopped => cases hin

/-- So is every run. -/
theorem simulates_of_run {host : Host} {env : Env} {es : List Event} {s : Service}
    (hrun : Machine.Run serve Steady (booted host env) es s) :
    ∃ c a, s.node = .up c ∧
      (Account.step c.triggerDelay i64Max).exec {} (serve.observe inputs (booted host env) es) = some a ∧
      Represents c a ∧ s.replies.map Except.isOk = a.replies := by
  have hinit : Simulates (Control.new env ⟨.disarmed, {}⟩).triggerDelay (booted host env) {} :=
    ⟨_, rfl, rfl, represents_new env, rfl⟩
  obtain ⟨a, hexec, c, hs, hdelay, hr, hreplies⟩ :=
    hrun.simulate (fun _ _ _ _ hsim hok hstep => hsim.step hok hstep) hinit
  rw [← hdelay] at hexec
  exact ⟨c, a, hs, hexec, hr, hreplies⟩

/-- A call that replies with an error has changed nothing. -/
theorem handle_eq_of_error {f : Faults} {e : FdoError} (he : (c.handle h f request).1 = .error e) :
    c.handle h f request = (.error e, c) := by
  have hh := handled h f request c
  generalize c.handle h f request = r at he hh
  obtain ⟨reply, c'⟩ := r
  cases hh with
  | rejected hb => exact Prod.ext he rfl
  | scheduled hb => cases he
  | ended hack => cases he

/-- Every run of one process, started on an empty store, in which calls are made one at a time and
saves succeed is a run of the alarm: status, sound, fire time, store, signals, the commands to the
player and the replies are those of the alarm; the one live trigger is there exactly when the
alarm is on and has not fired; and a call that is rejected changes nothing. -/
theorem refines_alarm {host : Host} {env : Env} {es : List Event} {s : Service}
    (hrun : Machine.Run serve Steady (booted host env) es s) :
    ∃ c a, s.node = .up c ∧
      (Account.step c.triggerDelay i64Max).exec {} (serve.observe inputs (booted host env) es) = some a ∧
      Represents c a ∧ ((∃ n, c.Live n) ↔ a.alarm.isPending = true) ∧ (∀ m n, c.Live m → c.Live n → m = n) ∧
      s.replies.map Except.isOk = a.replies ∧
      ∀ f request e, (c.handle s.host f request).1 = .error e → c.handle s.host f request = (.error e, c) := by
  obtain ⟨c, a, hs, hexec, hr, hreplies⟩ := simulates_of_run hrun
  refine ⟨c, a, hs, hexec, hr, hr.live_iff, ?_, hreplies, fun f request e => handle_eq_of_error⟩
  intro m n hm hn
  exact Option.some.inj ((hr.triggerTask_of_live hm).symm.trans (hr.triggerTask_of_live hn))

theorem issued_eq_stop {command : Command String DecodedSound} (hc : command.isPlay = false) :
    command.issued = .stop := by
  cases command with
  | silence => rfl
  | play sound audio => cases hc

/-- What holds of every run of the alarm holds of the daemon: in these runs the signals are the
changes of the armed flag, and of two commands to the player in a row one is a stop. -/
theorem coherent_of_steady {host : Host} {env : Env} {es : List Event} {s : Service}
    (hrun : Machine.Run serve Steady (booted host env) es s) :
    ∃ c, s.node = .up c ∧ ChangeLog false c.signals c.status ∧
      c.player.IsChain fun p q => p = .stop ∨ q = .stop := by
  obtain ⟨c, a, hs, hexec, hr, -⟩ := simulates_of_run hrun
  have ha := Account.coherent_of_exec hexec
  refine ⟨c, hs, by rw [hr.signals, hr.status]; exact ha.log, ?_⟩
  rw [hr.player, List.isChain_map]
  exact ha.apart.imp fun p q hpq => hpq.imp issued_eq_stop issued_eq_stop

/-- An Arm that fires, a Snooze, one that is rejected, a Dismiss, and a Snooze when it is too late. -/
def ringing : List Event :=
  [.call (.arm "builtin:horn") .none, .tick 3000 hornTime, .fire 0, .call (.snooze 60) .none,
    .call (.snooze 0) .none, .call .dismiss .none, .call (.snooze 60) .none]

theorem refines_alarm_ringing :
    ∃ s c a, Machine.Run serve Steady (booted hornHost fun _ => none) ringing s ∧ s.node.control = some c ∧
      Represents c a ∧ c.player = [.stop, .play hornSound .alarm, .stop, .stop] ∧ c.signals = [true, false] ∧
      a.replies = [true, true, false, true, false] := by
  obtain ⟨s, hrun, hplayer, hsignals, hreplies⟩ : ∃ s : Service,
      Machine.Run serve Steady (booted hornHost fun _ => none) ringing s ∧
        s.node.control.map Control.player = some [.stop, .play hornSound .alarm, .stop, .stop] ∧
        s.node.control.map Control.signals = some [true, false] ∧
        s.replies.map Except.isOk = [true, true, false, true, false] := Machine.Run.exists_of_execIf (by decide)
  obtain ⟨c, a, hs, -, hr, -, -, hsame, -⟩ := refines_alarm hrun
  have hc : s.node.control = some c := by rw [hs]; rfl
  rw [hc] at hplayer hsignals
  exact ⟨s, c, a, hrun, hc, hr, Option.some.inj hplayer, Option.some.inj hsignals, hsame.symm.trans hreplies⟩

end HelmAlarm.Ipc
