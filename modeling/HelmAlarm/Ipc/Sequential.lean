import HelmAlarm.Ipc.Handlers

/-!
# Calls one at a time

The daemon when each call runs from its start to its end before anything else
happens, and so does each trigger once its sleep has ended: `serve` is the machine
of the calls, the triggers, the clocks, the file system, and of the daemon being
stopped and started. What a call does is said once, by `Handled`.

`run_of_serve` connects it with the machine of `HelmAlarm.Ipc.Handlers`, of which a
run without stops and starts is one.
-/

namespace HelmAlarm.Ipc

open HelmAlarm.Library HelmAlarm.Daemon HelmAlarm.Audio

/-! ### Triggers in one piece -/

/-- Task `i` from the end of its sleep to its own. -/
def Control.fire (h : Host) (i : ℕ) (c : Control) : Option Control :=
  (c.wake h i).bind fun c => (c.decode h i).map fun c => (c.play i).getD c

/-- The command that a trigger gives: the file is played as it is then, if it can be decoded. -/
def Task.command (fs : FileSystem) (task : Task) : Option PlayerCommand :=
  (fs.fromPath task.schedule.soundPath).map fun sound => .play sound .alarm

variable {h : Host} {f : Faults} {i n : ℕ} {c c' : Control} {request : Request} {sch : Schedule}

theorem Control.fire_of_sleeping {deadline : ℕ} (hi : c.tasks[i]? = some ⟨sch, deadline, .sleeping⟩)
    (hle : deadline ≤ h.mono) :
    c.fire h i = some { c with
      tasks := c.tasks.set i ⟨sch, deadline, .finished⟩
      player := c.player ++ (Task.command h.fs ⟨sch, deadline, .sleeping⟩).toList } := by
  have hwake : c.wake h i = some { c with tasks := c.tasks.set i ⟨sch, deadline, .woken⟩ } := by
    simp only [Control.wake, hi, if_pos hle]
  have hself : ∀ a : Task, (c.tasks.set i a)[i]? = some a := fun a => Pool.set_self hi
  cases hd : h.fs.fromPath sch.soundPath with
  | none =>
    simp [Control.fire, hwake, Control.decode, Control.play, Task.decode, Task.command, hd, hself]
  | some sound =>
    simp [Control.fire, hwake, Control.decode, Control.play, Task.decode, Task.command, hd, hself,
      VolumeProfile.new_alarm]

/-- A trigger that fires was asleep, and its time has come. -/
theorem Control.sleeping_of_fire (hf : c.fire h i = some c') :
    ∃ sch deadline, c.tasks[i]? = some ⟨sch, deadline, .sleeping⟩ ∧ deadline ≤ h.mono ∧
      c' = { c with
        tasks := c.tasks.set i ⟨sch, deadline, .finished⟩
        player := c.player ++ (Task.command h.fs ⟨sch, deadline, .sleeping⟩).toList } := by
  obtain ⟨c₁, hw, -⟩ := Option.bind_eq_some_iff.mp hf
  unfold Control.wake at hw
  split at hw
  · rename_i sch deadline hi
    split at hw
    · rename_i hle
      rw [Control.fire_of_sleeping hi hle] at hf
      exact ⟨sch, deadline, hi, hle, (Option.some.inj hf).symm⟩
    · cases hw
  · cases hw

/-! ### Calls in one piece -/

theorem Control.schedule_eq_ok {soundId : String} {delay : ℕ} (hs : c.schedule h soundId delay = .ok sch) :
    sch.soundId = soundId ∧ sch.delay = delay ∧ c.sounds.resolvePath h.fs sch.soundId = .ok sch.soundPath ∧
      sch.fireAt = fireAt h.wall sch.delay := by
  unfold Control.schedule at hs
  split at hs
  · cases hs
  · rename_i path hp
    obtain rfl := Except.ok.inj hs
    exact ⟨rfl, rfl, hp, rfl⟩

/-- What a call that schedules a trigger has worked out. -/
theorem Control.begin_eq_schedule {announces : Bool} (hb : c.begin h request = .ok (.schedule sch announces)) :
    c.sounds.resolvePath h.fs sch.soundId = .ok sch.soundPath ∧ sch.fireAt = fireAt h.wall sch.delay ∧
      (request = .arm sch.soundId ∧ announces = true ∧ sch.delay = c.triggerDelay ∨
        ∃ durationS, request = .snooze durationS ∧ announces = false ∧ sch.delay = Control.snoozeDelay durationS ∧
          c.snoozeSound durationS = .ok sch.soundId) := by
  cases Control.begun_of_begin hb with
  | armed hs =>
    obtain ⟨rfl, hdelay, hp, hfire⟩ := Control.schedule_eq_ok hs
    exact ⟨hp, hfire, .inl ⟨rfl, rfl, hdelay⟩⟩
  | @snoozed durationS _ _ hd hs =>
    obtain ⟨rfl, hdelay, hp, hfire⟩ := Control.schedule_eq_ok hs
    exact ⟨hp, hfire, .inr ⟨durationS, rfl, rfl, hdelay, hd⟩⟩

/-- An id that resolves fits the store. -/
theorem fits_of_resolvePath (hp : c.sounds.resolvePath h.fs sch.soundId = .ok sch.soundPath) :
    sch.desired.toPersisted.Fits := by
  intro id hid
  obtain rfl : sch.soundId = id := Option.some.inj hid
  have := SoundLibrary.utf8ByteSize_lt_of_resolvePath hp
  unfold SoundFits
  unfold pathMax at this
  unfold u16Max
  omega

/-- What a call does, and what it replies. -/
inductive Handled (h : Host) (f : Faults) (request : Request) (c : Control) :
    Except FdoError Unit → Control → Prop where
  /-- It is rejected, and nothing changes. -/
  | rejected {e : FdoError} (hb : c.begin h request = .error e) : Handled h f request c (.error e) c
  /-- It schedules a trigger; a Snooze does not announce that the flag changed. -/
  | scheduled {sch : Schedule} {announces : Bool} (hb : c.begin h request = .ok (.schedule sch announces)) :
      Handled h f request c (.ok ()) { c with
        daemon := (c.daemon.transitionTo f sch.desired).2
        tasks := c.takeTrigger.tasks ++ [⟨sch, h.mono + sch.delay, .sleeping⟩]
        triggerTask := some c.tasks.length
        player := c.player ++ [.stop]
        signals := if announces ∧ c.status = false then c.signals ++ [true] else c.signals }
  /-- It ends the alarm. -/
  | ended (hack : request.isAck = true) :
      Handled h f request c (.ok ()) { c with
        daemon := (c.daemon.transitionTo f .disarmed).2
        tasks := c.takeTrigger.tasks
        triggerTask := none
        player := c.player ++ [.stop]
        signals := if c.status then c.signals ++ [false] else c.signals }

/-- A call does one of these. -/
theorem handled (h : Host) (f : Faults) (request : Request) (c : Control) :
    Handled h f request c (c.handle h f request).1 (c.handle h f request).2 := by
  cases hb : c.begin h request with
  | error e =>
    rw [Control.handle_of_error hb]
    exact .rejected hb
  | ok job =>
    cases job with
    | disarm =>
      have hsignals : c.signals ++ (c.daemon.transitionTo f .disarmed).1.flag.toList =
          if c.status then c.signals ++ [false] else c.signals := by
        rw [AlarmDaemon.flag_transitionTo, Control.status]
        cases c.daemon.status <;> simp
      rw [Control.handle_of_disarm hb, Control.cancelAndDisarm_eq, hsignals]
      exact .ended (Control.isAck_of_begin hb)
    | schedule sch announces =>
      have hsignals : (if announces then c.signals ++ (c.daemon.transitionTo f sch.desired).1.flag.toList
          else c.signals) = if announces ∧ c.status = false then c.signals ++ [true] else c.signals := by
        rw [AlarmDaemon.flag_transitionTo, Control.status]
        cases announces <;> cases c.daemon.status <;> simp [Schedule.desired]
      rw [Control.handle_of_schedule hb, Control.startTrigger_eq]
      have hhandled := Handled.scheduled (f := f) hb
      rw [← hsignals] at hhandled
      cases announces with
      | true => simpa [Control.announce_eq] using hhandled
      | false => simpa using hhandled

/-! ### The daemon, its stops and its starts -/

/-- The process of the daemon. -/
inductive Node where
  /-- It is not running, and has left this store. -/
  | down (persistence : Persistence)
  /-- It is up and ready. -/
  | up (control : Control)
  deriving DecidableEq, Repr

/-- The control object of a process that is up. -/
def Node.control : Node → Option Control
  | .down _ => none
  | .up c => some c

theorem Node.eq_up {node : Node} (h : node.control = some c) : node = .up c := by
  cases node with
  | down p => cases h
  | up c' => rw [Option.some.inj h]

/-- The daemon and what is around it. -/
structure Service where
  /-- What the methods find around them. -/
  host : Host
  /-- The process. -/
  node : Node
  /-- The replies to the calls so far. -/
  replies : List (Except FdoError Unit) := []

/-- What can happen. -/
inductive Event where
  /-- A call, from its start to its end. -/
  | call (request : Request) (f : Faults)
  /-- Task `i` from the end of its sleep to its own. -/
  | fire (i : ℕ)
  /-- Time passes. -/
  | tick (ms : ℕ) (wall : WallClock)
  /-- The file system changes. -/
  | files (fs : FileSystem)
  /-- The process ends, and its tasks with it. -/
  | stop
  /-- The process is started (`run` of `main.rs`). -/
  | start (env : Env)

/-- The machine of calls made one at a time. -/
def serve : Machine Service Event := fun s event =>
  match event with
  | .call request f =>
    match s.node with
    | .down _ => none
    | .up c => some { s with
        node := .up (c.handle s.host f request).2
        replies := s.replies ++ [(c.handle s.host f request).1] }
  | .fire i =>
    match s.node with
    | .down _ => none
    | .up c => (c.fire s.host i).map fun c => { s with node := .up c }
  | .tick ms wall => some { s with host := s.host.tick ms wall }
  | .files fs => some { s with host := { s.host with fs := fs } }
  | .stop =>
    match s.node with
    | .down _ => none
    | .up c => some { s with node := .down c.daemon.persistence.crashed }
  | .start env =>
    match s.node with
    | .up _ => none
    | .down p =>
      match AlarmDaemon.newPersistent .none s.host.wall p with
      | .error _ => none
      | .ok (daemon, _) => some { s with node := .up (.new env daemon) }

/-- What an event does: one case for each kind. -/
inductive Served : Service → Event → Service → Prop where
  /-- A call is made. -/
  | called {host : Host} {c c' : Control} {replies : List (Except FdoError Unit)} {request : Request} {f : Faults}
      {reply : Except FdoError Unit} (hh : Handled host f request c reply c') :
      Served ⟨host, .up c, replies⟩ (.call request f) ⟨host, .up c', replies ++ [reply]⟩
  /-- A trigger fires. -/
  | fired {host : Host} {c : Control} {replies : List (Except FdoError Unit)} {i : ℕ} {sch : Schedule}
      {deadline : ℕ}
      (hi : c.tasks[i]? = some ⟨sch, deadline, .sleeping⟩) (hle : deadline ≤ host.mono) :
      Served ⟨host, .up c, replies⟩ (.fire i) ⟨host, .up { c with
        tasks := c.tasks.set i ⟨sch, deadline, .finished⟩
        player := c.player ++ (Task.command host.fs ⟨sch, deadline, .sleeping⟩).toList }, replies⟩
  /-- Time passes. -/
  | ticked {s : Service} (ms : ℕ) (wall : WallClock) :
      Served s (.tick ms wall) { s with host := s.host.tick ms wall }
  /-- The file system changes. -/
  | refiled {s : Service} (fs : FileSystem) : Served s (.files fs) { s with host := { s.host with fs := fs } }
  /-- The process ends. -/
  | stopped {host : Host} {c : Control} {replies : List (Except FdoError Unit)} :
      Served ⟨host, .up c, replies⟩ .stop ⟨host, .down c.daemon.persistence.crashed, replies⟩
  /-- The process is started, with the state that is on disk and no trigger. -/
  | started {host : Host} {p : Persistence} {replies : List (Except FdoError Unit)} {env : Env}
      {daemon : AlarmDaemon}
      (ha : daemon.Agrees) (hs : p.stored = .ok daemon.inner.toPersisted) :
      Served ⟨host, .down p, replies⟩ (.start env) ⟨host, .up (.new env daemon), replies⟩

variable {s t : Service} {event : Event}

theorem served_of_serve (h : serve s event = some t) : Served s event t := by
  obtain ⟨host, node, replies⟩ := s
  cases event with
  | tick ms wall =>
    obtain rfl := Option.some.inj h
    exact .ticked ms wall
  | files fs =>
    obtain rfl := Option.some.inj h
    exact .refiled fs
  | call request f =>
    cases node with
    | down p => cases h
    | up c =>
      obtain rfl := Option.some.inj h
      exact .called (handled host f request c)
  | fire i =>
    cases node with
    | down p => cases h
    | up c =>
      obtain ⟨c', hf, rfl⟩ := Option.map_eq_some_iff.mp h
      obtain ⟨sch, deadline, hi, hle, rfl⟩ := Control.sleeping_of_fire hf
      exact .fired hi hle
  | stop =>
    cases node with
    | down p => cases h
    | up c =>
      obtain rfl := Option.some.inj h
      exact .stopped
  | start env =>
    cases node with
    | up c => cases h
    | down p =>
      simp only [serve] at h
      split at h
      · cases h
      · rename_i daemon r hn
        obtain ⟨ha, hs⟩ := AlarmDaemon.newPersistent_agrees hn rfl
        obtain rfl := Option.some.inj h
        exact .started ha hs

/-! ### A run of one process is a run of its handlers and tasks -/

/-- The event is not a stop or a start. -/
def Event.inProcess : Event → Bool
  | .stop | .start _ => false
  | _ => true

/-- Steps of a handler are steps of the machine. -/
theorem run_of_moves {handlers : List Handler} {a b : Control × Pc} (hm : Moves h f request a b)
    (hi : handlers[i]? = some ⟨request, a.2⟩) :
    ∃ as, Machine.Run step Machine.anyStep ⟨h, a.1, handlers⟩ as ⟨h, b.1, handlers.set i ⟨request, b.2⟩⟩ := by
  induction hm with
  | refl =>
    obtain ⟨hlt, hget⟩ := List.getElem?_eq_some_iff.mp hi
    refine ⟨[], ?_⟩
    rw [← hget, List.set_getElem_self]
    exact .nil
  | @tail b d _ hmove ih =>
    obtain ⟨as, hrun⟩ := ih
    refine ⟨as ++ [.advance i f], hrun.snoc trivial ?_⟩
    simp only [step, Pool.set_self hi, hmove, Option.map_some, List.set_set]

/-- A call run in one piece is a handler that nothing comes between. -/
theorem run_of_handle {handlers : List Handler} (hdone : AllDone ⟨h, c, handlers⟩) (f : Faults)
    (request : Request) :
    ∃ as handlers', Machine.Run step Machine.anyStep ⟨h, c, handlers⟩ as ⟨h, (c.handle h f request).2, handlers'⟩ ∧
      AllDone ⟨h, (c.handle h f request).2, handlers'⟩ := by
  obtain ⟨reply, hmoves, -⟩ := Moves.handle h f request c
  have hget : (handlers ++ [(⟨request, .begin⟩ : Handler)])[handlers.length]? = some ⟨request, .begin⟩ :=
    Pool.add_self
  obtain ⟨as, hrun⟩ := run_of_moves hmoves hget
  refine ⟨.request request :: as, _, .cons trivial rfl hrun, ?_⟩
  intro hd hmem
  obtain ⟨j, hj⟩ := List.mem_iff_getElem?.mp hmem
  rcases Pool.of_set hj with ⟨-, rfl⟩ | ⟨hne, hj⟩
  · rfl
  · rcases Pool.of_add hj with ⟨rfl, -⟩ | hj
    · exact absurd rfl hne
    · exact hdone hd (List.mem_of_getElem? hj)

/-- A trigger in one piece is its steps with nothing in between. -/
theorem run_of_fire {handlers : List Handler} {deadline : ℕ} (hi : c.tasks[i]? = some ⟨sch, deadline, .sleeping⟩)
    (hle : deadline ≤ h.mono) :
    ∃ as, Machine.Run step Machine.anyStep ⟨h, c, handlers⟩ as ⟨h, { c with
      tasks := c.tasks.set i ⟨sch, deadline, .finished⟩
      player := c.player ++ (Task.command h.fs ⟨sch, deadline, .sleeping⟩).toList }, handlers⟩ := by
  have hself : ∀ a : Task, (c.tasks.set i a)[i]? = some a := fun a => Pool.set_self hi
  cases hd : h.fs.fromPath sch.soundPath with
  | none =>
    refine ⟨[.wake i, .decode i], Machine.exec_eq_some_iff.mp ?_⟩
    simp [step, Control.wake, Control.decode, Task.decode, Task.command, hi, hle, hd, hself]
  | some sound =>
    refine ⟨[.wake i, .decode i, .play i], Machine.exec_eq_some_iff.mp ?_⟩
    simp [step, Control.wake, Control.decode, Control.play, Task.decode, Task.command, hi, hle, hd, hself,
      VolumeProfile.new_alarm]

/-- A run of one process in which calls are made one at a time is a run of its handlers and tasks,
at the end of which all handlers have returned. -/
theorem run_of_serve {es : List Event} {ok : Service → Event → Prop} (hin : ∀ s e, ok s e → e.inProcess = true)
    (h : Machine.Run serve ok s es t) (hs : s.node = .up c) :
    ∃ c' as handlers, t.node = .up c' ∧
      Machine.Run step Machine.anyStep ⟨s.host, c, []⟩ as ⟨t.host, c', handlers⟩ ∧
      AllDone ⟨t.host, c', handlers⟩ := by
  suffices H : ∀ handlers, AllDone ⟨s.host, c, handlers⟩ → ∃ c' as handlers', t.node = .up c' ∧
      Machine.Run step Machine.anyStep ⟨s.host, c, handlers⟩ as ⟨t.host, c', handlers'⟩ ∧
        AllDone ⟨t.host, c', handlers'⟩ from H [] (fun hd hmem => absurd hmem List.not_mem_nil)
  induction h generalizing c with
  | nil => exact fun handlers hdone => ⟨c, [], handlers, hs, .nil, hdone⟩
  | @cons s u t event es hok hstep _ ih =>
    intro handlers hdone
    have hnext : ∃ c₁ as handlers₁, u.node = .up c₁ ∧
        Machine.Run step Machine.anyStep ⟨s.host, c, handlers⟩ as ⟨u.host, c₁, handlers₁⟩ ∧
          AllDone ⟨u.host, c₁, handlers₁⟩ := by
      have hev := hin _ _ hok
      obtain ⟨host, node, replies⟩ := s
      subst hs
      cases served_of_serve hstep with
      | @called _ _ c' _ request f reply hh =>
        obtain rfl := Node.up.inj (congrArg Service.node (Option.some.inj hstep))
        obtain ⟨as, handlers', hrun, hdone'⟩ := run_of_handle hdone f request
        exact ⟨_, as, handlers', rfl, hrun, hdone'⟩
      | fired hi hle =>
        obtain ⟨as, hrun⟩ := run_of_fire hi hle
        exact ⟨_, as, handlers, rfl, hrun, hdone⟩
      | ticked ms wall => exact ⟨c, [.tick ms wall], handlers, rfl, .single trivial rfl, hdone⟩
      | refiled fs => exact ⟨c, [.files fs], handlers, rfl, .single trivial rfl, hdone⟩
      | stopped => cases hev
    obtain ⟨c₁, as₁, handlers₁, hu, hrun₁, hdone₁⟩ := hnext
    obtain ⟨c', as₂, handlers₂, ht, hrun₂, hdone₂⟩ := ih hu handlers₁ hdone₁
    exact ⟨c', as₁ ++ as₂, handlers₂, ht, hrun₁.append hrun₂, hdone₂⟩

end HelmAlarm.Ipc
