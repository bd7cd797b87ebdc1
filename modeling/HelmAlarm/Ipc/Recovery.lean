import HelmAlarm.Ipc.Restarting

/-!
# What a start makes of the alarm it finds

`evaluate_recovery` flags an alarm as missed when it is armed and its time has
passed. Whether its trigger fired is not on disk: a trigger that hands its sound to
the player leaves the state as it was, so an alarm that has sounded and was not
dismissed is armed like one that never did.

`RingHistory` remembers what the disk does not. The flag is right at a start exactly
when no process was stopped while the alarm was sounding, that is with a Play as its
last command to the player, since a call set or ended the alarm; or when the start
comes before the time of the alarm: `flagged_exactly_iff`. A process that is stopped
with its alarm dismissed, or before it sounded, is followed by a right flag.
-/

namespace HelmAlarm.Ipc

open HelmAlarm.Library HelmAlarm.Daemon HelmAlarm.Audio

/-- An alarm that is on disk is armed, and its time has come. -/
def Due (now : WallClock) (persisted : PersistedState) : Prop :=
  persisted.armed = true ∧ ∃ t ∈ persisted.nextFireUnixMs, t.toInt ≤ now.ms

/-- The last command to the player was to play. -/
def Control.sounding (c : Control) : Bool := c.player.getLast?.any fun command => command ≠ .stop

/-- The same of a process. -/
def Node.sounding : Node → Bool
  | .down _ => false
  | .up c => c.sounding

/-- The alarm: the one in memory, or the one that was left on disk. -/
def Node.alarm : Node → Except PersistenceError PersistedState
  | .down p => p.stored
  | .up c => .ok c.daemon.inner.toPersisted

/-- `missed_while_down` of the recovery that a start of the process gets. -/
def Service.missedWhileDown (s : Service) : Option Bool :=
  match s.node with
  | .up _ => none
  | .down p => (AlarmDaemon.newPersistent .none s.host.wall p).toOption.map fun started => started.2.missedWhileDown

/-- What happened to the alarm since a call set it. -/
structure RingHistory where
  /-- Its trigger has handed its sound to the player. -/
  played : Bool := false
  /-- A process was stopped with a Play as the last command to its player. -/
  leftSounding : Bool := false
  deriving DecidableEq, Repr

/-- Task `i` is the trigger of the alarm, and hands its sound to the player if it fires. -/
def Control.rings (h : Host) (i : ℕ) (c : Control) : Bool :=
  c.tasks[i]?.any fun task => task.schedule.desired = c.daemon.inner && (Task.command h.fs task).isSome

/-- What an event adds to the history. A call that is accepted sets another alarm, or ends this one. -/
def RingHistory.after (hist : RingHistory) (s : Service) (event : Event) (_ : Service) : RingHistory :=
  match event, s.node with
  | .call request f, .up c =>
    match (c.handle s.host f request).1 with
    | .ok () => {}
    | .error _ => hist
  | .fire i, .up c => { hist with played := hist.played || c.rings s.host i }
  | .stop, .up c => { hist with leftSounding := hist.leftSounding || c.sounding }
  | _, _ => hist

/-- Saves succeed. -/
def Saved : Event → Prop
  | .call _ f => f = .none
  | _ => True

instance : (event : Event) → Decidable (Saved event)
  | .call _ f => inferInstanceAs (Decidable (f = .none))
  | .fire _ | .tick _ _ | .files _ | .stop | .start _ => .isTrue trivial

variable {h₀ : Host} {c : Control} {s t : Service} {hist : RingHistory} {event : Event}
  {persistence p : Persistence} {daemon : AlarmDaemon} {recovery : StartupRecovery} {es : List Event}

/-! ### The flag -/

/-- What `evaluate_recovery` flags. -/
theorem missedWhileDown_iff {now : WallClock} {persisted : PersistedState} :
    (Persistence.evaluateRecovery now persisted).missedWhileDown = true ↔ Due now persisted := by
  simp only [Persistence.evaluateRecovery, Bool.and_eq_true, Due, Option.any_eq_true, Option.mem_def,
    decide_eq_true_eq, Int64.le_iff_toInt_le, WallClock.toInt_nowMs]

/-- A start flags what is on disk. -/
theorem Service.missedWhileDown_eq_some {missed : Bool} (h : s.missedWhileDown = some missed) :
    ∃ p persisted, s.node = .down p ∧ p.stored = .ok persisted ∧ (missed = true ↔ Due s.host.wall persisted) := by
  unfold Service.missedWhileDown at h
  split at h
  · cases h
  · rename_i p hnode
    have hload := Persistence.load_none p
    unfold AlarmDaemon.newPersistent at h
    split at h
    · cases h
    · rename_i persisted p' hl
      rw [hl] at hload
      obtain rfl := Option.some.inj h
      exact ⟨p, persisted, hnode, hload.symm, missedWhileDown_iff⟩

/-! ### What the history says of the daemon -/

/-- The daemon, as the history has it. -/
structure Recounts (s : Service) (hist : RingHistory) : Prop where
  /-- What is on disk is what is in memory. -/
  agrees : ∀ c, s.node = .up c → c.daemon.Agrees
  /-- A task that sleeps is the trigger of the alarm, and its handle is held. -/
  trigger : ∀ c, s.node = .up c → ∀ n task, c.tasks[n]? = some task → task.phase = .sleeping →
    c.triggerTask = some n ∧ c.daemon.inner = task.schedule.desired
  /-- The alarm has been played when it was left sounding, or still is. -/
  played : hist.played = (hist.leftSounding || s.node.sounding)
  /-- An alarm that has been played is armed, for a time. -/
  alarm : hist.played = true → ∃ sound time, s.node.alarm = .ok (State.armed sound (some time)).toPersisted

/-- After the handle was taken no task sleeps. -/
theorem Recounts.not_sleeping {n : ℕ} {task : Task} (hI : Recounts s hist) (hs : s.node = .up c)
    (ht : c.takeTrigger.tasks[n]? = some task) : task.phase ≠ .sleeping := by
  intro hsleep
  rw [Control.tasks_takeTrigger] at ht
  split at ht
  · obtain ⟨task', ht', rfl⟩ := Option.map_eq_some_iff.mp ht
    cases hp : task'.phase <;> simp [Task.abort, hp] at hsleep
  · rename_i hne
    exact hne (hI.trigger c hs n task ht hsleep).1

/-- After an accepted call the alarm is another one, or there is none, and nothing sounds. -/
theorem Recounts.of_accepted {host : Host} {replies : List (Except FdoError Unit)} {player : List PlayerCommand}
    (ha : c.daemon.Agrees) (hstop : c.player = player ++ [.stop])
    (htrigger : ∀ n task, c.tasks[n]? = some task → task.phase = .sleeping →
      c.triggerTask = some n ∧ c.daemon.inner = task.schedule.desired) :
    Recounts ⟨host, .up c, replies⟩ {} := by
  refine ⟨?_, ?_, ?_, by rintro ⟨⟩⟩
  · rintro _ ⟨⟩
    exact ha
  · rintro _ ⟨⟩
    exact htrigger
  · simp [Node.sounding, Control.sounding, hstop]

/-- After a call that was accepted it is so. -/
theorem Recounts.accepted {host : Host} {c' : Control} {replies replies' : List (Except FdoError Unit)}
    {request : Request} (hI : Recounts ⟨host, .up c, replies⟩ hist) (hh : Handled host .none request c (.ok ()) c') :
    Recounts ⟨host, .up c', replies'⟩ {} := by
  cases hh with
  | @scheduled sch announces hb =>
    have hfits := fits_of_resolvePath (Control.begin_eq_schedule hb).1
    refine .of_accepted ((hI.agrees c rfl).transitionTo hfits) rfl fun n task ht hsleep => ?_
    rcases Pool.of_add ht with ⟨rfl, rfl⟩ | ht
    · exact ⟨by simp, AlarmDaemon.transitionTo_inner _ _ _⟩
    · exact absurd hsleep (hI.not_sleeping rfl ht)
  | ended hack =>
    have hfits : State.disarmed.toPersisted.Fits := by decide
    exact .of_accepted ((hI.agrees c rfl).transitionTo hfits) rfl
      fun n task ht hsleep => absurd hsleep (hI.not_sleeping rfl ht)

/-- After the trigger of the alarm has fired, the alarm has been played if its file could be decoded. -/
theorem Recounts.fired {host : Host} {replies : List (Except FdoError Unit)} {i : ℕ} {sch : Schedule} {deadline : ℕ}
    (hI : Recounts ⟨host, .up c, replies⟩ hist) (hi : c.tasks[i]? = some ⟨sch, deadline, .sleeping⟩) :
    Recounts ⟨host, .up { c with
      tasks := c.tasks.set i ⟨sch, deadline, .finished⟩
      player := c.player ++ (Task.command host.fs ⟨sch, deadline, .sleeping⟩).toList }, replies⟩
      { hist with played := hist.played || c.rings host i } := by
  have htrigger := (hI.trigger c rfl i _ hi rfl).2
  have hrings : c.rings host i = (Task.command host.fs ⟨sch, deadline, .sleeping⟩).isSome := by
    simp [Control.rings, hi, htrigger]
  refine ⟨?_, ?_, ?_, ?_⟩
  · rintro _ ⟨⟩
    exact hI.agrees c rfl
  · rintro _ ⟨⟩ n task ht hsleep
    rcases Pool.of_set ht with ⟨rfl, rfl⟩ | ⟨hne, ht⟩
    · cases hsleep
    · exact hI.trigger c rfl n task ht hsleep
  · have hplayed := hI.played
    simp only [hrings, Node.sounding, Control.sounding] at hplayed ⊢
    rw [hplayed, Task.command]
    cases host.fs.fromPath sch.soundPath with
    | none => simp
    | some sound => simp
  · intro _
    refine ⟨some sch.soundId, sch.fireAt, ?_⟩
    rw [Node.alarm, htrigger]
    rfl

theorem Recounts.step (hI : Recounts s hist) (hok : Saved event) (hs : serve s event = some t) :
    Recounts t (hist.after s event t) := by
  have hserve := hs
  cases served_of_serve hs with
  | @called host c c' replies request f reply hh =>
    obtain rfl : f = .none := hok
    have hreply : (c.handle host .none request).1 = reply := by
      simp only [serve, Option.some.injEq, Service.mk.injEq] at hserve
      exact List.singleton_inj.mp (List.append_cancel_left hserve.2.2)
    simp only [RingHistory.after, hreply]
    cases reply with
    | error e =>
      cases hh with
      | rejected hb => exact ⟨hI.agrees, hI.trigger, hI.played, hI.alarm⟩
    | ok => exact hI.accepted hh
  | fired hi hle => exact hI.fired hi
  | ticked ms wall => exact ⟨hI.agrees, hI.trigger, hI.played, hI.alarm⟩
  | refiled fs => exact ⟨hI.agrees, hI.trigger, hI.played, hI.alarm⟩
  | @stopped host c replies =>
    have halarm : (Node.down c.daemon.persistence.crashed).alarm = (Node.up c).alarm :=
      (Persistence.stored_crashed _).trans (hI.agrees c rfl)
    refine ⟨by rintro _ ⟨⟩, by rintro _ ⟨⟩, ?_, ?_⟩
    · simpa [RingHistory.after, Node.sounding] using hI.played
    · intro hplayed
      rw [halarm]
      exact hI.alarm hplayed
  | @started host p replies env daemon ha hstored =>
    refine ⟨?_, ?_, ?_, ?_⟩
    · rintro _ ⟨⟩
      exact ha
    · rintro _ ⟨⟩ n task ht
      cases ht
    · exact hI.played
    · intro hplayed
      obtain ⟨sound, time, halarm⟩ := hI.alarm hplayed
      exact ⟨sound, time, hstored.symm.trans halarm⟩

theorem recounts_of_run
    (hrun : Machine.Run (serve.track RingHistory.after) (fun _ event => Saved event)
      (⟨h₀, .down persistence, []⟩, {}) es (s, hist)) : Recounts s hist := by
  have hinit : Recounts ⟨h₀, .down persistence, []⟩ {} := ⟨by rintro c ⟨⟩, by rintro c ⟨⟩, rfl, by rintro ⟨⟩⟩
  refine hrun.invariant (I := fun q => Recounts q.1 q.2) (fun q event q' hI hok hs => ?_) hinit
  obtain ⟨hstep, hhist⟩ := Machine.track_eq_some_iff.mp hs
  rw [hhist]
  exact hI.step hok hstep

/-- In every run of calls made one at a time, triggers, stops and starts, from whatever was on disk, in
which saves succeed, whatever the clocks do: the flag of a start says that the stored alarm is armed,
its time has come, and its trigger has not handed its sound to the player, if and only if no process
was stopped with a Play as its last command since a call set the alarm, or its time has not come. -/
theorem flagged_exactly_iff {missed : Bool}
    (hrun : Machine.Run (serve.track RingHistory.after) (fun _ event => Saved event)
      (⟨h₀, .down persistence, []⟩, {}) es (s, hist)) (hstart : s.missedWhileDown = some missed) :
    ∃ persisted, s.node.alarm = .ok persisted ∧
      ((missed = true ↔ Due s.host.wall persisted ∧ hist.played = false) ↔
        hist.leftSounding = false ∨ ∀ t ∈ persisted.nextFireUnixMs, (s.host.wall.ms : ℤ) < t.toInt) := by
  obtain ⟨p, persisted, hs, hstored, hflag⟩ := Service.missedWhileDown_eq_some hstart
  have hI := recounts_of_run hrun
  have hplayed : hist.played = hist.leftSounding := by simpa [hs, Node.sounding] using hI.played
  refine ⟨persisted, by rw [hs]; exact hstored, ?_⟩
  rw [hflag, hplayed]
  cases hleft : hist.leftSounding with
  | false => simp
  | true =>
    -- the alarm has been played, so that it is armed, and is flagged once its time has come
    obtain ⟨sound, time, halarm⟩ := hI.alarm (hplayed.trans hleft)
    rw [hs, Node.alarm, hstored] at halarm
    obtain rfl := Except.ok.inj halarm
    simp [Due, State.toPersisted]

/-- An alarm whose time comes while the daemon is down. -/
def missingDown : List Event :=
  [.start fun _ => none, .call (.arm "builtin:horn") .none, .stop, .tick 9000 hornPast]

theorem flagged_exactly_missing_down :
    ∃ s hist persisted, Machine.Run (serve.track RingHistory.after) (fun _ event => Saved event)
        (⟨hornHost, .down {}, []⟩, {}) missingDown (s, hist) ∧
      s.missedWhileDown = some true ∧ s.node.alarm = .ok persisted ∧ Due s.host.wall persisted ∧
      hist.played = false := by
  obtain ⟨⟨s, hist⟩, hrun, hflag, hleft⟩ : ∃ q : Service × RingHistory,
      Machine.Run (serve.track RingHistory.after) (fun _ event => Saved event)
        (⟨hornHost, .down {}, []⟩, {}) missingDown q ∧
      q.1.missedWhileDown = some true ∧ q.2.leftSounding = false := Machine.Run.exists_of_execIf (by decide)
  obtain ⟨persisted, halarm, hexact⟩ := flagged_exactly_iff hrun hflag
  obtain ⟨hdue, hplayed⟩ := (hexact.mpr (.inl hleft)).mp rfl
  exact ⟨s, hist, persisted, hrun, hflag, halarm, hdue, hplayed⟩

/-- An alarm that sounds, and is not dismissed before the daemon is stopped. -/
def leavingSounding : List Event :=
  [.start fun _ => none, .call (.arm "builtin:horn") .none, .tick 3000 hornTime, .fire 0, .stop]

/-- The next start flags it as missed, while its trigger has handed its sound to the player. -/
theorem played_alarm_is_flagged :
    ∃ s hist, Machine.Run (serve.track RingHistory.after) (fun q event => Kept q.1 event)
        (⟨hornHost, .down {}, []⟩, {}) leavingSounding (s, hist) ∧
      s.missedWhileDown = some true ∧ s.node.alarm = .ok ⟨true, some 4000, some "builtin:horn"⟩ ∧
      s.host.wall.ms = 4000 ∧ hist.played = true := by
  obtain ⟨⟨s, hist⟩, hrun, hflag, halarm, hwall, hplayed⟩ : ∃ q : Service × RingHistory,
      Machine.Run (serve.track RingHistory.after) (fun q event => Kept q.1 event)
        (⟨hornHost, .down {}, []⟩, {}) leavingSounding q ∧
      q.1.missedWhileDown = some true ∧ q.1.node.alarm = .ok ⟨true, some 4000, some "builtin:horn"⟩ ∧
      q.1.host.wall.ms = 4000 ∧ q.2.played = true := Machine.Run.exists_of_execIf (by decide)
  exact ⟨s, hist, hrun, hflag, halarm, hwall, hplayed⟩

end HelmAlarm.Ipc
