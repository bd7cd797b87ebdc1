import HelmAlarm.Ipc.Handlers

/-!
# Live triggers and the handle

The handle of a trigger is in three places one after the other: with the handler
that spawned it, in `trigger_task`, and with the handler whose `cancel_pending`
took it. A trigger that loses its handle while it is live can no longer be
cancelled. It loses it when a handler takes the handle of a task that is past its
sleep, whose abort comes too late, and when a handler stores its own handle over
that of a live task.

`Held` says that no live trigger has lost its handle; the steps that are neither
of the two keep it. With it, a daemon that is disarmed has no live trigger, as
long as a Disarm or Dismiss does not swap the state while another handler has a
trigger on its way: `no_live_of_disarmed`.
-/

namespace HelmAlarm.Ipc

open HelmAlarm.Library HelmAlarm.Daemon HelmAlarm.Audio

/-- The handle a handler is about to store. -/
def Pc.handle : Pc → Option ℕ
  | .store _ _ _ handle => some handle
  | _ => none

theorem Pc.handle_of_done {pc : Pc} (h : pc.isDone = true) : pc.handle = none := by
  obtain ⟨reply, rfl⟩ := Pc.eq_done h
  rfl

/-- The handler has swapped the state to armed, and has not stored its trigger's handle. -/
def Pc.arms : Pc → Bool
  | .save (.schedule _ _) _ _ | .spawn _ _ _ | .store _ _ _ _ => true
  | _ => false

/-- What the handler that `act` advances does next. -/
def Sys.next (s : Sys) : Act → Option Pc
  | .advance i _ => s.handlers[i]?.map Handler.pc
  | _ => none

/-- No handler takes the handle of a trigger that is past its sleep. -/
def abortsInTime (s : Sys) (act : Act) : Bool :=
  match s.next act with
  | some (.takeTrigger _) => s.control.pendingTask.all fun task => !task.phase.isRunning
  | _ => true

/-- No handler stores its handle over that of a live trigger. -/
def storesOverEnded (s : Sys) (act : Act) : Bool :=
  match s.next act with
  | some (.store _ _ _ _) => s.control.pendingTask.all fun task => !task.phase.isLive
  | _ => true

/-- No handler swaps the state to disarmed while a live trigger's handle is held, or another
handler is between its swap to armed and the storing of its handle. -/
def disarmsAlone (s : Sys) (act : Act) : Bool :=
  match s.next act with
  | some (.swap .disarm) =>
    (s.control.pendingTask.all fun task => !task.phase.isLive) && s.handlers.all fun hd => !hd.pc.arms
  | _ => true

/-- The steps that lose no handle. -/
def KeepsHandles (s : Sys) (act : Act) : Prop := abortsInTime s act = true ∧ storesOverEnded s act = true

instance (s : Sys) (act : Act) : Decidable (KeepsHandles s act) := inferInstanceAs (Decidable (_ ∧ _))

/-- No live trigger has lost its handle. -/
def Held (s : Sys) : Prop :=
  ∀ n, s.control.Live n → s.control.triggerTask = some n ∨ ∃ hd ∈ s.handlers, hd.pc.handle = some n

variable {s t : Sys} {act : Act} {i : ℕ} {f : Faults} {request : Request} {pc pc' : Pc} {control : Control}

theorem next_advance (hi : s.handlers[i]? = some ⟨request, pc⟩) : s.next (.advance i f) = some pc := by
  rw [Sys.next, hi]
  rfl

theorem live_set_of_ran {c : Control} {n m : ℕ} {task : Task} {phase : Phase} (hm : c.tasks[m]? = some task)
    (hlive : task.phase.isLive = true) {player : List PlayerCommand}
    (h : Control.Live { c with tasks := c.tasks.set m { task with phase := phase }, player := player } n) :
    c.Live n := by
  obtain ⟨task', ht, hl⟩ := h
  rcases Pool.of_set ht with ⟨rfl, -⟩ | ⟨-, ht⟩
  · exact ⟨task, hm, hlive⟩
  · exact ⟨task', ht, hl⟩

theorem not_live_endTasks {c : Control} {n : ℕ} {tasks : List Task} (hc : c.tasks = endTasks tasks) :
    ¬ c.Live n := by
  rintro ⟨task, ht, hl⟩
  rw [hc, endTasks, List.getElem?_map, Option.map_eq_some_iff] at ht
  obtain ⟨task', -, rfl⟩ := ht
  cases hl

/-- A handler that has no handle, and leaves tasks and handle alone, changes nothing of this. -/
theorem Held.frame (h : Held s) (hi : s.handlers[i]? = some ⟨request, pc⟩) (hp : pc.handle = none)
    (ht : control.tasks = s.control.tasks) (hc : control.triggerTask = s.control.triggerTask) :
    Held { s with control := control, handlers := s.handlers.set i ⟨request, pc'⟩ } := by
  rintro n ⟨task, hn, hl⟩
  rw [ht] at hn
  rcases h n ⟨task, hn, hl⟩ with hs | ⟨hd, hm, hh⟩
  · exact .inl (hc.trans hs)
  · refine .inr ⟨hd, Pool.mem_set_of_ne hi hm ?_, hh⟩
    rintro rfl
    rw [hp] at hh
    cases hh

theorem Held.moved (h : Held s) (hi : s.handlers[i]? = some ⟨request, pc⟩)
    (hm : Moved s.host request s.control pc control pc') (hkeep : KeepsHandles s (.advance i f)) :
    Held { s with control := control, handlers := s.handlers.set i ⟨request, pc'⟩ } := by
  obtain ⟨habort, hstore⟩ := hkeep
  cases hm with
  | rejected | accepted | stopped | kept | swapped | saved => exact h.frame hi rfl rfl rfl
  | announced => exact h.frame hi rfl (by split <;> simp) (by split <;> simp)
  | taken =>
    simp only [abortsInTime, next_advance hi] at habort
    intro n hl
    -- the trigger whose handle was taken has ended, so a live one is still with its handler
    rcases h n hl.of_takeTrigger with hs | ⟨hd, hm, hh⟩
    · exact absurd hl (Control.not_live_takeTrigger habort hs)
    · refine .inr ⟨hd, Pool.mem_set_of_ne hi hm ?_, hh⟩
      rintro rfl
      cases hh
  | spawned =>
    rintro n ⟨task, hn, hl⟩
    rcases Pool.of_add hn with ⟨rfl, -⟩ | hn
    · exact .inr ⟨_, Pool.mem_set_self hi, rfl⟩
    · rcases h n ⟨task, hn, hl⟩ with hs | ⟨hd, hm, hh⟩
      · exact .inl hs
      · refine .inr ⟨hd, Pool.mem_set_of_ne hi hm ?_, hh⟩
        rintro rfl
        cases hh
  | @stored sch announces transition handle =>
    simp only [storesOverEnded, next_advance hi] at hstore
    intro n hl
    have hl' : s.control.Live n := hl
    rcases h n hl' with hs | ⟨hd, hm, hh⟩
    · exact absurd hl' (Control.not_live_of_pendingTask hstore hs)
    · by_cases hd' : hd = ⟨request, .store sch announces transition handle⟩
      · subst hd'
        exact .inl hh
      · exact .inr ⟨hd, Pool.mem_set_of_ne hi hm hd', hh⟩

/-- The steps that lose no handle keep every live trigger within reach. -/
theorem Held.step (h : Held s) (hkeep : KeepsHandles s act) (hs : step s act = some t) : Held t := by
  cases stepped_of_step hs with
  | requested r =>
    intro n hl
    rcases h n hl with hc | ⟨hd, hm, hh⟩
    · exact .inl hc
    · exact .inr ⟨hd, List.mem_append_left _ hm, hh⟩
  | advanced hi hm => exact h.moved hi hm hkeep
  | ran ha hi hlive hwake hphase => exact fun n hl => h n (live_set_of_ran hi hlive hl)
  | ticked ms wall => exact h
  | refiled fs => exact h
  | restarted ha hd => exact fun n hl => absurd hl (not_live_endTasks rfl)

theorem not_live_fresh (host : Host) (env : Env) (daemon : AlarmDaemon) (n : ℕ) :
    ¬ (fresh host env daemon).control.Live n := by
  rintro ⟨task, ht, -⟩
  cases ht

theorem held_fresh (host : Host) (env : Env) (daemon : AlarmDaemon) : Held (fresh host env daemon) :=
  fun n hl => absurd hl (not_live_fresh host env daemon n)

theorem held_of_run {host : Host} {env : Env} {daemon : AlarmDaemon} {as : List Act}
    (h : Machine.Run step KeepsHandles (fresh host env daemon) as s) : Held s :=
  h.invariant (I := Held) (fun _ _ _ hI hok hs => hI.step hok hs) (held_fresh host env daemon)

/-! ### A disarmed daemon is quiet -/

/-- When the daemon is disarmed, no trigger is live and none is on its way. -/
def Quiet (s : Sys) : Prop :=
  s.control.daemon.inner.status = .disarmed → (∀ n, ¬ s.control.Live n) ∧ ∀ hd ∈ s.handlers, hd.pc.arms = false

/-- A handler that changes neither the state nor the tasks and has no trigger on its way changes
nothing of this. -/
theorem Quiet.frame (h : Quiet s) (hp : pc'.arms = false) (hd : control.daemon.inner = s.control.daemon.inner)
    (ht : ∀ n, control.Live n → s.control.Live n) :
    Quiet { s with control := control, handlers := s.handlers.set i ⟨request, pc'⟩ } := by
  intro hdis
  obtain ⟨hl, ha⟩ := h (hd ▸ hdis)
  exact ⟨fun n hn => hl n (ht n hn), Pool.forall_set ha hp⟩

/-- While a handler has a trigger on its way, the daemon is armed. -/
theorem Quiet.armed (h : Quiet s) (hi : s.handlers[i]? = some ⟨request, pc⟩) (hp : pc.arms = true) :
    s.control.daemon.inner.status ≠ .disarmed := by
  intro hdis
  have := (h hdis).2 _ (List.mem_of_getElem? hi)
  rw [hp] at this
  cases this

theorem Quiet.moved (h : Quiet s) (hheld : Held s) (hi : s.handlers[i]? = some ⟨request, pc⟩)
    (hm : Moved s.host request s.control pc control pc') (halone : disarmsAlone s (.advance i f) = true) :
    Quiet { s with control := control, handlers := s.handlers.set i ⟨request, pc'⟩ } := by
  cases hm with
  | rejected | accepted | stopped => exact h.frame rfl rfl fun _ hn => hn
  | taken => exact h.frame rfl (by simp) fun _ hn => hn.of_takeTrigger
  | announced =>
    refine h.frame rfl (by split <;> simp) fun n hn => ?_
    obtain ⟨task, ht, hl⟩ := hn
    exact ⟨task, by split at ht <;> simpa using ht, hl⟩
  | @kept job hd =>
    cases job with
    | schedule sch announces => intro hdis; rw [hd] at hdis; cases hdis
    | disarm => exact h.frame rfl rfl fun _ hn => hn
  | @swapped job hd =>
    cases job with
    | schedule sch announces => intro hdis; cases hdis
    | disarm =>
      simp only [disarmsAlone, next_advance hi, Bool.and_eq_true] at halone
      obtain ⟨hpend, harms⟩ := halone
      have harms' : ∀ hd ∈ s.handlers, hd.pc.arms = false := by simpa using harms
      refine fun _ => ⟨fun n hl => ?_, Pool.forall_set harms' rfl⟩
      -- a live trigger is pending, or with a handler that has yet to store its handle
      rcases hheld n hl with hc | ⟨hd, hm, hh⟩
      · exact Control.not_live_of_pendingTask hpend hc hl
      · have := harms' hd hm
        cases hpc : hd.pc <;> simp [hpc, Pc.handle, Pc.arms] at hh this
  | @saved job snapshot transition f' =>
    cases job with
    | schedule sch announces => exact fun hdis => absurd hdis (h.armed hi rfl)
    | disarm => exact h.frame rfl rfl fun _ hn => hn
  | spawned => exact fun hdis => absurd hdis (h.armed hi rfl)
  | stored => exact fun hdis => absurd hdis (h.armed hi rfl)

theorem Quiet.step (h : Quiet s) (hheld : Held s) (halone : disarmsAlone s act = true)
    (hs : step s act = some t) : Quiet t := by
  cases stepped_of_step hs with
  | requested r =>
    intro hdis
    obtain ⟨hl, ha⟩ := h hdis
    exact ⟨hl, Pool.forall_add ha rfl⟩
  | advanced hi hm => exact h.moved hheld hi hm halone
  | ran ha hi hlive hwake hphase =>
    intro hdis
    obtain ⟨hl, ha⟩ := h hdis
    exact ⟨fun n hn => hl n (live_set_of_ran hi hlive hn), ha⟩
  | ticked ms wall => exact h
  | refiled fs => exact h
  | restarted ha hd => exact fun _ => ⟨fun n hl => not_live_endTasks rfl hl, by simp⟩

/-- The steps in which no trigger escapes its handler, its handle, or a disarm. -/
def Orderly (s : Sys) (act : Act) : Prop := KeepsHandles s act ∧ disarmsAlone s act = true

instance (s : Sys) (act : Act) : Decidable (Orderly s act) := inferInstanceAs (Decidable (_ ∧ _))

/-- In a run of orderly steps, whenever the daemon is disarmed no trigger is live: not even
while calls are in progress. -/
theorem no_live_of_disarmed {host : Host} {env : Env} {daemon : AlarmDaemon} {as : List Act}
    (h : Machine.Run step Orderly (fresh host env daemon) as s) (hdis : s.control.status = false) (n : ℕ) :
    ¬ s.control.Live n := by
  have hquiet : Quiet (fresh host env daemon) := fun _ => ⟨not_live_fresh host env daemon, by simp [fresh]⟩
  obtain ⟨-, hq⟩ := h.invariant (I := fun s => Held s ∧ Quiet s)
    (fun s a t hI hok hs => ⟨hI.1.step hok.1 hs, hI.2.step hI.1 hok.2 hs⟩)
    ⟨held_fresh host env daemon, hquiet⟩
  refine (hq ?_).1 n
  unfold Control.status AlarmDaemon.status at hdis
  cases hst : s.control.daemon.inner.status with
  | disarmed => rfl
  | armed => rw [hst] at hdis; cases hdis

/-- An Arm, then a Disarm. -/
def armThenDisarm : List Act := arming ++ .request .disarm :: advances 1 6

theorem no_live_of_disarmed_arm_then_disarm :
    ∃ s, Machine.Run step Orderly hornProcess armThenDisarm s ∧ s.control.status = false ∧ ¬ s.control.Live 0 := by
  obtain ⟨s, hrun, hdis⟩ : ∃ s, Machine.Run step Orderly hornProcess armThenDisarm s ∧ s.control.status = false :=
    Machine.Run.exists_of_execIf (by decide)
  exact ⟨s, hrun, hdis, no_live_of_disarmed hrun hdis 0⟩

/-- An Arm from its start to its end between the cancelling and the swap of a Disarm. -/
def armWithinDisarm : List Act :=
  [.request (.arm "builtin:horn"), .request .disarm] ++ advances 1 3 ++ advances 0 8 ++ advances 1 3

/-- Both calls have returned and the daemon is disarmed, and the trigger of the Arm is live. -/
theorem disarmed_with_live_trigger :
    ∃ s, Machine.Run step Machine.anyStep hornProcess armWithinDisarm s ∧ AllDone s ∧
      s.control.status = false ∧ s.control.Live 0 :=
  Machine.Run.exists_of_execIf (by decide)

end HelmAlarm.Ipc
