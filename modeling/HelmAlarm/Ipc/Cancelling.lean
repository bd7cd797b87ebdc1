import HelmAlarm.Ipc.Triggers

/-!
# Cancelling, one call at a time

Calls that are made one after the other, while the trigger tasks run on other
workers. `cancel_pending` aborts the pending trigger and then stops the player.
The abort ends a task that sleeps; a task that is past its sleep runs on, and if
it comes to its `play` only after the stop, the sound of a cancelled alarm
starts. When no task is past its sleep at the stop, none of those that were there
plays any more: `play_after_cancel`.
-/

namespace HelmAlarm.Ipc

open HelmAlarm.Library HelmAlarm.Daemon HelmAlarm.Audio

/-- The handler is between the taking of the handle and the storing of its own. -/
def Pc.cancelled : Pc → Bool
  | .stopPlayer _ | .swap _ | .save _ _ _ | .spawn _ _ _ | .store _ _ _ _ => true
  | _ => false

/-- A call is made only when the others have returned. -/
def oneAtATime (s : Sys) : Act → Bool
  | .request _ => s.handlers.all fun hd => hd.pc.isDone
  | _ => true

/-- `cancel_pending` stops the player when no trigger is past its sleep. -/
def stopsInTime (s : Sys) (act : Act) : Bool :=
  match s.next act with
  | some (.stopPlayer _) => s.control.tasks.all fun task => !task.phase.isRunning
  | _ => true

/-- The steps of a run in which calls are made one at a time and cancel in time. -/
def InTurn (s : Sys) (act : Act) : Prop := oneAtATime s act = true ∧ stopsInTime s act = true

instance (s : Sys) (act : Act) : Decidable (InTurn s act) := inferInstanceAs (Decidable (_ ∧ _))

/-- What holds when calls are made one at a time: every sleeping trigger can be aborted by the
next call. -/
structure Settled (s : Sys) : Prop where
  /-- At most one call is in progress. -/
  single : Pool.AtMostOne (fun hd : Handler => hd.pc.isDone = false) s.handlers
  /-- A sleeping trigger's handle is held, or about to be stored. -/
  sleeping : ∀ n task, s.control.tasks[n]? = some task → task.phase = .sleeping →
    s.control.triggerTask = some n ∨ ∃ hd ∈ s.handlers, hd.pc.handle = some n
  /-- A call that took the handle has left none. -/
  taken : ∀ hd ∈ s.handlers, hd.pc.cancelled = true → s.control.triggerTask = none

variable {s t : Sys} {act : Act} {i : ℕ} {f : Faults} {request : Request} {pc pc' : Pc} {control : Control}

theorem Pc.not_cancelled_of_done {pc : Pc} (h : pc.isDone = true) : pc.cancelled = false := by
  obtain ⟨reply, rfl⟩ := Pc.eq_done h
  rfl

/-- A trigger that sleeps keeps who holds its handle, when a call moves that has none. -/
theorem Settled.owner (h : Settled s) (hi : s.handlers[i]? = some ⟨request, pc⟩) (hp : pc.handle = none) {n : ℕ}
    {task : Task} (hn : s.control.tasks[n]? = some task) (hs : task.phase = .sleeping) :
    s.control.triggerTask = some n ∨ ∃ hd ∈ s.handlers.set i ⟨request, pc'⟩, hd.pc.handle = some n := by
  rcases h.sleeping n task hn hs with hc | ⟨hd, hm, hh⟩
  · exact .inl hc
  · refine .inr ⟨hd, Pool.mem_set_of_ne hi hm ?_, hh⟩
    rintro rfl
    rw [hp] at hh
    cases hh

/-- The call in progress moves, without touching tasks or handle. -/
theorem Settled.frame (h : Settled s) (hi : s.handlers[i]? = some ⟨request, pc⟩) (hn : pc.isDone = false)
    (hp : pc.handle = none) (ht : control.tasks = s.control.tasks)
    (hc : control.triggerTask = s.control.triggerTask) (hp' : pc'.cancelled = true → pc.cancelled = true) :
    Settled { s with control := control, handlers := s.handlers.set i ⟨request, pc'⟩ } where
  single := h.single.set hi hn
  sleeping := by
    intro n task hn' hs
    simp only [ht] at hn'
    exact (h.owner hi hp hn' hs).imp_left hc.trans
  taken := by
    intro hd hm hcan
    simp only [hc]
    rcases List.mem_or_eq_of_mem_set hm with hm | rfl
    · exact h.taken hd hm hcan
    · exact h.taken _ (List.mem_of_getElem? hi) (hp' hcan)

theorem Settled.moved (h : Settled s) (hi : s.handlers[i]? = some ⟨request, pc⟩)
    (hm : Moved s.host request s.control pc control pc') :
    Settled { s with control := control, handlers := s.handlers.set i ⟨request, pc'⟩ } := by
  -- the other calls have returned
  have hothers : ∀ hd ∈ s.handlers, pc.isDone = false → hd = ⟨request, pc⟩ ∨ hd.pc.isDone = true := by
    intro hd hm hn
    simpa using h.single.eq_or hi hn hm
  cases hm with
  | rejected | accepted | stopped | swapped => exact h.frame hi rfl rfl rfl rfl (by simp [Pc.cancelled])
  | announced => exact h.frame hi rfl rfl (by split <;> simp) (by split <;> simp) (by simp [Pc.cancelled])
  | kept => exact h.frame hi rfl rfl rfl rfl fun _ => rfl
  | saved => exact h.frame hi rfl rfl rfl rfl fun _ => rfl
  | taken =>
    refine ⟨h.single.set hi rfl, ?_, fun _ _ _ => Control.triggerTask_takeTrigger⟩
    intro n task hn hs
    simp only [Control.tasks_takeTrigger] at hn
    split at hn
    · -- the pending trigger was aborted, and does not sleep any more
      obtain ⟨task', -, rfl⟩ := Option.map_eq_some_iff.mp hn
      unfold Task.abort at hs
      split at hs
      · cases hs
      · contradiction
    · rename_i hne
      exact .inr ((h.owner hi rfl hn hs).resolve_left hne)
  | spawned =>
    have hnone := h.taken _ (List.mem_of_getElem? hi) rfl
    refine ⟨h.single.set hi rfl, ?_, fun _ _ _ => hnone⟩
    intro n task hn hs
    rcases Pool.of_add hn with ⟨rfl, -⟩ | hn
    · exact .inr ⟨_, Pool.mem_set_self hi, rfl⟩
    · exact h.owner hi rfl hn hs
  | @stored sch announces transition handle =>
    have hnone := h.taken _ (List.mem_of_getElem? hi) rfl
    refine ⟨h.single.set hi rfl, ?_, ?_⟩
    · intro n task hn hs
      rcases h.sleeping n task hn hs with hc | ⟨hd, hm, hh⟩
      · rw [hnone] at hc
        cases hc
      · rcases hothers hd hm rfl with rfl | hdone
        · exact .inl hh
        · rw [Pc.handle_of_done hdone] at hh
          cases hh
    · refine h.single.forall_set hi rfl (by simp [Pc.cancelled]) fun hd _ hdone hcan => ?_
      rw [Pc.not_cancelled_of_done (by simpa using hdone)] at hcan
      cases hcan

theorem Settled.step (h : Settled s) (hone : oneAtATime s act = true) (hs : step s act = some t) : Settled t := by
  cases stepped_of_step hs with
  | requested r =>
    have hall : ∀ hd ∈ s.handlers, hd.pc.isDone = true := by simpa [oneAtATime] using hone
    refine ⟨.add fun hd hm => by simp [hall hd hm], ?_, ?_⟩
    · intro n task hn hs
      rcases h.sleeping n task hn hs with hc | ⟨hd, hm, hh⟩
      · exact .inl hc
      · exact .inr ⟨hd, List.mem_append_left _ hm, hh⟩
    · exact Pool.forall_add h.taken (by simp [Pc.cancelled])
  | advanced hi hm => exact h.moved hi hm
  | ran ha hi hlive hwake hphase =>
    refine ⟨h.single, ?_, h.taken⟩
    intro n task hn hs
    rcases Pool.of_set hn with ⟨-, rfl⟩ | ⟨-, hn⟩
    · exact absurd hs hphase
    · exact h.sleeping n task hn hs
  | ticked ms wall => exact ⟨h.single, h.sleeping, h.taken⟩
  | refiled fs => exact ⟨h.single, h.sleeping, h.taken⟩
  | restarted ha hd =>
    refine ⟨Pool.atMostOne_nil, ?_, by simp⟩
    intro n task hn hs
    exact absurd ⟨task, hn, by rw [hs]; rfl⟩ (not_live_endTasks rfl)

theorem settled_fresh (host : Host) (env : Env) (daemon : AlarmDaemon) : Settled (fresh host env daemon) :=
  ⟨Pool.atMostOne_nil, by simp [fresh, Control.new], by simp [fresh]⟩

/-- A stop of the player that comes when no trigger is past its sleep leaves none live. -/
theorem Settled.no_live_of_stop {job : Job} (h : Settled s)
    (hi : s.handlers[i]? = some ⟨request, .stopPlayer job⟩)
    (hstop : stopsInTime s (.advance i f) = true) (n : ℕ) : ¬ s.control.Live n := by
  rintro ⟨task, hn, hl⟩
  simp only [stopsInTime, next_advance hi, List.all_eq_true] at hstop
  have hrun := hstop task (List.mem_of_getElem? hn)
  have hsleep : task.phase = .sleeping := by
    cases hp : task.phase <;> simp [hp, Phase.isRunning, Phase.isLive] at hrun hl ⊢
  rcases h.sleeping n task hn hsleep with hc | ⟨hd, hm, hh⟩
  · rw [h.taken _ (List.mem_of_getElem? hi) rfl] at hc
    cases hc
  · rcases h.single.eq_or hi rfl hm with rfl | hdone
    · cases hh
    · rw [Pc.handle_of_done (by simpa using hdone)] at hh
      cases hh

/-! ### After the stop -/

/-- No trigger is dropped from the list. -/
theorem length_tasks_le (hs : step s act = some t) : s.control.tasks.length ≤ t.control.tasks.length := by
  cases stepped_of_step hs with
  | requested r => exact le_rfl
  | advanced hi hm =>
    cases hm with
    | taken => simp
    | spawned => simp
    | announced => simp only; split <;> simp
    | _ => exact le_rfl
  | ran ha hi hlive hwake hphase => simp
  | ticked ms wall => exact le_rfl
  | refiled fs => exact le_rfl
  | restarted ha hd => simp [endTasks]

/-- A trigger that has ended stays ended. -/
theorem not_live_step {n : ℕ} (hn : n < s.control.tasks.length) (hl : ¬ s.control.Live n)
    (hs : step s act = some t) : ¬ t.control.Live n := by
  cases stepped_of_step hs with
  | requested r => exact hl
  | advanced hi hm =>
    cases hm with
    | taken => exact fun h => hl h.of_takeTrigger
    | spawned =>
      rintro ⟨task, ht, hlive⟩
      rcases Pool.of_add ht with ⟨rfl, -⟩ | ht
      · exact lt_irrefl _ hn
      · exact hl ⟨task, ht, hlive⟩
    | announced =>
      rintro ⟨task, ht, hlive⟩
      refine hl ⟨task, ?_, hlive⟩
      split at ht <;> simpa using ht
    | _ => exact hl
  | ran ha hi hlive hwake hphase => exact fun h => hl (live_set_of_ran hi hlive h)
  | ticked ms wall => exact hl
  | refiled fs => exact hl
  | restarted ha hd => exact not_live_endTasks rfl

theorem not_live_after_stop {job : Job} (h : Settled s) (hnext : s.next (.advance i f) = some (.stopPlayer job))
    (hstop : stopsInTime s (.advance i f) = true) (hs : step s (.advance i f) = some t) (n : ℕ) :
    ¬ t.control.Live n := by
  obtain ⟨⟨request, pc⟩, hi, rfl⟩ := Option.map_eq_some_iff.mp hnext
  cases stepped_of_step hs with
  | advanced hi' hm =>
    obtain ⟨rfl, rfl⟩ := Handler.mk.inj (Option.some.inj (hi.symm.trans hi'))
    cases hm with
    | stopped => exact h.no_live_of_stop hi hstop n
  | ran ha => cases ha

/-- When no trigger is live, only those that are spawned from then on play. -/
theorem play_of_not_live {ok : Sys → Act → Prop} {bs : List Act} {u : Sys} (hdead : ∀ n, ¬ t.control.Live n)
    (h : Machine.Run step ok t bs u) :
    (∀ n < t.control.tasks.length, ¬ u.control.Live n) ∧ t.control.tasks.length ≤ u.control.tasks.length ∧
      ∀ n, .play n ∈ bs → t.control.tasks.length ≤ n ∧ n < u.control.tasks.length := by
  refine h.invariant_trace (P := fun bs u => (∀ n < t.control.tasks.length, ¬ u.control.Live n) ∧
    t.control.tasks.length ≤ u.control.tasks.length ∧
      ∀ n, .play n ∈ bs → t.control.tasks.length ≤ n ∧ n < u.control.tasks.length)
    ⟨fun n _ => hdead n, le_rfl, by simp⟩ ?_
  rintro bs v act w ⟨hended, hlen, hplays⟩ - hs
  have hlen' := length_tasks_le hs
  refine ⟨fun n hn => not_live_step (by omega) (hended n hn) hs, by omega, fun n hn => ?_⟩
  rcases List.mem_append.mp hn with hn | hn
  · have := hplays n hn
    omega
  · -- the task that plays is live, so it is none of those that were there at the start
    obtain rfl := List.mem_singleton.mp hn
    obtain ⟨sch, deadline, sound, hget, -⟩ := step_play hs
    have hlt := (List.getElem?_eq_some_iff.mp hget).1
    exact ⟨not_lt.mp fun hlt' => hended n hlt' ⟨_, hget, rfl⟩, by omega⟩

/-- Once the `cancel_pending` of a call has returned, a trigger that plays was spawned later, by
an Arm or Snooze that succeeded since. The step of handler `i` is the end of `cancel_pending`, in
a run of calls made one at a time that cancel in time, and `bs` is the rest of the run. -/
theorem play_after_cancel {host : Host} {env : Env} {daemon : AlarmDaemon} {as bs : List Act} {u : Sys} {job : Job}
    (h : Machine.Run step InTurn (fresh host env daemon) as s)
    (hnext : s.next (.advance i f) = some (.stopPlayer job)) (hok : InTurn s (.advance i f))
    (hs : step s (.advance i f) = some t) (h' : Machine.Run step InTurn t bs u) (n : ℕ) (hplay : .play n ∈ bs) :
    t.control.tasks.length ≤ n ∧ n < u.control.tasks.length := by
  have hset := h.invariant (I := Settled) (fun s a t hI hok hs => hI.step hok.1 hs)
    (settled_fresh host env daemon)
  have hdead : ∀ n, ¬ t.control.Live n := not_live_after_stop hset hnext hok.2 hs
  obtain ⟨-, -, hplays⟩ := play_of_not_live hdead h'
  exact hplays n hplay

/-- An Arm, and a Disarm up to the stop of the player. -/
def armThenCancel : List Act := arming ++ .request .disarm :: advances 1 2

/-- The rest of the Disarm, and an Arm whose trigger plays. -/
def rearmThenPlay : List Act :=
  advances 1 3 ++ .request (.arm "builtin:horn") :: advances 2 8 ++
    [.tick 3000 hornTime, .wake 1, .decode 1, .play 1]

theorem play_after_cancel_rearmed :
    ∃ s t u, Machine.Run step InTurn hornProcess armThenCancel s ∧ step s (.advance 1 .none) = some t ∧
      Machine.Run step InTurn t rearmThenPlay u ∧ t.control.tasks.length ≤ 1 ∧ 1 < u.control.tasks.length := by
  obtain ⟨u, hrun, -⟩ : ∃ u, Machine.Run step InTurn hornProcess
      (armThenCancel ++ .advance 1 .none :: rearmThenPlay) u ∧ True := Machine.Run.exists_of_execIf (by decide)
  obtain ⟨s, h, h'⟩ := hrun.of_append
  have hnext := h.ends (P := fun s => s.next (.advance 1 .none) = some (.stopPlayer .disarm)) (by decide)
  cases h' with
  | @cons _ t _ _ _ hok hs h' =>
    exact ⟨s, t, u, h, hs, h', play_after_cancel h hnext hok hs h' 1 (by simp [rearmThenPlay])⟩

/-- An Arm whose trigger wakes, and a Disarm from its start to its end. -/
def disarmWhileWoken : List Act :=
  arming ++ [.tick 3000 hornTime, .wake 0] ++ .request .disarm :: advances 1 6

/-- The Disarm has returned, and then the sound of the cancelled alarm starts. -/
theorem plays_after_disarm :
    ∃ s u, Machine.Run step (fun s act => oneAtATime s act = true) hornProcess disarmWhileWoken s ∧ AllDone s ∧
      s.control.status = false ∧
      Machine.Run step (fun s act => oneAtATime s act = true) s [.decode 0, .play 0] u ∧
      u.control.player = [.stop, .stop, .play hornSound .alarm] := by
  obtain ⟨u, hrun, hplay⟩ : ∃ u, Machine.Run step (fun s act => oneAtATime s act = true) hornProcess
      (disarmWhileWoken ++ [.decode 0, .play 0]) u ∧ u.control.player = [.stop, .stop, .play hornSound .alarm] :=
    Machine.Run.exists_of_execIf (by decide)
  obtain ⟨s, h, h'⟩ := hrun.of_append
  have hdone := h.ends (P := fun s => AllDone s ∧ s.control.status = false) (by decide)
  exact ⟨s, u, h, hdone.1, hdone.2, h', hplay⟩

end HelmAlarm.Ipc
