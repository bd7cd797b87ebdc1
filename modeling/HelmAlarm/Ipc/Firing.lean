import HelmAlarm.Ipc.Triggers
import Mathlib.Data.List.Forall2
import Mathlib.Data.List.Nodup

/-!
# What is played, and why

Whatever the interleaving of calls, trigger tasks, clocks and restarts, each sound
the player is told to play is the alarm of a call: an Arm or Snooze was accepted
with the schedule of the task that plays it, at least the delay of that schedule
earlier; the sound is what the task's file held when the task decoded it; and no
task plays twice. The Plays of the process are those of its tasks, in the order in
which they came to them: `plays_are_due`.
-/

namespace HelmAlarm.Ipc

open HelmAlarm.Library HelmAlarm.Daemon HelmAlarm.Audio

variable {start s t : Sys} {act : Act} {as : List Act} {i n : ℕ} {f : Faults} {request : Request} {pc pc' : Pc}
  {control : Control} {sch : Schedule} {mono : ℕ}

/-! ### What a run has seen -/

/-- The tasks that have played since the process was last started, in order. -/
def rang (played : List ℕ) : Act → List ℕ
  | .play n => played ++ [n]
  | .restart _ => []
  | _ => played

/-- What the player was told to play. -/
def Control.plays (c : Control) : List PlayerCommand := c.player.filter (· ≠ .stop)

/-- The schedule a call was accepted with. -/
def Pc.accepted : Pc → Option Schedule
  | .takeTrigger (.schedule sch _) | .stopPlayer (.schedule sch _) | .swap (.schedule sch _)
  | .save (.schedule sch _) _ _ | .spawn sch _ _ | .store sch _ _ _ => some sch
  | _ => none

/-- In the run by `as`, an Arm or Snooze was accepted with this schedule, at the time `mono`. -/
def Asked (start : Sys) (as : List Act) (sch : Schedule) (mono : ℕ) : Prop :=
  ∃ s i f t request announces, Machine.Passes step start as s (.advance i f) t ∧
    s.handlers[i]? = some ⟨request, .begin⟩ ∧ s.control.begin s.host request = .ok (.schedule sch announces) ∧
    s.host.mono = mono

/-- In the run by `as`, task `n` decoded its file, at `path`, to this sound. -/
def Heard (start : Sys) (as : List Act) (n : ℕ) (path : String) (sound : DecodedSound) : Prop :=
  ∃ s t, Machine.Passes step start as s (.decode n) t ∧ s.host.fs.fromPath path = some sound

theorem Asked.append (h : Asked start as sch mono) (bs : List Act) : Asked start (as ++ bs) sch mono := by
  obtain ⟨s, i, f, t, request, announces, hp, hrest⟩ := h
  exact ⟨s, i, f, t, request, announces, hp.append bs, hrest⟩

theorem Heard.append {path : String} {sound : DecodedSound} (h : Heard start as n path sound) (bs : List Act) :
    Heard start (as ++ bs) n path sound := by
  obtain ⟨s, t, hp, hsound⟩ := h
  exact ⟨s, t, hp.append bs, hsound⟩

/-! ### The provenance of a Play -/

/-- The command is the alarm of task `n`, which has ended. -/
def Rang (start : Sys) (as : List Act) (s : Sys) (command : PlayerCommand) (n : ℕ) : Prop :=
  ∃ task sound mono, s.control.tasks[n]? = some task ∧ task.phase = .finished ∧ command = .play sound .alarm ∧
    Heard start as n task.schedule.soundPath sound ∧ Asked start as task.schedule mono ∧
    mono + task.schedule.delay ≤ s.host.mono

/-- What a task that stands here is known to have done. -/
structure Task.Due (start : Sys) (as : List Act) (now n : ℕ) (task : Task) : Prop where
  /-- It was asked for, at least its delay before its deadline. -/
  asked : ∃ mono, Asked start as task.schedule mono ∧ mono + task.schedule.delay ≤ task.deadline
  /-- It runs only past its deadline. -/
  running : task.phase.isRunning = true → task.deadline ≤ now
  /-- It decoded what it is about to play. -/
  decoded : ∀ sound, task.phase = .decoded sound → Heard start as n task.schedule.soundPath sound

/-- What holds after the actions `as`. -/
structure Provenance (start : Sys) (as : List Act) (s : Sys) : Prop where
  /-- An accepted call was. -/
  asked : ∀ hd ∈ s.handlers, ∀ sch, hd.pc.accepted = some sch → ∃ mono ≤ s.host.mono, Asked start as sch mono
  /-- Every task is due when it runs. -/
  due : ∀ n (task : Task), s.control.tasks[n]? = some task → task.Due start as s.host.mono n
  /-- The Plays are those of the tasks that have played. -/
  plays : List.Forall₂ (Rang start as s) s.control.plays (as.foldl rang [])
  /-- None has played twice. -/
  once : (as.foldl rang []).Nodup

/-! ### What a step keeps -/

/-- An abort changes where a task stands, and does not bring back one that has ended. -/
theorem Task.abort_eq (task : Task) :
    ∃ phase, task.abort = { task with phase := phase } ∧ (task.phase = .finished → phase = .finished) := by
  unfold Task.abort
  split
  · exact ⟨.finished, rfl, fun _ => rfl⟩
  · exact ⟨task.phase, rfl, id⟩

/-- A step keeps the schedule of a task, and one that has ended stays so. -/
theorem Stepped.task {task : Task} (h : Stepped s act t) (hn : s.control.tasks[n]? = some task) :
    ∃ phase, t.control.tasks[n]? = some { task with phase := phase } ∧
      (task.phase = .finished → phase = .finished) := by
  cases h with
  | advanced hi hm =>
    cases hm with
    | taken =>
      simp only [Control.tasks_takeTrigger, hn, Option.map_some]
      split
      · obtain ⟨phase, habort, hphase⟩ := task.abort_eq
        exact ⟨phase, congrArg some habort, hphase⟩
      · exact ⟨task.phase, rfl, id⟩
    | spawned => exact ⟨task.phase, Pool.add_of_some hn, id⟩
    | announced =>
      refine ⟨task.phase, ?_, id⟩
      simp only
      split <;> simpa using hn
    | _ => exact ⟨task.phase, hn, id⟩
  | @ran _ m task' phase player ha hm hlive hwake hphase =>
    by_cases hnm : n = m
    · subst hnm
      obtain rfl := Option.some.inj (hn.symm.trans hm)
      refine ⟨phase, Pool.set_self hn, fun hf => ?_⟩
      rw [hf] at hlive
      cases hlive
    · exact ⟨task.phase, (Pool.set_of_ne hnm).trans hn, id⟩
  | restarted ha hd =>
    refine ⟨.finished, ?_, fun _ => rfl⟩
    simp only [endTasks, List.getElem?_map, hn, Option.map_some]
  | _ => exact ⟨task.phase, hn, id⟩

/-- A run keeps the schedule and the deadline of a task, over every restart. -/
theorem task_of_run {ok : Sys → Act → Prop} {task : Task} (h : Machine.Run step ok s as t)
    (hn : s.control.tasks[n]? = some task) :
    ∃ task', t.control.tasks[n]? = some task' ∧ task'.schedule = task.schedule ∧ task'.deadline = task.deadline := by
  refine h.invariant (I := fun u => ∃ task', u.control.tasks[n]? = some task' ∧ task'.schedule = task.schedule ∧
    task'.deadline = task.deadline) ?_ ⟨task, hn, rfl, rfl⟩
  intro s act t hI _ hs
  obtain ⟨task', hn', hschedule, hdeadline⟩ := hI
  obtain ⟨phase, hn'', -⟩ := (stepped_of_step hs).task hn'
  exact ⟨_, hn'', hschedule, hdeadline⟩

/-- Time does not go back. -/
theorem Stepped.mono_le (h : Stepped s act t) : s.host.mono ≤ t.host.mono := by
  cases h with
  | ticked ms wall => exact Nat.le_add_right _ _
  | _ => exact le_rfl

theorem Rang.stepped {command : PlayerCommand} (h : Rang start as s command n) (hs : Stepped s act t) :
    Rang start (as ++ [act]) t command n := by
  obtain ⟨task, sound, mono, hn, hf, hcommand, hheard, hasked, hle⟩ := h
  obtain ⟨phase, hn', hphase⟩ := hs.task hn
  exact ⟨_, sound, mono, hn', hphase hf, hcommand, hheard.append _, hasked.append _, hle.trans hs.mono_le⟩

theorem Task.Due.append {task : Task} {now now' : ℕ} (h : task.Due start as now n) (hle : now ≤ now')
    (bs : List Act) : task.Due start (as ++ bs) now' n := by
  obtain ⟨mono, hasked, hd⟩ := h.asked
  exact ⟨⟨mono, hasked.append bs, hd⟩, fun hr => (h.running hr).trans hle, fun sound hs => (h.decoded sound hs).append bs⟩

/-- A task that has ended, or whose abort has, is due no more. -/
theorem Task.Due.finish {task : Task} {now : ℕ} (h : task.Due start as now n) :
    Task.Due start as now n { task with phase := .finished } :=
  ⟨h.asked, by simp [Phase.isRunning], by simp⟩

theorem Task.Due.abort {task : Task} {now : ℕ} (h : task.Due start as now n) : task.abort.Due start as now n := by
  unfold Task.abort
  split
  · exact h.finish
  · exact h

/-- A step of a call keeps what is known of the tasks. -/
theorem Provenance.due_moved (h : Provenance start as s) (hi : s.handlers[i]? = some ⟨request, pc⟩)
    (hm : Moved s.host request s.control pc control pc') (bs : List Act) :
    ∀ n (task : Task), control.tasks[n]? = some task → task.Due start (as ++ bs) s.host.mono n := by
  have hkept : ∀ n (task : Task), s.control.tasks[n]? = some task → task.Due start (as ++ bs) s.host.mono n :=
    fun n task hn => (h.due n task hn).append le_rfl bs
  cases hm with
  | taken =>
    intro n task hn
    rw [Control.tasks_takeTrigger] at hn
    split at hn
    · obtain ⟨task', hn', rfl⟩ := Option.map_eq_some_iff.mp hn
      exact (hkept n task' hn').abort
    · exact hkept n task hn
  | spawned =>
    intro n task hn
    rcases Pool.of_add hn with ⟨-, rfl⟩ | hn
    · obtain ⟨mono, hle, hasked⟩ := h.asked _ (List.mem_of_getElem? hi) _ rfl
      exact ⟨⟨mono, hasked.append bs, Nat.add_le_add_right hle _⟩, by simp [Phase.isRunning], by simp⟩
    · exact hkept n task hn
  | announced =>
    intro n task hn
    refine hkept n task ?_
    split at hn <;> simpa using hn
  | _ => exact hkept

/-- So does it what is known of the calls: one is accepted now, or was before. -/
theorem Provenance.asked_moved (h : Provenance start as s) (hrun : Machine.Run step Machine.anyStep start as s)
    (hi : s.handlers[i]? = some ⟨request, pc⟩) (hm : Moved s.host request s.control pc control pc')
    (hs : step s (.advance i f) = some t) :
    ∀ hd ∈ s.handlers.set i ⟨request, pc'⟩, ∀ sch, hd.pc.accepted = some sch →
      ∃ mono ≤ s.host.mono, Asked start (as ++ [.advance i f]) sch mono := by
  have hkept : ∀ hd ∈ s.handlers, ∀ sch, hd.pc.accepted = some sch →
      ∃ mono ≤ s.host.mono, Asked start (as ++ [.advance i f]) sch mono := by
    intro hd hmem sch hsch
    obtain ⟨mono, hle, hasked⟩ := h.asked hd hmem sch hsch
    exact ⟨mono, hle, hasked.append _⟩
  refine Pool.forall_set hkept fun sch hsch => ?_
  have hbefore : pc.accepted = some sch →
      ∃ mono ≤ s.host.mono, Asked start (as ++ [.advance i f]) sch mono := hkept _ (List.mem_of_getElem? hi) sch
  cases hm with
  | rejected => cases hsch
  | @accepted job hb =>
    cases job with
    | disarm => cases hsch
    | schedule sch' announces =>
      obtain rfl := Option.some.inj hsch
      exact ⟨s.host.mono, le_rfl, s, i, f, t, request, announces, hrun.passes_last hs, hi, hb, rfl⟩
  | @taken job | @stopped job | @kept job | @swapped job | @saved job => cases job <;> exact hbefore hsch
  | spawned => exact hbefore hsch
  | stored | announced => cases hsch

/-- A call does not tell the player to play. -/
theorem Moved.plays {h : Host} {c c' : Control} (hm : Moved h request c pc c' pc') : c'.plays = c.plays := by
  unfold Control.plays
  cases hm with
  | taken => rw [Control.takeTrigger_eq]
  | stopped => simp [Control.stopPlayer]
  | announced =>
    split
    · rw [Control.announce_eq]
    · rfl
  | _ => rfl

/-- A step that plays nothing, of a call, a clock or a file system. -/
theorem Provenance.frame (h : Provenance start as s) (hs : Stepped s act t) (hplays : t.control.plays = s.control.plays)
    (hrang : ∀ played, rang played act = played)
    (hasked : ∀ hd ∈ t.handlers, ∀ sch, hd.pc.accepted = some sch →
      ∃ mono ≤ t.host.mono, Asked start (as ++ [act]) sch mono)
    (hdue : ∀ n (task : Task), t.control.tasks[n]? = some task → task.Due start (as ++ [act]) t.host.mono n) :
    Provenance start (as ++ [act]) t := by
  have hfold : (as ++ [act]).foldl rang [] = as.foldl rang [] := by simp [hrang]
  refine ⟨hasked, hdue, ?_, by rw [hfold]; exact h.once⟩
  rw [hfold, hplays]
  exact h.plays.imp fun _ _ hr => hr.stepped hs

/-- What was known of the calls still is. -/
theorem Provenance.asked_kept (h : Provenance start as s) (hs : Stepped s act t) (hhandlers : t.handlers = s.handlers) :
    ∀ hd ∈ t.handlers, ∀ sch, hd.pc.accepted = some sch →
      ∃ mono ≤ t.host.mono, Asked start (as ++ [act]) sch mono := by
  intro hd hm sch hsch
  obtain ⟨mono, hle, hasked⟩ := h.asked hd (hhandlers ▸ hm) sch hsch
  exact ⟨mono, hle.trans hs.mono_le, hasked.append _⟩

/-- What was known of the tasks still is, when one of them has moved to where it is known as much of it. -/
theorem Provenance.due_set {task : Task} (h : Provenance start as s) (bs : List Act)
    (hdue : task.Due start (as ++ bs) s.host.mono i) :
    ∀ n (task' : Task), (s.control.tasks.set i task)[n]? = some task' → task'.Due start (as ++ bs) s.host.mono n := by
  intro n task' hn
  rcases Pool.of_set hn with ⟨rfl, rfl⟩ | ⟨-, hn⟩
  · exact hdue
  · exact (h.due n task' hn).append le_rfl bs

/-- A task that has played has ended. -/
theorem Provenance.finished (h : Provenance start as s) (hn : n ∈ as.foldl rang []) :
    ∃ task, s.control.tasks[n]? = some task ∧ task.phase = .finished := by
  obtain ⟨k, hk, rfl⟩ := List.mem_iff_getElem.mp hn
  obtain ⟨task, -, -, htask, hf, -⟩ := h.plays.get (h.plays.length_eq ▸ hk) hk
  exact ⟨task, htask, hf⟩

theorem Provenance.step (hrun : Machine.Run step Machine.anyStep start as s) (h : Provenance start as s)
    (hs : step s act = some t) : Provenance start (as ++ [act]) t := by
  have hst := stepped_of_step hs
  cases act with
  | request r =>
    obtain rfl := Option.some.inj hs
    refine h.frame hst rfl (fun _ => rfl) (Pool.forall_add ?_ (by rintro sch ⟨⟩)) fun n task hn =>
      (h.due n task hn).append le_rfl _
    intro hd hm sch hsch
    obtain ⟨mono, hle, hasked⟩ := h.asked hd hm sch hsch
    exact ⟨mono, hle, hasked.append _⟩
  | advance i f =>
    cases hst with
    | advanced hi hm =>
      exact h.frame (.advanced hi hm) hm.plays (fun _ => rfl) (h.asked_moved hrun hi hm hs) (h.due_moved hi hm _)
    | ran ha => cases ha
  | wake i =>
    obtain ⟨sch, deadline, hi, hle, rfl⟩ := step_wake hs
    have hdue := (h.due i _ hi).append le_rfl [.wake i]
    exact h.frame hst rfl (fun _ => rfl) (h.asked_kept hst rfl) (h.due_set _ ⟨hdue.asked, fun _ => hle, by simp⟩)
  | decode i =>
    obtain ⟨sch, deadline, hi, rfl⟩ := step_decode hs
    have hdue := (h.due i _ hi).append le_rfl [.decode i]
    refine h.frame hst rfl (fun _ => rfl) (h.asked_kept hst rfl) (h.due_set _ ?_)
    unfold Task.decode
    split
    · rename_i sound hsound
      refine ⟨hdue.asked, fun _ => hdue.running rfl, fun sound' hphase => ?_⟩
      obtain rfl := Phase.decoded.inj hphase
      exact ⟨s, _, hrun.passes_last hs, hsound⟩
    · exact hdue.finish
  | play i =>
    obtain ⟨sch, deadline, sound, hi, rfl⟩ := step_play hs
    have hdue := (h.due i _ hi).append le_rfl [.play i]
    obtain ⟨mono, hasked, hd⟩ := hdue.asked
    refine ⟨h.asked_kept hst rfl, h.due_set _ hdue.finish, ?_, ?_⟩
    · rw [List.foldl_append, Control.plays, List.filter_append]
      refine List.rel_append (h.plays.imp fun _ _ hr => hr.stepped hst) (.cons ?_ .nil)
      exact ⟨_, sound, mono, Pool.set_self hi, rfl, rfl, hdue.decoded sound rfl, hasked, hd.trans (hdue.running rfl)⟩
    · rw [List.foldl_append]
      refine List.Nodup.append h.once (List.nodup_singleton _) ?_
      -- a task that has played has ended, and this one has not
      intro n hn hn'
      obtain rfl := List.mem_singleton.mp hn'
      obtain ⟨task, htask, hf⟩ := h.finished hn
      obtain rfl := Option.some.inj (htask.symm.trans hi)
      cases hf
  | tick ms wall =>
    obtain rfl := Option.some.inj hs
    exact h.frame hst rfl (fun _ => rfl) (h.asked_kept hst rfl) fun n task hn => (h.due n task hn).append (Nat.le_add_right _ _) _
  | files fs =>
    obtain rfl := Option.some.inj hs
    exact h.frame hst rfl (fun _ => rfl) (h.asked_kept hst rfl) fun n task hn => (h.due n task hn).append le_rfl _
  | restart env =>
    cases hst with
    | restarted ha hd =>
      refine ⟨by simp, fun n task hn => ?_, ?_, ?_⟩
      · simp only [endTasks, List.getElem?_map, Option.map_eq_some_iff] at hn
        obtain ⟨task', hn', rfl⟩ := hn
        exact ((h.due n task' hn').append le_rfl _).finish
      · rw [List.foldl_append]
        exact .nil
      · rw [List.foldl_append]
        exact List.nodup_nil
    | ran ha => cases ha

theorem provenance_of_run {host : Host} {env : Env} {daemon : AlarmDaemon}
    (h : Machine.Run step Machine.anyStep (fresh host env daemon) as s) : Provenance (fresh host env daemon) as s := by
  have hfresh : Provenance (fresh host env daemon) [] (fresh host env daemon) :=
    ⟨by simp [fresh], by simp [fresh, Control.new], .nil, List.nodup_nil⟩
  obtain ⟨-, hI⟩ := h.invariant_trace
    (P := fun as s => Machine.Run step Machine.anyStep (fresh host env daemon) as s ∧
      Provenance (fresh host env daemon) as s) ⟨.nil, hfresh⟩
    fun as s act t hP _ hs => ⟨hP.1.snoc trivial hs, hP.2.step hP.1 hs⟩
  exact hI

/-- In every run, whatever its order, the Plays the player was sent since the process was last
started are those of the trigger tasks that have played, one each and in their order; each is the
sound the task decoded its file to, and was asked for by a call of Arm or Snooze that was
accepted at least the delay of its schedule before. -/
theorem plays_are_due {host : Host} {env : Env} {daemon : AlarmDaemon}
    (h : Machine.Run step Machine.anyStep (fresh host env daemon) as s) :
    (as.foldl rang []).Nodup ∧
      List.Forall₂ (Rang (fresh host env daemon) as s) s.control.plays (as.foldl rang []) := by
  have hI := provenance_of_run h
  exact ⟨hI.once, hI.plays⟩

/-- An alarm that plays, and is snoozed for a second and plays again. -/
def playingTwice : List Act :=
  arming ++ [.tick 3000 hornTime, .wake 0, .decode 0, .play 0] ++ .request (.snooze 1) :: advances 1 8 ++
    [.tick 1000 hornTime, .wake 1, .decode 1, .play 1]

theorem plays_are_due_playing_twice :
    ∃ s, Machine.Run step Machine.anyStep hornProcess playingTwice s ∧
      s.control.plays = [.play hornSound .alarm, .play hornSound .alarm] ∧ playingTwice.foldl rang [] = [0, 1] ∧
      List.Forall₂ (Rang hornProcess playingTwice s) s.control.plays (playingTwice.foldl rang []) := by
  obtain ⟨s, hrun, hplays⟩ : ∃ s, Machine.Run step Machine.anyStep hornProcess playingTwice s ∧
      s.control.plays = [.play hornSound .alarm, .play hornSound .alarm] := Machine.Run.exists_of_execIf (by decide)
  exact ⟨s, hrun, hplays, rfl, (plays_are_due hrun).2⟩

end HelmAlarm.Ipc
