import HelmAlarm.Audio.Commands
import HelmAlarm.Ipc.Firing

/-!
# The process, with its player

`Control` logs the commands it issues, and `CpalAudio` is a machine of its own, with a
worker that takes them from a channel. Here the two run together. A handler that stops
the player sends its Stop and waits for the call to return before it goes on; a trigger
task that plays sends its Play, and has nothing left to do when that call returns. Time
is one for both. A restart of the process ends the worker with the rest, and starts
another.

What the process does is what each of the two does for itself: `ipc_of_run`,
`audio_of_run`; and what the worker's channel was sent is what the handlers and tasks
issued, in the same order: `sent_of_run`.
-/

namespace HelmAlarm.Process

open HelmAlarm.Library HelmAlarm.Daemon HelmAlarm.Audio

/-- The process and what is around it, with its player. -/
structure World where
  /-- The control object, its handlers and what is around them. -/
  ipc : Ipc.Sys
  /-- The player of this process. -/
  audio : CpalAudio.Player
  /-- The handlers that have stopped the player, each with its call of `stop`. -/
  waits : List (ℕ × ℕ) := []

/-- What can happen. -/
inductive Act where
  /-- Something happens to the handlers, the tasks or the clocks, or the process is restarted. -/
  | ipc (act : Ipc.Act)
  /-- The worker or a callback of the stream takes a step, or a call of the player returns. -/
  | audio (act : CpalAudio.Act)

/-- What the handlers and tasks do, of what happens. -/
def Act.ipc? : Act → Option Ipc.Act
  | .ipc act => some act
  | .audio _ => none

/-- What happens in the player by itself. A clone of it lives as long as the process. -/
def isOwn : CpalAudio.Act → Bool
  | .receive _ | .giveUp _ | .work _ | .report | .render _ => true
  | .call _ | .close | .tick _ => false

/-- The process is restarted. -/
def isRestart : Ipc.Act → Bool
  | .restart _ => true
  | _ => false

/-- The command to the player an action issues. -/
def command (s : Ipc.Sys) (act : Ipc.Act) : Option PlayerCommand :=
  match act with
  | .advance i _ =>
    match s.handlers[i]? with
    | some ⟨_, .stopPlayer _⟩ => some .stop
    | _ => none
  | .play i =>
    match s.control.tasks[i]? with
    | some ⟨_, _, .decoded sound⟩ => (VolumeProfile.new 1 .immediate false).toOption.map (.play sound)
    | _ => none
  | _ => none

/-- What an action means to the player: time passes, or a command is sent. -/
def heard (s : Ipc.Sys) (act : Ipc.Act) : List CpalAudio.Act :=
  match act with
  | .tick ms _ => [.tick ms]
  | act => (command s act).toList.map .call

namespace World

/-- Handler `i` waits for its call of `stop` to return. -/
def blocked (w : World) (i : ℕ) : Bool :=
  w.waits.any fun wait => wait.1 = i && !(w.audio.callers[wait.2]?.any fun caller => caller.reply.isSome)

/-- The action is not that of a handler that waits. -/
def ready (w : World) : Ipc.Act → Bool
  | .advance i _ => !w.blocked i
  | _ => true

/-- The calls of `stop` that are waited for after an action. -/
def waitsAfter (w : World) : Ipc.Act → List (ℕ × ℕ)
  | .advance i f =>
    match command w.ipc (.advance i f) with
    | some _ => w.waits ++ [(i, w.audio.sent.length)]
    | none => w.waits
  | _ => w.waits

end World

/-- The machine. -/
def step : Machine World Act := fun w act =>
  match act with
  | .audio act => if isOwn act then (CpalAudio.step w.audio act).map fun audio => { w with audio := audio } else none
  | .ipc act =>
    if w.ready act then
      (Ipc.step w.ipc act).bind fun ipc =>
        if isRestart act then some ⟨ipc, CpalAudio.spawn {}, []⟩
        else (CpalAudio.step.exec w.audio (heard w.ipc act)).map fun audio => ⟨ipc, audio, w.waitsAfter act⟩
    else none

/-- A process that has just been started, on whatever was on disk. -/
def fresh (host : Ipc.Host) (env : Ipc.Env) (daemon : AlarmDaemon) : World :=
  ⟨Ipc.fresh host env daemon, CpalAudio.spawn {}, []⟩

/-- A process that has just been started, with the files and the clocks of `Ipc.hornHost`. -/
def hornWorld : World := fresh Ipc.hornHost (fun _ => none) ⟨.disarmed, {}⟩

/-- A condition on the steps of the handlers and tasks. -/
def lift (ok : Ipc.Sys → Ipc.Act → Prop) (w : World) : Act → Prop
  | .ipc act => ok w.ipc act
  | .audio _ => True

instance (ok : Ipc.Sys → Ipc.Act → Prop) [∀ s act, Decidable (ok s act)] (w : World) : (act : Act) → Decidable (lift ok w act)
  | .ipc act => inferInstanceAs (Decidable (ok w.ipc act))
  | .audio _ => .isTrue trivial

/-! ### What a step does -/

/-- What a step does: one case for each party. -/
inductive Stepped (w : World) : Act → World → Prop where
  /-- Something happens in the player. -/
  | owned {act : CpalAudio.Act} {audio : CpalAudio.Player} (hown : isOwn act = true)
      (hs : CpalAudio.step w.audio act = some audio) : Stepped w (.audio act) { w with audio := audio }
  /-- The process is restarted, and its player with it. -/
  | restarted {env : Ipc.Env} {ipc : Ipc.Sys} (hs : Ipc.step w.ipc (.restart env) = some ipc) :
      Stepped w (.ipc (.restart env)) ⟨ipc, CpalAudio.spawn {}, []⟩
  /-- A handler that does not wait, a task or a clock takes a step, and the player is sent what it issues. -/
  | ran {act : Ipc.Act} {ipc : Ipc.Sys} {audio : CpalAudio.Player} (hready : w.ready act = true)
      (hrestart : isRestart act = false) (hs : Ipc.step w.ipc act = some ipc)
      (ha : CpalAudio.step.exec w.audio (heard w.ipc act) = some audio) :
      Stepped w (.ipc act) ⟨ipc, audio, w.waitsAfter act⟩

variable {w v : World} {act : Act}

theorem stepped_of_step (h : step w act = some v) : Stepped w act v := by
  cases act with
  | audio act =>
    simp only [step] at h
    split at h
    · rename_i hown
      obtain ⟨audio, hs, rfl⟩ := Option.map_eq_some_iff.mp h
      exact .owned hown hs
    · cases h
  | ipc act =>
    simp only [step] at h
    split at h
    · rename_i hready
      obtain ⟨ipc, hs, h⟩ := Option.bind_eq_some_iff.mp h
      split at h
      · rename_i hrestart
        obtain rfl := Option.some.inj h
        cases act with
        | restart env => exact .restarted hs
        | _ => cases hrestart
      · rename_i hrestart
        obtain ⟨audio, ha, rfl⟩ := Option.map_eq_some_iff.mp h
        exact .ran hready (Bool.eq_false_of_not_eq_true hrestart) hs ha
    · cases h

/-! ### What each of the two does -/

variable {ok : Ipc.Sys → Ipc.Act → Prop} {as : List Act}

/-- The handlers and tasks do what they do without a player, at most. -/
theorem ipc_of_run (h : Machine.Run step (lift ok) w as v) :
    Machine.Run Ipc.step ok w.ipc (as.filterMap Act.ipc?) v.ipc := by
  induction h with
  | nil => exact .nil
  | cons hok hs _ ih =>
    cases stepped_of_step hs with
    | owned hown ha => exact ih
    | restarted hipc => exact .cons hok hipc ih
    | ran hready hrestart hipc ha => exact .cons hok hipc ih

/-- The player is one that was spawned with the process. -/
def Spawned (audio : CpalAudio.Player) : Prop :=
  ∃ acts, Machine.Run CpalAudio.step Machine.anyStep (CpalAudio.spawn {}) acts audio

theorem Spawned.run {audio audio' : CpalAudio.Player} {acts : List CpalAudio.Act} (h : Spawned audio)
    (hrun : Machine.Run CpalAudio.step Machine.anyStep audio acts audio') : Spawned audio' := by
  obtain ⟨before, hbefore⟩ := h
  exact ⟨before ++ acts, hbefore.append hrun⟩

/-- So does the player, from when the process was last started. -/
theorem audio_of_run {okw : World → Act → Prop} {host : Ipc.Host} {env : Ipc.Env} {daemon : AlarmDaemon}
    (h : Machine.Run step okw (fresh host env daemon) as w) : Spawned w.audio := by
  refine h.invariant (I := fun w => Spawned w.audio) ?_ ⟨[], .nil⟩
  intro w act v hI _ hs
  cases stepped_of_step hs with
  | owned hown ha => exact hI.run (.single trivial ha)
  | restarted hipc => exact ⟨[], .nil⟩
  | ran hready hrestart hipc ha => exact hI.run (Machine.exec_eq_some_iff.mp ha)

/-! ### The commands -/

/-- What a step of the handlers and tasks adds to their log of commands. -/
theorem player_of_step {s t : Ipc.Sys} {act : Ipc.Act} (hs : Ipc.step s act = some t)
    (hrestart : isRestart act = false) : t.control.player = s.control.player ++ (command s act).toList := by
  cases act with
  | advance i f =>
    cases Ipc.stepped_of_step hs with
    | @advanced _ _ request pc pc' control hi hm =>
      simp only [command, hi]
      cases hm with
      | stopped => rfl
      | taken =>
        rw [Ipc.Control.takeTrigger_eq]
        exact (List.append_nil _).symm
      | announced =>
        simp only [Option.toList_none, List.append_nil]
        split
        · rw [Ipc.Control.announce_eq]
        · rfl
      | _ => exact (List.append_nil _).symm
    | ran ha => cases ha
  | wake i =>
    obtain ⟨sch, deadline, hi, hle, rfl⟩ := Ipc.step_wake hs
    exact (List.append_nil _).symm
  | decode i =>
    obtain ⟨sch, deadline, hi, rfl⟩ := Ipc.step_decode hs
    exact (List.append_nil _).symm
  | play i =>
    obtain ⟨sch, deadline, sound, hi, rfl⟩ := Ipc.step_play hs
    simp only [command, hi, VolumeProfile.new_alarm]
    rfl
  | restart env => cases hrestart
  | request r | tick ms wall | files fs =>
    obtain rfl := Option.some.inj hs
    exact (List.append_nil _).symm

/-- A command that is sent is the last of the channel, and its caller waits from now on. -/
theorem called_of_exec {audio audio' : CpalAudio.Player} {command : PlayerCommand}
    (h : CpalAudio.step.exec audio [.call command] = some audio') :
    audio' = { audio with sent := audio.sent ++ [command], callers := audio.callers ++ [{ since := audio.now }] } := by
  obtain ⟨audio'', hs, h⟩ := Option.bind_eq_some_iff.mp h
  obtain rfl := Option.some.inj h
  cases CpalAudio.stepped_of_step hs with
  | called _ hopen => rfl

/-- What an action of the handlers and tasks is to the player: at most time passes, or a command is sent. -/
theorem heard_cases {s : Ipc.Sys} {act : Ipc.Act} {audio audio' : CpalAudio.Player}
    (h : CpalAudio.step.exec audio (heard s act) = some audio') :
    (∃ ms, command s act = none ∧ audio' = { audio with now := audio.now + ms }) ∨
    ∃ c, command s act = some c ∧
      audio' = { audio with sent := audio.sent ++ [c], callers := audio.callers ++ [{ since := audio.now }] } := by
  have hcommand : ∀ sent : Option PlayerCommand, CpalAudio.step.exec audio (sent.toList.map .call) = some audio' →
      (∃ ms, sent = none ∧ audio' = { audio with now := audio.now + ms }) ∨ ∃ c, sent = some c ∧
        audio' = { audio with sent := audio.sent ++ [c], callers := audio.callers ++ [{ since := audio.now }] } := by
    intro sent h
    cases sent with
    | none => exact .inl ⟨0, rfl, (Option.some.inj h).symm⟩
    | some c => exact .inr ⟨c, rfl, called_of_exec h⟩
  cases act with
  | tick ms wall => exact .inl ⟨ms, rfl, (Option.some.inj h).symm⟩
  | _ => exact hcommand _ h

/-- What a step of the handlers and tasks adds to the channel. -/
theorem sent_of_exec {s : Ipc.Sys} {act : Ipc.Act} {audio audio' : CpalAudio.Player}
    (h : CpalAudio.step.exec audio (heard s act) = some audio') :
    audio'.sent = audio.sent ++ (command s act).toList := by
  rcases heard_cases h with ⟨ms, hc, rfl⟩ | ⟨c, hc, rfl⟩
  · rw [hc]
    exact (List.append_nil _).symm
  · rw [hc]
    rfl

/-- What a step of the player by itself sends: nothing. -/
theorem sent_of_own {audio audio' : CpalAudio.Player} {act : CpalAudio.Act} (hown : isOwn act = true)
    (h : CpalAudio.step audio act = some audio') : audio'.sent = audio.sent := by
  cases CpalAudio.stepped_of_step h with
  | worked hw => cases hw <;> rfl
  | called command hopen => cases hown
  | _ => rfl

/-- In every run, the channel of the worker was sent what the handlers and tasks of the process
issued, in the same order. -/
theorem sent_of_run {okw : World → Act → Prop} {host : Ipc.Host} {env : Ipc.Env} {daemon : AlarmDaemon}
    (h : Machine.Run step okw (fresh host env daemon) as w) : w.audio.sent = w.ipc.control.player := by
  refine h.invariant (I := fun w => w.audio.sent = w.ipc.control.player) ?_ rfl
  intro w act v hI _ hs
  cases stepped_of_step hs with
  | owned hown ha => exact (sent_of_own hown ha).trans hI
  | restarted hipc =>
    cases Ipc.stepped_of_step hipc with
    | restarted hagrees hstored => rfl
    | ran ha => cases ha
  | ran hready hrestart hipc ha => rw [sent_of_exec ha, player_of_step hipc hrestart, hI]

end HelmAlarm.Process
