import HelmAlarm.Ipc.Cancelling
import HelmAlarm.Process.World

/-!
# What is heard

Two properties of the process with its player, of what comes out of the device.

Whatever the interleaving of calls, triggers, the worker and the callbacks, a device
that is not asked for silence plays an alarm that was due: the sound a trigger task
decoded its file to, after the delay of a call that was accepted, whose Play was
accepted by the worker, and after which no Stop was handled: `heard_is_due`.

And a call that cancels an alarm silences it. When calls are made one at a time and
cancel in time, then from when the worker has handled the Stop of a call, whether or not
that call still waited for it, the device is asked for silence, until a trigger that was
spawned since then plays: `silent_after_cancel`. A Play that was sent before the Stop,
whose task gave up waiting, is no exception: the worker handles it first.
-/

namespace HelmAlarm.Process

open HelmAlarm.Library HelmAlarm.Daemon HelmAlarm.Audio

variable {w v u : World} {act : Act} {as bs : List Act} {audio audio' : CpalAudio.Player} {k : ℕ}

/-- Whatever the device asks for, it is given silence. -/
def Silent (audio : CpalAudio.Player) : Prop :=
  ∀ n audio', CpalAudio.step audio (.render n) = some audio' →
    ∃ buf, audio'.rendered = audio.rendered ++ [buf] ∧ ∀ x ∈ buf, x = 0

/-- A player with nothing to play is silent. -/
theorem silent_of_idle (hI : CpalAudio.Ordered audio) (hidle : audio.shared.playback = none) : Silent audio := by
  intro n audio' hs
  cases CpalAudio.stepped_of_step hs with
  | rendered n hstream => exact ⟨_, rfl, (hI.clean _ hstream).silent hidle n⟩

theorem ordered_of_run {okw : World → Act → Prop} {host : Ipc.Host} {env : Ipc.Env} {daemon : AlarmDaemon}
    (h : Machine.Run step okw (fresh host env daemon) as w) : CpalAudio.Ordered w.audio := by
  obtain ⟨acts, hrun⟩ := audio_of_run h
  exact CpalAudio.ordered_of_run hrun

/-! ### Nothing but alarms that are due -/

/-- A Play in the worker's channel is that of a trigger task. -/
theorem rang_of_sent {host : Ipc.Host} {env : Ipc.Env} {daemon : AlarmDaemon} {sound : DecodedSound}
    {profile : VolumeProfile} (h : Machine.Run step Machine.anyStep (fresh host env daemon) as w)
    (hsent : PlayerCommand.play sound profile ∈ w.audio.sent) :
    ∃ n ∈ (as.filterMap Act.ipc?).foldl Ipc.rang [],
      Ipc.Rang (Ipc.fresh host env daemon) (as.filterMap Act.ipc?) w.ipc (.play sound profile) n := by
  have hlift : Machine.Run step (lift Machine.anyStep) (fresh host env daemon) as w :=
    h.mono fun _ act _ => by cases act <;> trivial
  have hplays := (Ipc.provenance_of_run (ipc_of_run hlift)).plays
  have hmem : PlayerCommand.play sound profile ∈ w.ipc.control.plays := by
    rw [Ipc.Control.plays, ← sent_of_run h]
    exact List.mem_filter.mpr ⟨hsent, by simp⟩
  obtain ⟨j, hj, hget⟩ := List.mem_iff_getElem.mp hmem
  have hj' : j < ((as.filterMap Act.ipc?).foldl Ipc.rang []).length := hplays.length_eq ▸ hj
  have hrang := hplays.get hj hj'
  simp only [List.get_eq_getElem, hget] at hrang
  exact ⟨_, List.getElem_mem hj', hrang⟩

/-- In every run, a device that is not given silence plays the alarm of a trigger task: the worker
accepted its Play and has handled no Stop since; the task decoded the sound from its file, and was
asked for by a call that was accepted at least its delay before. -/
theorem heard_is_due {host : Ipc.Host} {env : Ipc.Env} {daemon : AlarmDaemon}
    (h : Machine.Run step Machine.anyStep (fresh host env daemon) as w) (hloud : ¬ Silent w.audio) :
    ∃ pb i n, w.audio.shared.playback = some pb ∧ CpalAudio.LastPlay w.audio i pb.sound .alarm ∧
      n ∈ (as.filterMap Act.ipc?).foldl Ipc.rang [] ∧
      Ipc.Rang (Ipc.fresh host env daemon) (as.filterMap Act.ipc?) w.ipc (.play pb.sound .alarm) n := by
  have hI := ordered_of_run h
  cases hp : w.audio.shared.playback with
  | none => exact absurd (silent_of_idle hI hp) hloud
  | some pb =>
    obtain ⟨i, sound, profile, hlast, hadv⟩ := hI.installed pb hp
    obtain ⟨hsound, -⟩ := hadv.sound
    obtain rfl : pb.sound = sound := hsound
    obtain ⟨n, hn, task, sound', mono, htask, hf, hcommand, hrest⟩ := rang_of_sent h (List.mem_of_getElem? hlast.sent)
    obtain ⟨-, rfl⟩ := PlayerCommand.play.inj hcommand
    exact ⟨pb, i, n, rfl, hlast, hn, task, sound', mono, htask, hf, hcommand, hrest⟩

/-! ### Silence after a Stop -/

/-- No Play was sent. -/
def Muted (audio : CpalAudio.Player) : Prop := ∀ sound profile, PlayerCommand.play sound profile ∉ audio.sent

/-- After the Stop `k` no Play was sent. -/
def Hushed (k : ℕ) (audio : CpalAudio.Player) : Prop :=
  audio.sent[k]? = some .stop ∧ ∀ j sound profile, k < j → audio.sent[j]? ≠ some (.play sound profile)

/-- A player that was sent no Play is silent. -/
theorem Muted.silent (h : Muted audio) (hI : CpalAudio.Ordered audio) : Silent audio := by
  apply silent_of_idle hI
  cases hp : audio.shared.playback with
  | none => rfl
  | some pb =>
    obtain ⟨i, sound, profile, hlast, -⟩ := hI.installed pb hp
    exact absurd (List.mem_of_getElem? hlast.sent) (h sound profile)

/-- One that has handled its last Stop is silent. -/
theorem Hushed.silent (h : Hushed k audio) (hI : CpalAudio.Ordered audio) (hhandled : k < audio.results.length) :
    Silent audio :=
  silent_of_idle hI (hI.playback_of_stopped ⟨h.1, ⟨_, List.getElem?_eq_getElem hhandled⟩, h.2⟩)

/-- Only a task that plays sends a Play. -/
theorem command_ne_play {s : Ipc.Sys} {act : Ipc.Act} (h : ∀ n, act ≠ .play n) (sound : DecodedSound)
    (profile : VolumeProfile) : command s act ≠ some (.play sound profile) := by
  unfold command
  split
  · split <;> simp
  · exact absurd rfl (h _)
  · simp

/-- What a step sends when no task plays and the process is not restarted: no Play. -/
theorem sent_of_step (hplay : ∀ n, act ≠ .ipc (.play n)) (hs : step w act = some v) :
    v.audio = CpalAudio.spawn {} ∨ ∃ sent : Option PlayerCommand,
      v.audio.sent = w.audio.sent ++ sent.toList ∧ ∀ sound profile, sent ≠ some (.play sound profile) := by
  cases stepped_of_step hs with
  | owned hown ha => exact .inr ⟨none, by simpa using sent_of_own hown ha, by simp⟩
  | restarted hipc => exact .inl rfl
  | ran hready hrestart hipc ha =>
    exact .inr ⟨_, sent_of_exec ha, command_ne_play fun n hn => hplay n (congrArg Act.ipc hn)⟩

theorem Muted.step (h : Muted w.audio) (hplay : ∀ n, act ≠ .ipc (.play n)) (hs : step w act = some v) :
    Muted v.audio := by
  intro sound profile hmem
  rcases sent_of_step hplay hs with hspawn | ⟨sent, hsent, hne⟩
  · rw [hspawn] at hmem
    cases hmem
  · rw [hsent] at hmem
    rcases List.mem_append.mp hmem with hmem | hmem
    · exact h sound profile hmem
    · exact hne sound profile (Option.mem_toList.mp hmem)

theorem Hushed.step (h : Hushed k w.audio) (hplay : ∀ n, act ≠ .ipc (.play n)) (hs : step w act = some v) :
    Hushed k v.audio ∨ v.audio = CpalAudio.spawn {} := by
  rcases sent_of_step hplay hs with hspawn | ⟨sent, hsent, hne⟩
  · exact .inr hspawn
  · refine .inl ⟨?_, fun j sound profile hkj hj => ?_⟩
    · rw [hsent, List.getElem?_append_left (List.getElem?_eq_some_iff.mp h.1).1]
      exact h.1
    · cases sent with
      | none => exact h.2 j sound profile hkj (by simpa [hsent] using hj)
      | some c =>
        rw [hsent] at hj
        rcases Pool.of_add hj with ⟨-, heq⟩ | hj
        · exact hne sound profile (congrArg some heq).symm
        · exact h.2 j sound profile hkj hj

/-- As long as no task plays, no Play is sent after the Stop, and none at all to a process that was
restarted. -/
theorem hushed_of_run {okw : World → Act → Prop} (hv : Hushed k v.audio) (h' : Machine.Run step okw v bs u)
    (hplay : ∀ n, .ipc (.play n) ∉ bs) :
    Muted u.audio ∨ Hushed k u.audio ∧ ∀ env, .ipc (.restart env) ∉ bs := by
  refine h'.invariant_trace (P := fun bs u => (∀ n, .ipc (.play n) ∉ bs) →
    Muted u.audio ∨ Hushed k u.audio ∧ ∀ env, .ipc (.restart env) ∉ bs) (fun _ => .inr ⟨hv, by simp⟩) ?_ hplay
  intro cs w act u ih _ hs hno
  have hact : ∀ n, act ≠ .ipc (.play n) := by
    rintro n rfl
    exact hno n (by simp)
  have hmuted : u.audio = CpalAudio.spawn {} → Muted u.audio := by
    intro hspawn sound profile hmem
    rw [hspawn] at hmem
    cases hmem
  rcases ih fun n hn => hno n (List.mem_append_left _ hn) with hm | ⟨hk, hrestart⟩
  · exact .inl (hm.step hact hs)
  · cases act with
    | ipc act =>
      cases act with
      | restart env =>
        left
        cases stepped_of_step hs with
        | restarted hipc => exact hmuted rfl
        | ran hready hne => cases hne
      | _ => exact (hk.step hact hs).symm.imp hmuted fun hk => ⟨hk, by simpa using hrestart⟩
    | audio act => exact (hk.step hact hs).symm.imp hmuted fun hk => ⟨hk, by simpa using hrestart⟩

/-- In every run in which calls are made one at a time and cancel in time: once the worker has
handled the Stop of a call, or the process was restarted since, and until a trigger that was
spawned since plays, the device is given silence. The step of handler `i` is the one that sends
the Stop, and `bs` is the rest of the run. -/
theorem silent_after_cancel {host : Ipc.Host} {env : Ipc.Env} {daemon : AlarmDaemon} {i : ℕ} {f : Faults} {job : Ipc.Job}
    (h : Machine.Run step (lift Ipc.InTurn) (fresh host env daemon) as w)
    (hnext : w.ipc.next (.advance i f) = some (.stopPlayer job)) (hok : Ipc.InTurn w.ipc (.advance i f))
    (hs : step w (.ipc (.advance i f)) = some v) (h' : Machine.Run step (lift Ipc.InTurn) v bs u)
    (hspawned : ∀ n, .ipc (.play n) ∈ bs → n < v.ipc.control.tasks.length)
    (hhandled : w.audio.sent.length < u.audio.results.length ∨ ∃ env, .ipc (.restart env) ∈ bs) :
    Silent u.audio := by
  have hlift : lift Ipc.InTurn w (.ipc (.advance i f)) := hok
  have hI : CpalAudio.Ordered u.audio := ordered_of_run ((h.snoc hlift hs).append h')
  have hset : Ipc.Settled w.ipc := (ipc_of_run h).invariant (I := Ipc.Settled) (fun s a t hI hok hs => hI.step hok.1 hs)
    (Ipc.settled_fresh host env daemon)
  cases stepped_of_step hs with
  | ran hready hrestart hipc ha =>
    -- no trigger that was there plays any more, so no Play is sent
    have hplay : ∀ n, .ipc (.play n) ∉ bs := by
      intro n hn
      have hn' : Ipc.Act.play n ∈ bs.filterMap Act.ipc? := List.mem_filterMap.mpr ⟨_, hn, rfl⟩
      have hdead : ∀ n, ¬ Ipc.Control.Live _ n := Ipc.not_live_after_stop hset hnext hok.2 hipc
      obtain ⟨-, -, hlater⟩ := Ipc.play_of_not_live hdead (ipc_of_run h')
      exact absurd (hspawned n hn) (not_lt.mpr (hlater n hn').1)
    obtain ⟨hd, hi, hpc⟩ := Option.map_eq_some_iff.mp hnext
    have hcommand : command w.ipc (.advance i f) = some .stop := by
      obtain ⟨request, pc⟩ := hd
      obtain rfl : pc = .stopPlayer job := hpc
      simp only [command, hi]
    have hsent := sent_of_exec ha
    rw [hcommand] at hsent
    have hv : Hushed w.audio.sent.length _ := ⟨by rw [hsent]; exact Pool.add_self, fun j sound profile hkj hj => by
      rw [hsent, List.getElem?_eq_none (by simp; omega)] at hj
      cases hj⟩
    rcases hushed_of_run hv h' hplay with hm | ⟨hk, hno⟩
    · exact hm.silent hI
    · rcases hhandled with hlt | ⟨env, henv⟩
      · exact hk.silent hI hlt
      · exact absurd henv (hno env)

/-- A buffer with a sound in it is not silence. -/
theorem not_silent {n : ℕ} {buf : List ℚ} {x : ℚ} (hs : CpalAudio.step audio (.render n) = some audio')
    (hr : audio'.rendered = audio.rendered ++ [buf]) (hx : x ∈ buf) (hne : x ≠ 0) : ¬ Silent audio := by
  intro hsilent
  obtain ⟨buf', hr', hzero⟩ := hsilent n audio' hs
  obtain rfl : buf' = buf := List.singleton_inj.mp (List.append_cancel_left (hr'.symm.trans hr))
  exact hne (hzero x hx)

/-- The worker takes `n` steps, with a device that is there. -/
def works (n : ℕ) : List Act := List.replicate n (.audio (.work CpalAudio.beepHost))

/-- An Arm, whose alarm fires: the worker opens the device, handles the Stop and then the Play. -/
def ringing : List Act :=
  works 3 ++ (Ipc.Act.request (.arm "builtin:horn") :: Ipc.advances 0 3).map .ipc ++ works 3 ++ [.audio (.receive 0)] ++
    works 2 ++ (Ipc.advances 0 5).map .ipc ++
    [.ipc (.tick 3000 Ipc.hornTime), .ipc (.wake 0), .ipc (.decode 0), .ipc (.play 0)] ++ works 5

/-- A Disarm, up to its Stop. -/
def cancelling : List Act := (Ipc.Act.request .disarm :: Ipc.advances 1 2).map .ipc

/-- It gives up waiting before the worker handles that. -/
def hushing : List Act := [.ipc (.tick 1000 Ipc.hornTime), .audio (.giveUp 2)] ++ works 3

/-- What the device is given if it asks for a buffer of one sample. -/
def nextBuffers (audio : CpalAudio.Player) : Option (List (List ℚ)) :=
  (CpalAudio.step audio (.render 1)).map fun audio' => audio'.rendered

theorem not_silent_of_nextBuffers (hr : audio.rendered = []) (h : nextBuffers audio = some [[1]]) : ¬ Silent audio := by
  obtain ⟨audio', hs, hr'⟩ := Option.map_eq_some_iff.mp h
  exact not_silent hs (by rw [hr, hr']; rfl) (List.mem_singleton_self 1) one_ne_zero

theorem heard_is_due_ringing :
    ∃ w pb i n, Machine.Run step Machine.anyStep hornWorld ringing w ∧ ¬ Silent w.audio ∧
      w.audio.shared.playback = some pb ∧ CpalAudio.LastPlay w.audio i pb.sound .alarm ∧
      Ipc.Rang Ipc.hornProcess (ringing.filterMap Act.ipc?) w.ipc (.play pb.sound .alarm) n := by
  obtain ⟨w, hrun, hrendered, hnext⟩ : ∃ w, Machine.Run step Machine.anyStep hornWorld ringing w ∧
      w.audio.rendered = [] ∧ nextBuffers w.audio = some [[1]] := Machine.Run.exists_of_execIf (by decide +kernel)
  have hloud := not_silent_of_nextBuffers hrendered hnext
  obtain ⟨pb, i, n, hp, hlast, -, hrang⟩ := heard_is_due hrun hloud
  exact ⟨w, pb, i, n, hrun, hloud, hp, hlast, hrang⟩

theorem silent_after_cancel_ringing :
    ∃ w v u, Machine.Run step (lift Ipc.InTurn) hornWorld (ringing ++ cancelling) w ∧ ¬ Silent w.audio ∧
      step w (.ipc (.advance 1 .none)) = some v ∧ Machine.Run step (lift Ipc.InTurn) v hushing u ∧ Silent u.audio := by
  obtain ⟨u, hrun, hhandled⟩ : ∃ u, Machine.Run step (lift Ipc.InTurn) hornWorld
      ((ringing ++ cancelling) ++ .ipc (.advance 1 .none) :: hushing) u ∧ 2 < u.audio.results.length :=
    Machine.Run.exists_of_execIf (by decide +kernel)
  obtain ⟨w, h, h'⟩ := hrun.of_append
  obtain ⟨hnext, hsent, hrendered, hloud⟩ := h.ends (P := fun w => w.ipc.next (.advance 1 .none) = some (.stopPlayer .disarm) ∧
    w.audio.sent.length = 2 ∧ w.audio.rendered = [] ∧ nextBuffers w.audio = some [[1]]) (by decide +kernel)
  cases h' with
  | @cons _ v _ _ _ hok hs h' =>
    exact ⟨w, v, u, h, not_silent_of_nextBuffers hrendered hloud, hs, h',
      silent_after_cancel h hnext hok hs h' (by simp [hushing, works]) (.inl (hsent ▸ hhandled))⟩

end HelmAlarm.Process
