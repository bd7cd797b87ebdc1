import HelmAlarm.Client.AlarmDaemonClient
import HelmAlarm.Ipc.Sequential

/-!
# Coherent states

Everything that is ever in memory or on disk is the state of some Arm, Snooze or
Disarm, whole: a daemon is armed exactly when it has a sound and a fire time, and no
sound id is empty. Handlers may be interleaved, saves may fail and be reordered, and
the process may be restarted at any point, for a handler that is about to swap or to
save carries a whole state, and a save writes all of it or nothing.

It is why nothing is lost on the wire, where "no sound" is the empty string:
`coherent_of_run`.
-/

namespace HelmAlarm.Daemon

/-- The three fields say the same of the alarm, and the sound id is not empty. -/
structure State.Coherent (s : State) : Prop where
  /-- Armed, there is a sound. -/
  sound : s.status = .armed ↔ s.currentSound.isSome = true
  /-- With a sound, there is a fire time. -/
  time : s.currentSound.isSome = true ↔ s.nextFireUnixMs.isSome = true
  /-- It is not the empty one. -/
  nonempty : ∀ id ∈ s.currentSound, id ≠ ""

/-- The same of a persisted state. -/
structure PersistedState.Coherent (p : PersistedState) : Prop where
  /-- Armed, there is a sound. -/
  sound : p.armed = true ↔ p.currentSound.isSome = true
  /-- With a sound, there is a fire time. -/
  time : p.currentSound.isSome = true ↔ p.nextFireUnixMs.isSome = true
  /-- It is not the empty one. -/
  nonempty : ∀ id ∈ p.currentSound, id ≠ ""

theorem State.coherent_toPersisted {s : State} : s.toPersisted.Coherent ↔ s.Coherent := by
  obtain ⟨status, time, sound⟩ := s
  constructor
  · rintro ⟨hs, ht, hn⟩
    exact ⟨by cases status <;> simpa [State.toPersisted] using hs, ht, hn⟩
  · rintro ⟨hs, ht, hn⟩
    exact ⟨by cases status <;> simpa [State.toPersisted] using hs, ht, hn⟩

theorem State.coherent_disarmed : State.disarmed.Coherent := ⟨by simp [disarmed], by simp [disarmed], by simp⟩

theorem State.coherent_armed {id : String} {t : Int64} (h : id ≠ "") : (State.armed (some id) (some t)).Coherent :=
  ⟨by simp, by simp, by simpa using h⟩

end HelmAlarm.Daemon

namespace HelmAlarm.Ipc

open HelmAlarm.Library HelmAlarm.Daemon HelmAlarm.Audio

/-- The state a handler is going to swap or to save. -/
def Pc.carried : Pc → Option PersistedState
  | .takeTrigger job | .stopPlayer job | .swap job => some job.desired.toPersisted
  | .save _ snapshot _ => some snapshot
  | _ => none

/-- A state that may be saved: it is coherent, and is written whole. -/
def Savable (p : PersistedState) : Prop := p.Coherent ∧ p.Fits

/-- What is in memory, on disk and on its way to either is coherent. -/
structure Coherence (s : Sys) : Prop where
  /-- In memory. -/
  memory : s.control.daemon.inner.Coherent
  /-- On disk, which can be read. -/
  disk : ∃ p, s.control.daemon.persistence.stored = .ok p ∧ p.Coherent
  /-- With the handlers. -/
  handlers : ∀ hd ∈ s.handlers, ∀ p ∈ hd.pc.carried, Savable p

variable {s t : Sys} {act : Act} {i : ℕ} {request : Request} {pc pc' : Pc} {control : Control}

theorem savable_disarmed : Savable State.disarmed.toPersisted :=
  ⟨State.coherent_toPersisted.mpr State.coherent_disarmed, by decide⟩

/-- The state of a request that is accepted may be saved. -/
theorem savable_of_begin {h : Host} {c : Control} {job : Job} (hb : c.begin h request = .ok job) :
    Savable job.desired.toPersisted := by
  cases job with
  | disarm => exact savable_disarmed
  | schedule sch announces =>
    have hp := (Control.begin_eq_schedule hb).1
    exact ⟨State.coherent_toPersisted.mpr (State.coherent_armed (SoundLibrary.ne_empty_of_resolvePath hp)),
      fits_of_resolvePath hp⟩

/-- A handler that leaves memory and disk alone, and takes up no state that may not be saved. -/
theorem Coherence.frame (h : Coherence s) (hpc : ∀ p ∈ pc'.carried, Savable p)
    (hd : control.daemon = s.control.daemon) :
    Coherence { s with control := control, handlers := s.handlers.set i ⟨request, pc'⟩ } :=
  ⟨by rw [hd]; exact h.memory, by rw [hd]; exact h.disk, Pool.forall_set h.handlers hpc⟩

theorem Coherence.moved (h : Coherence s) (hi : s.handlers[i]? = some ⟨request, pc⟩)
    (hm : Moved s.host request s.control pc control pc') :
    Coherence { s with control := control, handlers := s.handlers.set i ⟨request, pc'⟩ } := by
  have hcarried := h.handlers _ (List.mem_of_getElem? hi)
  cases hm with
  | rejected => exact h.frame (by simp [Pc.carried]) rfl
  | accepted hb =>
    refine h.frame ?_ rfl
    rintro _ ⟨⟩
    exact savable_of_begin hb
  | taken => exact h.frame hcarried (by simp)
  | stopped => exact h.frame hcarried rfl
  | @kept job hd => exact h.frame (by cases job <;> simp [Job.afterTransition, Pc.carried]) rfl
  | @swapped job hd =>
    have hsavable := hcarried _ rfl
    refine ⟨State.coherent_toPersisted.mp hsavable.1, h.disk, Pool.forall_set h.handlers ?_⟩
    rintro _ ⟨⟩
    exact hsavable
  | @saved job snapshot transition f =>
    have hsavable := hcarried _ rfl
    refine ⟨h.memory, ?_, Pool.forall_set h.handlers (by cases job <;> simp [Job.afterTransition, Pc.carried])⟩
    rcases Persistence.stored_save_or f snapshot s.control.daemon.persistence with hs | hs
    · simp only [hs]
      exact h.disk
    · exact ⟨snapshot, hs.trans (decodeState_encodeState hsavable.2), hsavable.1⟩
  | spawned => exact h.frame (by simp [Pc.carried]) rfl
  | stored => exact h.frame (by simp [Pc.carried]) rfl
  | announced => exact h.frame (by simp [Pc.carried]) (by split <;> simp)

theorem Coherence.step (h : Coherence s) (hs : step s act = some t) : Coherence t := by
  cases stepped_of_step hs with
  | requested r => exact ⟨h.memory, h.disk, Pool.forall_add h.handlers (by simp [Pc.carried])⟩
  | advanced hi hm => exact h.moved hi hm
  | ran ha hi hlive hwake hphase => exact ⟨h.memory, h.disk, h.handlers⟩
  | ticked ms wall => exact ⟨h.memory, h.disk, h.handlers⟩
  | refiled fs => exact ⟨h.memory, h.disk, h.handlers⟩
  | @restarted _ daemon ha hstored =>
    obtain ⟨p, hp, hcoherent⟩ := h.disk
    obtain rfl := Except.ok.inj (hp.symm.trans hstored)
    exact ⟨State.coherent_toPersisted.mp hcoherent, ⟨_, ha, hcoherent⟩, by simp⟩

/-- In every state that is reached from an empty store, by any interleaving of calls, of saves that may
fail, of triggers and of restarts: the state in memory is coherent, the one on disk can be read and is
coherent, and a client that reads both from one state sees a sound exactly when it sees the daemon
armed, and that is the one the daemon holds. -/
theorem coherent_of_run {host : Host} {env : Env} {as : List Act}
    (h : Machine.Run Ipc.step Machine.anyStep (fresh host env ⟨.disarmed, {}⟩) as s) :
    s.control.daemon.inner.Coherent ∧
      (∃ p, s.control.daemon.persistence.stored = .ok p ∧ p.Coherent) ∧
      (Client.status (Client.proxy s.control) = .ok true ↔
        ∃ id, Client.currentSound (Client.proxy s.control) = .ok (some id)) ∧
      Client.currentSound (Client.proxy s.control) = .ok s.control.daemon.currentSound := by
  have hinit : Coherence (fresh host env ⟨.disarmed, {}⟩) :=
    ⟨State.coherent_disarmed, ⟨{}, rfl, savable_disarmed.1⟩, by simp [fresh]⟩
  have hI := h.invariant (fun _ _ _ hI _ hs => hI.step hs) hinit
  have hclient := Client.currentSound_proxy hI.memory.nonempty
  refine ⟨hI.memory, hI.disk, ?_, hclient⟩
  have harmed : s.control.status = true ↔ s.control.daemon.inner.status = .armed :=
    AlarmStatus.isArmed_eq_true
  have hsound := harmed.trans hI.memory.sound
  rw [Option.isSome_iff_exists] at hsound
  rw [hclient, Client.status_proxy]
  simpa [AlarmDaemon.currentSound] using hsound

/-- An armed daemon that was restarted. -/
theorem coherent_of_run_restarted :
    ∃ s, Machine.Run Ipc.step Machine.anyStep hornProcess (arming ++ [.restart fun _ => none]) s ∧
      s.control.daemon.currentSound = some "builtin:horn" ∧
      Client.currentSound (Client.proxy s.control) = .ok (some "builtin:horn") := by
  obtain ⟨s, hrun, hs⟩ : ∃ s, Machine.Run Ipc.step Machine.anyStep hornProcess
      (arming ++ [.restart fun _ => none]) s ∧ s.control.daemon.currentSound = some "builtin:horn" :=
    Machine.Run.exists_of_execIf (by decide)
  obtain ⟨-, -, -, hclient⟩ := coherent_of_run hrun
  exact ⟨s, hrun, hs, hclient.trans (congrArg Except.ok hs)⟩

end HelmAlarm.Ipc
