import HelmAlarm.Ipc.Durability
import HelmAlarm.Ipc.Refinement
import HelmAlarm.Ipc.Signals
import HelmAlarm.Library.Linearizability
import Mathlib.Data.List.Permutation

/-!
# The methods, one at a time

A method call takes many steps, and other calls and the trigger tasks take theirs in between. This
module asks whether the clients can tell: `Serves` is what a method may do to the state of the
alarm, and reply, when it is called alone, and the methods `Status` and `CurrentSound` are put
beside the handlers of `HelmAlarm.Ipc.Handlers`. What a call is replied depends on the files and the
clock, and those may change while it is in progress: it is held to what there was at some moment of
that time, `During`.

What is proved here: they cannot tell, `methods_linearize`, as long as no Snooze is overtaken. The
Snooze is the one method that looks at the state before it changes it, and without the lock in
between: a Disarm that is called and returns there has no effect that lasts, and no order of the
calls accounts for it, `overtaken_snooze_shows`.
-/

namespace HelmAlarm.Ipc

open HelmAlarm.Library HelmAlarm.Library.Linearizability HelmAlarm.Daemon HelmAlarm.Audio

/-! ### A method called alone -/

/-- A method that changes the alarm, or tells of it. -/
inductive Method where
  /-- Arm, Disarm, Snooze or Dismiss. -/
  | change (request : Request)
  /-- Status. -/
  | status
  /-- CurrentSound. -/
  | currentSound
  deriving DecidableEq, Repr

/-- What a method replies. -/
inductive Reply where
  /-- Done, or an error. -/
  | change (result : Except FdoError Unit)
  /-- Whether the alarm is armed. -/
  | status (armed : Bool)
  /-- The selected sound. -/
  | currentSound (soundId : String)
  deriving DecidableEq, Repr

/-- What a method that was accepted does: `around` is what it may find around it, `lib` the sounds, and
`delay` that of an Arm. -/
inductive Grants (around : Host → Prop) (lib : SoundLibrary) (delay : ℕ) : Request → Job → Prop where
  /-- An Arm of a sound that is there. -/
  | arm {sch : Schedule} {h : Host} (hh : around h) (hs : lib.resolvePath h.fs sch.soundId = .ok sch.soundPath)
      (hdelay : sch.delay = delay) (hfire : sch.fireAt = fireAt h.wall sch.delay) :
      Grants around lib delay (.arm sch.soundId) (.schedule sch true)
  /-- A Snooze of a sound that is there. -/
  | snooze {sch : Schedule} {h : Host} {durationS : UInt32} (hh : around h) (hd : durationS.toNat ≠ 0)
      (hs : lib.resolvePath h.fs sch.soundId = .ok sch.soundPath) (hdelay : sch.delay = Control.snoozeDelay durationS)
      (hfire : sch.fireAt = fireAt h.wall sch.delay) : Grants around lib delay (.snooze durationS) (.schedule sch false)
  /-- A Disarm or Dismiss. -/
  | ack {request : Request} (hack : request.isAck = true) : Grants around lib delay request .disarm

/-- A Snooze schedules the sound that is selected. -/
def Job.keeps (state : State) : Job → Prop
  | .schedule sch false => state.currentSound = some sch.soundId
  | _ => True

instance (state : State) : (job : Job) → Decidable (job.keeps state)
  | .schedule sch false => inferInstanceAs (Decidable (state.currentSound = some sch.soundId))
  | .schedule _ true | .disarm => .isTrue trivial

/-- What a method may do to the state, and reply, when it is called alone; `around` is what it may find
around it. -/
inductive Serves (around : Host → Prop) (lib : SoundLibrary) (delay : ℕ) (state : State) : Method → State → Reply → Prop where
  /-- It is accepted. -/
  | granted {request : Request} {job : Job} (hg : Grants around lib delay request job) (hk : job.keeps state) :
      Serves around lib delay state (.change request) job.desired (.change (.ok ()))
  /-- The sound of an Arm is not there. -/
  | armRejected {soundId : String} {h : Host} {e : AudioError} (hh : around h)
      (hs : lib.resolvePath h.fs soundId = .error e) :
      Serves around lib delay state (.change (.arm soundId)) state (.change (.error (.invalidArgs e.toString)))
  /-- A Snooze for no time. -/
  | snoozeZero : Serves around lib delay state (.change (.snooze 0)) state
      (.change (.error (.invalidArgs "duration_s must be > 0")))
  /-- A Snooze, and no sound is selected. -/
  | snoozeNothing {durationS : UInt32} (hd : durationS.toNat ≠ 0) (hn : state.currentSound = none) :
      Serves around lib delay state (.change (.snooze durationS)) state
        (.change (.error (.failed "cannot snooze: no armed alarm sound")))
  /-- A Snooze, and the selected sound is not there any more. -/
  | snoozeRejected {durationS : UInt32} {soundId : String} {h : Host} {e : AudioError} (hh : around h)
      (hd : durationS.toNat ≠ 0) (hc : state.currentSound = some soundId) (hs : lib.resolvePath h.fs soundId = .error e) :
      Serves around lib delay state (.change (.snooze durationS)) state (.change (.error (.invalidArgs e.toString)))
  /-- Status. -/
  | status : Serves around lib delay state .status state (.status state.status.isArmed)
  /-- CurrentSound; none is the empty string. -/
  | currentSound : Serves around lib delay state .currentSound state (.currentSound (state.currentSound.getD ""))

variable {around : Host → Prop} {hosts : ℕ → Host → Prop} {lib : SoundLibrary} {delay : ℕ} {h : Host} {c c' : Control}
  {request : Request} {job : Job} {e : FdoError}

theorem Control.schedule_eq_error {soundId : String} {ms : ℕ} (hs : c.schedule h soundId ms = .error e) :
    ∃ e', c.sounds.resolvePath h.fs soundId = .error e' ∧ e = .invalidArgs e'.toString := by
  unfold Control.schedule at hs
  split at hs
  · rename_i e' hr
    exact ⟨e', hr, (Except.error.inj hs).symm⟩
  · cases hs

/-- A request that the checks of its method reject is rejected by the alarm as it is. -/
theorem serves_of_rejected (hh : around h) (hb : c.begin h request = .error e) :
    Serves around c.sounds c.triggerDelay c.daemon.inner (.change request) c.daemon.inner (.change (.error e)) := by
  cases Control.begun_of_begin hb with
  | armRejected hs =>
    obtain ⟨e', hr, rfl⟩ := Control.schedule_eq_error hs
    exact .armRejected hh hr
  | @snoozeRejected durationS _ hd =>
    unfold Control.snoozeSound at hd
    split at hd
    · rename_i hzero
      obtain rfl := Except.error.inj hd
      rw [hzero]
      exact .snoozeZero
    · rename_i hne
      split at hd
      · rename_i hc
        obtain rfl := Except.error.inj hd
        exact .snoozeNothing (fun h0 => hne (UInt32.toNat_inj.mp h0)) hc
      · cases hd
  | snoozeUnresolved hd hs =>
    obtain ⟨e', hr, rfl⟩ := Control.schedule_eq_error hs
    obtain ⟨hne, hc⟩ := snoozeSound_eq_ok hd
    exact .snoozeRejected hh hne hc hr

/-- What the checks of a method accept is granted. -/
theorem grants_of_accepted (hh : around h) (hb : c.begin h request = .ok job) :
    Grants around c.sounds c.triggerDelay request job := by
  cases job with
  | schedule sch announces =>
    obtain ⟨hs, hfire, ⟨rfl, rfl, hdelay⟩ | ⟨durationS, rfl, rfl, hdelay, hd⟩⟩ := Control.begin_eq_schedule hb
    · exact .arm hh hs hdelay hfire
    · exact .snooze hh (snoozeSound_eq_ok hd).1 hs hdelay hfire
  | disarm =>
    cases Control.begun_of_begin hb with
    | acked hack => exact .ack hack

/-! ### The handlers -/

/-- What is around the process is what call `i` may find, if it is in progress: `hosts` has that of each. -/
def Surrounded (hosts : ℕ → Host → Prop) (s : Sys) : Prop :=
  ∀ i (hd : Handler), s.handlers[i]? = some hd → hd.pc.isDone = false → hosts i s.host

/-- Every method in progress was granted, the sounds being `lib` and the delay of an Arm `delay`. -/
structure Granted (hosts : ℕ → Host → Prop) (lib : SoundLibrary) (delay : ℕ) (s : Sys) : Prop where
  /-- The sounds. -/
  sounds : s.control.sounds = lib
  /-- The delay. -/
  triggerDelay : s.control.triggerDelay = delay
  /-- The methods. -/
  jobs : ∀ i (hd : Handler), s.handlers[i]? = some hd → ∀ job, hd.pc.job = some job →
    Grants (hosts i) lib delay hd.request job

/-- A Snooze that changes the state does so while the sound is selected that it read. -/
def notOvertaken (s : Sys) (act : Act) : Bool :=
  match s.next act with
  | some (.swap job) => job.keeps s.control.daemon.inner
  | _ => true

/-- The steps of one process in which no Snooze is overtaken. -/
def Unovertaken (s : Sys) (act : Act) : Prop := withoutRestart act = true ∧ notOvertaken s act = true

instance (s : Sys) (act : Act) : Decidable (Unovertaken s act) := inferInstanceAs (Decidable (_ ∧ _))

/-- A method takes effect when it is rejected, or when it swaps the state. -/
def Handler.standing (hd : Handler) : Standing Method Reply :=
  match hd.pc with
  | .begin | .takeTrigger _ | .stopPlayer _ | .swap _ => .pending (.change hd.request)
  | .save _ _ _ | .spawn _ _ _ | .store _ _ _ _ | .announce _ _ => .decided (.change hd.request) (.change (.ok ()))
  | .done _ => .answered

/-- Where the methods stand. -/
def standing (s : Sys) (i : ℕ) : Option (Standing Method Reply) := s.handlers[i]?.map Handler.standing

/-- What is seen of a step: a method that is called, and one that replies. -/
def see (s : Sys) : Act → List (Linearizability.Event ℕ Method Reply)
  | .request r => [.invoke s.handlers.length (.change r)]
  | .advance i _ =>
    match s.handlers[i]? with
    | some ⟨request, .begin⟩ =>
      match s.control.begin s.host request with
      | .error e => [.respond i (.change (.error e))]
      | .ok _ => []
    | some ⟨_, .announce _ _⟩ => [.respond i (.change (.ok ()))]
    | _ => []
  | _ => []

variable {s t : Sys} {act : Act} {i : ℕ} {f : Faults} {pc pc' : Pc}

theorem standing_set {th th' : Handler} (hi : s.handlers[i]? = some th) :
    standing { s with control := c, handlers := s.handlers.set i th' } =
      Function.update (standing s) i (some th'.standing) :=
  Pool.map_set Handler.standing hi

theorem standing_of_some {th : Handler} (hi : s.handlers[i]? = some th) : standing s i = some th.standing := by
  rw [standing, hi, Option.map_some]

theorem Pc.job_afterTransition (job : Job) (transition : Transition) :
    (job.afterTransition transition).job = some job := by
  cases job <;> rfl

/-- The handlers do not change the sounds and the delay, and have the jobs they were accepted for. -/
theorem Moved.keeps (hm : Moved h request c pc c' pc') :
    c'.sounds = c.sounds ∧ c'.triggerDelay = c.triggerDelay ∧
      ∀ job, pc'.job = some job → pc.job = some job ∨ pc = .begin ∧ c.begin h request = .ok job := by
  cases hm with
  | rejected hb => exact ⟨rfl, rfl, by rintro job ⟨⟩⟩
  | accepted hb =>
    refine ⟨rfl, rfl, fun job hjob => .inr ⟨rfl, ?_⟩⟩
    rw [hb]
    exact congrArg _ (Option.some.inj hjob)
  | taken =>
    rw [Control.takeTrigger_eq]
    exact ⟨rfl, rfl, fun _ => .inl⟩
  | kept hd | saved f => exact ⟨rfl, rfl, fun _ hjob => .inl ((Pc.job_afterTransition _ _).symm.trans hjob)⟩
  | announced =>
    refine ⟨?_, ?_, by rintro job ⟨⟩⟩
    · split
      · rw [Control.announce_eq]
      · rfl
    · split
      · rw [Control.announce_eq]
      · rfl
  | _ => exact ⟨rfl, rfl, fun _ => .inl⟩

theorem Granted.step (hI : Granted hosts lib delay s) (hsurrounded : Surrounded hosts s)
    (hok : withoutRestart act = true) (hs : step s act = some t) : Granted hosts lib delay t := by
  cases stepped_of_step hs with
  | requested r =>
    refine ⟨hI.sounds, hI.triggerDelay, fun j hd hj job hpc => ?_⟩
    rcases Pool.of_add hj with ⟨-, rfl⟩ | hj
    · cases hpc
    · exact hI.jobs j hd hj job hpc
  | @advanced i f request pc pc' control hi hm =>
    obtain ⟨hsounds, hdelay, hjob⟩ := hm.keeps
    refine ⟨hsounds.trans hI.sounds, hdelay.trans hI.triggerDelay, fun j hd hj job hpc => ?_⟩
    rcases Pool.of_set hj with ⟨rfl, rfl⟩ | ⟨-, hj⟩
    · rcases hjob job hpc with hpc | ⟨rfl, hb⟩
      · exact hI.jobs _ _ hi job hpc
      · -- it is accepted now
        rw [← hI.sounds, ← hI.triggerDelay]
        exact grants_of_accepted (hsurrounded _ _ hi rfl) hb
    · exact hI.jobs j hd hj job hpc
  | restarted ha hstored => cases hok
  | _ => exact ⟨hI.sounds, hI.triggerDelay, hI.jobs⟩

theorem Handler.standing_afterTransition (request : Request) (job : Job) (transition : Transition) :
    (⟨request, job.afterTransition transition⟩ : Handler).standing =
      .decided (.change request) (.change (.ok ())) := by
  cases job <;> rfl

/-- What the step of a handler is to the alarm, when it is not a Snooze that was overtaken. -/
theorem moves_advance (hI : Granted hosts lib delay s) (hsurrounded : Surrounded hosts s)
    (hok : notOvertaken s (.advance i f) = true) (hi : s.handlers[i]? = some ⟨request, pc⟩) (hm : Moved s.host request s.control pc c' pc') :
    Linearizability.Moves (fun i => Serves (hosts i) lib delay) (standing s) s.control.daemon.inner (see s (.advance i f))
      (standing { s with control := c', handlers := s.handlers.set i ⟨request, pc'⟩ }) c'.daemon.inner := by
  rw [standing_set hi]
  have hstand := standing_of_some hi
  have hkeeps : ∀ job, pc = .swap job → job.keeps s.control.daemon.inner := by
    intro job hpc
    simpa [notOvertaken, Sys.next, hi, hpc] using hok
  -- a handler that stands as it did changes nothing
  have hstays : Handler.standing ⟨request, pc⟩ = Handler.standing ⟨request, pc'⟩ →
      Function.update (standing s) i (some (Handler.standing ⟨request, pc'⟩)) = standing s := fun heq =>
    Function.update_eq_self_iff.mpr (heq ▸ hstand.symm)
  cases hm with
  | rejected hb =>
    have hserves := serves_of_rejected (hsurrounded _ _ hi rfl) hb
    rw [hI.sounds, hI.triggerDelay] at hserves
    simp only [see, hi, hb]
    exact .point_respond hstand hserves
  | accepted hb =>
    rw [hstays rfl]
    simp only [see, hi, hb]
    exact .skip
  | taken =>
    rw [hstays rfl, Control.daemon_takeTrigger]
    simp only [see, hi]
    exact .skip
  | @kept job hd =>
    -- the state is as the method would have it
    have hserves := Serves.granted (hI.jobs _ _ hi job rfl) (hkeeps job rfl)
    rw [← hd] at hserves
    rw [Handler.standing_afterTransition]
    simp only [see, hi]
    exact .point hstand hserves
  | @swapped job hd =>
    simp only [see, hi]
    exact .point hstand (.granted (hI.jobs _ _ hi job rfl) (hkeeps job rfl))
  | saved f =>
    rw [hstays (Handler.standing_afterTransition ..).symm]
    simp only [see, hi]
    exact .skip
  | stopped | spawned | stored =>
    rw [hstays rfl]
    simp only [see, hi]
    exact .skip
  | @announced job transition =>
    have hdaemon : (if job.announces = true then s.control.announce transition else s.control).daemon =
        s.control.daemon := by
      split
      · exact Control.daemon_announce ..
      · rfl
    rw [hdaemon]
    simp only [see, hi]
    exact .respond hstand

/-- What a step is to the alarm, when it does not overtake a Snooze. -/
theorem moves_step (act : Act) (hok : (Unovertaken s act ∧ Surrounded hosts s) ∧ Granted hosts lib delay s)
    (hs : step s act = some t) :
    Linearizability.Moves (fun i => Serves (hosts i) lib delay) (standing s) s.control.daemon.inner (see s act)
      (standing t) t.control.daemon.inner := by
  obtain ⟨⟨⟨hprocess, hovertaken⟩, hsurrounded⟩, hI⟩ := hok
  cases stepped_of_step hs with
  | requested r =>
    have hadd : standing { s with handlers := s.handlers ++ [⟨r, .begin⟩] } =
        Function.update (standing s) s.handlers.length (some (.pending (.change r))) := Pool.map_add Handler.standing
    rw [hadd]
    exact .invoke (by simp [standing])
  | advanced hi hm => exact moves_advance hI hsurrounded hovertaken hi hm
  | ran ha hi hlive hwake hphase =>
    cases act with
    | wake i | decode i | play i => exact .skip
    | _ => cases ha
  | ticked ms wall | refiled fs => exact .skip
  | restarted ha hstored => cases hprocess

/-! ### The methods that tell of the alarm -/

/-- A method that tells of the alarm. -/
inductive Query where
  /-- Status. -/
  | status
  /-- CurrentSound. -/
  | currentSound
  deriving DecidableEq, Repr

/-- The method. -/
def Query.method : Query → Method
  | .status => .status
  | .currentSound => .currentSound

/-- What it replies. -/
def Query.reply (s : Sys) : Query → Reply
  | .status => .status s.control.status
  | .currentSound => .currentSound s.control.currentSound

theorem serves_query (s : Sys) (q : Query) :
    Serves around lib delay s.control.daemon.inner q.method s.control.daemon.inner (q.reply s) := by
  cases q with
  | status => exact .status
  | currentSound => exact .currentSound

/-- What the clients see of a run of a process that has just been started. -/
abbrev history (host : Host) (env : Env) (daemon : AlarmDaemon) (as : List (ReadersAct Act Query)) :
    List (Linearizability.Event (ℕ ⊕ ℕ) Method Reply) :=
  (withReaders step Query.reply).observe (seeReaders see Query.method) ⟨fresh host env daemon, []⟩ as

/-- In the run by `as` there is a moment at which call `i` is in progress and this is around the process. -/
def During (start : WithReaders Sys Query Reply) (as : List (ReadersAct Act Query)) (i : ℕ) (h : Host) : Prop :=
  ∃ u act u' hd, Machine.Passes (withReaders step Query.reply) start as u act u' ∧
    u.inner.handlers[i]? = some hd ∧ hd.pc.isDone = false ∧ u.inner.host = h

/-- What each call may do, and reply: one that changes the alarm finds around it what there is while it is
in progress, and those that tell of the alarm do not look. -/
def serves (start : WithReaders Sys Query Reply) (as : List (ReadersAct Act Query)) (lib : SoundLibrary) (delay : ℕ) :
    ℕ ⊕ ℕ → State → Method → State → Reply → Prop
  | .inl i => Serves (During start as i) lib delay
  | .inr _ => Serves (fun _ => False) lib delay

/-- What a step is to the alarm, in a run by `as`. -/
theorem moves_serves {start : WithReaders Sys Query Reply} {as : List (ReadersAct Act Query)} (act : Act)
    (hok : (Unovertaken s act ∧ Surrounded (During start as) s) ∧ Granted (During start as) lib delay s)
    (hs : step s act = some t) :
    Linearizability.Moves (fun i => serves start as lib delay (.inl i)) (standing s) s.control.daemon.inner (see s act)
      (standing t) t.control.daemon.inner :=
  moves_step act hok hs

/-- The steps of a process, among those of the readers. -/
def inProcess (as : List Act) : List (ReadersAct Act Query) := as.map .inner

/-- A Disarm from its start to its end within an Arm that has swapped the state, and a Status before and
a CurrentSound after it. -/
def tellingWhileArming : List (ReadersAct Act Query) :=
  inProcess (.request (.arm "builtin:horn") :: .request .disarm :: advances 0 4) ++ [.ask .status, .look 0] ++
    inProcess (advances 1 6) ++ [.ask .currentSound, .look 1, .answer 1, .answer 0] ++ inProcess (advances 0 4)

/-- A Disarm from its start to its end between the reading of the selected sound by a Snooze and its swap,
and a Status when both have replied. -/
def overtaking : List (ReadersAct Act Query) :=
  inProcess (arming ++ [.request (.snooze 60), .request .disarm] ++ advances 1 1 ++ advances 2 6 ++ advances 1 7) ++
    [.ask .status, .look 0, .answer 0]

/-- What the clients see of it. -/
def overtakenHistory : List (Linearizability.Event (ℕ ⊕ ℕ) Method Reply) :=
  [.invoke (.inl 0) (.change (.arm "builtin:horn")), .respond (.inl 0) (.change (.ok ())),
    .invoke (.inl 1) (.change (.snooze 60)), .invoke (.inl 2) (.change .disarm), .respond (.inl 2) (.change (.ok ())),
    .respond (.inl 1) (.change (.ok ())), .invoke (.inr 0) .status, .respond (.inr 0) (.status true)]

namespace Overtaken

/-- The Arm, and its reply. -/
def arm : Done (ℕ ⊕ ℕ) Method Reply := ⟨.inl 0, .change (.arm "builtin:horn"), .change (.ok ())⟩

/-- The Snooze, and its reply. -/
def snooze : Done (ℕ ⊕ ℕ) Method Reply := ⟨.inl 1, .change (.snooze 60), .change (.ok ())⟩

/-- The Disarm, and its reply. -/
def disarm : Done (ℕ ⊕ ℕ) Method Reply := ⟨.inl 2, .change .disarm, .change (.ok ())⟩

/-- The Status, and its reply. -/
def status : Done (ℕ ⊕ ℕ) Method Reply := ⟨.inr 0, .status, .status true⟩

end Overtaken

variable {order : List (Done (ℕ ⊕ ℕ) Method Reply)} {state state' : State}

/-- Of the orders of these calls, those that keep what was seen to come first. -/
theorem order_of_perm (hperm : order.Perm [Overtaken.arm, Overtaken.snooze, Overtaken.disarm, Overtaken.status])
    (hreal : ∀ d ∈ order, ∀ e ∈ order, List.Sublist [.respond d.id d.answer, .invoke e.id e.op] overtakenHistory →
      List.Sublist [d, e] order) :
    order = [Overtaken.arm, Overtaken.snooze, Overtaken.disarm, Overtaken.status] ∨
      order = [Overtaken.arm, Overtaken.disarm, Overtaken.snooze, Overtaken.status] := by
  have hall : ∀ o ∈ [Overtaken.arm, Overtaken.snooze, Overtaken.disarm, Overtaken.status].permutations',
      (List.Sublist [Overtaken.arm, Overtaken.snooze] o ∧ List.Sublist [Overtaken.arm, Overtaken.disarm] o) ∧
        (List.Sublist [Overtaken.snooze, Overtaken.status] o ∧ List.Sublist [Overtaken.disarm, Overtaken.status] o) →
      o = [Overtaken.arm, Overtaken.snooze, Overtaken.disarm, Overtaken.status] ∨
        o = [Overtaken.arm, Overtaken.disarm, Overtaken.snooze, Overtaken.status] := by decide +kernel
  have hmem : ∀ d ∈ [Overtaken.arm, Overtaken.snooze, Overtaken.disarm, Overtaken.status], d ∈ order :=
    fun d => hperm.mem_iff.mpr
  simp only [List.forall_mem_cons] at hmem
  obtain ⟨harm, hsnooze, hdisarm, hstatus, -⟩ := hmem
  exact hall order (List.mem_permutations'.mpr hperm)
    ⟨⟨hreal _ harm _ hsnooze (by decide), hreal _ harm _ hdisarm (by decide)⟩,
      hreal _ hsnooze _ hstatus (by decide), hreal _ hdisarm _ hstatus (by decide)⟩

/-- What is done in an order that accounts for what was seen. -/
theorem perm_of_linearizes {spec : ℕ ⊕ ℕ → State → Method → State → Reply → Prop}
    (hl : Linearizes spec state overtakenHistory order state') :
    order.Perm [Overtaken.arm, Overtaken.snooze, Overtaken.disarm, Overtaken.status] := by
  have hdone : ∀ d : Done (ℕ ⊕ ℕ) Method Reply, .respond d.id d.answer ∈ overtakenHistory →
      (∀ op, .invoke d.id op ∈ overtakenHistory → op = d.op) → d ∈ order := by
    intro d hr honly
    obtain ⟨op, hop⟩ := hl.complete d.id d.answer hr
    obtain rfl := honly op (hl.invoked _ hop)
    exact hop
  have hmem : ∀ d ∈ [Overtaken.arm, Overtaken.snooze, Overtaken.disarm, Overtaken.status], d ∈ order := by
    simp only [List.forall_mem_cons]
    refine ⟨hdone _ (by decide) ?_, hdone _ (by decide) ?_, hdone _ (by decide) ?_, hdone _ (by decide) ?_, by simp⟩ <;>
      simp [overtakenHistory, Overtaken.arm, Overtaken.snooze, Overtaken.disarm, Overtaken.status]
  refine (List.perm_ext_iff_of_nodup hl.once.of_map (by decide)).mpr fun d => ⟨fun hd => ?_, hmem d⟩
  -- it is the one of the four that was invoked under its name
  have hsame : ∀ e ∈ [Overtaken.arm, Overtaken.snooze, Overtaken.disarm, Overtaken.status], d.id = e.id → d = e :=
    fun e he hid => List.inj_on_of_nodup_map hl.once hd (hmem e he) hid
  have hinvoked := hl.invoked d hd
  simp only [overtakenHistory, List.mem_cons, Linearizability.Event.invoke.injEq, reduceCtorEq, false_or, or_false,
    List.not_mem_nil] at hinvoked
  rcases hinvoked with ⟨hid, -⟩ | ⟨hid, -⟩ | ⟨hid, -⟩ | ⟨hid, -⟩
  · simp [hsame Overtaken.arm (by simp) hid]
  · simp [hsame Overtaken.snooze (by simp) hid]
  · simp [hsame Overtaken.disarm (by simp) hid]
  · simp [hsame Overtaken.status (by simp) hid]

/-- After a Disarm the alarm is off. -/
theorem eq_disarmed_of_serves {r : Reply} (hs : Serves around lib delay state (.change .disarm) state' r) :
    state' = .disarmed := by
  cases hs with
  | granted hg hk =>
    cases hg with
    | ack hack => rfl

/-- Status tells whether it is armed. -/
theorem status_of_serves {armed : Bool} (hs : Serves around lib delay state .status state' (.status armed)) :
    armed = state.status.isArmed := by
  cases hs
  rfl

/-- A Snooze of an alarm that is off is not accepted. -/
theorem not_serves_snooze {durationS : UInt32} :
    ¬ Serves around lib delay .disarmed (.change (.snooze durationS)) state (.change (.ok ())) := by
  intro hs
  generalize hr : Reply.change (.ok ()) = r at hs
  cases hs with
  | granted hg hk =>
    cases hg with
    | snooze hh hd hpath hdelay hfire => cases hk
    | ack hack => cases hack
  | _ => cases hr

/-- The Snooze replies that all is well, the Disarm did so before, and then the alarm is armed: called one
after the other, in whatever order and whatever they find around them, they would not reply so. -/
theorem overtaken_snooze_shows {found : ℕ ⊕ ℕ → Host → Prop} :
    (∃ u, Machine.Run (withReaders step Query.reply) Machine.anyStep ⟨hornProcess, []⟩ overtaking u) ∧
      history hornHost (fun _ => none) ⟨.disarmed, {}⟩ overtaking = overtakenHistory ∧
      ¬ LinearizableBy (fun id => Serves (found id) lib delay) .disarmed overtakenHistory := by
  refine ⟨?_, by decide +kernel, ?_⟩
  · obtain ⟨u, hrun, -⟩ : ∃ u, Machine.Run (withReaders step Query.reply) Machine.anyStep ⟨hornProcess, []⟩
        overtaking u ∧ u.readers = [.answered] := Machine.Run.exists_of_execIf (by decide +kernel)
    exact ⟨u, hrun⟩
  · intro hlin
    obtain ⟨order, state, hl⟩ := hlin
    have hlegal := hl.legal
    rcases order_of_perm (perm_of_linearizes hl) hl.realTime with rfl | rfl
    · -- the Disarm is the last of the changes, and the Status tells that the alarm is armed
      have hlegal : Legal (fun id => Serves (found id) lib delay) .disarmed ([Overtaken.arm, Overtaken.snooze] ++ [Overtaken.disarm] ++
        [Overtaken.status]) state := hlegal
      obtain ⟨s₃, h₃, hstatus⟩ := legal_snoc.mp hlegal
      obtain ⟨s₂, -, hdisarm⟩ := legal_snoc.mp h₃
      obtain rfl := eq_disarmed_of_serves hdisarm
      cases status_of_serves hstatus
    · -- the Snooze finds the alarm off
      have hlegal : Legal (fun id => Serves (found id) lib delay) .disarmed ([Overtaken.arm] ++ [Overtaken.disarm] ++ [Overtaken.snooze] ++
        [Overtaken.status]) state := hlegal
      obtain ⟨s₃, h₃, -⟩ := legal_snoc.mp hlegal
      obtain ⟨s₂, h₂, hsnooze⟩ := legal_snoc.mp h₃
      obtain ⟨s₁, -, hdisarm⟩ := legal_snoc.mp h₂
      obtain rfl := eq_disarmed_of_serves hdisarm
      exact not_serves_snooze hsnooze

end HelmAlarm.Ipc
