import HelmAlarm.Ipc.Durability
import HelmAlarm.Process.Service

/-!
# Lifetimes

The machine of handlers knows the start of a process as one step, `restart`, which finds
what the process before it left. `HelmAlarm.Process.Service` takes it apart: between the
end of one process and the moment the next one serves there are the steps of `run`, each
of which may fail, and then another start, any number of times. As long as every process
opens the same database, and can stat its file, the one machine is the other: a start that
fails before it has loaded the state is nothing, one that has is a restart, and all that
happens within the processes is what it was, `lifetimes_refine_handlers`. So what is
proved of handlers and triggers holds of the service.

The stat is the one fault that does not make a start fail: the file is taken for absent,
and the process comes up disarmed beside an alarm on disk, `unstatted_start_disarms`.

What is proved here with it: an alarm survives an outage. When calls are made one at a
time and their saves succeed, then whenever no process is up, however many starts have
failed and wherever they did, the next process that loads the state finds that of the last
call that returned ok, or that of the call in progress when a process ended:
`outage_is_survived`.
-/

namespace HelmAlarm.Process.Service

open HelmAlarm.Library HelmAlarm.Daemon HelmAlarm.Audio HelmAlarm.Ipc

variable {path : String} {u v : Unit} {s t : Sys} {act : Act} {as : List Act}

/-- A process that is started opens this database, if its bus is configured. -/
def opens (path : String) : Act → Bool
  | .start env =>
    match BusKind.fromEnv env with
    | .ok kind => kind.dbPath env = path
    | .error _ => true
  | _ => true

/-- A process that loads the state can stat its database. -/
def stats : Act → Bool
  | .advance f => f.load.stat.isNone
  | _ => true

/-- The steps of processes that open this database, and can stat it. -/
def OneDatabase (path : String) (_ : Unit) (act : Act) : Prop := opens path act = true ∧ stats act = true

instance (path : String) (u : Unit) (act : Act) : Decidable (OneDatabase path u act) :=
  inferInstanceAs (Decidable (_ ∧ _))

/-- What a step is to the machine of handlers. -/
def means (u : Unit) : Act → List Ipc.Act
  | .inside act => [act]
  | .tick ms wall => [.tick ms wall]
  | .files fs => [.files fs]
  | .advance f =>
    match u.main with
    | some (.begun env) => if (u.load f.load env).toBool then [.restart env] else []
    | _ => []
  | .start _ | .signal | .kill => []

/-- The machine of handlers still has the process that left the database and its tasks. -/
def Left (path : String) (u : Unit) (s : Sys) : Prop :=
  s.control.daemon.persistence.file = u.disk path ∧ endTasks s.control.tasks = u.tasks

/-- What the machine of handlers has of a process. -/
def Main.Shown (path : String) (u : Unit) (s : Sys) : Option Main → Prop
  | none => Left path u s
  | some (.begun env) => opens path (.start env) = true ∧ Left path u s
  | some (.loaded env p daemon) | some (.prepared env p daemon) =>
    p = path ∧ s.control = { Control.new env daemon with tasks := u.tasks } ∧ s.handlers = []
  | some (.controlled p control) => p = path ∧ s.control = control ∧ s.handlers = []
  | some (.serving p control handlers _) => p = path ∧ s.control = control ∧ s.handlers = handlers

/-- The machine of handlers is in the state of the service. -/
structure Shows (path : String) (u : Unit) (s : Sys) : Prop where
  /-- What is around it is the same. -/
  host : s.host = u.host
  /-- The tasks of earlier processes have ended. -/
  tasks : endTasks u.tasks = u.tasks
  /-- It has the process, or what the last one left. -/
  process : Main.Shown path u s u.main

/-! ### What a step keeps -/

theorem endTasks_endTasks (tasks : List Task) : endTasks (endTasks tasks) = endTasks tasks := by
  simp [endTasks]

/-- What happens within a process changes nothing around it. -/
theorem host_of_inside {act : Ipc.Act} (hin : isInside act = true) (hs : Ipc.step s act = some t) :
    t.host = s.host := by
  cases Ipc.stepped_of_step hs with
  | ticked ms wall | refiled fs | restarted ha hd => cases hin
  | _ => rfl

@[simp] theorem Unit.keep_self (u : Unit) (path : String) (daemon : AlarmDaemon) :
    u.keep path daemon path = daemon.persistence.file := Function.update_self _ _ _

/-- A process that has ended leaves its database and its tasks. -/
theorem Shows.ended {main : Main} (h : Shows path u s) (hmain : u.main = some main)
    (exit : Option (Except AlarmError PUnit)) : Shows path (u.ended exit) s := by
  obtain ⟨hhost, htasks, hprocess⟩ := h
  rw [hmain] at hprocess
  unfold Unit.ended
  cases main with
  | begun env =>
    simp only [hmain]
    exact ⟨hhost, htasks, hprocess.2⟩
  | loaded env p daemon | prepared env p daemon =>
    obtain ⟨rfl, hcontrol, -⟩ := hprocess
    simp only [hmain]
    refine ⟨hhost, htasks, ?_, ?_⟩
    · rw [hcontrol]
      exact (Unit.keep_self _ _ _).symm
    · rw [hcontrol]
      exact htasks
  | controlled p control | serving p control handlers stage =>
    obtain ⟨rfl, rfl, -⟩ := hprocess
    simp only [hmain]
    exact ⟨hhost, endTasks_endTasks _, (Unit.keep_self _ _ _).symm, rfl⟩

/-- A start that cannot stat its database comes up disarmed, whatever is in it. -/
theorem unstatted_start_disarms {env : Env} {f : StartFaults} {kind : BusKind} (hmain : u.main = some (.begun env))
    (hkind : BusKind.fromEnv env = .ok kind) (hstat : f.load.stat ≠ none) :
    Service.step u (.advance f) = some { u with
      main := some (.loaded env (kind.dbPath env) ⟨.disarmed, ⟨false, u.disk (kind.dbPath env)⟩⟩) } := by
  simp only [Service.step, Unit.advance, hmain, Unit.load, hkind, AlarmDaemon.newPersistent_of_stat hstat]

/-- A process that can stat its database and loads the state is a restart. -/
theorem Shows.loaded {env : Env} {f : Faults} {p : String} {daemon : AlarmDaemon} (h : Shows path u s)
    (hmain : u.main = some (.begun env)) (hstat : f.stat = none) (hload : u.load f env = .ok (p, daemon)) :
    ∃ t, Ipc.step s (.restart env) = some t ∧ Shows path { u with main := some (.loaded env p daemon) } t := by
  obtain ⟨hhost, htasks, hprocess⟩ := h
  rw [hmain] at hprocess
  obtain ⟨hopens, hfile, hended⟩ := hprocess
  unfold Unit.load at hload
  split at hload
  · cases hload
  · rename_i kind hkind
    split at hload
    · cases hload
    · rename_i daemon' r hnew
      obtain ⟨rfl, rfl⟩ := Prod.mk.inj (Except.ok.inj hload)
      have hpath : kind.dbPath env = path := by simpa [opens, hkind] using hopens
      have hcrashed : s.control.daemon.persistence.crashed = ⟨false, u.disk (kind.dbPath env)⟩ := by
        rw [hpath, ← hfile]
        rfl
      have hrestart := AlarmDaemon.newPersistent_none_of_ok hstat hnew
      rw [← hcrashed, ← hhost] at hrestart
      refine ⟨{ s with control := { Control.new env daemon' with tasks := endTasks s.control.tasks }, handlers := [] },
        by simp only [Ipc.step, hrestart], hhost, htasks, hpath, ?_, rfl⟩
      rw [hended]

/-- A process that serves is what the machine of handlers has. -/
theorem Shows.eq_of_serving {p : String} {control : Control} {handlers : List Handler} {stage : Stage}
    (h : Shows path u s) (hmain : u.main = some (.serving p control handlers stage)) :
    p = path ∧ s = ⟨u.host, control, handlers⟩ := by
  obtain ⟨hhost, -, hprocess⟩ := h
  rw [hmain] at hprocess
  obtain ⟨hp, hcontrol, hhandlers⟩ := hprocess
  exact ⟨hp, by rw [← hhost, ← hcontrol, ← hhandlers]⟩

/-- What happens within a process happens to the handlers. -/
theorem Shows.ran {act : Ipc.Act} {p : String} {control : Control} {handlers : List Handler} {stage : Stage}
    (h : Shows path u s) (hmain : u.main = some (.serving p control handlers stage)) (hin : isInside act = true)
    (hs : Ipc.step ⟨u.host, control, handlers⟩ act = some t) :
    Ipc.step s act = some t ∧ Shows path { u with main := some (.serving p t.control t.handlers stage) } t := by
  obtain ⟨hp, rfl⟩ := h.eq_of_serving hmain
  exact ⟨hs, host_of_inside hin hs, h.tasks, hp, rfl, rfl⟩

/-- What `run` does is nothing to the handlers, unless it loads the state. -/
theorem means_of_main (hact : act.isMain = true) (hmain : ∀ env, u.main ≠ some (.begun env)) : means u act = [] := by
  cases act with
  | advance f =>
    cases hm : u.main with
    | none => simp only [means, hm]
    | some main =>
      cases main with
      | begun env => exact absurd hm (hmain env)
      | _ => simp only [means, hm]
  | start env | signal | kill => rfl
  | inside act | tick ms wall | files fs => cases hact

/-- Nor is the end of a process. -/
theorem means_of_ended {main : Main} (hact : act.isMain = true) (hmain : u.main = some main)
    (hload : ∀ env f, main = .begun env → act = .advance f → ∃ e, u.load f.load env = .error e) : means u act = [] := by
  cases main with
  | begun env =>
    cases act with
    | advance f =>
      obtain ⟨e, herror⟩ := hload env f rfl rfl
      simp only [means, hmain, herror]
      rfl
    | start env | signal | kill => rfl
    | inside act | tick ms wall | files fs => cases hact
  | _ => exact means_of_main hact (by simp [hmain])

/-- Every step of the service is what it means to the handlers. -/
theorem Shows.step (h : Shows path u s) (hok : OneDatabase path u act) (hs : Service.step u act = some v) :
    ∃ t, Ipc.step.exec s (means u act) = some t ∧ Shows path v t := by
  cases stepped_of_step hs with
  | @started env hmain =>
    obtain ⟨hhost, htasks, hprocess⟩ := h
    rw [hmain] at hprocess
    exact ⟨s, rfl, hhost, htasks, hok.1, hprocess⟩
  | loaded hmain hload =>
    obtain ⟨t, hrestart, ht⟩ := h.loaded hmain (Option.isNone_iff_eq_none.mp hok.2) hload
    refine ⟨t, ?_, ht⟩
    simp only [means, hmain, hload]
    exact Option.bind_eq_some_iff.mpr ⟨t, hrestart, rfl⟩
  | prepared hmain | controlled hmain | connected hmain =>
    rw [means_of_main rfl (by simp [hmain])]
    have hprocess := h.process
    rw [hmain] at hprocess
    exact ⟨s, rfl, h.host, h.tasks, hprocess⟩
  | moved hact hmain =>
    rw [means_of_main hact (by simp [hmain])]
    have hprocess := h.process
    rw [hmain] at hprocess
    exact ⟨s, rfl, h.host, h.tasks, hprocess⟩
  | ended hact hmain hload =>
    rw [means_of_ended hact hmain hload]
    exact ⟨s, rfl, h.ended hmain _⟩
  | ran hmain hin hipc =>
    obtain ⟨hstep, ht⟩ := h.ran hmain hin hipc
    exact ⟨_, Option.bind_eq_some_iff.mpr ⟨_, hstep, rfl⟩, ht⟩
  | ticked ms wall =>
    obtain ⟨hhost, htasks, hprocess⟩ := h
    exact ⟨{ s with host := s.host.tick ms wall }, rfl, congrArg (Host.tick ms wall) hhost, htasks, hprocess⟩
  | refiled fs =>
    obtain ⟨hhost, htasks, hprocess⟩ := h
    exact ⟨{ s with host := { s.host with fs := fs } }, rfl, congrArg (fun host => { host with fs := fs }) hhost,
      htasks, hprocess⟩

theorem shows_off (host : Host) (disk : String → Option Redb) (env : Env) :
    Shows path (off host disk) (fresh host env ⟨.disarmed, ⟨false, disk path⟩⟩) :=
  ⟨rfl, rfl, rfl, rfl⟩

/-- Every run of the service whose processes open one database, and can stat its file, over any number of
lifetimes, starts that fail at any step, shutdowns and kills, is a run of the handlers, triggers, clocks
and restarts, in which the same calls, tasks and clocks take the same steps in the same order, and a
process that loads the state is a restart. -/
theorem lifetimes_refine_handlers {host : Host} {disk : String → Option Redb} (env : Env)
    (h : Machine.Run step (OneDatabase path) (off host disk) as u) :
    ∃ s, Machine.Run Ipc.step Machine.anyStep (fresh host env ⟨.disarmed, ⟨false, disk path⟩⟩)
      (step.observe means (off host disk) as) s ∧ Shows path u s := by
  obtain ⟨s, hexec, hs⟩ := h.simulate (R := Shows path) (f := means) (fun u act v s hR hok hs => hR.step hok hs)
    (shows_off host disk env)
  exact ⟨s, Machine.exec_eq_some_iff.mp hexec, hs⟩

/-- A process in the default environment comes up. -/
def comingUp : List Act := .start (fun _ => none) :: List.replicate 6 (.advance {})

/-- The database it opens. -/
def outagePath : String := "./.local/state/helm/alarm-daemon.redb"

/-- An Arm, and a Disarm that has saved when the process is killed; then a start that finds the database
locked, and one with a bus there is not. -/
def outage : List Act :=
  comingUp ++ arming.map .inside ++ (Ipc.Act.request .disarm :: advances 1 5).map .inside ++
    [.kill, .start (fun _ => none), .advance { load := { create := some "locked" } },
      .start (fun name => if name = "ALARM_DAEMON_BUS" then some "tcp" else none), .advance {}]

theorem lifetimes_refine_handlers_outage :
    ∃ u s, Machine.Run step (OneDatabase outagePath) (off hornHost fun _ => none) outage u ∧
      Machine.Run Ipc.step Machine.anyStep hornProcess (step.observe means (off hornHost fun _ => none) outage) s ∧
      Shows outagePath u s := by
  obtain ⟨u, hrun, -⟩ : ∃ u, Machine.Run step (OneDatabase outagePath) (off hornHost fun _ => none)
      outage u ∧ True := Machine.Run.exists_of_execIf (by decide +kernel)
  obtain ⟨s, hs, hshows⟩ := lifetimes_refine_handlers (fun _ => none) hrun
  exact ⟨u, s, hrun, hs, hshows⟩

/-! ### Outages -/

/-- What there is to know of the calls. -/
structure Ledger where
  /-- The state of the last call that returned ok, or with which a process came up since. -/
  settled : State := .disarmed
  /-- The states that the calls asked for which were in progress when the last process ended. -/
  asked : List State := []
  deriving DecidableEq, Repr

/-- The states that handlers in progress ask for. -/
def inProgress (handlers : List Handler) : List State := handlers.filterMap fun hd => hd.pc.job.map Job.desired

/-- The ledger after a step. -/
def Ledger.after (ledger : Ledger) (u : Unit) (act : Act) (v : Unit) : Ledger :=
  match u.main, act, v.main with
  | some (.begun _), _, some (.loaded _ _ daemon) => ⟨daemon.inner, []⟩
  | some (.serving _ _ handlers _), .inside (.advance i _), _ =>
    match handlers[i]? with
    | some ⟨_, .announce job _⟩ => { ledger with settled := job.desired }
    | _ => ledger
  | some (.serving _ _ handlers _), _, none => { ledger with asked := inProgress handlers }
  | _, _, _ => ledger

/-- There is a process that has loaded the state. -/
def Unit.isUp (u : Unit) : Bool :=
  match u.main with
  | none | some (.begun _) => false
  | _ => true

/-- Calls are made one at a time, and saves succeed. -/
def inOrder (u : Unit) : Act → Bool
  | .inside act =>
    match u.main with
    | some (.serving _ control handlers _) =>
      oneAtATime ⟨u.host, control, handlers⟩ act && savesSucceed ⟨u.host, control, handlers⟩ act
    | _ => true
  | _ => true

/-- The steps of a run in which every process opens the database at `path` and can stat it, calls are made
one at a time and saves succeed. Starts may fail, and processes may end anywhere. -/
def InOrder (path : String) (p : Unit × Ledger) (act : Act) : Prop :=
  OneDatabase path p.1 act ∧ inOrder p.1 act = true

instance (path : String) (p : Unit × Ledger) (act : Act) : Decidable (InOrder path p act) :=
  inferInstanceAs (Decidable (_ ∧ _))

/-- The ledger says what the machine of handlers knows. -/
structure Accounts (path : String) (p : Unit × Ledger) (q : Sys × State) : Prop where
  /-- The states are the same. -/
  shows : Shows path p.1 q.1
  /-- So is what is settled. -/
  settled : p.2.settled = q.2
  /-- While there is no process, the calls that were in progress are known. -/
  asked : p.1.isUp = false → ∀ hd ∈ q.1.handlers, ∀ job, hd.pc.job = some job → job.desired ∈ p.2.asked

theorem mem_inProgress {handlers : List Handler} {hd : Handler} {job : Job} (hm : hd ∈ handlers)
    (hjob : hd.pc.job = some job) : job.desired ∈ inProgress handlers :=
  List.mem_filterMap.mpr ⟨hd, hm, by rw [hjob]; rfl⟩

/-- The ledger stays the same in a step that is not of `run` or of the process. -/
theorem Ledger.after_of_main {ledger : Ledger} (hmain : v.main = u.main) (hact : ∀ act', act ≠ .inside act') :
    ledger.after u act v = ledger := by
  unfold Ledger.after
  rw [hmain]
  cases hm : u.main with
  | none => rfl
  | some main =>
    cases main with
    | serving p control handlers stage =>
      cases act with
      | inside act => exact absurd rfl (hact act)
      | _ => rfl
    | _ => rfl

/-- A process that ends leaves what its calls asked for. -/
theorem Accounts.ended {ledger : Ledger} {settled : State} {main : Main} {exit : Option (Except AlarmError PUnit)}
    (h : Accounts path (u, ledger) (s, settled)) (hact : act.isMain = true) (hmain : u.main = some main) :
    Accounts path (u.ended exit, ledger.after u act (u.ended exit)) (s, settled) := by
  have hprocess := h.shows.process
  have hasked := h.asked
  have hnone : (u.ended exit).main = none := by
    unfold Unit.ended
    cases main <;> simp only [hmain]
  simp only [Unit.isUp, hmain] at hprocess hasked
  refine ⟨h.shows.ended hmain exit, ?_, fun _ hd hm job hjob => ?_⟩
  · refine Eq.trans ?_ h.settled
    cases main with
    | serving p control handlers stage =>
      cases act with
      | inside act => cases hact
      | _ => simp only [Ledger.after, hmain, hnone]
    | _ => simp only [Ledger.after, hmain, hnone]
  · cases main with
    | begun env =>
      have hledger : ledger.after u act (u.ended exit) = ledger := by simp only [Ledger.after, hmain, hnone]
      rw [hledger]
      exact hasked rfl hd hm job hjob
    | serving p control handlers stage =>
      obtain ⟨-, -, rfl⟩ := hprocess
      have hledger : ledger.after u act (u.ended exit) = { ledger with asked := inProgress s.handlers } := by
        cases act with
        | inside act => cases hact
        | _ => simp only [Ledger.after, hmain, hnone]
      rw [hledger]
      exact mem_inProgress hm hjob
    | loaded env p daemon | prepared env p daemon | controlled p control =>
      obtain ⟨-, -, hhandlers⟩ := hprocess
      rw [hhandlers] at hm
      cases hm

/-- What happens within a process is written down. -/
theorem Accounts.ran {ledger : Ledger} {settled : State} {act : Ipc.Act} {p : String} {control : Control}
    {handlers : List Handler} {stage : Stage} (h : Accounts path (u, ledger) (s, settled))
    (hmain : u.main = some (.serving p control handlers stage)) (hin : isInside act = true)
    (hs : Ipc.step ⟨u.host, control, handlers⟩ act = some t)
    (hv : v = { u with main := some (.serving p t.control t.handlers stage) }) :
    Accounts path (v, ledger.after u (.inside act) v) (t, settledAfter settled s act t) := by
  obtain ⟨-, ht⟩ := h.shows.ran hmain hin hs
  obtain ⟨-, rfl⟩ := h.shows.eq_of_serving hmain
  have hsettled : ledger.settled = settled := h.settled
  subst hv
  refine ⟨ht, ?_, by rintro ⟨⟩⟩
  cases act with
  | advance i f =>
    simp only [Ledger.after, hmain, settledAfter]
    cases hi : handlers[i]? with
    | none => exact hsettled
    | some hd =>
      obtain ⟨request, pc⟩ := hd
      cases pc with
      | announce job transition => rfl
      | _ => exact hsettled
  | request r | wake i | decode i | play i =>
    simp only [Ledger.after, hmain]
    exact hsettled
  | tick ms wall | files fs | restart env => cases hin

/-- Every step of the service is a sequential run of the handlers, and is written down. -/
theorem Accounts.step {ledger : Ledger} {settled : State} (h : Accounts path (u, ledger) (s, settled))
    (hopens : OneDatabase path u act) (horder : inOrder u act = true) (hs : Service.step u act = some v) :
    ∃ bs q, Machine.Run (Machine.track Ipc.step settledAfter) Sequential (s, settled) bs q ∧
      Accounts path (v, ledger.after u act v) q := by
  obtain ⟨t, hexec, ht⟩ := h.shows.step hopens hs
  have hsettled : ledger.settled = settled := h.settled
  -- a step that changes neither the handlers nor the ledger
  have hquiet : means u act = [] → ledger.after u act v = ledger → (v.isUp = false → u.isUp = false) →
      ∃ bs q, Machine.Run (Machine.track Ipc.step settledAfter) Sequential (s, settled) bs q ∧
        Accounts path (v, ledger.after u act v) q := by
    intro hmeans hafter hup
    rw [hmeans] at hexec
    obtain rfl := Option.some.inj hexec
    rw [hafter]
    exact ⟨[], _, .nil, ht, hsettled, fun hdown => h.asked (hup hdown)⟩
  cases stepped_of_step hs with
  | started hmain => exact hquiet rfl (by simp only [Ledger.after, hmain]) fun _ => by simp [Unit.isUp, hmain]
  | @loaded f env p daemon hmain hload =>
    obtain ⟨t', hrestart, ht'⟩ := h.shows.loaded hmain (Option.isNone_iff_eq_none.mp hopens.2) hload
    refine ⟨[.restart env], (t', _), .single ⟨rfl, rfl⟩ (Machine.track_of_step hrestart _), ht', ?_, by rintro ⟨⟩⟩
    obtain ⟨-, hcontrol, -⟩ := ht'.process
    simp only [Ledger.after, hmain, settledAfter, hcontrol]
    rfl
  | prepared hmain | controlled hmain | connected hmain =>
    exact hquiet (means_of_main rfl (by simp [hmain])) (by simp only [Ledger.after, hmain]) (by rintro ⟨⟩)
  | moved hact hmain =>
    refine hquiet (means_of_main hact (by simp [hmain])) ?_ (by rintro ⟨⟩)
    cases act with
    | inside act => cases hact
    | _ => simp only [Ledger.after, hmain]
  | ended hact hmain hload =>
    rw [means_of_ended hact hmain hload] at hexec
    exact ⟨[], _, .nil, h.ended hact hmain⟩
  | @ran act p control handlers stage t' hmain hin hipc =>
    obtain ⟨hran, -⟩ := h.shows.ran hmain hin hipc
    refine ⟨[act], (t', _), .single ?_ (Machine.track_of_step hran _), h.ran hmain hin hipc rfl⟩
    obtain ⟨-, rfl⟩ := h.shows.eq_of_serving hmain
    simp only [inOrder, hmain, Bool.and_eq_true] at horder
    exact horder
  | ticked ms wall =>
    obtain rfl := Option.some.inj hexec
    have hafter : ledger.after u (.tick ms wall) { u with host := u.host.tick ms wall } = ledger :=
      Ledger.after_of_main rfl (by intro _ hact; cases hact)
    rw [hafter]
    exact ⟨[.tick ms wall], _, .single ⟨rfl, rfl⟩ (Machine.track_of_step rfl _), ht, hsettled, h.asked⟩
  | refiled fs =>
    obtain rfl := Option.some.inj hexec
    have hafter : ledger.after u (.files fs) { u with host := { u.host with fs := fs } } = ledger :=
      Ledger.after_of_main rfl (by intro _ hact; cases hact)
    rw [hafter]
    exact ⟨[.files fs], _, .single ⟨rfl, rfl⟩ (Machine.track_of_step rfl _), ht, hsettled, h.asked⟩

end HelmAlarm.Process.Service
