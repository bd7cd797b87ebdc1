import HelmAlarm.Ipc.Handlers

/-!
# The process and its manager

`run` of `main.rs`, one step at a time, with the configuration it reads (`config.rs`) and
what it tells the service manager (`systemd.rs`). A process is started when there is
none; it fails at any of its steps, or comes up and serves the control object until it
is told to shut down, or is killed, wherever it stands. Handlers and trigger tasks run
from when the object is served, which is before the manager is told that the daemon is
ready. A start opens the database that its environment names, so processes with
different environments may keep different alarms.

Logging is left out, and with it what `new_persistent` finds out about a missed alarm,
which `run` only logs. The watchdog is in the module `HelmAlarm.Process.Watchdog`, the
worker of the player in `HelmAlarm.Process.World`.
-/

namespace HelmAlarm.Process.Service

open HelmAlarm.Library HelmAlarm.Daemon HelmAlarm.Audio HelmAlarm.Ipc

/-! ### Configuration -/

/-- Top-level errors of startup. -/
inductive AlarmError where
  /-- Error of D-Bus transport or protocol operations. -/
  | dBus (message : String)
  /-- Underlying I/O error. -/
  | io (message : String)
  /-- Invalid runtime configuration. -/
  | config (message : String)
  deriving DecidableEq, Repr

/-- Which D-Bus the daemon attaches to. -/
inductive BusKind where
  /-- The session bus. -/
  | session
  /-- The system bus. -/
  | system
  deriving DecidableEq, Repr

/-- `char::escape_debug`, of a character in a string. Of the characters that are not printed, those are
left as they are that are no control characters. -/
def escapeDebug (c : Char) : String :=
  match c.toNat with
  | 0 => "\\0"
  | 9 => "\\t"
  | 10 => "\\n"
  | 13 => "\\r"
  | 34 => "\\\""
  | 92 => "\\\\"
  | n => if n < 32 ∨ 127 ≤ n ∧ n < 160 then "\\u\x7b" ++ String.ofList (Nat.toDigits 16 n) ++ "\x7d" else c.toString

/-- A string as `{:?}` shows it. -/
def debug (s : String) : String := "\"" ++ String.join (s.toList.map escapeDebug) ++ "\""

namespace BusKind

/-- `parse`. -/
def parse : Option String → Except AlarmError BusKind
  | none | some "" | some "session" => .ok .session
  | some "system" => .ok .system
  | some other => .error (.config ("ALARM_DAEMON_BUS must be 'session' or 'system' (got " ++ debug other ++ ")"))

/-- `from_env`. -/
def fromEnv (env : Env) : Except AlarmError BusKind := parse (env "ALARM_DAEMON_BUS")

/-- `default_db_path_with_home`. -/
def defaultDbPathWithHome (home : String) : BusKind → String
  | .system => "/var/lib/helm/alarm-daemon.redb"
  | .session => home ++ "/.local/state/helm/alarm-daemon.redb"

/-- `default_db_path`. -/
def defaultDbPath (env : Env) (kind : BusKind) : String := kind.defaultDbPathWithHome ((env "HOME").getD ".")

/-- The database a process opens. -/
def dbPath (env : Env) (kind : BusKind) : String := (env "ALARM_DAEMON_DB_PATH").getD (kind.defaultDbPath env)

end BusKind

/-! ### A start -/

/-- What fails of a start, with what is reported. -/
structure StartFaults where
  /-- `Persistence::load`. -/
  load : Faults := {}
  /-- `SoundLibrary::ensure_dirs`. -/
  ensureDirs : Option String := none
  /-- `CpalAudio::spawn`. -/
  spawn : Option String := none
  /-- The connection: the bus is not there, or the name is taken. -/
  connect : Option String := none
  /-- The handlers of the signals. -/
  signals : Option String := none

/-- What the service manager is told. -/
inductive Notice where
  /-- `READY=1`. -/
  | ready
  /-- `STOPPING=1`. -/
  | stopping
  deriving DecidableEq, Repr

/-- Where `run` stands once the object is served. -/
inductive Stage where
  /-- The connection is built. -/
  | connected
  /-- The manager knows, and the handlers of the signals are to be set up. -/
  | ready
  /-- It waits for a signal to shut down. -/
  | waiting
  /-- It got one. -/
  | signalled
  /-- The manager knows. -/
  | stopping
  deriving DecidableEq, Repr

/-- Where `run` stands. -/
inductive Main where
  /-- The configuration is to be read, and the database to be opened. -/
  | begun (env : Env)
  /-- The state is loaded. -/
  | loaded (env : Env) (path : String) (daemon : AlarmDaemon)
  /-- The sound directory is there. -/
  | prepared (env : Env) (path : String) (daemon : AlarmDaemon)
  /-- The player and the control object are there. -/
  | controlled (path : String) (control : Control)
  /-- The object is served. -/
  | serving (path : String) (control : Control) (handlers : List Handler) (stage : Stage)

/-- The process, and what is around it. -/
structure Unit where
  /-- What the methods find around them. -/
  host : Host
  /-- The databases, by their paths. -/
  disk : String → Option Redb
  /-- The trigger tasks of the processes that have ended. -/
  tasks : List Task := []
  /-- The process, if there is one. -/
  main : Option Main := none
  /-- How the process before it ended, if it was not killed. -/
  exit : Option (Except AlarmError PUnit) := none
  /-- What the manager was told by the process that was started last. -/
  notices : List Notice := []

/-- What can happen. -/
inductive Act where
  /-- The manager starts the process. -/
  | start (env : Env)
  /-- `run` takes a step. -/
  | advance (f : StartFaults)
  /-- SIGINT or SIGTERM. -/
  | signal
  /-- The process is killed. -/
  | kill
  /-- A handler or a trigger task takes a step, or a client calls a method. -/
  | inside (act : Ipc.Act)
  /-- Time passes. -/
  | tick (ms : ℕ) (wall : WallClock)
  /-- The file system changes. -/
  | files (fs : FileSystem)

/-- What the manager and `run` do. -/
def Act.isMain : Act → Bool
  | .start _ | .advance _ | .signal | .kill => true
  | .inside _ | .tick _ _ | .files _ => false

/-- What happens within a process. -/
def isInside : Ipc.Act → Bool
  | .request _ | .advance _ _ | .wake _ | .decode _ | .play _ => true
  | .tick _ _ | .files _ | .restart _ => false

namespace Unit

/-- A database after a process that has it open. -/
def keep (u : Unit) (path : String) (daemon : AlarmDaemon) : String → Option Redb :=
  Function.update u.disk path daemon.persistence.file

/-- The process ends: its databases are as it left them, and its handlers and tasks are gone. -/
def ended (u : Unit) (exit : Option (Except AlarmError PUnit)) : Unit :=
  let u := { u with exit := exit }
  match u.main with
  | none | some (.begun _) => { u with main := none }
  | some (.loaded _ path daemon) | some (.prepared _ path daemon) => { u with main := none, disk := u.keep path daemon }
  | some (.controlled path control) | some (.serving path control _ _) =>
    { u with main := none, disk := u.keep path control.daemon, tasks := endTasks control.tasks }

/-- The process ends with an error. -/
def fail (u : Unit) (e : AlarmError) : Unit := u.ended (some (.error e))

/-- The start of `run`, up to where the state is loaded. -/
def load (u : Unit) (f : Faults) (env : Env) : Except AlarmError (String × AlarmDaemon) :=
  match BusKind.fromEnv env with
  | .error e => .error e
  | .ok kind =>
    match AlarmDaemon.newPersistent f u.host.wall ⟨false, u.disk (kind.dbPath env)⟩ with
    | .error e => .error (.config e.toString)
    | .ok (daemon, _) => .ok (kind.dbPath env, daemon)

/-- A step of `run` once the object is served. -/
def advanceServing (f : StartFaults) (path : String) (control : Control) (handlers : List Handler) (u : Unit) :
    Stage → Option Unit
  | .connected => some { u with main := some (.serving path control handlers .ready), notices := u.notices ++ [.ready] }
  | .ready =>
    match f.signals with
    | some message => some (u.fail (.io message))
    | none => some { u with main := some (.serving path control handlers .waiting) }
  | .waiting => none
  | .signalled =>
    some { u with main := some (.serving path control handlers .stopping), notices := u.notices ++ [.stopping] }
  | .stopping => some (u.ended (some (.ok ⟨⟩)))

/-- A step of `run`. -/
def advance (f : StartFaults) (u : Unit) : Option Unit :=
  match u.main with
  | none => none
  | some (.begun env) =>
    match u.load f.load env with
    | .error e => some (u.fail e)
    | .ok (path, daemon) => some { u with main := some (.loaded env path daemon) }
  | some (.loaded env path daemon) =>
    match f.ensureDirs with
    | some message => some (u.fail (.config (AudioError.io message).toString))
    | none => some { u with main := some (.prepared env path daemon) }
  | some (.prepared env path daemon) =>
    match f.spawn with
    | some message => some (u.fail (.config ("failed to initialize audio output: " ++ (AudioError.io message).toString)))
    | none => some { u with main := some (.controlled path { Control.new env daemon with tasks := u.tasks }) }
  | some (.controlled path control) =>
    match f.connect with
    | some message => some (u.fail (.dBus message))
    | none => some { u with main := some (.serving path control [] .connected) }
  | some (.serving path control handlers stage) => u.advanceServing f path control handlers stage

end Unit

/-- The machine. -/
def step : Machine Unit Act := fun u act =>
  match act with
  | .start env =>
    match u.main with
    | some _ => none
    | none => some { u with main := some (.begun env), exit := none, notices := [] }
  | .advance f => u.advance f
  | .signal =>
    match u.main with
    | some (.serving path control handlers .waiting) =>
      some { u with main := some (.serving path control handlers .signalled) }
    | _ => none
  | .kill => u.main.map fun _ => u.ended none
  | .inside act =>
    match u.main with
    | some (.serving path control handlers stage) =>
      if isInside act then
        (Ipc.step ⟨u.host, control, handlers⟩ act).map fun s =>
          { u with main := some (.serving path s.control s.handlers stage) }
      else none
    | _ => none
  | .tick ms wall => some { u with host := u.host.tick ms wall }
  | .files fs => some { u with host := { u.host with fs := fs } }

/-- No process was started yet. -/
def off (host : Host) (disk : String → Option Redb) : Unit := { host := host, disk := disk }

/-! ### What a step does -/

/-- What a step does: one case for each kind. -/
inductive Stepped (u : Unit) : Act → Unit → Prop where
  /-- The process is started. -/
  | started {env : Env} (hmain : u.main = none) :
      Stepped u (.start env) { u with main := some (.begun env), exit := none, notices := [] }
  /-- The state is loaded. -/
  | loaded {f : StartFaults} {env : Env} {path : String} {daemon : AlarmDaemon} (hmain : u.main = some (.begun env))
      (hload : u.load f.load env = .ok (path, daemon)) :
      Stepped u (.advance f) { u with main := some (.loaded env path daemon) }
  /-- The sound directory is there. -/
  | prepared {f : StartFaults} {env : Env} {path : String} {daemon : AlarmDaemon}
      (hmain : u.main = some (.loaded env path daemon)) :
      Stepped u (.advance f) { u with main := some (.prepared env path daemon) }
  /-- The control object is made. -/
  | controlled {f : StartFaults} {env : Env} {path : String} {daemon : AlarmDaemon}
      (hmain : u.main = some (.prepared env path daemon)) :
      Stepped u (.advance f) { u with main := some (.controlled path { Control.new env daemon with tasks := u.tasks }) }
  /-- The object is served. -/
  | connected {f : StartFaults} {path : String} {control : Control} (hmain : u.main = some (.controlled path control)) :
      Stepped u (.advance f) { u with main := some (.serving path control [] .connected) }
  /-- `run` goes on, or is told to shut down. -/
  | moved {act : Act} {path : String} {control : Control} {handlers : List Handler} {stage stage' : Stage}
      {notices : List Notice} (hact : act.isMain = true) (hmain : u.main = some (.serving path control handlers stage)) :
      Stepped u act { u with main := some (.serving path control handlers stage'), notices := notices }
  /-- The process ends; if it was to load the state, that failed. -/
  | ended {act : Act} {main : Main} {exit : Option (Except AlarmError PUnit)} (hact : act.isMain = true)
      (hmain : u.main = some main)
      (hload : ∀ env f, main = .begun env → act = .advance f → ∃ e, u.load f.load env = .error e) :
      Stepped u act (u.ended exit)
  /-- Something happens within the process. -/
  | ran {act : Ipc.Act} {path : String} {control : Control} {handlers : List Handler} {stage : Stage} {s : Sys}
      (hmain : u.main = some (.serving path control handlers stage)) (hin : isInside act = true)
      (hs : Ipc.step ⟨u.host, control, handlers⟩ act = some s) :
      Stepped u (.inside act) { u with main := some (.serving path s.control s.handlers stage) }
  /-- Time passes. -/
  | ticked (ms : ℕ) (wall : WallClock) : Stepped u (.tick ms wall) { u with host := u.host.tick ms wall }
  /-- The file system changes. -/
  | refiled (fs : FileSystem) : Stepped u (.files fs) { u with host := { u.host with fs := fs } }

variable {u v : Unit} {act : Act} {f : StartFaults}

theorem stepped_of_advance (h : u.advance f = some v) : Stepped u (.advance f) v := by
  unfold Unit.advance at h
  split at h
  · cases h
  · rename_i env hmain
    split at h
    · rename_i e hload
      obtain rfl := Option.some.inj h
      refine .ended rfl hmain fun env' f' hmain' hact => ?_
      obtain rfl := Main.begun.inj hmain'
      obtain rfl := Act.advance.inj hact
      exact ⟨e, hload⟩
    · rename_i path daemon hload
      obtain rfl := Option.some.inj h
      exact .loaded hmain hload
  · rename_i env path daemon hmain
    split at h
    · obtain rfl := Option.some.inj h
      exact .ended rfl hmain fun _ _ hne => nomatch hne
    · obtain rfl := Option.some.inj h
      exact .prepared hmain
  · rename_i env path daemon hmain
    split at h
    · obtain rfl := Option.some.inj h
      exact .ended rfl hmain fun _ _ hne => nomatch hne
    · obtain rfl := Option.some.inj h
      exact .controlled hmain
  · rename_i path control hmain
    split at h
    · obtain rfl := Option.some.inj h
      exact .ended rfl hmain fun _ _ hne => nomatch hne
    · obtain rfl := Option.some.inj h
      exact .connected hmain
  · rename_i path control handlers stage hmain
    cases stage with
    | connected | signalled =>
      obtain rfl := Option.some.inj h
      exact .moved rfl hmain
    | ready =>
      simp only [Unit.advanceServing] at h
      split at h
      · obtain rfl := Option.some.inj h
        exact .ended rfl hmain fun _ _ hne => nomatch hne
      · obtain rfl := Option.some.inj h
        exact .moved rfl hmain
    | waiting => cases h
    | stopping =>
      obtain rfl := Option.some.inj h
      exact .ended rfl hmain fun _ _ hne => nomatch hne

theorem stepped_of_step (h : step u act = some v) : Stepped u act v := by
  cases act with
  | start env =>
    simp only [step] at h
    split at h
    · cases h
    · rename_i hmain
      obtain rfl := Option.some.inj h
      exact .started hmain
  | advance f => exact stepped_of_advance h
  | signal =>
    simp only [step] at h
    split at h
    · rename_i path control handlers hmain
      obtain rfl := Option.some.inj h
      exact .moved rfl hmain
    · cases h
  | kill =>
    obtain ⟨main, hmain, rfl⟩ := Option.map_eq_some_iff.mp h
    exact .ended rfl hmain fun _ _ _ hact => nomatch hact
  | inside act =>
    simp only [step] at h
    split at h
    · rename_i path control handlers stage hmain
      split at h
      · rename_i hin
        obtain ⟨s, hs, rfl⟩ := Option.map_eq_some_iff.mp h
        exact .ran hmain hin hs
      · cases h
    · cases h
  | tick ms wall =>
    obtain rfl := Option.some.inj h
    exact .ticked ms wall
  | files fs =>
    obtain rfl := Option.some.inj h
    exact .refiled fs

end HelmAlarm.Process.Service
