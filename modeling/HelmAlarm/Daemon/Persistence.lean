import HelmAlarm.Daemon.Clock
import HelmAlarm.Daemon.Codec

/-!
# Persistence

`Persistence` of `persistence/mod.rs` over a redb file. redb itself is outside
the repository: what is modelled of it is the file it keeps — absent, or holding
the table `state` once a write transaction that opened it has committed — with
transactions that commit as a whole or not at all, and, as `Faults`, which of the
calls made into it (and into the file system) fail.

`Persistence.stored` is the state on disk as a load that meets no fault reads it.
The lemmas say what a save does to it: `stored_save` when it succeeds,
`stored_save_of_error` when it fails, whatever the fault.
-/

namespace HelmAlarm.Daemon

/-- The redb file: the table `state`, if it was created, with the value under `"v1"`, if any. -/
structure Redb where
  /-- The value of the table. -/
  stateTable : Option (Option (List UInt8)) := none
  deriving DecidableEq, Repr

/-- The calls of one `load` or `save` that fail, with what they report. -/
structure Faults where
  /-- The stat of `Path::exists`. -/
  stat : Option String := none
  /-- `fs::create_dir_all`. -/
  createDirAll : Option String := none
  /-- `Database::create`. -/
  create : Option String := none
  /-- `begin_read`. -/
  beginRead : Option String := none
  /-- `begin_write`. -/
  beginWrite : Option String := none
  /-- `open_table`, for another reason than that the table does not exist. -/
  openTable : Option String := none
  /-- `get`. -/
  get : Option String := none
  /-- `insert`. -/
  insert : Option String := none
  /-- `commit`. -/
  commit : Option String := none
  deriving DecidableEq, Repr

/-- Nothing fails. -/
def Faults.none : Faults := {}

/-- Handle to the redb-backed persistence file. -/
structure Persistence where
  /-- The cached database handle is there. -/
  opened : Bool := false
  /-- The file at `path`, if it exists. -/
  file : Option Redb := none
  deriving DecidableEq, Repr

namespace Persistence

/-- A call into redb or the file system: an error, when the fault says so. -/
def attempt (fault : Option String) (error : String → PersistenceError) : Except PersistenceError Unit :=
  match fault with
  | some message => .error (error message)
  | none => .ok ()

/-- `lock_db`: opens the file on first use, creating it if it is not there, and keeps the handle. -/
def lockDb (f : Faults) (p : Persistence) : Except PersistenceError Unit × Persistence :=
  if p.opened then (.ok (), p)
  else
    match attempt f.createDirAll .io, attempt f.create .database with
    | .error e, _ => (.error e, p)
    | _, .error e => (.error e, p)
    | .ok (), .ok () => (.ok (), { opened := true, file := some (p.file.getD {}) })

/-- The write transaction of `save`: the file after the commit. -/
def writeState (f : Faults) (state : PersistedState) : Except PersistenceError Redb := do
  attempt f.beginWrite .txn
  attempt f.openTable .table
  attempt f.insert .read
  attempt f.commit .commit
  .ok { stateTable := some (some (encodeState state)) }

/-- `save`. -/
def save (f : Faults) (state : PersistedState) (p : Persistence) :
    Except PersistenceError Unit × Persistence :=
  match p.lockDb f with
  | (.error e, p) => (.error e, p)
  | (.ok (), p) =>
    if p.opened then
      match writeState f state with
      | .error e => (.error e, p)
      | .ok db => (.ok (), { p with file := some db })
    else (.error (.corrupted "database handle unavailable after lock_db"), p)

/-- The read transaction of `load`. -/
def readState (f : Faults) (db : Redb) : Except PersistenceError PersistedState := do
  attempt f.beginRead .txn
  attempt f.openTable .table
  match db.stateTable with
  -- First save hasn't happened yet — treat as empty.
  | none => .ok {}
  | some value => do
    attempt f.get .read
    match value with
    | none => .ok {}
    | some raw => decodeState raw

/-- `Path::exists` of the file. A stat that fails finds nothing. -/
def pathExists (f : Faults) (p : Persistence) : Bool := f.stat.isNone && p.file.isSome

/-- `load`. -/
def load (f : Faults) (p : Persistence) : Except PersistenceError PersistedState × Persistence :=
  if p.pathExists f then
    match p.lockDb f with
    | (.error e, p) => (.error e, p)
    | (.ok (), p) =>
      match p.file with
      | none => (.ok {}, p)
      | some db => (readState f db, p)
  else (.ok {}, p)

/-- `evaluate_recovery`: whether the daemon missed a fire while it was down. -/
def evaluateRecovery (now : WallClock) (state : PersistedState) : StartupRecovery :=
  ⟨state.armed && state.nextFireUnixMs.any fun t => t ≤ now.nowMs⟩

/-- What a crash of the process leaves: the file, with no handle open. -/
def crashed (p : Persistence) : Persistence := { p with opened := false }

/-! ### What is on disk -/

/-- The state on disk, as a load that meets no fault reads it. -/
def stored (p : Persistence) : Except PersistenceError PersistedState := (p.load .none).1

/-- What is on disk does not depend on whether the handle is open. -/
theorem stored_eq (p : Persistence) :
    p.stored = match p.file with
      | none => .ok {}
      | some db => readState .none db := by
  obtain ⟨opened, file⟩ := p
  cases file with
  | none => rfl
  | some db => cases opened <;> rfl

/-- A crash leaves what is on disk as it was. -/
@[simp] theorem stored_crashed (p : Persistence) : p.crashed.stored = p.stored := by
  rw [stored_eq, stored_eq]
  rfl

/-- Taking the lock leaves the handle as it was, or opens it, creating the file if need be. -/
theorem lockDb_snd (f : Faults) (p : Persistence) :
    (p.lockDb f).2 = p ∨ (p.lockDb f).2 = { opened := true, file := some (p.file.getD {}) } := by
  unfold lockDb
  split
  · exact .inl rfl
  · split
    · exact .inl rfl
    · exact .inl rfl
    · exact .inr rfl

theorem stored_lockDb (f : Faults) (p : Persistence) : (p.lockDb f).2.stored = p.stored := by
  rcases lockDb_snd f p with h | h
  · rw [h]
  · rw [h, stored_eq, stored_eq]
    cases p.file <;> rfl

/-- A load leaves what is on disk as it was. -/
theorem stored_load (f : Faults) (p : Persistence) : (p.load f).2.stored = p.stored := by
  have hl := stored_lockDb f p
  unfold load
  split
  · split
    · rename_i h; rw [h] at hl; exact hl
    · rename_i h; rw [h] at hl
      split <;> exact hl
  · rfl

/-- A load whose stat fails takes the file for absent, whatever is in it, and does not fail. -/
theorem load_of_stat {f : Faults} (hstat : f.stat ≠ none) (p : Persistence) : p.load f = (.ok {}, p) := by
  have hnone : f.stat.isNone = false := Option.isNone_eq_false_iff.mpr (Option.isSome_iff_ne_none.mpr hstat)
  simp only [load, pathExists, hnone, Bool.false_and, Bool.false_eq_true, if_false]

/-- A load that meets no fault finds what is on disk. -/
theorem load_none (p : Persistence) : (p.load .none).1 = p.stored := rfl

/-- A save that fails leaves what is on disk as it was. -/
theorem stored_save_of_error {f : Faults} {state : PersistedState} {p : Persistence} {e : PersistenceError}
    (h : (p.save f state).1 = .error e) : (p.save f state).2.stored = p.stored := by
  have hl := stored_lockDb f p
  unfold save at h ⊢
  split
  · rename_i hlock; rw [hlock] at hl; exact hl
  · rename_i hlock
    rw [hlock] at hl h
    split
    · rename_i ho
      simp only [ho, if_true] at h
      split
      · exact hl
      · rename_i hw; rw [hw] at h; cases h
    · exact hl

theorem attempt_bind_eq_ok {α : Type} {fault : Option String} {error : String → PersistenceError}
    {next : Unit → Except PersistenceError α} {a : α}
    (h : (attempt fault error >>= next) = .ok a) : fault = none ∧ next () = .ok a := by
  cases fault with
  | none => exact ⟨rfl, h⟩
  | some message => cases h

/-- A write transaction that commits leaves the encoding of the state in the table. -/
theorem writeState_eq_ok {f : Faults} {state : PersistedState} {db : Redb}
    (h : writeState f state = .ok db) : db = { stateTable := some (some (encodeState state)) } := by
  obtain ⟨-, h⟩ := attempt_bind_eq_ok h
  obtain ⟨-, h⟩ := attempt_bind_eq_ok h
  obtain ⟨-, h⟩ := attempt_bind_eq_ok h
  obtain ⟨-, h⟩ := attempt_bind_eq_ok h
  exact (Except.ok.inj h).symm

/-- A save that succeeds leaves the encoding of the state on disk. -/
theorem stored_save {f : Faults} {state : PersistedState} {p : Persistence}
    (h : (p.save f state).1 = .ok ()) :
    (p.save f state).2.stored = decodeState (encodeState state) := by
  unfold save at h ⊢
  split
  · rename_i hlock; rw [hlock] at h; cases h
  · rename_i q hlock
    rw [hlock] at h
    split
    · rename_i ho
      simp only [ho, if_true] at h
      split
      · rename_i hw; rw [hw] at h; cases h
      · rename_i db hw
        rw [stored_eq, writeState_eq_ok hw]
        rfl
    · rename_i ho
      simp [ho] at h

/-- A save that fails leaves what is on disk, and one that succeeds writes the whole state. -/
theorem stored_save_or (f : Faults) (state : PersistedState) (p : Persistence) :
    (p.save f state).2.stored = p.stored ∨ (p.save f state).2.stored = decodeState (encodeState state) := by
  cases h : (p.save f state).1 with
  | error e => exact .inl (stored_save_of_error h)
  | ok u => exact .inr (stored_save h)

/-- When nothing fails, a save succeeds. -/
@[simp] theorem save_none (state : PersistedState) (p : Persistence) : (p.save .none state).1 = .ok () := by
  obtain ⟨opened, file⟩ := p
  cases opened <;> rfl

/-- When nothing fails, what is on disk after a save is the encoding of the state. -/
theorem stored_save_none (state : PersistedState) (p : Persistence) :
    (p.save .none state).2.stored = decodeState (encodeState state) := stored_save (save_none state p)

/-- A load that can stat the file and succeeds finds what one that meets no fault does. -/
theorem load_none_of_ok {f : Faults} {p q : Persistence} {state : PersistedState} (hstat : f.stat = none)
    (h : p.load f = (.ok state, q)) : p.load .none = (.ok state, q) := by
  obtain ⟨opened, file⟩ := p
  cases file with
  | none =>
    simp only [load, pathExists, Option.isSome_none, Bool.and_false, Bool.false_eq_true, if_false] at h ⊢
    exact h
  | some db =>
    have hread : ∀ f, (readState f db = .ok state) → readState .none db = .ok state := by
      intro f hr
      unfold readState at hr ⊢
      obtain ⟨-, hr⟩ := attempt_bind_eq_ok hr
      obtain ⟨-, hr⟩ := attempt_bind_eq_ok hr
      cases htable : db.stateTable with
      | none =>
        simp only [htable] at hr
        exact hr
      | some value =>
        simp only [htable] at hr
        exact (attempt_bind_eq_ok hr).2
    simp only [load, pathExists, hstat, Option.isNone_none, Option.isSome_some, Bool.and_self, if_true] at h
    cases opened with
    | true =>
      obtain ⟨hr, rfl⟩ := Prod.mk.inj h
      exact congrArg (·, _) (hread f hr)
    | false =>
      simp only [lockDb, Bool.false_eq_true, if_false] at h
      cases hdir : f.createDirAll with
      | some message =>
        rw [hdir] at h
        cases h
      | none =>
        cases hcreate : f.create with
        | some message =>
          rw [hdir, hcreate] at h
          cases h
        | none =>
          rw [hdir, hcreate] at h
          obtain ⟨hr, rfl⟩ := Prod.mk.inj h
          exact congrArg (·, _) (hread f hr)

end Persistence

end HelmAlarm.Daemon
