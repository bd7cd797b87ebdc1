import HelmAlarm.Daemon.Grammar

/-!
# The indices of the decoder

The source of the decoder indexes, slices and copies, operations that panic when
they are out of range, and adds to its cursor. `Indexing.decodeState` is the decoder
with these operations, in which a panic is an outcome; `Indexing.decodeState_eq` says
that it never comes about, and that the outcome is that of `decodeState`. The
cursor of a body is never behind its twelfth byte but for the sound id, so that no
addition to it overflows, however long the value is.
-/

namespace HelmAlarm.Daemon

open HelmAlarm.Library

/-- A computation of the source: it may panic (`none`), and it may fail. -/
abbrev Panicking (α : Type) := ExceptT PersistenceError Option α

namespace Indexing

/-- A computation that may fail, and does not panic. -/
def fallible {α : Type} (x : Except PersistenceError α) : Panicking α := ExceptT.mk (some x)

/-- `bytes[i]`, which panics out of range. -/
def index (bytes : List UInt8) (i : ℕ) : Panicking UInt8 := ExceptT.lift bytes[i]?

/-- `&bytes[i..j]`, which panics out of range. -/
def slice (bytes : List UInt8) (i j : ℕ) : Panicking (List UInt8) := ExceptT.lift (getRange bytes i j)

/-- `copy_from_slice` into an array of `n` bytes, which panics when the lengths differ. -/
def copyFromSlice (n : ℕ) (src : List UInt8) : Panicking (List UInt8) :=
  ExceptT.lift (if src.length = n then some src else none)

/-- `cursor += n`, which panics when it overflows. -/
def add (cursor n : ℕ) : Panicking ℕ := ExceptT.lift (checkedAdd cursor n)

/-- The fire-time part of `decode_body_v1`. -/
def decodeNextFire (bytes : List UInt8) (cursor : ℕ) : Panicking (Option (Option Int64 × ℕ)) :=
  match bytes[cursor]? with
  | none => pure none
  | some tag =>
    if tag = 0 then do
      let cursor ← add cursor 1
      pure (some (none, cursor))
    else if tag = 1 then do
      let cursor ← add cursor 1
      let fin ← fallible (orCorrupted "next_fire offset overflow" (checkedAdd cursor 8))
      let slice ← fallible (orCorrupted "missing next_fire bytes" (getRange bytes cursor fin))
      let buf ← copyFromSlice 8 slice
      pure (some (some (i64FromLeBytes buf), fin))
    else fallible (.error (.corrupted s!"unknown next_fire tag: {tag}"))

/-- The sound part of `decode_body_v1`. -/
def decodeSound (bytes : List UInt8) (cursor : ℕ) : Panicking (Option String) :=
  match bytes[cursor]? with
  | none => pure none
  | some tag =>
    if tag = 0 then pure none
    else if tag = 1 then do
      let cursor ← add cursor 1
      let lenEnd ← fallible (orCorrupted "sound len offset overflow" (checkedAdd cursor 2))
      let lenSlice ← fallible (orCorrupted "missing sound length bytes" (getRange bytes cursor lenEnd))
      let lenBuf ← copyFromSlice 2 lenSlice
      let len := ofLe lenBuf
      let bodyEnd ← fallible (orCorrupted "sound body offset overflow" (checkedAdd lenEnd len))
      let body ← fallible (orCorrupted "missing sound body bytes" (getRange bytes lenEnd bodyEnd))
      let sound ← fallible (orCorrupted s!"sound id utf8: {fromUtf8Error body}" (fromUtf8 body))
      pure (some sound)
    else fallible (.error (.corrupted s!"unknown sound tag: {tag}"))

/-- `decode_body_v1`. -/
def decodeBodyV1 (bytes : List UInt8) : Panicking PersistedState :=
  if bytes.isEmpty then pure {}
  else do
    let first ← index bytes 0
    let armed := first != 0
    match ← decodeNextFire bytes 1 with
    | none => pure { armed }
    | some (nextFireUnixMs, cursor) => do
      let currentSound ← decodeSound bytes cursor
      pure { armed, nextFireUnixMs, currentSound }

/-- `decode_state`. -/
def decodeState (bytes : List UInt8) : Panicking PersistedState :=
  if 3 ≤ bytes.length then do
    let magic ← slice bytes 0 2
    if magic = schemaMagic then do
      let version ← index bytes 2
      if version = schemaVersion then do
        let body ← slice bytes 3 bytes.length
        decodeBodyV1 body
      else fallible (.error (.corrupted s!"unsupported schema version {version}"))
    -- No magic: legacy v0.1 dev databases. Same body layout, no prefix.
    else decodeBodyV1 bytes
  else decodeBodyV1 bytes

/-! ### None is out of range -/

variable {α β : Type} {bytes : List UInt8} {cursor n : ℕ}

/-- Computations that do not panic are put together by the errors they have. -/
@[simp] theorem fallible_bind (x : Except PersistenceError α) (f : α → Except PersistenceError β) :
    (fallible x >>= fun a => fallible (f a)) = fallible (x >>= f) := by
  cases x <;> rfl

@[simp] theorem fallible_ok_bind (a : α) (f : α → Panicking β) : (fallible (.ok a) >>= f) = f a := rfl

@[simp] theorem fallible_pure (a : α) : (pure a : Panicking α) = fallible (.ok a) := rfl

theorem add_eq (h : cursor + n < 2 ^ 64) : add cursor n = fallible (.ok (cursor + n)) := by
  rw [add, checkedAdd_eq h]
  rfl

/-- A slice is copied into an array of its length. -/
theorem copyFromSlice_eq {range : List UInt8} (h : range.length = n) :
    copyFromSlice n range = fallible (.ok range) := by
  rw [copyFromSlice, if_pos h]
  rfl

/-- A slice of `n` bytes that was read at a cursor is copied whole. -/
theorem copy_bind (message : String) (f : List UInt8 → Panicking β) :
    (fallible (orCorrupted message (getRange bytes cursor (cursor + n))) >>= fun range => copyFromSlice n range >>= f) =
      (fallible (orCorrupted message (getRange bytes cursor (cursor + n))) >>= f) := by
  cases hr : getRange bytes cursor (cursor + n) with
  | none => rfl
  | some range =>
    obtain ⟨-, -, -, hlen⟩ := getRange_eq_some hr
    rw [orCorrupted_some, fallible_ok_bind, fallible_ok_bind, copyFromSlice_eq (by omega), fallible_ok_bind]

theorem decodeNextFire_eq (hcursor : cursor + 9 < 2 ^ 64) :
    decodeNextFire bytes cursor = fallible (Daemon.decodeNextFire bytes cursor) := by
  unfold decodeNextFire Daemon.decodeNextFire
  cases bytes[cursor]? with
  | none => rfl
  | some tag =>
    simp only [add_eq (show cursor + 1 < 2 ^ 64 by omega), fallible_ok_bind,
      checkedAdd_eq (show cursor + 1 + 8 < 2 ^ 64 by omega), orCorrupted_some, copy_bind, fallible_pure, fallible_bind]
    repeat' split
    all_goals rfl

/-- The length that is read is short, so that the end of the sound id does not overflow. -/
theorem decodeSound_eq (hcursor : cursor + 65538 < 2 ^ 64) :
    decodeSound bytes cursor = fallible (Daemon.decodeSound bytes cursor) := by
  unfold decodeSound Daemon.decodeSound
  cases bytes[cursor]? with
  | none => rfl
  | some tag =>
    simp only [add_eq (show cursor + 1 < 2 ^ 64 by omega), fallible_ok_bind,
      checkedAdd_eq (show cursor + 1 + 2 < 2 ^ 64 by omega), orCorrupted_some, copy_bind, fallible_pure, fallible_bind]
    repeat' split
    all_goals rfl

theorem decodeBodyV1_eq : decodeBodyV1 bytes = fallible (Daemon.decodeBodyV1 bytes) := by
  cases bytes with
  | nil => rfl
  | cons first rest =>
    have hindex : index (first :: rest) 0 = fallible (.ok first) := rfl
    simp only [decodeBodyV1, Daemon.decodeBodyV1, List.isEmpty_cons, hindex, fallible_ok_bind,
      decodeNextFire_eq (show 1 + 9 < 2 ^ 64 by omega)]
    cases ho : Daemon.decodeNextFire (first :: rest) 1 with
    | error e => rfl
    | ok o =>
      cases o with
      | none => rfl
      | some field =>
        obtain ⟨t, cursor⟩ := field
        obtain ⟨fire, sound, -, hfire, rfl⟩ := (decodeNextFire_eq_ok_some [first] (by simp)).mp ho
        have hlen := hfire.length_le
        have hcursor : [first].length + fire.length + 65538 < 2 ^ 64 := by simp only [List.length_singleton]; omega
        simp only [fallible_ok_bind, decodeSound_eq hcursor, fallible_pure]
        exact fallible_bind _ _

/-- The decoder of the source never panics, and its outcome is that of the decoder. -/
theorem decodeState_eq : decodeState bytes = fallible (Daemon.decodeState bytes) := by
  unfold decodeState
  by_cases hlen : 3 ≤ bytes.length
  · obtain ⟨b₀, b₁, version, body, rfl⟩ : ∃ b₀ b₁ version body, bytes = b₀ :: b₁ :: version :: body := by
      match bytes, hlen with
      | b₀ :: b₁ :: version :: body, _ => exact ⟨b₀, b₁, version, body, rfl⟩
    have hmagic : slice (b₀ :: b₁ :: version :: body) 0 2 = fallible (.ok [b₀, b₁]) := rfl
    have hversion : index (b₀ :: b₁ :: version :: body) 2 = fallible (.ok version) := rfl
    have hbody : slice (b₀ :: b₁ :: version :: body) 3 (b₀ :: b₁ :: version :: body).length = fallible (.ok body) := by
      have htake : ((b₀ :: b₁ :: version :: body).drop 3).take ((b₀ :: b₁ :: version :: body).length - 3) = body := by
        simp
      rw [slice, getRange, if_pos ⟨hlen, le_rfl⟩, htake]
      rfl
    simp only [if_pos hlen, hmagic, hversion, hbody, fallible_ok_bind, decodeBodyV1_eq, Daemon.decodeState]
    repeat' split
    all_goals rfl
  · rw [if_neg hlen, decodeBodyV1_eq, decodeState_legacy fun h => hlen h.1]

/-- For every byte string: the source does not panic, it reads what the grammar says and accepts
nothing else, and what it does not accept is `Corrupted`. -/
theorem decodes_exactly (bytes : List UInt8) :
    decodeState bytes = fallible (Daemon.decodeState bytes) ∧
      (∀ p, Daemon.decodeState bytes = .ok p ↔ ValueReads bytes p) ∧
      ((∃ message, Daemon.decodeState bytes = .error (.corrupted message)) ↔ ∀ p, ¬ ValueReads bytes p) :=
  ⟨decodeState_eq, fun _ => decodeState_eq_ok_iff, decodeState_corrupted_iff⟩

end Indexing

end HelmAlarm.Daemon
