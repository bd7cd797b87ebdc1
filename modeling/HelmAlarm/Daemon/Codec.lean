import HelmAlarm.Library.LittleEndian
import HelmAlarm.Daemon.State

/-!
# The stored value

The value layout of `persistence/mod.rs`: the magic `"AD"`, a version byte, and
the body — the armed byte, the fire time behind a tag, the sound id behind a tag
and a 16-bit length. `encodeState` and `decodeState` are the source's functions,
with its error texts; a value without the magic is a legacy body.

The body of a sound id is cut at 65535 bytes on the way out and has to be valid
UTF-8 on the way in. So a state whose id fits (`PersistedState.Fits`) is read
back exactly, and one whose id does not never is: `decodeState_encodeState_iff`.
-/

namespace HelmAlarm.Daemon

open HelmAlarm.Library

/-- Errors raised by the persistence layer. -/
inductive PersistenceError where
  /-- I/O error around the database file. -/
  | io (message : String)
  /-- Failed to open or create the redb file. -/
  | database (message : String)
  /-- Failed to begin a read or write transaction. -/
  | txn (message : String)
  /-- Failed to open the state table inside a transaction. -/
  | table (message : String)
  /-- Failed to commit a write transaction. -/
  | commit (message : String)
  /-- Failed to read or write a value of the state table. -/
  | read (message : String)
  /-- Stored payload could not be decoded. -/
  | corrupted (message : String)
  deriving DecidableEq, Repr

/-- The text of an error. -/
def PersistenceError.toString : PersistenceError → String
  | .io message => "i/o error: " ++ message
  | .database message => "database open/create error: " ++ message
  | .txn message => "database transaction error: " ++ message
  | .table message => "database table error: " ++ message
  | .commit message => "database commit error: " ++ message
  | .read message => "database read error: " ++ message
  | .corrupted message => "persistence corrupted: " ++ message

/-! ### Words and strings -/

/-- The UTF-8 bytes of a string. -/
def utf8 (s : String) : List UInt8 := s.toUTF8.data.toList

/-- `String::from_utf8`. -/
def fromUtf8 (bytes : List UInt8) : Option String := String.fromUTF8? ⟨bytes.toArray⟩

/-- `i64::to_le_bytes`. -/
def i64ToLeBytes (v : Int64) : List UInt8 := leBytes 8 v.toUInt64.toNat

/-- `i64::from_le_bytes`. -/
def i64FromLeBytes (bytes : List UInt8) : Int64 := (UInt64.ofNat (ofLe bytes)).toInt64

@[simp] theorem fromUtf8_utf8 (s : String) : fromUtf8 (utf8 s) = some s := by
  have hb : (⟨(utf8 s).toArray⟩ : ByteArray) = s.toByteArray := by simp [utf8]
  rw [fromUtf8, hb, String.fromUTF8?, dif_pos s.isValidUTF8]
  rfl

theorem utf8_of_fromUtf8 {bytes : List UInt8} {s : String} (h : fromUtf8 bytes = some s) :
    utf8 s = bytes := by
  unfold fromUtf8 String.fromUTF8? at h
  split at h
  · obtain rfl := Option.some.inj h
    simp [utf8, String.fromUTF8]
  · cases h

theorem length_utf8 (s : String) : (utf8 s).length = s.utf8ByteSize := rfl

@[simp] theorem length_i64ToLeBytes (v : Int64) : (i64ToLeBytes v).length = 8 := length_leBytes _ _

@[simp] theorem i64FromLeBytes_i64ToLeBytes (v : Int64) : i64FromLeBytes (i64ToLeBytes v) = v := by
  have hv := v.toUInt64.toNat_lt
  rw [i64FromLeBytes, i64ToLeBytes, ofLe_leBytes (by simpa using hv), UInt64.ofNat_toNat]
  rfl

/-! ### Encoding -/

/-- `SCHEMA_MAGIC`, the bytes of `"AD"`. -/
def schemaMagic : List UInt8 := [0x41, 0x44]

/-- `SCHEMA_VERSION`. -/
def schemaVersion : UInt8 := 1

/-- The largest `u16`. -/
def u16Max : ℕ := 65535

/-- The optional fire time: a tag, and the time in eight bytes. -/
def encodeNextFire : Option Int64 → List UInt8
  | some v => 1 :: i64ToLeBytes v
  | none => [0]

/-- The optional sound id: a tag, the length in two bytes, and that many bytes of the id.
An id longer than a `u16` can say is cut. -/
def encodeSound : Option String → List UInt8
  | some s =>
    let bytes := utf8 s
    let len := if bytes.length ≤ u16Max then bytes.length else u16Max
    1 :: (leBytes 2 len ++ bytes.take len)
  | none => [0]

/-- `encode_body_v1`. -/
def encodeBodyV1 (state : PersistedState) : List UInt8 :=
  (if state.armed then 1 else 0) ::
    (encodeNextFire state.nextFireUnixMs ++ encodeSound state.currentSound)

/-- `encode_state`. -/
def encodeState (state : PersistedState) : List UInt8 :=
  schemaMagic ++ schemaVersion :: encodeBodyV1 state

/-! ### Decoding -/

/-- `usize::checked_add`. -/
def checkedAdd (i n : ℕ) : Option ℕ := if i + n < 2 ^ 64 then some (i + n) else none

/-- `Option::ok_or_else` with a `Corrupted` error. -/
def orCorrupted {α : Type} (message : String) : Option α → Except PersistenceError α
  | some a => .ok a
  | none => .error (.corrupted message)

/-- How `Utf8Error` describes bytes that are not UTF-8, from their index `at_` on: what is wrong
with the sequence that starts with `b₀`, or that the input ends within it. -/
def utf8SequenceError (at_ : ℕ) : List UInt8 → String
  | [] => s!"incomplete utf-8 byte sequence from index {at_}"
  | b₀ :: rest =>
    let incomplete := s!"incomplete utf-8 byte sequence from index {at_}"
    let invalid (n : ℕ) := s!"invalid utf-8 sequence of {n} bytes from index {at_}"
    let continuation (b : UInt8) := 0x80 ≤ b && b ≤ 0xBF
    let second (b : UInt8) : Bool :=
      if b₀ = 0xE0 then 0xA0 ≤ b && b ≤ 0xBF
      else if b₀ = 0xED then 0x80 ≤ b && b ≤ 0x9F
      else if b₀ = 0xF0 then 0x90 ≤ b && b ≤ 0xBF
      else if b₀ = 0xF4 then 0x80 ≤ b && b ≤ 0x8F
      else continuation b
    if b₀ < 0xC2 || 0xF4 < b₀ then invalid 1
    else match rest with
      | [] => incomplete
      | b₁ :: rest =>
        if !second b₁ || b₀ < 0xE0 then invalid 1
        else match rest with
          | [] => incomplete
          | b₂ :: rest =>
            if !continuation b₂ || b₀ < 0xF0 then invalid 2
            else if rest.isEmpty then incomplete else invalid 3

/-- The text of the `FromUtf8Error` for bytes that are not UTF-8: it names the end of the
longest valid prefix. -/
def fromUtf8Error (bytes : List UInt8) : String :=
  let upTo := ((List.range (bytes.length + 1)).reverse.find? fun n => (fromUtf8 (bytes.take n)).isSome).getD 0
  utf8SequenceError upTo (bytes.drop upTo)

/-- The fire time at the cursor, and the cursor after it; `none` when the bytes end there. -/
def decodeNextFire (bytes : List UInt8) (cursor : ℕ) :
    Except PersistenceError (Option (Option Int64 × ℕ)) :=
  match bytes[cursor]? with
  | none => .ok none
  | some tag =>
    if tag = 0 then .ok (some (none, cursor + 1))
    else if tag = 1 then do
      let cursor := cursor + 1
      let fin ← orCorrupted "next_fire offset overflow" (checkedAdd cursor 8)
      let slice ← orCorrupted "missing next_fire bytes" (getRange bytes cursor fin)
      .ok (some (some (i64FromLeBytes slice), fin))
    else .error (.corrupted s!"unknown next_fire tag: {tag}")

/-- The sound id at the cursor. -/
def decodeSound (bytes : List UInt8) (cursor : ℕ) : Except PersistenceError (Option String) :=
  match bytes[cursor]? with
  | none => .ok none
  | some tag =>
    if tag = 0 then .ok none
    else if tag = 1 then do
      let cursor := cursor + 1
      let lenEnd ← orCorrupted "sound len offset overflow" (checkedAdd cursor 2)
      let lenSlice ← orCorrupted "missing sound length bytes" (getRange bytes cursor lenEnd)
      let len := ofLe lenSlice
      let bodyEnd ← orCorrupted "sound body offset overflow" (checkedAdd lenEnd len)
      let body ← orCorrupted "missing sound body bytes" (getRange bytes lenEnd bodyEnd)
      let sound ← orCorrupted s!"sound id utf8: {fromUtf8Error body}" (fromUtf8 body)
      .ok (some sound)
    else .error (.corrupted s!"unknown sound tag: {tag}")

/-- `decode_body_v1`. -/
def decodeBodyV1 (bytes : List UInt8) : Except PersistenceError PersistedState :=
  match bytes with
  | [] => .ok {}
  | first :: _ => do
    let armed := first != 0
    match ← decodeNextFire bytes 1 with
    | none => .ok { armed }
    | some (nextFireUnixMs, cursor) => do
      let currentSound ← decodeSound bytes cursor
      .ok { armed, nextFireUnixMs, currentSound }

/-- `decode_state`. -/
def decodeState (bytes : List UInt8) : Except PersistenceError PersistedState :=
  match bytes with
  | b₀ :: b₁ :: version :: body =>
    if [b₀, b₁] = schemaMagic then
      if version = schemaVersion then decodeBodyV1 body
      else .error (.corrupted s!"unsupported schema version {version}")
    -- No magic: legacy v0.1 dev databases. Same body layout, no prefix.
    else decodeBodyV1 bytes
  | _ => decodeBodyV1 bytes

/-! ### Reading back what was written -/

theorem checkedAdd_eq {i n : ℕ} (h : i + n < 2 ^ 64) : checkedAdd i n = some (i + n) := if_pos h

@[simp] theorem orCorrupted_some {α : Type} (message : String) (a : α) :
    orCorrupted message (some a) = .ok a := rfl

@[simp] theorem orCorrupted_none {α : Type} (message : String) :
    orCorrupted message (none : Option α) = .error (.corrupted message) := rfl

/-- The fire-time field is read back, and the cursor left behind it. -/
theorem decodeNextFire_encodeNextFire (pre rest : List UInt8) (t : Option Int64)
    (hpre : pre.length + 9 < 2 ^ 64) :
    decodeNextFire (pre ++ (encodeNextFire t ++ rest)) pre.length =
      .ok (some (t, pre.length + (encodeNextFire t).length)) := by
  cases t with
  | none => simp [decodeNextFire, encodeNextFire]
  | some v =>
    have hget : (pre ++ (encodeNextFire (some v) ++ rest))[pre.length]? = some 1 :=
      getElem?_cursor _ _ _
    have hrange : getRange (pre ++ (encodeNextFire (some v) ++ rest)) (pre.length + 1) (pre.length + 1 + 8) =
        some (i64ToLeBytes v) := by
      have := getRange_cursor (pre ++ [1]) (i64ToLeBytes v) rest
      simpa [encodeNextFire] using this
    rw [decodeNextFire, hget]
    simp only [if_true, checkedAdd_eq (show pre.length + 1 + 8 < 2 ^ 64 by omega),
      orCorrupted_some, hrange, bind, Except.bind, i64FromLeBytes_i64ToLeBytes]
    simp [encodeNextFire]

/-- The bytes of a sound id that reach the disk. -/
def storedBytes (id : String) : List UInt8 := (utf8 id).take u16Max

theorem length_storedBytes (id : String) : (storedBytes id).length = min u16Max (utf8 id).length :=
  List.length_take

/-- The sound field is written as a tag, the length of the stored bytes and the stored bytes. -/
theorem encodeSound_some (id : String) :
    encodeSound (some id) = 1 :: (leBytes 2 (storedBytes id).length ++ storedBytes id) := by
  rw [length_storedBytes]
  by_cases h : (utf8 id).length ≤ u16Max
  · simp [encodeSound, storedBytes, if_pos h, min_eq_right h, List.take_of_length_le h]
  · simp [encodeSound, storedBytes, if_neg h, min_eq_left (le_of_not_ge h)]

/-- What the sound field is read back as: the string its stored bytes spell, if they spell one. -/
def readBackSound : Option String → Except PersistenceError (Option String)
  | none => .ok none
  | some id => (orCorrupted s!"sound id utf8: {fromUtf8Error (storedBytes id)}"
      (fromUtf8 (storedBytes id))).map some

theorem decodeSound_encodeSound (pre rest : List UInt8) (sound : Option String)
    (hpre : pre.length + 65539 < 2 ^ 64) :
    decodeSound (pre ++ (encodeSound sound ++ rest)) pre.length = readBackSound sound := by
  cases sound with
  | none => simp [decodeSound, encodeSound, readBackSound]
  | some id =>
    have hlen : (storedBytes id).length ≤ 65535 := by
      rw [length_storedBytes]; exact min_le_left _ _
    rw [readBackSound]
    generalize hsb : storedBytes id = body at hlen
    have henc : encodeSound (some id) = 1 :: (leBytes 2 body.length ++ body) := by
      rw [encodeSound_some, hsb]
    have hget : (pre ++ (encodeSound (some id) ++ rest))[pre.length]? = some 1 := by
      rw [henc]; exact getElem?_cursor _ _ _
    have hlenRange : getRange (pre ++ (encodeSound (some id) ++ rest)) (pre.length + 1) (pre.length + 1 + 2) =
        some (leBytes 2 body.length) := by
      have := getRange_cursor (pre ++ [1]) (leBytes 2 body.length) (body ++ rest)
      simpa [henc] using this
    have hbodyRange : getRange (pre ++ (encodeSound (some id) ++ rest)) (pre.length + 1 + 2)
        (pre.length + 1 + 2 + body.length) = some body := by
      have := getRange_cursor (pre ++ 1 :: leBytes 2 body.length) body rest
      simpa [henc, Nat.add_assoc] using this
    have hle : ofLe (leBytes 2 body.length) = body.length := ofLe_leBytes (by omega)
    rw [decodeSound, hget]
    simp only [if_true, checkedAdd_eq (show pre.length + 1 + 2 < 2 ^ 64 by omega),
      checkedAdd_eq (show pre.length + 1 + 2 + body.length < 2 ^ 64 by omega), orCorrupted_some, hlenRange,
      hbodyRange, hle, bind, Except.bind]
    cases fromUtf8 body <;> rfl

/-- A sound id that is stored whole. -/
def SoundFits (id : String) : Prop := id.utf8ByteSize ≤ u16Max

instance (id : String) : Decidable (SoundFits id) := inferInstanceAs (Decidable (_ ≤ _))

theorem storedBytes_of_fits {id : String} (h : SoundFits id) : storedBytes id = utf8 id :=
  List.take_of_length_le h

/-- The sound id of the state, if any, is stored whole. -/
def PersistedState.Fits (p : PersistedState) : Prop := ∀ id ∈ p.currentSound, SoundFits id

instance (p : PersistedState) : Decidable p.Fits :=
  match h : p.currentSound with
  | none => .isTrue (by simp [PersistedState.Fits, h])
  | some id => decidable_of_iff (SoundFits id) (by simp [PersistedState.Fits, h])

/-- What a stored state is read back as. -/
theorem decodeState_encodeState_eq (p : PersistedState) :
    decodeState (encodeState p) =
      (readBackSound p.currentSound).map fun sound => { p with currentSound := sound } := by
  obtain ⟨armed, t, sound⟩ := p
  generalize hfirst : (if armed then (1 : UInt8) else 0) = first
  have harmed : (first != 0) = armed := by subst hfirst; cases armed <;> rfl
  have hle : (encodeNextFire t).length ≤ 9 := by cases t <;> simp [encodeNextFire]
  have hfire : decodeNextFire (first :: (encodeNextFire t ++ encodeSound sound)) 1 =
      .ok (some (t, (first :: encodeNextFire t).length)) := by
    have := decodeNextFire_encodeNextFire [first] (encodeSound sound) t
      (by simp only [List.length_singleton]; omega)
    simpa [Nat.add_comm] using this
  have hsound : decodeSound (first :: (encodeNextFire t ++ encodeSound sound))
      (first :: encodeNextFire t).length = readBackSound sound := by
    have := decodeSound_encodeSound (first :: encodeNextFire t) [] sound
      (by simp only [List.length_cons]; omega)
    simpa using this
  simp only [encodeState, schemaMagic, List.cons_append, List.nil_append, decodeState, if_true, encodeBodyV1,
    hfirst, decodeBodyV1, hfire, hsound, bind, Except.bind, harmed]
  cases readBackSound sound <;> rfl

/-- A state whose sound id fits is read back exactly. -/
theorem decodeState_encodeState {p : PersistedState} (h : p.Fits) :
    decodeState (encodeState p) = .ok p := by
  rw [decodeState_encodeState_eq]
  obtain ⟨armed, t, sound⟩ := p
  cases sound with
  | none => rfl
  | some id =>
    simp only [readBackSound, storedBytes_of_fits (h id rfl), fromUtf8_utf8]
    rfl

/-- A state is read back exactly if and only if its sound id fits. -/
theorem decodeState_encodeState_iff {p : PersistedState} :
    decodeState (encodeState p) = .ok p ↔ p.Fits := by
  refine ⟨fun h id hid => ?_, decodeState_encodeState⟩
  rw [decodeState_encodeState_eq] at h
  obtain ⟨armed, t, sound⟩ := p
  obtain rfl : sound = some id := hid
  cases hs : fromUtf8 (storedBytes id) with
  | none => simp [readBackSound, hs, Except.map] at h
  | some id' =>
    simp only [readBackSound, hs, orCorrupted_some, Except.map, Except.ok.injEq, PersistedState.mk.injEq,
      Option.some.injEq, true_and] at h
    subst h
    have hlen := congrArg List.length (utf8_of_fromUtf8 hs)
    rw [length_storedBytes, length_utf8] at hlen
    rw [SoundFits, hlen]
    exact min_le_left _ _

/-- Whatever the armed flag and the fire time, a state with a sound id of at most 65535 bytes, if any,
is read back with its three fields. -/
theorem round_trip {p : PersistedState} (h : ∀ id ∈ p.currentSound, (utf8 id).length ≤ 65535) :
    decodeState (encodeState p) = .ok p :=
  decodeState_encodeState_iff.mpr h

theorem round_trip_min_value :
    decodeState (encodeState ⟨false, some Int64.minValue, some "builtin:horn"⟩) =
      .ok ⟨false, some Int64.minValue, some "builtin:horn"⟩ :=
  round_trip (by decide)

end HelmAlarm.Daemon
