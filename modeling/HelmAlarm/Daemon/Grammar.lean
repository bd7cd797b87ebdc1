import HelmAlarm.Daemon.Codec

/-!
# What the decoder accepts

The decoder of the stored value is tolerant: the body may end after the armed byte
or after the fire time, any non-zero byte is armed, what follows the sound id is
ignored, and a value without the magic is a body. `ValueReads` is the grammar of
what it accepts and of what it reads, `decodeState_eq_ok_iff` says that there is
nothing else, and everything else is `Corrupted`.

What the decoder accepts fits, so that the next save writes it whole: a legacy
value survives being rewritten, `legacy_migrates`.
-/

namespace HelmAlarm.Daemon

open HelmAlarm.Library

/-- The fire-time field: a zero, or a one and a time in eight bytes. -/
inductive FireReads : List UInt8 → Option Int64 → Prop where
  /-- There is no fire time. -/
  | none : FireReads [0] none
  /-- There is one. -/
  | some {word : List UInt8} (h : word.length = 8) : FireReads (1 :: word) (some (i64FromLeBytes word))

/-- The sound field, with what follows it. -/
inductive SoundReads : List UInt8 → Option String → Prop where
  /-- The body ends before it. -/
  | absent : SoundReads [] none
  /-- There is no sound. -/
  | none (tail : List UInt8) : SoundReads (0 :: tail) none
  /-- There is one: its length in two bytes, and that many bytes that are valid UTF-8. -/
  | some {len id : List UInt8} {sound : String} (tail : List UInt8) (hword : len.length = 2)
      (hlen : id.length = ofLe len) (hutf8 : fromUtf8 id = some sound) :
      SoundReads (1 :: (len ++ (id ++ tail))) (some sound)

/-- The body. -/
inductive BodyReads : List UInt8 → PersistedState → Prop where
  /-- It is empty. -/
  | empty : BodyReads [] {}
  /-- It ends after the armed byte. -/
  | armedOnly (first : UInt8) : BodyReads [first] { armed := first != 0 }
  /-- It has a fire-time field, and a sound field. -/
  | fields (first : UInt8) {fire sound : List UInt8} {nextFireUnixMs : Option Int64} {currentSound : Option String}
      (hfire : FireReads fire nextFireUnixMs) (hsound : SoundReads sound currentSound) :
      BodyReads (first :: (fire ++ sound)) { armed := first != 0, nextFireUnixMs, currentSound }

/-- The value begins like a versioned one. -/
def Versioned (bytes : List UInt8) : Prop := 3 ≤ bytes.length ∧ schemaMagic <+: bytes

instance (bytes : List UInt8) : Decidable (Versioned bytes) := inferInstanceAs (Decidable (_ ∧ _))

/-- The stored value. -/
inductive ValueReads : List UInt8 → PersistedState → Prop where
  /-- The magic, the version and a body. -/
  | versioned {body : List UInt8} {p : PersistedState} (hbody : BodyReads body p) :
      ValueReads (schemaMagic ++ schemaVersion :: body) p
  /-- A body on its own. -/
  | legacy {body : List UInt8} {p : PersistedState} (hlegacy : ¬ Versioned body) (hbody : BodyReads body p) :
      ValueReads body p

/-! ### Field by field -/

theorem orCorrupted_eq_ok {α : Type} {message : String} {o : Option α} {a : α} :
    orCorrupted message o = .ok a ↔ o = some a := by
  cases o <;> simp

/-- A slice at the cursor is the first bytes of what is there. -/
theorem getRange_append {pre rest field : List UInt8} {n : ℕ} :
    getRange (pre ++ rest) pre.length (pre.length + n) = some field ↔
      ∃ tail, rest = field ++ tail ∧ field.length = n := by
  constructor
  · intro h
    obtain ⟨-, hle, rfl, hlen⟩ := getRange_eq_some h
    refine ⟨rest.drop n, ?_, by omega⟩
    simp
  · rintro ⟨tail, rfl, rfl⟩
    exact getRange_cursor pre field tail

theorem decodeNextFire_eq_ok_none (pre : List UInt8) {rest : List UInt8} :
    decodeNextFire (pre ++ rest) pre.length = .ok none ↔ rest = [] := by
  cases rest with
  | nil => simp [decodeNextFire]
  | cons tag rest =>
    simp only [decodeNextFire, getElem?_cursor, bind, Except.bind]
    constructor
    · intro h
      repeat' split at h
      all_goals cases h
    · intro h
      cases h

/-- Behind the tag of a fire time there are its eight bytes. -/
theorem decodeNextFire_one {pre rest : List UInt8} {t : Option Int64} {cursor : ℕ}
    (hpre : pre.length + 9 < 2 ^ 64) :
    decodeNextFire (pre ++ 1 :: rest) pre.length = .ok (some (t, cursor)) ↔
      ∃ word tail, rest = word ++ tail ∧ word.length = 8 ∧ t = some (i64FromLeBytes word) ∧
        cursor = pre.length + 9 := by
  have hpre' : pre ++ 1 :: rest = (pre ++ [1]) ++ rest := by simp
  have hlen : pre.length + 1 = (pre ++ [1]).length := by simp
  simp only [decodeNextFire, getElem?_cursor, if_true, if_neg (show (1 : UInt8) ≠ 0 by decide),
    checkedAdd_eq (show pre.length + 1 + 8 < 2 ^ 64 by omega), orCorrupted_some, bind, Except.bind]
  constructor
  · intro h
    split at h
    · cases h
    · rename_i word hword
      rw [orCorrupted_eq_ok, hpre', hlen, getRange_append] at hword
      obtain ⟨tail, rfl, hword⟩ := hword
      simp only [Except.ok.injEq, Option.some.injEq, Prod.mk.injEq] at h
      obtain ⟨rfl, rfl⟩ := h
      exact ⟨word, tail, rfl, hword, rfl, rfl⟩
  · rintro ⟨word, tail, rfl, hword, rfl, rfl⟩
    rw [hpre', hlen, getRange_append.mpr ⟨tail, rfl, hword⟩]
    simp [Nat.add_assoc]

/-- The fire-time field is read as the grammar says, and the cursor left behind it. -/
theorem decodeNextFire_eq_ok_some (pre : List UInt8) {rest : List UInt8} {t : Option Int64} {cursor : ℕ}
    (hpre : pre.length + 9 < 2 ^ 64) :
    decodeNextFire (pre ++ rest) pre.length = .ok (some (t, cursor)) ↔
      ∃ fire sound, rest = fire ++ sound ∧ FireReads fire t ∧ cursor = pre.length + fire.length := by
  constructor
  · intro h
    cases rest with
    | nil => simp [decodeNextFire] at h
    | cons tag rest =>
      by_cases h0 : tag = 0
      · subst h0
        simp only [decodeNextFire, getElem?_cursor, if_true, Except.ok.injEq, Option.some.injEq, Prod.mk.injEq] at h
        obtain ⟨rfl, rfl⟩ := h
        exact ⟨[0], rest, rfl, .none, rfl⟩
      · by_cases h1 : tag = 1
        · subst h1
          obtain ⟨word, tail, rfl, hword, rfl, rfl⟩ := (decodeNextFire_one hpre).mp h
          exact ⟨1 :: word, tail, rfl, .some hword, by simp [hword]⟩
        · simp only [decodeNextFire, getElem?_cursor, if_neg h0, if_neg h1] at h
          cases h
  · rintro ⟨fire, sound, rfl, hfire, rfl⟩
    cases hfire with
    | none => simp [decodeNextFire]
    | @some word hword =>
      exact (decodeNextFire_one hpre).mpr ⟨word, sound, rfl, hword, rfl, by simp [hword]⟩

/-- Behind the tag of a sound there are its length, and that many bytes that are valid UTF-8. -/
theorem decodeSound_one {pre rest : List UInt8} {sound : Option String} (hpre : pre.length + 65538 < 2 ^ 64) :
    decodeSound (pre ++ 1 :: rest) pre.length = .ok sound ↔
      ∃ len id tail s, rest = len ++ (id ++ tail) ∧ len.length = 2 ∧ id.length = ofLe len ∧
        fromUtf8 id = some s ∧ sound = some s := by
  have hpre' : pre ++ 1 :: rest = (pre ++ [1]) ++ rest := by simp
  have hlen : pre.length + 1 = (pre ++ [1]).length := by simp
  have hbody : ∀ len tail : List UInt8, len.length = 2 →
      pre ++ 1 :: (len ++ tail) = (pre ++ 1 :: len) ++ tail ∧ pre.length + 1 + 2 = (pre ++ 1 :: len).length :=
    fun len tail hword => ⟨by simp, by simp [hword]⟩
  have hend : ∀ len : List UInt8, len.length = 2 → pre.length + 1 + 2 + ofLe len < 2 ^ 64 := by
    intro len hword
    have := ofLe_lt len
    rw [hword] at this
    omega
  simp only [decodeSound, getElem?_cursor, if_true, if_neg (show (1 : UInt8) ≠ 0 by decide),
    checkedAdd_eq (show pre.length + 1 + 2 < 2 ^ 64 by omega), orCorrupted_some, bind, Except.bind]
  constructor
  · intro h
    split at h
    · cases h
    rename_i len hrange
    rw [orCorrupted_eq_ok, hpre', hlen, getRange_append] at hrange
    obtain ⟨tail, rfl, hword⟩ := hrange
    simp only [checkedAdd_eq (hend len hword), orCorrupted_some] at h
    split at h
    · cases h
    rename_i id hid
    rw [orCorrupted_eq_ok, (hbody len tail hword).1, (hbody len tail hword).2, getRange_append] at hid
    obtain ⟨tail, rfl, hid⟩ := hid
    split at h
    · cases h
    rename_i s hs
    exact ⟨len, id, tail, s, rfl, hword, hid, orCorrupted_eq_ok.mp hs, (Except.ok.inj h).symm⟩
  · rintro ⟨len, id, tail, s, rfl, hword, hid, hutf8, rfl⟩
    have hlenRange : getRange (pre ++ 1 :: (len ++ (id ++ tail))) (pre.length + 1) (pre.length + 1 + 2) =
        some len := by
      rw [hpre', hlen]
      exact getRange_append.mpr ⟨_, rfl, hword⟩
    have hidRange : getRange (pre ++ 1 :: (len ++ (id ++ tail))) (pre.length + 1 + 2)
        (pre.length + 1 + 2 + ofLe len) = some id := by
      rw [(hbody len _ hword).1, (hbody len [] hword).2]
      exact getRange_append.mpr ⟨tail, rfl, hid⟩
    simp only [hlenRange, orCorrupted_some, checkedAdd_eq (hend len hword), hidRange, hutf8]

/-- The sound field is read as the grammar says. -/
theorem decodeSound_eq_ok {pre rest : List UInt8} {sound : Option String} (hpre : pre.length + 65538 < 2 ^ 64) :
    decodeSound (pre ++ rest) pre.length = .ok sound ↔ SoundReads rest sound := by
  constructor
  · intro h
    cases rest with
    | nil =>
      simp only [decodeSound, List.append_nil, List.getElem?_length, Except.ok.injEq] at h
      exact h ▸ .absent
    | cons tag rest =>
      by_cases h0 : tag = 0
      · subst h0
        simp only [decodeSound, getElem?_cursor, if_true, Except.ok.injEq] at h
        exact h ▸ .none rest
      · by_cases h1 : tag = 1
        · subst h1
          obtain ⟨len, id, tail, s, rfl, hword, hid, hutf8, rfl⟩ := (decodeSound_one hpre).mp h
          exact .some tail hword hid hutf8
        · simp only [decodeSound, getElem?_cursor, if_neg h0, if_neg h1] at h
          cases h
  · intro h
    cases h with
    | absent => simp [decodeSound]
    | none tail => simp [decodeSound]
    | some tail hword hid hutf8 => exact (decodeSound_one hpre).mpr ⟨_, _, tail, _, rfl, hword, hid, hutf8, rfl⟩

theorem FireReads.length_le {fire : List UInt8} {t : Option Int64} (h : FireReads fire t) : fire.length ≤ 9 := by
  cases h with
  | none => simp
  | some hword => simp [hword]

/-- The body is read as the grammar says. -/
theorem decodeBodyV1_eq_ok {body : List UInt8} {p : PersistedState} :
    decodeBodyV1 body = .ok p ↔ BodyReads body p := by
  cases body with
  | nil =>
    simp only [decodeBodyV1, Except.ok.injEq]
    constructor
    · rintro rfl; exact .empty
    · intro h; cases h; rfl
  | cons first rest =>
    simp only [decodeBodyV1, bind, Except.bind]
    constructor
    · intro h
      split at h
      · cases h
      rename_i o ho
      cases o with
      | none =>
        obtain rfl := (decodeNextFire_eq_ok_none [first]).mp ho
        obtain rfl := Except.ok.inj h
        exact .armedOnly first
      | some field =>
        obtain ⟨t, cursor⟩ := field
        obtain ⟨fire, sound, rfl, hfire, rfl⟩ :=
          (decodeNextFire_eq_ok_some [first] (by simp)).mp ho
        simp only at h
        split at h
        · cases h
        rename_i id hid
        obtain rfl := Except.ok.inj h
        have hlen := hfire.length_le
        have happ : first :: (fire ++ sound) = (first :: fire) ++ sound := rfl
        have hcursor : [first].length + fire.length = (first :: fire).length := by simp; omega
        rw [happ, hcursor, decodeSound_eq_ok (by simp; omega)] at hid
        exact .fields first hfire hid
    · intro h
      cases h with
      | armedOnly first =>
        rw [show decodeNextFire [first] 1 = .ok none from (decodeNextFire_eq_ok_none [first]).mpr rfl]
      | @fields _ fire sound t id hfire hsound =>
        have hlen := hfire.length_le
        have hnext : decodeNextFire (first :: (fire ++ sound)) 1 = .ok (some (t, 1 + fire.length)) :=
          (decodeNextFire_eq_ok_some [first] (by simp)).mpr ⟨fire, sound, rfl, hfire, rfl⟩
        have hid : decodeSound (first :: (fire ++ sound)) (1 + fire.length) = .ok id := by
          have happ : first :: (fire ++ sound) = (first :: fire) ++ sound := rfl
          have hcursor : 1 + fire.length = (first :: fire).length := by simp; omega
          rw [happ, hcursor, decodeSound_eq_ok (by simp; omega)]
          exact hsound
        simp only [hnext, hid]

/-! ### The value as a whole -/

theorem versioned_iff {bytes : List UInt8} :
    Versioned bytes ↔ ∃ version body, bytes = schemaMagic ++ version :: body := by
  constructor
  · rintro ⟨hlen, tail, rfl⟩
    cases tail with
    | nil => simp [schemaMagic] at hlen
    | cons version body => exact ⟨version, body, rfl⟩
  · rintro ⟨version, body, rfl⟩
    exact ⟨by simp [schemaMagic], List.prefix_append _ _⟩

theorem decodeState_versioned (version : UInt8) (body : List UInt8) :
    decodeState (schemaMagic ++ version :: body) =
      if version = schemaVersion then decodeBodyV1 body
      else .error (.corrupted s!"unsupported schema version {version}") := rfl

/-- A value that does not begin like a versioned one is a body. -/
theorem decodeState_legacy {bytes : List UInt8} (h : ¬ Versioned bytes) :
    decodeState bytes = decodeBodyV1 bytes := by
  unfold decodeState
  split
  · rename_i b₀ b₁ version body
    refine if_neg fun hmagic => h (versioned_iff.mpr ⟨version, body, ?_⟩)
    rw [← hmagic]
    rfl
  · rfl

/-- The decoder accepts the values of the grammar, and reads what it says. -/
theorem decodeState_eq_ok_iff {bytes : List UInt8} {p : PersistedState} :
    decodeState bytes = .ok p ↔ ValueReads bytes p := by
  constructor
  · intro h
    by_cases hv : Versioned bytes
    · obtain ⟨version, body, rfl⟩ := versioned_iff.mp hv
      rw [decodeState_versioned] at h
      split at h
      · rename_i hversion
        subst hversion
        exact .versioned (decodeBodyV1_eq_ok.mp h)
      · cases h
    · rw [decodeState_legacy hv] at h
      exact .legacy hv (decodeBodyV1_eq_ok.mp h)
  · intro h
    cases h with
    | versioned hbody =>
      rw [decodeState_versioned, if_pos rfl]
      exact decodeBodyV1_eq_ok.mpr hbody
    | legacy hlegacy hbody =>
      rw [decodeState_legacy hlegacy]
      exact decodeBodyV1_eq_ok.mpr hbody

/-! ### Everything else is corrupted -/

/-- The error is `Corrupted`. -/
def PersistenceError.IsCorrupted (e : PersistenceError) : Prop := ∃ message, e = .corrupted message

theorem isCorrupted_of_orCorrupted {α : Type} {message : String} {o : Option α} {e : PersistenceError}
    (h : orCorrupted message o = .error e) : e.IsCorrupted := by
  cases o with
  | none => exact ⟨message, (Except.error.inj h).symm⟩
  | some a => cases h

theorem isCorrupted_of_bind {α β : Type} {x : Except PersistenceError α} {f : α → Except PersistenceError β}
    {e : PersistenceError} (h : (x >>= f) = .error e) (hx : ∀ e, x = .error e → e.IsCorrupted)
    (hf : ∀ a e, f a = .error e → e.IsCorrupted) : e.IsCorrupted := by
  cases x with
  | error e' =>
    obtain rfl : e' = e := Except.error.inj h
    exact hx e' rfl
  | ok a => exact hf a e h

theorem isCorrupted_of_decodeNextFire {bytes : List UInt8} {cursor : ℕ} {e : PersistenceError}
    (h : decodeNextFire bytes cursor = .error e) : e.IsCorrupted := by
  unfold decodeNextFire at h
  split at h
  · cases h
  split at h
  · cases h
  split at h
  · apply isCorrupted_of_bind h (fun _ => isCorrupted_of_orCorrupted)
    intro fin e h
    apply isCorrupted_of_bind h (fun _ => isCorrupted_of_orCorrupted)
    intro slice e h
    cases h
  · exact ⟨_, (Except.error.inj h).symm⟩

theorem isCorrupted_of_decodeSound {bytes : List UInt8} {cursor : ℕ} {e : PersistenceError}
    (h : decodeSound bytes cursor = .error e) : e.IsCorrupted := by
  unfold decodeSound at h
  split at h
  · cases h
  split at h
  · cases h
  split at h
  · apply isCorrupted_of_bind h (fun _ => isCorrupted_of_orCorrupted)
    intro lenEnd e h
    apply isCorrupted_of_bind h (fun _ => isCorrupted_of_orCorrupted)
    intro lenSlice e h
    apply isCorrupted_of_bind h (fun _ => isCorrupted_of_orCorrupted)
    intro bodyEnd e h
    apply isCorrupted_of_bind h (fun _ => isCorrupted_of_orCorrupted)
    intro body e h
    apply isCorrupted_of_bind h (fun _ => isCorrupted_of_orCorrupted)
    intro sound e h
    cases h
  · exact ⟨_, (Except.error.inj h).symm⟩

theorem isCorrupted_of_decodeBodyV1 {body : List UInt8} {e : PersistenceError}
    (h : decodeBodyV1 body = .error e) : e.IsCorrupted := by
  cases body with
  | nil => cases h
  | cons first rest =>
    apply isCorrupted_of_bind h (fun _ => isCorrupted_of_decodeNextFire)
    intro o e h
    cases o with
    | none => cases h
    | some field =>
      apply isCorrupted_of_bind h (fun _ => isCorrupted_of_decodeSound)
      intro sound e h
      cases h

/-- The decoder has no other error. -/
theorem isCorrupted_of_decodeState {bytes : List UInt8} {e : PersistenceError}
    (h : decodeState bytes = .error e) : e.IsCorrupted := by
  unfold decodeState at h
  repeat' split at h
  · exact isCorrupted_of_decodeBodyV1 h
  · exact ⟨_, (Except.error.inj h).symm⟩
  · exact isCorrupted_of_decodeBodyV1 h
  · exact isCorrupted_of_decodeBodyV1 h

/-- What is not of the grammar is corrupted. -/
theorem decodeState_corrupted_iff {bytes : List UInt8} :
    (∃ message, decodeState bytes = .error (.corrupted message)) ↔ ∀ p, ¬ ValueReads bytes p := by
  constructor
  · rintro ⟨message, h⟩ p hp
    rw [decodeState_eq_ok_iff.mpr hp] at h
    cases h
  · intro h
    cases hd : decodeState bytes with
    | ok p => exact absurd (decodeState_eq_ok_iff.mp hd) (h p)
    | error e =>
      obtain ⟨message, rfl⟩ := isCorrupted_of_decodeState hd
      exact ⟨message, rfl⟩

/-! ### Legacy values -/

/-- A sound id that is read is stored whole when it is written again: its length was in two bytes. -/
theorem SoundReads.fits {bytes : List UInt8} {sound : Option String} (h : SoundReads bytes sound) :
    ∀ id ∈ sound, SoundFits id := by
  cases h with
  | absent => simp
  | none => simp
  | @some len body id tail hword hlen hutf8 =>
    rintro _ ⟨⟩
    have hlt := ofLe_lt len
    have hbytes := congrArg List.length (utf8_of_fromUtf8 hutf8)
    rw [hword] at hlt
    rw [length_utf8] at hbytes
    unfold SoundFits u16Max
    omega

theorem BodyReads.fits {body : List UInt8} {p : PersistedState} (h : BodyReads body p) : p.Fits := by
  cases h with
  | empty => simp [PersistedState.Fits]
  | armedOnly => simp [PersistedState.Fits]
  | fields first hfire hsound => exact hsound.fits

/-- What the decoder accepts fits. -/
theorem fits_of_decodeState {bytes : List UInt8} {p : PersistedState} (h : decodeState bytes = .ok p) : p.Fits := by
  cases decodeState_eq_ok_iff.mp h with
  | versioned hbody => exact hbody.fits
  | legacy hlegacy hbody => exact hbody.fits

/-- A body does not begin like a versioned value: its armed byte is a zero or a one. -/
theorem not_versioned_encodeBodyV1 (p : PersistedState) : ¬ Versioned (encodeBodyV1 p) := by
  intro h
  obtain ⟨version, body, heq⟩ := versioned_iff.mp h
  have hfirst : (if p.armed then (1 : UInt8) else 0) = 0x41 := List.head_eq_of_cons_eq heq
  split at hfirst <;> exact absurd hfirst (by decide)

theorem decodeBodyV1_encodeBodyV1 {p : PersistedState} (h : p.Fits) : decodeBodyV1 (encodeBodyV1 p) = .ok p :=
  decodeState_encodeState h

/-- A legacy value is read like a versioned one; and whatever the decoder accepts is written whole by
the next save, and read back the same. -/
theorem legacy_migrates :
    (∀ p : PersistedState, (∀ id ∈ p.currentSound, id.utf8ByteSize ≤ 65535) →
      ¬ Versioned (encodeBodyV1 p) ∧ decodeState (encodeBodyV1 p) = .ok p ∧
        decodeState (encodeBodyV1 p) = decodeState (encodeState p)) ∧
      ∀ bytes p, decodeState bytes = .ok p →
        (∀ id ∈ p.currentSound, storedBytes id = utf8 id) ∧ decodeState (encodeState p) = .ok p := by
  refine ⟨fun p hp => ?_, fun bytes p h => ?_⟩
  · have hlegacy := not_versioned_encodeBodyV1 p
    have hread : decodeState (encodeBodyV1 p) = .ok p := by
      rw [decodeState_legacy hlegacy]
      exact decodeBodyV1_encodeBodyV1 hp
    exact ⟨hlegacy, hread, hread.trans (decodeState_encodeState hp).symm⟩
  · have hfits := fits_of_decodeState h
    exact ⟨fun id hid => storedBytes_of_fits (hfits id hid), decodeState_encodeState hfits⟩

/-- A legacy value, and one with an odd armed byte that ends after it. -/
theorem legacy_migrates_short :
    decodeState (encodeBodyV1 ⟨true, some (-1), some "builtin:horn"⟩) = .ok ⟨true, some (-1), some "builtin:horn"⟩ ∧
      decodeState (encodeState { armed := true }) = .ok { armed := true } :=
  ⟨(legacy_migrates.1 ⟨true, some (-1), some "builtin:horn"⟩ (by decide)).2.1,
    (legacy_migrates.2 [7] { armed := true } (by decide)).2⟩

end HelmAlarm.Daemon
