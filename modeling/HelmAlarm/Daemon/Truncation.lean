import HelmAlarm.Daemon.Grammar

/-!
# Values that are cut

Two ways in which a stored value is shorter than its state. A sound id of more than
65535 bytes is cut by the encoder at a byte, and not at a character, so that what
is saved may not be UTF-8, which the decoder demands: `reads_back_iff`.

A value that is cut after it was encoded is read as another state at four places:
after the first byte, which is then a legacy body, and where the decoder takes
the rest as absent, which is before the armed byte, behind it, and behind the
fire time. Everywhere else it is `Corrupted`: `corrupted_iff_of_cut`.
-/

namespace HelmAlarm.Daemon

open HelmAlarm.Library

/-! ### Sound ids that are too long -/

/-- The cut at 65535 bytes, if there is one, is before a character. -/
def CutsCleanly (id : String) : Prop := ∀ b ∈ (utf8 id)[u16Max]?, b.IsUTF8FirstByte

instance (id : String) : Decidable (CutsCleanly id) := inferInstanceAs (Decidable (∀ b ∈ _, _))

theorem getUTF8Byte_eq {id : String} {n : ℕ} (h : (⟨n⟩ : String.Pos.Raw) < id.rawEndPos) :
    (utf8 id)[n]? = some (id.getUTF8Byte ⟨n⟩ h) := by
  have hlt : n < id.toByteArray.size := h
  rw [utf8, List.getElem?_eq_getElem (by simpa using hlt)]
  rfl

theorem utf8_append (a b : String) : utf8 (a ++ b) = utf8 a ++ utf8 b := by simp [utf8]

/-- A cut that is before a character, or behind the last one, leaves a string. -/
theorem exists_append_of_firstByte {id : String} {n : ℕ} (h : ∀ b ∈ (utf8 id)[n]?, b.IsUTF8FirstByte) :
    ∃ head tail, id = head ++ tail ∧ (utf8 id).take n = utf8 head := by
  rcases Nat.lt_or_ge (utf8 id).length n with hlong | hn
  · exact ⟨id, "", by simp, List.take_of_length_le hlong.le⟩
  have hvalid : (⟨n⟩ : String.Pos.Raw).IsValid id := by
    rw [String.Pos.Raw.isValid_iff_isUTF8FirstByte]
    rcases Nat.lt_or_eq_of_le hn with hlt | heq
    · exact .inr ⟨hlt, h _ (getUTF8Byte_eq hlt)⟩
    · exact .inl (String.Pos.Raw.ext heq)
  obtain ⟨head, tail, rfl, hpos⟩ := String.Pos.Raw.isValid_iff_exists_append.mp hvalid
  obtain rfl : n = (utf8 head).length := congrArg String.Pos.Raw.byteIdx hpos
  exact ⟨head, tail, rfl, by rw [utf8_append, List.take_left]⟩

/-- A cut that leaves a string is before a character, or behind the last one. -/
theorem firstByte_of_fromUtf8 {id s : String} {n : ℕ} (h : fromUtf8 ((utf8 id).take n) = some s) :
    ∀ b ∈ (utf8 id)[n]?, b.IsUTF8FirstByte := by
  intro b hb
  have hlt : n < (utf8 id).length := (List.getElem?_eq_some_iff.mp hb).1
  have hbytes := utf8_of_fromUtf8 h
  have hextract : id.toByteArray.extract 0 n = s.toByteArray := by
    apply ByteArray.ext
    apply Array.ext'
    rw [ByteArray.data_extract, Array.toList_extract]
    simpa [utf8] using hbytes.symm
  have hvalid : (⟨n⟩ : String.Pos.Raw).IsValid id := by
    refine String.Pos.Raw.isValid_iff_isValidUTF8_extract_zero.mpr ⟨hlt.le, ?_⟩
    rw [hextract]
    exact s.isValidUTF8
  rcases String.Pos.Raw.isValid_iff_isUTF8FirstByte.mp hvalid with heq | ⟨hpos, hfirst⟩
  · exact absurd (congrArg String.Pos.Raw.byteIdx heq) hlt.ne
  · rw [getUTF8Byte_eq hpos] at hb
    exact Option.some.inj hb ▸ hfirst

/-- The sound that is read back is a prefix of the one that was saved. -/
inductive SoundPrefix : Option String → Option String → Prop where
  /-- There is no sound. -/
  | none : SoundPrefix none none
  /-- There is one. -/
  | some (id rest : String) : SoundPrefix (some id) (some (id ++ rest))

/-- A saved state is read back with its armed flag, its fire time and a prefix of its sound id, if and
only if the cut of the id is clean. -/
theorem reads_back_iff (p : PersistedState) :
    (∃ q, decodeState (encodeState p) = .ok q ∧ q.armed = p.armed ∧ q.nextFireUnixMs = p.nextFireUnixMs ∧
      SoundPrefix q.currentSound p.currentSound) ↔ ∀ id ∈ p.currentSound, CutsCleanly id := by
  rw [decodeState_encodeState_eq]
  obtain ⟨armed, t, sound⟩ := p
  cases sound with
  | none => simpa [readBackSound, Except.map] using SoundPrefix.none
  | some id =>
    simp only [readBackSound, Option.mem_def, Option.some.injEq, forall_eq']
    constructor
    · rintro ⟨q, hq, -⟩
      cases hs : fromUtf8 (storedBytes id) with
      | none => rw [hs] at hq; cases hq
      | some s => exact firstByte_of_fromUtf8 hs
    · intro hcut
      obtain ⟨head, tail, rfl, htake⟩ := exists_append_of_firstByte hcut
      refine ⟨⟨armed, t, some head⟩, ?_, rfl, rfl, .some head tail⟩
      rw [storedBytes, htake, fromUtf8_utf8]
      rfl

/-- An id of `n + 2` bytes, of which the last two are one character. -/
def accentedId : ℕ → String
  | 0 => "é"
  | n + 1 => "a" ++ accentedId n

/-- Its last byte is within that character. -/
theorem utf8_accentedId (n : ℕ) : (utf8 (accentedId n))[n + 1]? = some 0xA9 := by
  induction n with
  | zero => decide
  | succ n ih =>
    have ha : utf8 "a" = [0x61] := by decide
    rw [accentedId, utf8_append, ha, List.singleton_append, List.getElem?_cons_succ]
    exact ih

/-- An id of 65536 bytes is cut within its last character: it is saved, and cannot be read back. -/
theorem accented_id_is_not_read :
    ¬ ∃ q, decodeState (encodeState ⟨true, some 3000, some (accentedId 65534)⟩) = .ok q := by
  rintro ⟨q, hq⟩
  have hcut : CutsCleanly (accentedId 65534) := by
    rw [decodeState_encodeState_eq, readBackSound] at hq
    cases hs : fromUtf8 (storedBytes (accentedId 65534)) with
    | none => rw [hs] at hq; cases hq
    | some s => exact firstByte_of_fromUtf8 hs
  exact absurd (hcut _ (utf8_accentedId 65534)) (by decide)

/-! ### Values that are cut after they were encoded -/

variable {fire sound word body cut : List UInt8} {t t' : Option Int64} {id id' : Option String} {p q : PersistedState}

/-- What begins two lists and is as long as the first part of one is that part. -/
theorem eq_of_start {α : Type} {a b rest : List α} (h : a <+: b ++ rest) (hlen : a.length = b.length) :
    a = b := by
  rw [List.prefix_iff_eq_take.mp h, hlen, List.take_left]

/-- Of the fire-time field, the decoder reads all or nothing. -/
theorem FireReads.eq_of_cut (h : FireReads fire t') (hpre : fire <+: encodeNextFire t ++ sound) :
    fire = encodeNextFire t := by
  cases h with
  | none =>
    cases t with
    | none => rfl
    | some v => simp [encodeNextFire, List.cons_prefix_cons] at hpre
  | @some word hword =>
    cases t with
    | none => simp [encodeNextFire, List.cons_prefix_cons] at hpre
    | some v => exact eq_of_start hpre (by simp [encodeNextFire, hword])

/-- Of the sound field too, unless it is absent. -/
theorem SoundReads.eq_of_cut (h : SoundReads sound id') (hne : sound ≠ []) (hpre : sound <+: encodeSound id) :
    sound = encodeSound id := by
  cases id with
  | none =>
    cases h with
    | absent => exact absurd rfl hne
    | none tail => exact hpre.eq_of_length_le (by simp [encodeSound])
    | some => simp [encodeSound, List.cons_prefix_cons] at hpre
  | some id =>
    rw [encodeSound_some] at hpre ⊢
    cases h with
    | absent => exact absurd rfl hne
    | none tail => simp [List.cons_prefix_cons] at hpre
    | @some len bytes s tail hword hlen hutf8 =>
      have hstored : (storedBytes id).length < 256 ^ 2 := by
        rw [length_storedBytes]
        exact (min_le_left _ _).trans_lt (by decide)
      have hword' : len <+: leBytes 2 (storedBytes id).length ++ storedBytes id :=
        (List.prefix_append _ _).trans (List.cons_prefix_cons.mp hpre).2
      obtain rfl := eq_of_start hword' (by simp [hword])
      rw [ofLe_leBytes hstored] at hlen
      exact hpre.eq_of_length_le (by simp [hlen])

/-- A body that was cut behind its armed byte is read when it was cut behind its fire time. -/
theorem BodyReads.eq_of_cut {first : UInt8} (h : BodyReads (first :: cut) q) (hne : cut ≠ [])
    (hpre : cut <+: encodeNextFire t ++ encodeSound id) (hstrict : cut ≠ encodeNextFire t ++ encodeSound id) :
    cut = encodeNextFire t := by
  cases h with
  | armedOnly => exact absurd rfl hne
  | @fields _ fire sound _ _ hfire hsound =>
    obtain rfl := hfire.eq_of_cut ((List.prefix_append _ _).trans hpre)
    by_cases hs : sound = []
    · rw [hs, List.append_nil]
    · have hsuffix : sound <+: encodeSound id := (List.prefix_append_right_inj _).mp hpre
      exact absurd (by rw [hsound.eq_of_cut hs hsuffix]) hstrict

theorem valueReads_versioned : ValueReads (schemaMagic ++ schemaVersion :: body) p ↔ BodyReads body p := by
  rw [← decodeState_eq_ok_iff, decodeState_versioned, if_pos rfl, decodeBodyV1_eq_ok]

theorem fireReads_encodeNextFire (t : Option Int64) : FireReads (encodeNextFire t) t := by
  cases t with
  | none => exact .none
  | some v =>
    have h := FireReads.some (length_i64ToLeBytes v)
    rwa [i64FromLeBytes_i64ToLeBytes] at h

/-- A stored value that is cut anywhere but at its end is `Corrupted`, if and only if it is not cut
behind its first byte, before or behind the armed byte, or behind the fire time. -/
theorem corrupted_iff_of_cut (hpre : cut <+: encodeState p) (hne : cut ≠ []) (hstrict : cut ≠ encodeState p) :
    (∃ message, decodeState cut = .error (.corrupted message)) ↔
      cut.length ≠ 1 ∧ cut.length ≠ 3 ∧ cut.length ≠ 4 ∧
        cut.length ≠ 4 + (encodeNextFire p.nextFireUnixMs).length := by
  rw [decodeState_corrupted_iff]
  have hpos : 0 < (encodeNextFire p.nextFireUnixMs).length := by
    cases p.nextFireUnixMs <;> simp [encodeNextFire]
  rcases List.prefix_cons_iff.mp hpre with rfl | ⟨cut₁, rfl, hpre₁⟩
  · exact absurd rfl hne
  rcases List.prefix_cons_iff.mp hpre₁ with rfl | ⟨cut₂, rfl, hpre₂⟩
  · -- the first byte alone is a legacy body
    have hread := ValueReads.legacy (by simp [Versioned]) (BodyReads.armedOnly 0x41)
    simpa using ⟨_, hread⟩
  rcases List.prefix_cons_iff.mp hpre₂ with rfl | ⟨body, rfl, hpre₃⟩
  · -- the magic alone is a legacy body with an unknown tag
    refine ⟨fun _ => ?_, fun _ q h => ?_⟩
    · simp only [List.length_cons, List.length_nil]
      omega
    · rw [← decodeState_eq_ok_iff] at h
      cases h
  have hversioned : ∀ q, ValueReads (0x41 :: 0x44 :: schemaVersion :: body) q ↔ BodyReads body q :=
    fun q => valueReads_versioned
  simp only [hversioned]
  rcases List.prefix_cons_iff.mp hpre₃ with rfl | ⟨cut, rfl, hpre₄⟩
  · simpa using ⟨_, BodyReads.empty⟩
  by_cases hcut : cut = []
  · subst hcut
    simpa using ⟨_, BodyReads.armedOnly _⟩
  · have hstrict' : cut ≠ encodeNextFire p.nextFireUnixMs ++ encodeSound p.currentSound := by
      rintro rfl
      exact hstrict rfl
    have hlen : 0 < cut.length := List.length_pos_iff.mpr hcut
    constructor
    · intro hnot
      simp only [List.length_cons]
      refine ⟨by omega, by omega, by omega, fun hbehind => ?_⟩
      obtain rfl : cut = encodeNextFire p.nextFireUnixMs :=
        eq_of_start hpre₄ (by omega)
      have hfields := BodyReads.fields (if p.armed then 1 else 0) (fireReads_encodeNextFire p.nextFireUnixMs) .absent
      rw [List.append_nil] at hfields
      exact hnot _ hfields
    · rintro ⟨-, -, -, hbehind⟩ q hq
      obtain rfl := hq.eq_of_cut hcut hpre₄ hstrict'
      exact hbehind (by simp only [List.length_cons]; omega)

/-- An alarm that is armed, with a fire time and a sound. -/
def hornState : PersistedState := ⟨true, some 3000, some "builtin:horn"⟩

theorem corrupted_iff_of_cut_mid_time :
    ∃ message, decodeState ((encodeState hornState).take 8) = .error (.corrupted message) :=
  (corrupted_iff_of_cut ( List.take_prefix 8 _) (by decide) (by decide)).mpr (by decide)

/-- Cut behind its header it is read as disarmed, behind the armed byte as armed without a fire time
or a sound, and behind the fire time as armed without a sound. -/
theorem cut_value_is_read :
    13 < (encodeState hornState).length ∧ decodeState ((encodeState hornState).take 3) = .ok {} ∧
      decodeState ((encodeState hornState).take 4) = .ok { armed := true } ∧
      decodeState ((encodeState hornState).take 13) = .ok { armed := true, nextFireUnixMs := some 3000 } := by
  decide

end HelmAlarm.Daemon
