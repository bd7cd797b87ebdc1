import HelmAlarm.Audio.CpalAudio
import HelmAlarm.Library.Cyclic
import Mathlib.Algebra.Order.Archimedean.Basic

/-!
# What a sound is rendered to

`fill_f32` is called for one buffer after the other, of any lengths, and keeps between
them a cursor that goes through the sound in equal steps. It brings the cursor of a
repeating sound back only when it finds it past the end, and takes a sound that does
not repeat away only at the end of the buffer in which it found it past the end.

None of this shows in the output: `rendering_law` says what the `n`-th frame is, from
`n` alone, whatever the buffers were. A sound that does not repeat ends after as many
frames as take its cursor past the end, and so exactly when it has a rate:
`sound_ends_iff`, `stuck_sound`.
-/

namespace HelmAlarm.Audio

/-- A frame made of the frame `k` of a sound, or of none. -/
def DecodedSound.spread (sound : DecodedSound) (gain : ℚ) (width : ℕ) : Option ℕ → List ℚ
  | some k => (List.range width).map fun ch => sound.samples.getD (k * sound.channels + ch % sound.channels) 0 * gain
  | none => List.replicate width 0

theorem DecodedSound.frames_pos (sound : DecodedSound) : 0 < sound.frames :=
  Nat.div_pos (Nat.le_of_dvd (List.length_pos_iff.mpr sound.nonempty) sound.wholeFrames) sound.channelsPos

/-- A frame of the sound has its samples. -/
theorem DecodedSound.index_lt (sound : DecodedSound) {k : ℕ} (hk : k < sound.frames) (ch : ℕ) :
    k * sound.channels + ch % sound.channels < sound.samples.length := by
  have hmod := Nat.mod_lt ch sound.channelsPos
  have hle : (k + 1) * sound.channels ≤ sound.frames * sound.channels := Nat.mul_le_mul_right _ hk
  rw [DecodedSound.frames, Nat.div_mul_cancel sound.wholeFrames, Nat.add_mul, one_mul] at hle
  omega

/-- The profile has checked its volume, and the gain is the volume. -/
theorem gainAt_target (profile : VolumeProfile) (elapsed : ℚ) :
    gainAt profile.ramp profile.target elapsed = profile.target := by
  cases hramp : profile.ramp with
  | immediate =>
    show max 0 (min 1 profile.target) = profile.target
    rw [min_eq_right profile.inRange.2, max_eq_right profile.inRange.1]

namespace CpalAudio

open HelmAlarm.Library

variable {pb pb' : Playback} {shared : Shared} {deviceChannels deviceRate width n m : ℕ}

/-! ### Frames of the source -/

/-- The frame of the sound that the next frame is made of, if it is made of one. -/
def Playback.reads (pb : Playback) : Option ℕ :=
  if pb.finished ∨ pb.sound.frames = 0 ∨ pb.sound.channels = 0 then none
  else if pb.sound.frames ≤ pb.cursorFrames.floor.toNat then
    if pb.profile.repeats then some (Cyclic.wrapped (pb.sound.frames : ℚ) pb.cursorFrames).floor.toNat else none
  else some pb.cursorFrames.floor.toNat

theorem wrapped_floor_lt {frames : ℕ} (hpos : 0 < frames) (x : ℚ) :
    (Cyclic.wrapped (frames : ℚ) x).floor.toNat < frames := by
  have hpos' : (0 : ℚ) < frames := Nat.cast_pos.mpr hpos
  have hlt : ⌊Cyclic.wrapped (frames : ℚ) x⌋ < (frames : ℤ) := Int.floor_lt.mpr (by
    rw [Int.cast_natCast]
    exact Cyclic.wrapped_lt hpos')
  have hnonneg : 0 ≤ ⌊Cyclic.wrapped (frames : ℚ) x⌋ := Int.floor_nonneg.mpr (Cyclic.wrapped_nonneg hpos')
  show ⌊Cyclic.wrapped (frames : ℚ) x⌋.toNat < frames
  omega

/-- Every frame that is read is one of the sound. -/
theorem Playback.reads_lt {k : ℕ} (h : pb.reads = some k) : k < pb.sound.frames := by
  unfold reads at h
  split at h
  · cases h
  · split at h
    · split at h
      · obtain rfl := Option.some.inj h
        exact wrapped_floor_lt pb.sound.frames_pos _
      · cases h
    · rename_i hlt
      obtain rfl := Option.some.inj h
      exact not_le.mp hlt

/-- What the loop makes of a frame is what it reads for it, spread over the channels. -/
theorem Playback.fillFrame_fst (deviceRate width : ℕ) (pb : Playback) :
    (pb.fillFrame deviceRate width).1 = pb.sound.spread pb.profile.target width pb.reads := by
  unfold fillFrame reads
  split
  · rfl
  · split
    · split
      · simp only [emit, gainAt_target]
        rfl
      · rfl
    · simp only [emit, gainAt_target]
      rfl

/-! ### Where the cursor stands -/

/-- Where the cursor stands after `n` frames, if it is never brought back. -/
def Playback.position (deviceRate : ℕ) (pb : Playback) (n : ℕ) : ℚ := pb.cursorFrames + n * pb.step deviceRate

/-- The frame of the sound that the `n`-th frame from now is made of, if it is made of one. -/
def Playback.sourceAt (deviceRate : ℕ) (pb : Playback) (n : ℕ) : Option ℕ :=
  if pb.profile.repeats then some (Cyclic.wrapped (pb.sound.frames : ℚ) (pb.position deviceRate n)).floor.toNat
  else if (pb.position deviceRate n).floor.toNat < pb.sound.frames then some (pb.position deviceRate n).floor.toNat
  else none

/-- `pb'` stands where `pb` does after `n` frames. -/
structure Playback.Stands (deviceRate : ℕ) (pb : Playback) (n : ℕ) (pb' : Playback) : Prop where
  /-- It plays the same sound. -/
  sound : pb'.sound = pb.sound
  /-- In the same way. -/
  profile : pb'.profile = pb.profile
  /-- A sound that repeats goes round. -/
  looping : pb.profile.repeats = true → pb'.finished = false ∧
    pb'.cursorFrames = (Cyclic.advance (pb.sound.frames : ℚ) (pb.step deviceRate))^[n] pb.cursorFrames
  /-- One that does not goes straight on, and is not past its end. -/
  straight : pb.profile.repeats = false → pb'.finished = false → pb'.cursorFrames = pb.position deviceRate n ∧
    ∀ m < n, (pb.position deviceRate m).floor.toNat < pb.sound.frames
  /-- Or it was found to be. -/
  ended : pb.profile.repeats = false → pb'.finished = true →
    ∃ m < n, pb.sound.frames ≤ (pb.position deviceRate m).floor.toNat

/-- A playback from which frames are made: it has not ended, and stands in the sound. -/
structure Playback.Started (pb : Playback) : Prop where
  /-- It has not ended. -/
  unfinished : pb.finished = false
  /-- It does not stand before the sound. -/
  nonneg : pb.profile.repeats = true → 0 ≤ pb.cursorFrames

theorem Playback.step_nonneg (deviceRate : ℕ) (pb : Playback) : 0 ≤ pb.step deviceRate := by
  unfold step
  split
  · exact div_nonneg (Nat.cast_nonneg _) (Nat.cast_nonneg _)
  · exact zero_le_one

theorem Playback.position_mono (pb : Playback) (h : m ≤ n) :
    (pb.position deviceRate m).floor.toNat ≤ (pb.position deviceRate n).floor.toNat := by
  have hle : pb.position deviceRate m ≤ pb.position deviceRate n :=
    add_le_add_right (mul_le_mul_of_nonneg_right (Nat.cast_le.mpr h) (pb.step_nonneg deviceRate)) _
  have hfloor : ⌊pb.position deviceRate m⌋ ≤ ⌊pb.position deviceRate n⌋ := Int.floor_le_floor hle
  exact Int.toNat_le_toNat hfloor

/-- The loop finds the cursor of a repeating sound past the end when it has left the circle. -/
theorem le_floor_iff {frames : ℕ} {x : ℚ} (h0 : 0 ≤ x) : frames ≤ x.floor.toNat ↔ (frames : ℚ) ≤ x := by
  have hnonneg : 0 ≤ ⌊x⌋ := Int.floor_nonneg.mpr h0
  have hle : (frames : ℤ) ≤ ⌊x⌋ ↔ (frames : ℚ) ≤ x := by
    rw [Int.le_floor, Int.cast_natCast]
  rw [← hle]
  show frames ≤ ⌊x⌋.toNat ↔ _
  omega

theorem Playback.stands_zero (h : pb.Started) : pb.Stands deviceRate 0 pb where
  sound := rfl
  profile := rfl
  looping := fun _ => ⟨h.unfinished, rfl⟩
  straight := fun _ _ => ⟨by simp [position], fun m hm => absurd hm (Nat.not_lt_zero m)⟩
  ended := fun _ hfin => by rw [h.unfinished] at hfin; cases hfin

/-- The cursor of a repeating sound, when it is looked at. -/
theorem Playback.Stands.late_cursor (h : pb.Stands deviceRate n pb') (hstart : pb.Started)
    (hrep : pb.profile.repeats = true) : 0 ≤ pb'.cursorFrames ∧
      Cyclic.late (pb.sound.frames : ℚ) pb'.cursorFrames =
        Cyclic.wrapped (pb.sound.frames : ℚ) (pb.position deviceRate n) := by
  rw [(h.looping hrep).2]
  exact Cyclic.late_iterate (Nat.cast_pos.mpr pb.sound.frames_pos) (hstart.nonneg hrep) (pb.step_nonneg deviceRate) n

theorem Playback.not_silent (hfin : pb.finished = false) :
    ¬ (pb.finished = true ∨ pb.sound.frames = 0 ∨ pb.sound.channels = 0) := by
  have hframes := pb.sound.frames_pos
  have hchannels := pb.sound.channelsPos
  rw [hfin]
  simp only [Bool.false_eq_true, false_or]
  omega

/-- The `n`-th frame is made of the frame of the sound that the cursor has come to. -/
theorem Playback.Stands.reads (h : pb.Stands deviceRate n pb') (hstart : pb.Started) :
    pb'.reads = pb.sourceAt deviceRate n := by
  unfold Playback.reads sourceAt
  cases hrep : pb.profile.repeats with
  | true =>
    obtain ⟨hnonneg, hlate⟩ := h.late_cursor hstart hrep
    rw [if_neg (not_silent (h.looping hrep).1), h.sound, h.profile, hrep, if_pos rfl, if_pos rfl, ← hlate]
    simp only [le_floor_iff hnonneg, Cyclic.late]
    split <;> rfl
  | false =>
    rw [if_neg Bool.false_ne_true]
    cases hfin : pb'.finished with
    | true =>
      -- it was found past the end, and is still past it
      obtain ⟨m, hm, hle⟩ := h.ended hrep hfin
      have hpast := le_trans hle (pb.position_mono hm.le)
      rw [if_pos (.inl rfl), if_neg (not_lt.mpr hpast)]
    | false =>
      have hgo := not_silent hfin
      rw [hfin] at hgo
      rw [if_neg hgo, h.sound, h.profile, hrep, (h.straight hrep hfin).1, if_neg Bool.false_ne_true]
      by_cases hle : pb.sound.frames ≤ (pb.position deviceRate n).floor.toNat
      · rw [if_pos hle, if_neg (not_lt.mpr hle)]
      · rw [if_neg hle, if_pos (not_le.mp hle)]

theorem Playback.position_succ (deviceRate : ℕ) (pb : Playback) (n : ℕ) :
    pb.position deviceRate (n + 1) = pb.position deviceRate n + pb.step deviceRate := by
  unfold position
  push_cast
  ring

/-- A frame of a sound that repeats moves the cursor on. -/
theorem Playback.fillFrame_of_repeats (width : ℕ) (hfin : pb.finished = false) (hrep : pb.profile.repeats = true)
    (hnonneg : 0 ≤ pb.cursorFrames) : (pb.fillFrame deviceRate width).2.finished = false ∧
      (pb.fillFrame deviceRate width).2.cursorFrames =
        Cyclic.advance (pb.sound.frames : ℚ) (pb.step deviceRate) pb.cursorFrames := by
  unfold fillFrame Cyclic.advance Cyclic.late
  rw [if_neg (not_silent hfin), if_pos hrep]
  by_cases hle : pb.sound.frames ≤ pb.cursorFrames.floor.toNat
  · rw [if_pos hle, if_pos ((le_floor_iff hnonneg).mp hle)]
    exact ⟨hfin, rfl⟩
  · rw [if_neg hle, if_neg (mt (le_floor_iff hnonneg).mpr hle)]
    exact ⟨hfin, rfl⟩

/-- A frame of a sound that does not moves it on, or finds it past the end. -/
theorem Playback.fillFrame_of_not_repeats (width : ℕ) (hfin : pb.finished = false)
    (hrep : pb.profile.repeats = false) :
    pb.sound.frames ≤ pb.cursorFrames.floor.toNat ∧ (pb.fillFrame deviceRate width).2.finished = true ∨
    pb.cursorFrames.floor.toNat < pb.sound.frames ∧ (pb.fillFrame deviceRate width).2.finished = false ∧
      (pb.fillFrame deviceRate width).2.cursorFrames = pb.cursorFrames + pb.step deviceRate := by
  unfold fillFrame
  rw [if_neg (not_silent hfin), hrep, if_neg Bool.false_ne_true]
  by_cases hle : pb.sound.frames ≤ pb.cursorFrames.floor.toNat
  · rw [if_pos hle]
    exact .inl ⟨hle, rfl⟩
  · rw [if_neg hle]
    exact .inr ⟨not_le.mp hle, hfin, rfl⟩

/-- A playback that has ended stays as it is. -/
theorem Playback.fillFrame_of_finished (hfin : pb.finished = true) : (pb.fillFrame deviceRate width).2 = pb := by
  unfold fillFrame
  rw [if_pos (.inl hfin)]

theorem Playback.Stands.step_eq (h : pb.Stands deviceRate n pb') : pb'.step deviceRate = pb.step deviceRate := by
  rw [step, step, h.sound]

/-- A sound that repeats goes one step further round. -/
theorem Playback.Stands.next_looping (h : pb.Stands deviceRate n pb') (hstart : pb.Started) (width : ℕ)
    (hrep : pb.profile.repeats = true) : (pb'.fillFrame deviceRate width).2.finished = false ∧
      (pb'.fillFrame deviceRate width).2.cursorFrames =
        (Cyclic.advance (pb.sound.frames : ℚ) (pb.step deviceRate))^[n + 1] pb.cursorFrames := by
  obtain ⟨hfin, hcursor⟩ := h.looping hrep
  obtain ⟨hnonneg, -⟩ := h.late_cursor hstart hrep
  have hrep' : pb'.profile.repeats = true := by rw [h.profile, hrep]
  obtain ⟨hfin', hcursor'⟩ := fillFrame_of_repeats width hfin hrep' hnonneg
  refine ⟨hfin', ?_⟩
  rw [hcursor', h.sound, h.step_eq, hcursor, Function.iterate_succ_apply']

/-- One that does not, and is not found to be past its end, goes one step further on. -/
theorem Playback.Stands.next_straight (h : pb.Stands deviceRate n pb') (width : ℕ) (hrep : pb.profile.repeats = false)
    (hunfin : (pb'.fillFrame deviceRate width).2.finished = false) :
    (pb'.fillFrame deviceRate width).2.cursorFrames = pb.position deviceRate (n + 1) ∧
      ∀ m < n + 1, (pb.position deviceRate m).floor.toNat < pb.sound.frames := by
  have hrep' : pb'.profile.repeats = false := by rw [h.profile, hrep]
  cases hfin : pb'.finished with
  | true =>
    rw [fillFrame_of_finished hfin, hfin] at hunfin
    cases hunfin
  | false =>
    obtain ⟨hcursor, hbefore⟩ := h.straight hrep hfin
    rcases fillFrame_of_not_repeats width hfin hrep' with ⟨-, hfin'⟩ | ⟨hlt, -, hcursor'⟩
    · rw [hfin'] at hunfin
      cases hunfin
    · refine ⟨by rw [hcursor', h.step_eq, hcursor, position_succ], fun m hm => ?_⟩
      rcases Nat.lt_succ_iff_lt_or_eq.mp hm with hm | rfl
      · exact hbefore m hm
      · rwa [h.sound, hcursor] at hlt

/-- One that is found to be past its end was so at one of the frames. -/
theorem Playback.Stands.next_ended (h : pb.Stands deviceRate n pb') (width : ℕ) (hrep : pb.profile.repeats = false)
    (hfin' : (pb'.fillFrame deviceRate width).2.finished = true) :
    ∃ m < n + 1, pb.sound.frames ≤ (pb.position deviceRate m).floor.toNat := by
  have hrep' : pb'.profile.repeats = false := by rw [h.profile, hrep]
  cases hfin : pb'.finished with
  | true =>
    obtain ⟨m, hm, hle⟩ := h.ended hrep hfin
    exact ⟨m, Nat.lt_succ_of_lt hm, hle⟩
  | false =>
    rcases fillFrame_of_not_repeats width hfin hrep' with ⟨hle, -⟩ | ⟨-, hunfin, -⟩
    · rw [h.sound, (h.straight hrep hfin).1] at hle
      exact ⟨n, Nat.lt_succ_self n, hle⟩
    · rw [hunfin] at hfin'
      cases hfin'

/-- One frame more. -/
theorem Playback.Stands.next (h : pb.Stands deviceRate n pb') (hstart : pb.Started) (width : ℕ) :
    pb.Stands deviceRate (n + 1) (pb'.fillFrame deviceRate width).2 := by
  obtain ⟨hsound, hprofile⟩ := fillFrame_sound deviceRate width pb'
  exact ⟨hsound.trans h.sound, hprofile.trans h.profile, h.next_looping hstart width, h.next_straight width,
    h.next_ended width⟩

/-! ### Buffers -/

/-- The `n`-th frame from now. -/
def Playback.frameAt (deviceRate width : ℕ) (pb : Playback) (n : ℕ) : List ℚ :=
  pb.sound.spread pb.profile.target width (pb.sourceAt deviceRate n)

/-- The frames that are made for a buffer of `length` samples. The last may be a part of one. -/
def framesOf (deviceChannels length : ℕ) : ℕ :=
  length / deviceChannels + if length % deviceChannels = 0 then 0 else 1

theorem framesOf_of_dvd {length : ℕ} (h : deviceChannels ∣ length) :
    framesOf deviceChannels length = length / deviceChannels := by
  rw [framesOf, if_pos (Nat.mod_eq_zero_of_dvd h), Nat.add_zero]

theorem Playback.Stands.frame (h : pb.Stands deviceRate n pb') (hstart : pb.Started) (width : ℕ) :
    (pb'.fillFrame deviceRate width).1 = pb.frameAt deviceRate width n := by
  rw [fillFrame_fst, h.reads hstart, h.sound, h.profile]
  rfl

/-- The frames of a buffer are the next ones. -/
theorem Playback.Stands.frames (h : pb.Stands deviceRate n pb') (hstart : pb.Started) (width k : ℕ) :
    (pb'.fillFrames deviceRate width k).1 = (List.range' n k).flatMap (pb.frameAt deviceRate width) ∧
      pb.Stands deviceRate (n + k) (pb'.fillFrames deviceRate width k).2 := by
  induction k generalizing n pb' with
  | zero => exact ⟨rfl, h⟩
  | succ k ih =>
    obtain ⟨hframes, hstands⟩ := ih (h.next hstart width)
    rw [List.range'_succ, List.flatMap_cons, ← h.frame hstart width, ← hframes]
    refine ⟨rfl, ?_⟩
    rw [Nat.add_right_comm, Nat.add_assoc] at hstands
    exact hstands

theorem Playback.Stands.fill (h : pb.Stands deviceRate n pb') (hstart : pb.Started) (deviceChannels length : ℕ) :
    pb.Stands deviceRate (n + framesOf deviceChannels length) (pb'.fill deviceRate deviceChannels length).2 := by
  obtain ⟨-, hstands⟩ := h.frames hstart deviceChannels (length / deviceChannels)
  unfold Playback.fill framesOf
  rw [← Nat.add_assoc]
  by_cases hmod : length % deviceChannels = 0
  · simpa only [if_pos hmod, Nat.add_zero] using hstands
  · simpa only [if_neg hmod] using hstands.next hstart (length % deviceChannels)

theorem Playback.Stands.fill_fst (h : pb.Stands deviceRate n pb') (hstart : pb.Started) {length : ℕ}
    (hdvd : deviceChannels ∣ length) : (pb'.fill deviceRate deviceChannels length).1 =
      (List.range' n (framesOf deviceChannels length)).flatMap (pb.frameAt deviceRate deviceChannels) := by
  obtain ⟨hframes, -⟩ := h.frames hstart deviceChannels (length / deviceChannels)
  rw [framesOf_of_dvd hdvd, ← hframes]
  simp only [Playback.fill, if_pos (Nat.mod_eq_zero_of_dvd hdvd)]

/-- What is left of a playback after `n` frames. -/
inductive Playback.Leaves (deviceRate : ℕ) (pb : Playback) (n : ℕ) : Option Playback → Prop where
  /-- It goes on. -/
  | goes {pb' : Playback} (h : pb.Stands deviceRate n pb') (hfin : pb'.finished = false) : pb.Leaves deviceRate n (some pb')
  /-- It does not repeat, and was past its end. -/
  | ends {m : ℕ} (hrep : pb.profile.repeats = false) (hm : m < n)
      (hle : pb.sound.frames ≤ (pb.position deviceRate m).floor.toNat) : pb.Leaves deviceRate n none

/-- A playback that is cleared has no more frames. -/
theorem Playback.frameAt_of_ended (hrep : pb.profile.repeats = false)
    (hle : pb.sound.frames ≤ (pb.position deviceRate m).floor.toNat) (hmn : m ≤ n) :
    pb.frameAt deviceRate width n = List.replicate width 0 := by
  have hpast := le_trans hle (pb.position_mono hmn)
  rw [frameAt, sourceAt, hrep, if_neg Bool.false_ne_true, if_neg (not_lt.mpr hpast)]
  rfl

theorem flatMap_replicate {ι : Type} (l : List ι) (f : ι → List ℚ) (hf : ∀ i ∈ l, f i = List.replicate width 0) :
    l.flatMap f = List.replicate (l.length * width) 0 := by
  induction l with
  | nil => simp
  | cons i l ih =>
    rw [List.flatMap_cons, hf i List.mem_cons_self, ih fun j hj => hf j (List.mem_cons_of_mem _ hj),
      ← List.replicate_add, List.length_cons, Nat.add_mul, one_mul, Nat.add_comm]

/-- The data callback makes the next frames of its buffer. -/
theorem Playback.Leaves.fillF32 (h : pb.Leaves deviceRate n shared.playback) (hstart : pb.Started)
    (hpos : 0 < deviceChannels) (output : List ℚ) :
    pb.Leaves deviceRate (n + framesOf deviceChannels output.length)
        (fillF32 deviceChannels deviceRate output shared).2.playback ∧
      (deviceChannels ∣ output.length → (fillF32 deviceChannels deviceRate output shared).1 =
        (List.range' n (framesOf deviceChannels output.length)).flatMap (pb.frameAt deviceRate deviceChannels)) := by
  cases hp : shared.playback with
  | none =>
    rw [hp] at h
    cases h with
    | @ends m hrep hm hle =>
      rw [fillF32_of_none hp, if_neg hpos.ne']
      refine ⟨?_, fun hdvd => ?_⟩
      · show pb.Leaves deviceRate _ shared.playback
        rw [hp]
        exact .ends hrep (Nat.lt_of_lt_of_le hm (Nat.le_add_right _ _)) hle
      · have hsilent : ∀ i ∈ List.range' n (framesOf deviceChannels output.length),
            pb.frameAt deviceRate deviceChannels i = List.replicate deviceChannels 0 := by
          intro i hi
          obtain ⟨hni, -⟩ := List.mem_range'_1.mp hi
          exact frameAt_of_ended hrep hle (le_trans hm.le hni)
        rw [flatMap_replicate _ _ hsilent, List.length_range', framesOf_of_dvd hdvd, Nat.div_mul_cancel hdvd]
  | some pb' =>
    rw [hp] at h
    cases h with
    | goes hs hfin =>
      have hstands := hs.fill hstart deviceChannels output.length
      unfold CpalAudio.fillF32
      rw [if_neg hpos.ne', hp]
      refine ⟨?_, fun hdvd => hs.fill_fst hstart hdvd⟩
      cases hfin' : (pb'.fill deviceRate deviceChannels output.length).2.finished with
      | false =>
        simp only [hfin', Bool.false_and, Bool.false_eq_true, if_false]
        exact .goes hstands hfin'
      | true =>
        cases hrep : pb.profile.repeats with
        | true =>
          rw [(hstands.looping hrep).1] at hfin'
          cases hfin'
        | false =>
          obtain ⟨m, hm, hle⟩ := hstands.ended hrep hfin'
          simp only [hfin', hstands.profile, hrep, Bool.true_and, Bool.not_false, if_true]
          exact .ends hrep hm hle

/-! ### One buffer after the other -/

/-- The data callback runs for one buffer after the other: what it makes of them, one after the other. -/
def callbacks (deviceChannels deviceRate : ℕ) : List (List ℚ) → Shared → List ℚ × Shared
  | [], shared => ([], shared)
  | buffer :: buffers, shared =>
    let (frames, shared) := fillF32 deviceChannels deviceRate buffer shared
    let (rest, shared) := callbacks deviceChannels deviceRate buffers shared
    (frames ++ rest, shared)

/-- How many frames that is. -/
def rendered (deviceChannels : ℕ) (buffers : List (List ℚ)) : ℕ :=
  (buffers.map fun buffer => framesOf deviceChannels buffer.length).sum

theorem Playback.Leaves.callbacks (h : pb.Leaves deviceRate n shared.playback) (hstart : pb.Started)
    (hpos : 0 < deviceChannels) (buffers : List (List ℚ)) :
    pb.Leaves deviceRate (n + rendered deviceChannels buffers)
        (callbacks deviceChannels deviceRate buffers shared).2.playback ∧
      ((∀ buffer ∈ buffers, deviceChannels ∣ buffer.length) →
        (callbacks deviceChannels deviceRate buffers shared).1 =
          (List.range' n (rendered deviceChannels buffers)).flatMap (pb.frameAt deviceRate deviceChannels)) := by
  induction buffers generalizing n shared with
  | nil => exact ⟨h, fun _ => rfl⟩
  | cons buffer buffers ih =>
    obtain ⟨hleaves, hframes⟩ := h.fillF32 hstart hpos buffer
    obtain ⟨hrest, hframes'⟩ := ih hleaves
    have hcount : rendered deviceChannels (buffer :: buffers) =
        framesOf deviceChannels buffer.length + rendered deviceChannels buffers := List.sum_cons
    rw [hcount, ← Nat.add_assoc]
    refine ⟨hrest, fun hwhole => ?_⟩
    have hfirst := hframes (hwhole buffer List.mem_cons_self)
    have hothers := hframes' fun b hb => hwhole b (List.mem_cons_of_mem _ hb)
    rw [← List.range'_append_1, List.flatMap_append, ← hfirst, ← hothers]
    rfl

/-- With nothing to play every buffer is silent. -/
theorem callbacks_of_none (hnone : shared.playback = none) (hpos : 0 < deviceChannels) (buffers : List (List ℚ)) :
    (∀ x ∈ (callbacks deviceChannels deviceRate buffers shared).1, x = 0) ∧
      (callbacks deviceChannels deviceRate buffers shared).2 = shared := by
  induction buffers with
  | nil => exact ⟨fun x hx => absurd hx List.not_mem_nil, rfl⟩
  | cons buffer buffers ih =>
    obtain ⟨hsilent, hshared⟩ := ih
    simp only [callbacks, fillF32_of_none hnone, if_neg hpos.ne']
    refine ⟨fun x hx => ?_, hshared⟩
    rcases List.mem_append.mp hx with hx | hx
    · exact List.eq_of_mem_replicate hx
    · exact hsilent x hx

/-- A sample of frames that are put one after the other. -/
theorem getElem?_flatMap_range' {f : ℕ → List ℚ} (hf : ∀ i, (f i).length = width) {count i j : ℕ} (hi : i < count)
    (hj : j < width) : ((List.range' n count).flatMap f)[i * width + j]? = (f (n + i))[j]? := by
  induction count generalizing n i with
  | zero => exact absurd hi (Nat.not_lt_zero i)
  | succ count ih =>
    rw [List.range'_succ, List.flatMap_cons]
    cases i with
    | zero =>
      rw [Nat.zero_mul, Nat.zero_add, List.getElem?_append_left (by rw [hf]; exact hj)]
      rfl
    | succ i =>
      have hle : (f n).length ≤ (i + 1) * width + j := by
        rw [hf, Nat.add_mul, one_mul]
        omega
      have hindex : (i + 1) * width + j - (f n).length = i * width + j := by
        rw [hf, Nat.add_mul, one_mul]
        omega
      rw [List.getElem?_append_right hle, hindex, ih (Nat.lt_of_succ_lt_succ hi), Nat.add_assoc, Nat.add_comm 1 i]

theorem length_spread (sound : DecodedSound) (gain : ℚ) (width : ℕ) (source : Option ℕ) :
    (sound.spread gain width source).length = width := by
  cases source with
  | none => exact List.length_replicate
  | some k => simp [DecodedSound.spread]

theorem getElem?_spread (sound : DecodedSound) (gain : ℚ) (source : Option ℕ) {j : ℕ} (hj : j < width) :
    (sound.spread gain width source)[j]? = some (match source with
      | some k => gain * sound.samples.getD (k * sound.channels + j % sound.channels) 0
      | none => 0) := by
  cases source with
  | none => simp [DecodedSound.spread, hj]
  | some k => simp [DecodedSound.spread, hj, mul_comm]

/-! ### A sound from its start -/

/-- The frame of a sound that the `n`-th frame since its start is made of, if it is made of one. -/
def sourceFrame (sound : DecodedSound) (repeats : Bool) (deviceRate n : ℕ) : Option ℕ :=
  let x : ℚ := n * sound.sampleRate / deviceRate
  if repeats then some (Cyclic.wrapped (sound.frames : ℚ) x).floor.toNat
  else if x.floor.toNat < sound.frames then some x.floor.toNat
  else none

variable {sound : DecodedSound} {profile : VolumeProfile} {buffers : List (List ℚ)}

theorem position_of_start (hrate : 0 < deviceRate) (n : ℕ) :
    Playback.position deviceRate { sound := sound, profile := profile } n = n * sound.sampleRate / deviceRate := by
  simp only [Playback.position, Playback.step, if_pos hrate]
  ring

theorem sourceAt_of_start (hrate : 0 < deviceRate) (n : ℕ) :
    Playback.sourceAt deviceRate { sound := sound, profile := profile } n =
      sourceFrame sound profile.repeats deviceRate n := by
  simp only [Playback.sourceAt, sourceFrame, position_of_start hrate]

theorem sourceFrame_lt {k : ℕ} (h : sourceFrame sound profile.repeats deviceRate n = some k) : k < sound.frames := by
  simp only [sourceFrame] at h
  split at h
  · obtain rfl := Option.some.inj h
    exact wrapped_floor_lt sound.frames_pos _
  · split at h
    · rename_i hlt
      obtain rfl := Option.some.inj h
      exact hlt
    · cases h

theorem started_of_start : Playback.Started { sound := sound, profile := profile } := ⟨rfl, fun _ => le_rfl⟩

theorem leaves_zero (deviceRate : ℕ) (hstart : pb.Started) (hplay : shared.playback = some pb) :
    pb.Leaves deviceRate 0 shared.playback := by
  rw [hplay]
  exact .goes (Playback.stands_zero hstart) hstart.unfinished

/-- For every sound, every way of playing it and every device with channels and a rate, in whatever
buffers of whole frames it is rendered since its start: the `n`-th frame has on channel `j` the sample
of channel `j` mod `channels` of the frame that lies `n` times the ratio of the rates after the start,
modulo the length of a sound that repeats, at the volume of the profile, and is silent once a sound that
does not is past its end. No sample outside the sound is ever looked up, and the playback is only taken
away when it does not repeat and its end was reached. -/
theorem rendering_law (hpos : 0 < deviceChannels) (hrate : 0 < deviceRate)
    (hwhole : ∀ buffer ∈ buffers, deviceChannels ∣ buffer.length)
    (hplay : shared.playback = some { sound := sound, profile := profile }) :
    (callbacks deviceChannels deviceRate buffers shared).1.length = rendered deviceChannels buffers * deviceChannels ∧
    (∀ n j, n < rendered deviceChannels buffers → j < deviceChannels →
      (callbacks deviceChannels deviceRate buffers shared).1[n * deviceChannels + j]? =
        some (match sourceFrame sound profile.repeats deviceRate n with
          | some k => profile.target * sound.samples.getD (k * sound.channels + j % sound.channels) 0
          | none => 0)) ∧
    (∀ n k, sourceFrame sound profile.repeats deviceRate n = some k →
      ∀ j, k * sound.channels + j % sound.channels < sound.samples.length) ∧
    (∀ pb', Playback.Advances { sound := sound, profile := profile } pb' → ∀ k, pb'.reads = some k →
      ∀ j, k * sound.channels + j % sound.channels < sound.samples.length) ∧
    ((callbacks deviceChannels deviceRate buffers shared).2.playback = none → profile.repeats = false ∧
      ∃ n < rendered deviceChannels buffers,
        sound.frames ≤ ((n * sound.sampleRate / deviceRate : ℚ)).floor.toNat) := by
  have hstart : Playback.Started { sound := sound, profile := profile } := started_of_start
  obtain ⟨hleaves, hframes⟩ := (leaves_zero deviceRate hstart hplay).callbacks hstart hpos buffers
  have hout := hframes hwhole
  rw [Nat.zero_add] at hleaves
  have hlength : ∀ i, (Playback.frameAt deviceRate deviceChannels { sound := sound, profile := profile } i).length =
      deviceChannels := fun i => length_spread _ _ _ _
  refine ⟨?_, fun n j hn hj => ?_, fun n k hk => sound.index_lt (sourceFrame_lt hk),
    fun pb' hadv k hk => ?_, fun hnone => ?_⟩
  · rw [hout, List.length_flatMap]
    simp only [hlength, List.map_const', List.sum_replicate, List.length_range', nsmul_eq_mul, Nat.cast_id]
  · rw [hout, getElem?_flatMap_range' hlength hn hj, Nat.zero_add, Playback.frameAt, getElem?_spread _ _ _ hj,
      sourceAt_of_start hrate]
  · have hlt := Playback.reads_lt hk
    rw [hadv.sound.1] at hlt
    exact sound.index_lt hlt
  · rw [hnone] at hleaves
    cases hleaves with
    | @ends m hrep hm hle =>
      rw [position_of_start hrate] at hle
      exact ⟨hrep, m, hm, hle⟩

/-- A sound of two frames for two channels. -/
def chime : DecodedSound := ⟨[1, 0, 1/2, 1/4], 2, 8000, by decide, by decide, by decide⟩

/-- A device of three channels at a third of the rate of the sound, that asks for a frame, for none and
for three. -/
theorem rendering_law_chime :
    (callbacks 3 24000 [[0, 0, 0], [], [0, 0, 0, 0, 0, 0, 0, 0, 0]]
      { playback := some { sound := chime, profile := .alarm } }).1[3 * 3 + 1]? = some (1/4) := by
  have hplay : Shared.playback { playback := some { sound := chime, profile := .alarm } } =
      some { sound := chime, profile := .alarm } := rfl
  have hwhole : ∀ buffer ∈ [[0, 0, 0], [], [0, 0, 0, 0, 0, 0, 0, 0, (0 : ℚ)]], 3 ∣ buffer.length := by decide
  obtain ⟨-, hlaw, -⟩ := rendering_law (by decide : 0 < 3) (by decide : 0 < 24000) hwhole hplay
  exact (hlaw 3 1 (by decide) (by decide)).trans (by decide +kernel)

/-! ### The end of a sound -/

/-- A playback that does not repeat is cleared when its cursor has passed the end. -/
theorem cleared_iff (deviceRate : ℕ) (hstart : pb.Started) (hrep : pb.profile.repeats = false) (hpos : 0 < deviceChannels)
    (hplay : shared.playback = some pb) (buffers : List (List ℚ)) :
    (callbacks deviceChannels deviceRate buffers shared).2.playback = none ↔
      ∃ m < rendered deviceChannels buffers, pb.sound.frames ≤ (pb.position deviceRate m).floor.toNat := by
  obtain ⟨hleaves, -⟩ := (leaves_zero deviceRate hstart hplay).callbacks hstart hpos buffers
  rw [Nat.zero_add] at hleaves
  constructor
  · intro hnone
    rw [hnone] at hleaves
    cases hleaves with
    | ends _ hm hle => exact ⟨_, hm, hle⟩
  · intro hended
    obtain ⟨m, hm, hle⟩ := hended
    cases hplayback : (callbacks deviceChannels deviceRate buffers shared).2.playback with
    | none => rfl
    | some pb' =>
      rw [hplayback] at hleaves
      cases hleaves with
      | goes hs hfin => exact absurd ((hs.straight hrep hfin).2 m hm) (not_lt.mpr hle)

/-- A playback that has ended is cleared with the first buffer. -/
theorem cleared_of_finished (deviceRate : ℕ) (hfin : pb.finished = true) (hrep : pb.profile.repeats = false)
    (hpos : 0 < deviceChannels) (hplay : shared.playback = some pb) (buffer : List ℚ) :
    (fillF32 deviceChannels deviceRate buffer shared).2.playback = none := by
  have hframes : ∀ k, (pb.fillFrames deviceRate deviceChannels k).2 = pb := by
    intro k
    induction k with
    | zero => rfl
    | succ k ih =>
      show ((pb.fillFrame deviceRate deviceChannels).2.fillFrames deviceRate deviceChannels k).2 = pb
      rw [Playback.fillFrame_of_finished hfin, ih]
  have hfill : (pb.fill deviceRate deviceChannels buffer.length).2 = pb := by
    unfold Playback.fill
    by_cases hmod : buffer.length % deviceChannels = 0
    · simp only [if_pos hmod, hframes]
    · simp only [if_neg hmod, hframes, Playback.fillFrame_of_finished hfin]
  unfold fillF32
  rw [if_neg hpos.ne', hplay]
  simp only [hfill, hfin, hrep, Bool.not_false, Bool.and_self, if_true]

/-- The cursor of a sound with a rate passes every end, and that of one without stays where it is. -/
theorem passes_iff (hrate : 0 < deviceRate) :
    (∃ m, pb.sound.frames ≤ (pb.position deviceRate m).floor.toNat) ↔
      0 < pb.sound.sampleRate ∨ pb.sound.frames ≤ pb.cursorFrames.floor.toNat := by
  have hposition : ∀ m, pb.position deviceRate m = pb.cursorFrames + m * (pb.sound.sampleRate / deviceRate) := by
    intro m
    simp only [Playback.position, Playback.step, if_pos hrate]
  constructor
  · intro hended
    obtain ⟨m, hle⟩ := hended
    by_cases hsound : 0 < pb.sound.sampleRate
    · exact .inl hsound
    · rw [hposition, Nat.eq_zero_of_not_pos hsound, Nat.cast_zero, zero_div, mul_zero, add_zero] at hle
      exact .inr hle
  · intro hor
    rcases hor with hsound | hle
    · have hstep : (0 : ℚ) < pb.sound.sampleRate / deviceRate := div_pos (Nat.cast_pos.mpr hsound) (Nat.cast_pos.mpr hrate)
      obtain ⟨m, hm⟩ := exists_nat_gt ((pb.sound.frames - pb.cursorFrames) / (pb.sound.sampleRate / deviceRate : ℚ))
      refine ⟨m, ?_⟩
      have hlt : (pb.sound.frames : ℚ) ≤ pb.position deviceRate m := by
        have := (div_lt_iff₀ hstep).mp hm
        rw [hposition]
        linarith
      exact (le_floor_iff (le_trans (Nat.cast_nonneg _) hlt)).mpr hlt
    · exact ⟨0, by rwa [hposition, Nat.cast_zero, zero_mul, add_zero]⟩

/-- For every playback that does not repeat and every device with channels and a rate: there is a number
of frames after which it is cleared and every buffer is silent, in whatever buffers they are rendered, if
and only if its sound has a rate, or it has ended already or stands past the end. -/
theorem sound_ends_iff (hrep : pb.profile.repeats = false) (hpos : 0 < deviceChannels) (hrate : 0 < deviceRate) :
    (∃ count, ∀ (buffers : List (List ℚ)) (shared : Shared), shared.playback = some pb →
      count ≤ rendered deviceChannels buffers →
      (callbacks deviceChannels deviceRate buffers shared).2.playback = none ∧
        ∀ more, ∀ x ∈ (callbacks deviceChannels deviceRate more
          (callbacks deviceChannels deviceRate buffers shared).2).1, x = 0) ↔
    0 < pb.sound.sampleRate ∨ pb.finished = true ∨ pb.sound.frames ≤ pb.cursorFrames.floor.toNat := by
  cases hfin : pb.finished with
  | true =>
    refine iff_of_true ⟨1, fun buffers shared hplay hcount => ?_⟩ (.inr (.inl rfl))
    cases buffers with
    | nil => exact absurd hcount (Nat.not_succ_le_zero 0)
    | cons buffer buffers =>
      have hnone := cleared_of_finished deviceRate hfin hrep hpos hplay buffer
      have hshared : (callbacks deviceChannels deviceRate (buffer :: buffers) shared).2 =
          (fillF32 deviceChannels deviceRate buffer shared).2 := (callbacks_of_none hnone hpos buffers).2
      rw [hshared]
      exact ⟨hnone, fun more => (callbacks_of_none hnone hpos more).1⟩
  | false =>
    have hstart : pb.Started := ⟨hfin, fun h => by rw [hrep] at h; cases h⟩
    simp only [Bool.false_eq_true, false_or]
    rw [← passes_iff hrate]
    constructor
    · intro hends
      obtain ⟨count, hends⟩ := hends
      have hcount : rendered deviceChannels [List.replicate (count * deviceChannels) 0] = count := by
        simp [rendered, framesOf, Nat.mul_div_cancel _ hpos]
      obtain ⟨hnone, -⟩ := hends [List.replicate (count * deviceChannels) 0] { playback := some pb } rfl hcount.ge
      obtain ⟨m, -, hle⟩ := (cleared_iff deviceRate hstart hrep hpos rfl _).mp hnone
      exact ⟨m, hle⟩
    · intro hended
      obtain ⟨m, hle⟩ := hended
      refine ⟨m + 1, fun buffers shared hplay hcount => ?_⟩
      have hnone := (cleared_iff deviceRate hstart hrep hpos hplay buffers).mpr ⟨m, hcount, hle⟩
      exact ⟨hnone, fun more => (callbacks_of_none hnone hpos more).1⟩

theorem sound_ends_iff_chime :
    ∃ count, ∀ (buffers : List (List ℚ)) (shared : Shared),
      shared.playback = some { sound := chime, profile := .alarm } → count ≤ rendered 1 buffers →
      (callbacks 1 8000 buffers shared).2.playback = none ∧
        ∀ more, ∀ x ∈ (callbacks 1 8000 more (callbacks 1 8000 buffers shared).2).1, x = 0 :=
  (sound_ends_iff rfl (by decide) (by decide)).mpr (.inl (by decide))

/-- A sound of one frame without a rate. -/
def stuck : DecodedSound := ⟨[1/2], 1, 0, by decide, Nat.one_pos, by decide⟩

/-- It is never cleared. -/
theorem stuck_sound :
    ¬ ∃ count, ∀ (buffers : List (List ℚ)) (shared : Shared),
      shared.playback = some { sound := stuck, profile := .alarm } → count ≤ rendered 1 buffers →
      (callbacks 1 48000 buffers shared).2.playback = none ∧
        ∀ more, ∀ x ∈ (callbacks 1 48000 more (callbacks 1 48000 buffers shared).2).1, x = 0 := by
  intro hends
  obtain ⟨count, hends⟩ := hends
  have hcount : rendered 1 [List.replicate count 0] = count := by simp [rendered, framesOf, Nat.mod_one]
  obtain ⟨hnone, -⟩ := hends [List.replicate count 0] { playback := some { sound := stuck, profile := .alarm } } rfl
    hcount.ge
  obtain ⟨m, -, hle⟩ := (cleared_iff 48000 started_of_start rfl one_pos rfl _).mp hnone
  rcases (passes_iff (by decide)).mp ⟨m, hle⟩ with hrate | hpast
  · cases hrate
  · exact absurd hpast (by decide +kernel)

end CpalAudio

end HelmAlarm.Audio
