import HelmAlarm.Audio.Rendering
import HelmAlarm.Audio.Commands
import Mathlib.Algebra.Order.Ring.Abs

/-!
# What a device is given

`HelmAlarm.Audio.Rendering` says what one sound becomes. Here it is what a device is
given in a whole run, over any number of sounds, streams and losses, whatever buffers
the device asks for: each sample is silence, or a sample of a sound whose Play was
accepted, at the volume it was to be played with. A buffer is never left over from
another sound, not even in the scratch buffer that a stream keeps, and no sample is
louder than the loudest one that was sent: `rendered_is_sent`.
-/

namespace HelmAlarm.Audio.CpalAudio

open HelmAlarm.Library

variable {cfg : CpalConfig} {p q : Player} {act : Act} {acts : List Act} {pb pb' : Playback} {shared : Shared}
  {stream : Stream} {sound : DecodedSound} {profile : VolumeProfile} {deviceRate width n : ℕ} {y : ℚ}

/-- The sample is silence, or one of the sound at the volume of the profile. -/
def FromSound (sound : DecodedSound) (profile : VolumeProfile) (y : ℚ) : Prop :=
  y = 0 ∨ ∃ x ∈ sound.samples, y = x * profile.target

/-! ### A buffer -/

theorem FromSound.of_spread {source : Option ℕ} (hsource : ∀ k, source = some k → k < sound.frames)
    (hy : y ∈ sound.spread profile.target width source) : FromSound sound profile y := by
  cases source with
  | none => exact .inl (List.eq_of_mem_replicate hy)
  | some k =>
    obtain ⟨ch, -, rfl⟩ := List.mem_map.mp hy
    have hlt := sound.index_lt (hsource k rfl) ch
    rw [List.getD_eq_getElem?_getD, List.getElem?_eq_getElem hlt]
    exact .inr ⟨_, List.getElem_mem hlt, rfl⟩

theorem FromSound.of_fillFrame (hy : y ∈ (pb.fillFrame deviceRate width).1) : FromSound pb.sound pb.profile y := by
  rw [Playback.fillFrame_fst] at hy
  exact of_spread (fun k => Playback.reads_lt) hy

/-- What a playback that was advanced from this one is made of. -/
theorem FromSound.of_advances (h : pb.Advances pb') (hy : FromSound pb'.sound pb'.profile y) :
    FromSound pb.sound pb.profile y := by
  obtain ⟨hs, hp⟩ := h.sound
  rwa [hs, hp] at hy

theorem FromSound.of_fillFrames (hy : y ∈ (pb.fillFrames deviceRate width n).1) : FromSound pb.sound pb.profile y := by
  induction n generalizing pb with
  | zero => cases hy
  | succ n ih =>
    rcases List.mem_append.mp hy with hy | hy
    · exact of_fillFrame hy
    · exact (ih hy).of_advances (.frame deviceRate width .refl)

theorem FromSound.of_fill {deviceChannels : ℕ} (hy : y ∈ (pb.fill deviceRate deviceChannels n).1) :
    FromSound pb.sound pb.profile y := by
  unfold Playback.fill at hy
  by_cases hn : n % deviceChannels = 0
  · simp only [if_pos hn] at hy
    exact of_fillFrames hy
  · simp only [if_neg hn] at hy
    rcases List.mem_append.mp hy with hy | hy
    · exact of_fillFrames hy
    · exact (of_fillFrame hy).of_advances (Playback.advances_fillFrames _ _ _ _)

/-- What the data callback gives the device: silence, or what is played. -/
theorem Stream.Clean.fromSound (h : stream.Clean) (hy : y ∈ (stream.render n shared).1) :
    y = 0 ∨ ∃ pb, shared.playback = some pb ∧ FromSound pb.sound pb.profile y := by
  simp only [Stream.render, fillF32] at hy
  split at hy
  · rename_i hc
    exact .inl (h.buffer hc n y (List.mem_of_mem_take hy))
  · cases hp : shared.playback with
    | none =>
      rw [hp] at hy
      exact .inl (List.eq_of_mem_replicate hy)
    | some pb =>
      rw [hp] at hy
      exact .inr ⟨pb, rfl, .of_fill hy⟩

/-! ### A run -/

/-- The sample is silence, or it is of a sound whose Play was accepted. -/
def FromPlay (p : Player) (y : ℚ) : Prop :=
  y = 0 ∨ ∃ (i : ℕ) (sound : DecodedSound) (profile : VolumeProfile), p.sent[i]? = some (.play sound profile) ∧
    p.results[i]? = some (.ok ()) ∧ ∃ x ∈ sound.samples, y = x * profile.target

/-- What was sent and accepted stays so. -/
theorem FromPlay.stepped (hy : FromPlay p y) (hs : Stepped p act q) : FromPlay q y := by
  rcases hy with rfl | ⟨i, sound, profile, hsent, hresult, hx⟩
  · exact .inl rfl
  · obtain ⟨hkept, hkept'⟩ := hs.kept i
    exact .inr ⟨i, sound, profile, hkept _ hsent, hkept' _ hresult, hx⟩

theorem FromPlay.of_fromSound (hI : Ordered p) (hp : p.shared.playback = some pb)
    (hy : FromSound pb.sound pb.profile y) : FromPlay p y := by
  rcases hy with rfl | ⟨x, hx, rfl⟩
  · exact .inl rfl
  · obtain ⟨i, sound, profile, hlast, hadv⟩ := hI.installed pb hp
    obtain ⟨rfl, hprofile⟩ : pb.sound = sound ∧ pb.profile = profile := hadv.sound
    exact .inr ⟨i, pb.sound, profile, hlast.sent, hlast.accepted, x, hx, by rw [hprofile]⟩

/-- Every sample that was rendered is. -/
def Sourced (p : Player) : Prop := ∀ buf ∈ p.rendered, ∀ y ∈ buf, FromPlay p y

theorem Sourced.step (hI : Sourced p) (hord : Ordered p) (hs : step p act = some q) : Sourced q := by
  have hst := stepped_of_step hs
  intro buf hbuf y hy
  cases hst with
  | @rendered stream n hstream =>
    rcases List.mem_append.mp hbuf with hbuf | hbuf
    · exact (hI buf hbuf y hy).stepped (stepped_of_step hs)
    · obtain rfl := List.mem_singleton.mp hbuf
      have hplay : FromPlay p y := by
        rcases (hord.clean stream hstream).fromSound hy with rfl | ⟨pb, hp, hy⟩
        · exact .inl rfl
        · exact .of_fromSound hord hp hy
      exact hplay.stepped (stepped_of_step hs)
  | worked hw =>
    have hrendered : q.rendered = p.rendered := by cases hw <;> rfl
    exact (hI buf (hrendered ▸ hbuf) y hy).stepped (stepped_of_step hs)
  | _ => exact (hI buf hbuf y hy).stepped (stepped_of_step hs)

theorem sourced_of_run (hrun : Machine.Run step Machine.anyStep (spawn cfg) acts p) : Sourced p := by
  obtain ⟨-, hI⟩ := hrun.invariant (I := fun p => Ordered p ∧ Sourced p)
    (fun p act q hI _ hs => ⟨hI.1.step hs, hI.2.step hI.1 hs⟩) ⟨ordered_spawn cfg, by rintro buf ⟨⟩⟩
  exact hI

/-- A volume is no more than full. -/
theorem abs_mul_target_le (profile : VolumeProfile) (x : ℚ) : |x * profile.target| ≤ |x| := by
  rw [abs_mul, abs_of_nonneg profile.inRange.1]
  exact mul_le_of_le_one_right (abs_nonneg x) profile.inRange.2

/-- In every run, over any number of Plays, Stops, losses and rebuilds, and whatever buffers the devices
ask for: every sample they are given is silence, or a sample of a sound whose Play was accepted, at
the volume of its profile; and if no sample of a sound that was sent is louder than `loudest`, none
that a device is given is. -/
theorem rendered_is_sent {b : List ℚ} (hrun : Machine.Run step Machine.anyStep (spawn cfg) acts p)
    (hb : b ∈ p.rendered) (hy : y ∈ b) :
    FromPlay p y ∧ ∀ loudest : ℚ, 0 ≤ loudest →
      (∀ sound profile, .play sound profile ∈ p.sent → ∀ x ∈ sound.samples, |x| ≤ loudest) → |y| ≤ loudest := by
  have hplay := sourced_of_run hrun b hb y hy
  refine ⟨hplay, fun loudest hnonneg hbound => ?_⟩
  rcases hplay with rfl | ⟨i, sound, profile, hsent, -, x, hx, rfl⟩
  · rwa [abs_zero]
  · exact (abs_mul_target_le profile x).trans (hbound sound profile (List.mem_of_getElem? hsent) x hx)

/-- Half the volume. -/
def quiet : VolumeProfile := ⟨1/2, .immediate, false, by norm_num⟩

/-- A beep at half its volume, on a device that asks for three samples. -/
def beeping : List Act := works beepHost 3 ++ [.call (.play beep quiet)] ++ works beepHost 2 ++ [.render 3]

theorem rendered_is_sent_beeping :
    ∃ p, Machine.Run step Machine.anyStep (spawn {}) beeping p ∧ p.rendered = [[1/2, 1/2, 0]] ∧ FromPlay p (1/2) := by
  obtain ⟨p, hrun, hr⟩ : ∃ p, Machine.Run step Machine.anyStep (spawn {}) beeping p ∧ p.rendered = [[1/2, 1/2, 0]] :=
    Machine.Run.exists_of_execIf (by decide +kernel)
  obtain ⟨hplay, -⟩ := rendered_is_sent hrun (b := [1/2, 1/2, 0]) (y := 1/2) (by rw [hr]; exact List.mem_singleton_self _)
    List.mem_cons_self
  exact ⟨p, hrun, hr, hplay⟩

end HelmAlarm.Audio.CpalAudio
