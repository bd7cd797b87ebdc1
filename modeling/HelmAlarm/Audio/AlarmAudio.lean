import Mathlib.Data.Rat.Floor

/-!
# The audio output

What the trigger of an alarm hands to the audio output: a `DecodedSound` of
`audio/decoded.rs` with a `VolumeProfile` of `audio/profile.rs`, and the two
commands of the trait `AlarmAudio`. Samples and gains are rational numbers, the
`f32` values of the source; both types carry what their constructors check.

The Linear ramp and its errors are left out: the source builds them in tests only.
-/

namespace HelmAlarm.Audio

/-- Errors raised by the audio output subsystem. -/
inductive AudioError where
  /-- Target volume outside `0.0..=1.0`. -/
  | invalidVolume (target : ℚ)
  /-- Unknown sound id or name. -/
  | unknownSound (id : String)
  /-- Caller provided an invalid sound id. -/
  | invalidSoundId (id : String)
  /-- Underlying I/O error. -/
  | io (message : String)
  /-- No audio output device is available on the host. -/
  | noDevice
  /-- Failed to query or select an output device configuration. -/
  | deviceConfig (message : String)
  /-- Failed to build the output stream. -/
  | buildStream (message : String)
  /-- Failed to start an already-built stream. -/
  | playStream (message : String)
  /-- Worker thread has exited or its channel is closed. -/
  | workerUnavailable
  /-- Output device is currently lost. -/
  | deviceUnavailable
  deriving DecidableEq, Repr

/-- The text of an error. -/
def AudioError.toString : AudioError → String
  | .invalidVolume target => "invalid volume target: must be in 0.0..=1.0, got " ++ ToString.toString target
  | .unknownSound id => "unknown sound id: " ++ id
  | .invalidSoundId id => "invalid sound id: " ++ id
  | .io message => "i/o error: " ++ message
  | .noDevice => "no audio output device available"
  | .deviceConfig message => "audio device configuration failed: " ++ message
  | .buildStream message => "failed to build audio output stream: " ++ message
  | .playStream message => "failed to start audio output stream: " ++ message
  | .workerUnavailable => "audio worker thread is unavailable"
  | .deviceUnavailable => "audio device is currently unavailable; retry is in progress"

/-- Shape of the volume ramp applied at playback start. -/
inductive Ramp where
  /-- Start playback at the target volume immediately. -/
  | immediate
  deriving DecidableEq, Repr

/-- How a sound should be played. -/
structure VolumeProfile where
  /-- The volume to reach. -/
  target : ℚ
  /-- How it is reached. -/
  ramp : Ramp
  /-- Whether the sound loops until stopped. -/
  repeats : Bool
  /-- The volume is in range. -/
  inRange : 0 ≤ target ∧ target ≤ 1
  deriving DecidableEq, Repr

/-- Build a validated profile. -/
def VolumeProfile.new (target : ℚ) (ramp : Ramp) (repeats : Bool) : Except AudioError VolumeProfile :=
  if h : 0 ≤ target ∧ target ≤ 1 then .ok ⟨target, ramp, repeats, h⟩ else .error (.invalidVolume target)

/-- The profile alarms are played with: full volume at once, not repeated. -/
def VolumeProfile.alarm : VolumeProfile := ⟨1, .immediate, false, by decide⟩

/-- The trigger's profile is always valid. -/
theorem VolumeProfile.new_alarm : VolumeProfile.new 1 .immediate false = .ok .alarm := rfl

/-- `gain_at`: the gain at `elapsed` seconds into playback. -/
def gainAt (ramp : Ramp) (target _elapsed : ℚ) : ℚ :=
  match ramp with
  | .immediate => max 0 (min 1 target)

/-- Fully decoded PCM audio held in memory. -/
structure DecodedSound where
  /-- The samples, channel by channel within each frame. -/
  samples : List ℚ
  /-- Samples in a frame. -/
  channels : ℕ
  /-- Frames in a second. -/
  sampleRate : ℕ
  /-- There is something to play. -/
  nonempty : samples ≠ []
  /-- A frame is not empty. -/
  channelsPos : 0 < channels
  /-- The frames are whole. -/
  wholeFrames : channels ∣ samples.length
  deriving DecidableEq, Repr

/-- `frames`: how many frames there are. -/
def DecodedSound.frames (sound : DecodedSound) : ℕ := sound.samples.length / sound.channels

/-- A command to the audio output. -/
inductive PlayerCommand where
  /-- Start playing; a sound in flight is replaced. -/
  | play (sound : DecodedSound) (profile : VolumeProfile)
  /-- Stop any in-flight playback. -/
  | stop
  deriving DecidableEq, Repr

end HelmAlarm.Audio
