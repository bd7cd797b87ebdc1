import HelmAlarm.Audio.AlarmAudio

/-!
# The parts of the audio worker

The functions of `audio/cpal_audio.rs` that the worker and the callbacks of its
stream are made of: what each does to the state they share, under its lock, in one
piece. The module `HelmAlarm.Audio.Worker` runs them against each other.

A sample is a rational number, and so is the cursor; what a device makes of a sample
in its own format (`from_sample`) is left out. Of cpal there is what it answers: the
devices it lists, and for each whether a stream can be built on it and started.
-/

namespace HelmAlarm.Audio.CpalAudio

/-- `DEVICE_RETRY_INTERVAL`, in milliseconds. -/
def deviceRetryInterval : ℕ := 5000

/-- `COMMAND_ACK_TIMEOUT`, in milliseconds. -/
def commandAckTimeout : ℕ := 1000

/-! ### Devices -/

/-- `SampleFormat`. -/
inductive SampleFormat where
  /-- `f32`. -/
  | f32
  /-- `i16`. -/
  | i16
  /-- `u16`. -/
  | u16
  /-- Any other, with its name. -/
  | other (name : String)
  deriving DecidableEq, Repr

/-- `StreamConfig`. -/
structure StreamConfig where
  /-- Samples in a frame. -/
  channels : ℕ
  /-- Frames in a second. -/
  sampleRate : ℕ
  deriving DecidableEq, Repr

/-- An output device, and what cpal answers when asked for it. -/
structure Device where
  /-- `name`, if it can be told. -/
  name : Option String
  /-- `default_output_config`. -/
  defaultOutputConfig : Except String (SampleFormat × StreamConfig)
  /-- `build_output_stream`. -/
  buildOutputStream : Except String Unit
  /-- `play`. -/
  play : Except String Unit

/-- The audio host at one moment. -/
structure AudioHost where
  /-- `output_devices`. -/
  outputDevices : Except String (List Device)
  /-- `default_output_device`. -/
  defaultOutputDevice : Option Device

/-- `CpalConfig`. -/
structure CpalConfig where
  /-- Preferred output device name. -/
  deviceName : Option String := none
  deriving DecidableEq, Repr

/-- `pick_device`. -/
def pickDevice (host : AudioHost) (requested : Option String) : Except AudioError Device :=
  match requested with
  | some name =>
    match host.outputDevices with
    | .error e => .error (.deviceConfig e)
    | .ok devices =>
      match devices.find? fun d => d.name = some name with
      | some d => .ok d
      | none => .error (.deviceConfig ("output device not found: " ++ name))
  | none =>
    match host.defaultOutputDevice with
    | some d => .ok d
    | none => .error .noDevice

/-- `build_stream`, up to the stream itself: the configuration it is built with. -/
def buildStream (host : AudioHost) (cfg : CpalConfig) : Except AudioError StreamConfig := do
  let device ← pickDevice host cfg.deviceName
  let (sampleFormat, streamConfig) ← device.defaultOutputConfig.mapError .deviceConfig
  match sampleFormat with
  | .f32 | .i16 | .u16 => device.buildOutputStream.mapError .buildStream
  | .other name => .error (.buildStream ("unsupported sample format: " ++ name))
  device.play.mapError .playStream
  .ok streamConfig

/-! ### The shared state -/

/-- `Playback`. -/
structure Playback where
  /-- The sound. -/
  sound : DecodedSound
  /-- How it is played. -/
  profile : VolumeProfile
  /-- The frames played so far. -/
  framesPlayed : ℕ := 0
  /-- Where in the sound it stands, in frames. -/
  cursorFrames : ℚ := 0
  /-- The sound has ended. -/
  finished : Bool := false
  deriving DecidableEq, Repr

/-- `Shared`. -/
structure Shared where
  /-- What is played. -/
  playback : Option Playback := none
  /-- The error callback has reported the device as lost. -/
  deviceLost : Bool := false
  deriving DecidableEq, Repr

/-- `handle_play`. -/
def handlePlay (sound : DecodedSound) (profile : VolumeProfile) (streamPresent : Bool) (shared : Shared) :
    Except AudioError Unit × Shared :=
  if streamPresent then (.ok (), { shared with playback := some { sound := sound, profile := profile } })
  else (.error .deviceUnavailable, shared)

/-- `handle_stop`. -/
def handleStop (shared : Shared) : Except AudioError Unit × Shared := (.ok (), { shared with playback := none })

@[simp] theorem deviceLost_handlePlay (sound : DecodedSound) (profile : VolumeProfile) (streamPresent : Bool)
    (shared : Shared) : (handlePlay sound profile streamPresent shared).2.deviceLost = shared.deviceLost := by
  unfold handlePlay
  split <;> rfl

@[simp] theorem deviceLost_handleStop (shared : Shared) : (handleStop shared).2.deviceLost = shared.deviceLost := rfl

/-! ### The data callback -/

/-- The frames of the source for a frame of the device. -/
def Playback.step (deviceRate : ℕ) (pb : Playback) : ℚ :=
  if 0 < deviceRate then pb.sound.sampleRate / deviceRate else 1

/-- A frame of `width` samples from where the cursor stands, and the cursor moved on. -/
def Playback.emit (deviceRate width : ℕ) (pb : Playback) : List ℚ × Playback :=
  let idx := pb.cursorFrames.floor.toNat
  let elapsed := pb.framesPlayed / max (deviceRate : ℚ) 1
  let gain := gainAt pb.profile.ramp pb.profile.target elapsed
  ((List.range width).map fun ch => pb.sound.samples.getD (idx * pb.sound.channels + ch % pb.sound.channels) 0 * gain,
    { pb with
      cursorFrames := pb.cursorFrames + pb.step deviceRate
      framesPlayed := min (pb.framesPlayed + 1) (2 ^ 64 - 1) })

/-- What the loop of `fill_f32` does with one frame. -/
def Playback.fillFrame (deviceRate width : ℕ) (pb : Playback) : List ℚ × Playback :=
  if pb.finished ∨ pb.sound.frames = 0 ∨ pb.sound.channels = 0 then (List.replicate width 0, pb)
  else if pb.sound.frames ≤ pb.cursorFrames.floor.toNat then
    if pb.profile.repeats then
      let total : ℚ := pb.sound.frames
      { pb with cursorFrames := pb.cursorFrames - total * (pb.cursorFrames / total).floor }.emit deviceRate width
    else (List.replicate width 0, { pb with finished := true })
  else pb.emit deviceRate width

/-- The loop of `fill_f32`, for `n` frames. -/
def Playback.fillFrames (deviceRate width : ℕ) : ℕ → Playback → List ℚ × Playback
  | 0, pb => ([], pb)
  | n + 1, pb =>
    let (frame, pb) := pb.fillFrame deviceRate width
    let (frames, pb) := pb.fillFrames deviceRate width n
    (frame ++ frames, pb)

/-- The loop of `fill_f32`, for an output of `n` samples. Its last frame may be a part of one. -/
def Playback.fill (deviceRate deviceChannels n : ℕ) (pb : Playback) : List ℚ × Playback :=
  let (whole, pb) := pb.fillFrames deviceRate deviceChannels (n / deviceChannels)
  if n % deviceChannels = 0 then (whole, pb)
  else
    let (part, pb) := pb.fillFrame deviceRate (n % deviceChannels)
    (whole ++ part, pb)

/-- `fill_f32`. -/
def fillF32 (deviceChannels deviceRate : ℕ) (output : List ℚ) (shared : Shared) : List ℚ × Shared :=
  if deviceChannels = 0 then (output, shared)
  else
    match shared.playback with
    | none => (List.replicate output.length 0, shared)
    | some pb =>
      let (output, pb) := pb.fill deviceRate deviceChannels output.length
      (output, { shared with playback := if pb.finished && !pb.profile.repeats then none else some pb })

/-- A stream that plays, from when it was started. -/
structure Stream where
  /-- What it was built with. -/
  config : StreamConfig
  /-- The buffer of its data callback. -/
  scratch : List ℚ := []
  /-- Its error callback has run. -/
  reported : Bool := false
  deriving DecidableEq, Repr

/-- The data callback, for a buffer of `n` samples. -/
def Stream.render (n : ℕ) (shared : Shared) (stream : Stream) : List ℚ × Shared × Stream :=
  let scratch := stream.scratch ++ List.replicate (n - stream.scratch.length) 0
  let (buf, shared) := fillF32 stream.config.channels stream.config.sampleRate (scratch.take n) shared
  (buf, shared, { stream with scratch := buf ++ scratch.drop n })

/-! ### What the data callback does to the playback -/

/-- `pb'` is `pb` after frames were made of it. -/
inductive Playback.Advances (pb : Playback) : Playback → Prop where
  /-- None was. -/
  | refl : pb.Advances pb
  /-- One more was. -/
  | frame {pb' : Playback} (deviceRate width : ℕ) (h : pb.Advances pb') :
      pb.Advances (pb'.fillFrame deviceRate width).2

variable {pb pb' : Playback} {shared : Shared} {output : List ℚ} {deviceChannels deviceRate : ℕ}

theorem Playback.fillFrame_sound (deviceRate width : ℕ) (pb : Playback) :
    (pb.fillFrame deviceRate width).2.sound = pb.sound ∧ (pb.fillFrame deviceRate width).2.profile = pb.profile := by
  unfold fillFrame
  split
  · exact ⟨rfl, rfl⟩
  · split
    · split <;> exact ⟨rfl, rfl⟩
    · exact ⟨rfl, rfl⟩

/-- It is of the same sound, played in the same way. -/
theorem Playback.Advances.sound (h : pb.Advances pb') : pb'.sound = pb.sound ∧ pb'.profile = pb.profile := by
  induction h with
  | refl => exact ⟨rfl, rfl⟩
  | @frame pb' deviceRate width _ ih =>
    obtain ⟨hs, hp⟩ := fillFrame_sound deviceRate width pb'
    exact ⟨hs.trans ih.1, hp.trans ih.2⟩

theorem Playback.Advances.trans {pb'' : Playback} (h : pb.Advances pb') (h' : pb'.Advances pb'') :
    pb.Advances pb'' := by
  induction h' with
  | refl => exact h
  | frame deviceRate width _ ih => exact .frame deviceRate width ih

theorem Playback.advances_fillFrames (deviceRate width n : ℕ) (pb : Playback) :
    pb.Advances (pb.fillFrames deviceRate width n).2 := by
  induction n generalizing pb with
  | zero => exact .refl
  | succ n ih => exact (Advances.frame deviceRate width .refl).trans (ih _)

theorem Playback.advances_fill (deviceRate deviceChannels n : ℕ) (pb : Playback) :
    pb.Advances (pb.fill deviceRate deviceChannels n).2 := by
  have hwhole := advances_fillFrames deviceRate deviceChannels (n / deviceChannels) pb
  unfold fill
  by_cases hn : n % deviceChannels = 0
  · simpa only [if_pos hn] using hwhole
  · simpa only [if_neg hn] using hwhole.frame deviceRate (n % deviceChannels)

/-- With nothing to play the output is silent; a device without channels leaves it as it was. -/
theorem fillF32_of_none (h : shared.playback = none) :
    fillF32 deviceChannels deviceRate output shared =
      (if deviceChannels = 0 then output else List.replicate output.length 0, shared) := by
  unfold fillF32
  split
  · rfl
  · rw [h]

theorem deviceLost_fillF32 : (fillF32 deviceChannels deviceRate output shared).2.deviceLost = shared.deviceLost := by
  unfold fillF32
  repeat' split
  all_goals rfl

/-- The data callback advances the playback, or clears it. -/
theorem advances_fillF32 (h : (fillF32 deviceChannels deviceRate output shared).2.playback = some pb') :
    ∃ pb, shared.playback = some pb ∧ pb.Advances pb' := by
  unfold fillF32 at h
  split at h
  · exact ⟨pb', h, .refl⟩
  · cases hp : shared.playback with
    | none => simp [hp] at h
    | some pb =>
      simp only [hp, Option.ite_none_left_eq_some] at h
      obtain rfl := Option.some.inj h.2
      exact ⟨pb, rfl, pb.advances_fill _ _ _⟩

end HelmAlarm.Audio.CpalAudio
