import HelmAlarm.Audio.AlarmAudio
import HelmAlarm.Library.FileNames
import Mathlib.Data.List.Infix

/-!
# Decoding a file

`DecodedSound::decode` of `audio/decoded.rs`. The probe, the codecs and the readers are
those of symphonia, which is outside the repository; here they are `Symphonia`, and what
is modelled is what the daemon makes of their answers: which packets it decodes and
which it passes over, when it stops, what it checks, and what it says when it fails.

What is accepted is exactly what the default track's packets decode to, put together in
their order (`decode_eq_ok_iff`): packets of other tracks make no difference, nor do those
that are corrupt, as they are passed over. And a file that was cut short, or whose other
tracks differ, decodes to a beginning of the sound if it is read to its end, unless
nothing is left of it or it was cut within a frame: `decode_of_cut`.
-/

namespace HelmAlarm.Audio

open HelmAlarm.Library

/-- `symphonia::core::errors::Error`, with its text. -/
inductive SymphoniaError where
  /-- Reading failed; at the end of the file the kind is `UnexpectedEof`. -/
  | ioError (unexpectedEof : Bool) (text : String)
  /-- The data is malformed. -/
  | decodeError (text : String)
  /-- The decoder or the reader must be reset. -/
  | resetRequired (text : String)
  /-- Any other. -/
  | other (text : String)
  deriving DecidableEq, Repr

/-- The text of an error. -/
def SymphoniaError.toString : SymphoniaError → String
  | .ioError _ text | .decodeError text | .resetRequired text | .other text => text

/-- The error of a reader that is at its end. -/
def SymphoniaError.isEnd : SymphoniaError → Bool
  | .ioError unexpectedEof _ => unexpectedEof
  | .resetRequired _ => true
  | _ => false

/-- `CodecParameters`, as far as they are read. -/
structure CodecParameters where
  /-- The codec. -/
  codec : String
  /-- Frames in a second, if known. -/
  sampleRate : Option ℕ
  /-- How many channels there are, if known. -/
  channels : Option ℕ
  deriving DecidableEq, Repr

/-- `Track`. -/
structure Track where
  /-- Its id. -/
  id : ℕ
  /-- How it is to be decoded. -/
  codecParams : CodecParameters
  deriving DecidableEq, Repr

/-- `Packet`, with data of type `π`. -/
structure Packet (π : Type) where
  /-- The track it belongs to. -/
  trackId : ℕ
  /-- Its data. -/
  data : π
  deriving DecidableEq, Repr

/-- `FormatReader`: what `next_packet` returns, call after call. -/
structure FormatReader (π : Type) where
  /-- `default_track`. -/
  defaultTrack : Option Track
  /-- The packets. -/
  packets : List (Packet π)
  /-- The error after them. -/
  ends : SymphoniaError

/-- The packets of a track. -/
def FormatReader.own {π : Type} (reader : FormatReader π) (trackId : ℕ) : List (Packet π) :=
  reader.packets.filter fun packet => packet.trackId = trackId

/-- What the daemon uses of symphonia; a decoder has states of type `δ`. -/
structure Symphonia (π δ : Type) where
  /-- `Probe::format`, given the extension the file is known by. -/
  format : Option String → List UInt8 → Except SymphoniaError (FormatReader π)
  /-- `CodecRegistry::make`. -/
  make : CodecParameters → Except SymphoniaError δ
  /-- `Decoder::decode`, with its samples channel by channel within each frame. -/
  decode : δ → Packet π → Except SymphoniaError (List ℚ) × δ

/-- The channels of a track, as a `u16` that is not zero. -/
def CodecParameters.channelCount (params : CodecParameters) : Option { n : ℕ // 0 < n } :=
  (params.channels.filter (· < 2 ^ 16)).bind fun n => if h : 0 < n then some ⟨n, h⟩ else none

namespace Symphonia

variable {π δ : Type} (sym : Symphonia π δ)

/-- The loop of `decode`, from what is left to be read. -/
def decodeLoop (trackId : ℕ) (ends : SymphoniaError) : List (Packet π) → δ → List ℚ → Except String (List ℚ)
  | [], _, samples => if ends.isEnd then .ok samples else .error ends.toString
  | packet :: packets, decoder, samples =>
    if packet.trackId ≠ trackId then decodeLoop trackId ends packets decoder samples
    else
      match sym.decode decoder packet with
      | (.ok buf, decoder) => decodeLoop trackId ends packets decoder (samples ++ buf)
      -- a corrupt packet is passed over
      | (.error (.decodeError _), decoder) => decodeLoop trackId ends packets decoder samples
      | (.error e, _) => .error e.toString

/-- The checks of `decode` after its loop. -/
def finish (channels : { n : ℕ // 0 < n }) (sampleRate : ℕ) (samples : List ℚ) : Except String DecodedSound :=
  if hempty : samples = [] then .error "decoded zero samples"
  else if hwhole : channels.val ∣ samples.length then
    .ok ⟨samples, channels, sampleRate, hempty, channels.property, hwhole⟩
  else
    .error ("decoded " ++ toString samples.length ++ " samples, not a multiple of " ++ toString channels.val ++ " channels")

/-- `DecodedSound::decode`; an error is the message of an `AudioError::Decode`. -/
def decodeSound (hint : Option String) (source : List UInt8) : Except String DecodedSound := do
  let reader ← (sym.format hint source).mapError SymphoniaError.toString
  let track ← reader.defaultTrack.elim (.error "no default track") .ok
  let sampleRate ← track.codecParams.sampleRate.elim (.error "unknown sample rate") .ok
  let channels ← track.codecParams.channelCount.elim (.error "unknown or invalid channel layout") .ok
  let decoder ← (sym.make track.codecParams).mapError SymphoniaError.toString
  let samples ← sym.decodeLoop track.id reader.ends reader.packets decoder []
  finish channels sampleRate samples

/-- `Path::extension` of a path to a file, as a string. -/
def pathExtension (path : String) : Option String :=
  (OsStr.extension (OsStr.ofStr (String.ofList (path.toList.rtakeWhile (· ≠ '/'))))).bind OsStr.toStr

/-- `DecodedSound::from_path`, if it succeeds: `contents` is what can be read of each file. -/
def fromPath (contents : String → Option (List UInt8)) (path : String) : Option DecodedSound :=
  (contents path).bind fun source => (sym.decodeSound (pathExtension path) source).toOption

/-! ### What packets decode to -/

/-- What a decoder makes of packets: of each its samples, or nothing if it is corrupt. -/
inductive Decodes : δ → List (Packet π) → List ℚ → Prop where
  /-- Of none, nothing. -/
  | nil {decoder : δ} : Decodes decoder [] []
  /-- Of one its samples, and then what it makes of the others. -/
  | heard {decoder decoder' : δ} {packet : Packet π} {packets : List (Packet π)} {buf samples : List ℚ}
      (h : sym.decode decoder packet = (.ok buf, decoder')) (hrest : Decodes decoder' packets samples) :
      Decodes decoder (packet :: packets) (buf ++ samples)
  /-- Of a corrupt one nothing. -/
  | skipped {decoder decoder' : δ} {packet : Packet π} {packets : List (Packet π)} {text : String} {samples : List ℚ}
      (h : sym.decode decoder packet = (.error (.decodeError text), decoder')) (hrest : Decodes decoder' packets samples) :
      Decodes decoder (packet :: packets) samples

variable {sym} {trackId : ℕ} {ends : SymphoniaError} {packets : List (Packet π)} {decoder : δ} {samples out : List ℚ}

/-- The loop does not see the packets of other tracks. -/
theorem decodeLoop_filter (trackId : ℕ) (ends : SymphoniaError) (packets : List (Packet π)) (decoder : δ) (samples : List ℚ) :
    sym.decodeLoop trackId ends packets decoder samples =
      sym.decodeLoop trackId ends (packets.filter fun packet => packet.trackId = trackId) decoder samples := by
  induction packets generalizing decoder samples with
  | nil => rfl
  | cons packet packets ih =>
    by_cases hown : packet.trackId = trackId
    · rw [List.filter_cons_of_pos (by simpa using hown)]
      simp only [decodeLoop, hown, ne_eq, not_true_eq_false, if_false]
      split
      · exact ih _ _
      · exact ih _ _
      · rfl
    · rw [List.filter_cons_of_neg (by simpa using hown), decodeLoop, if_pos hown]
      exact ih _ _

/-- On the packets of its track, the loop adds what they decode to. -/
theorem decodeLoop_eq_ok_iff (hown : ∀ packet ∈ packets, packet.trackId = trackId) :
    sym.decodeLoop trackId ends packets decoder samples = .ok out ↔
      ends.isEnd = true ∧ ∃ rest, sym.Decodes decoder packets rest ∧ out = samples ++ rest := by
  induction packets generalizing decoder samples with
  | nil =>
    unfold decodeLoop
    constructor
    · intro h
      split at h
      · rename_i hend
        obtain rfl := Except.ok.inj h
        exact ⟨hend, [], .nil, (List.append_nil _).symm⟩
      · cases h
    · rintro ⟨hend, rest, hdecodes, rfl⟩
      cases hdecodes
      rw [if_pos hend, List.append_nil]
  | cons packet packets ih =>
    have hpacket := hown packet List.mem_cons_self
    have hrest := fun packet' hm => hown packet' (List.mem_cons_of_mem _ hm)
    simp only [decodeLoop, hpacket, ne_eq, not_true_eq_false, if_false]
    constructor
    · intro h
      split at h
      · rename_i buf decoder' hd
        obtain ⟨hend, rest, hdecodes, rfl⟩ := (ih hrest).mp h
        exact ⟨hend, buf ++ rest, .heard hd hdecodes, List.append_assoc _ _ _⟩
      · rename_i text decoder' hd
        obtain ⟨hend, rest, hdecodes, rfl⟩ := (ih hrest).mp h
        exact ⟨hend, rest, .skipped hd hdecodes, rfl⟩
      · cases h
    · rintro ⟨hend, rest, hdecodes, rfl⟩
      cases hdecodes with
      | heard hd hdecodes =>
        simp only [hd]
        exact (ih hrest).mpr ⟨hend, _, hdecodes, (List.append_assoc _ _ _).symm⟩
      | skipped hd hdecodes =>
        simp only [hd]
        exact (ih hrest).mpr ⟨hend, _, hdecodes, rfl⟩

theorem decodeLoop_eq_ok (reader : FormatReader π) :
    sym.decodeLoop trackId reader.ends reader.packets decoder [] = .ok out ↔
      reader.ends.isEnd = true ∧ sym.Decodes decoder (reader.own trackId) out := by
  rw [decodeLoop_filter, decodeLoop_eq_ok_iff fun packet hm => by simpa using (List.mem_filter.mp hm).2]
  exact and_congr_right fun _ => by simp [FormatReader.own]

/-- A decoder makes one thing of packets, and of the first of them a beginning of it. -/
theorem Decodes.isPrefix {more : List (Packet π)} (h : sym.Decodes decoder packets samples)
    (h' : sym.Decodes decoder (packets ++ more) out) : samples <+: out := by
  induction h generalizing out with
  | nil => exact List.nil_prefix
  | heard hd _ ih =>
    cases h' with
    | heard hd' h' =>
      obtain ⟨hbuf, rfl⟩ := Prod.mk.inj (hd.symm.trans hd')
      obtain rfl := Except.ok.inj hbuf
      exact (List.prefix_append_right_inj _).mpr (ih h')
    | skipped hd' h' => cases hd.symm.trans hd'
  | skipped hd _ ih =>
    cases h' with
    | heard hd' h' => cases hd.symm.trans hd'
    | skipped hd' h' =>
      obtain ⟨-, rfl⟩ := Prod.mk.inj (hd.symm.trans hd')
      exact ih h'

/-- What decodes to something decodes to something when it is cut. -/
theorem Decodes.exists_of_append {more : List (Packet π)} (h : sym.Decodes decoder (packets ++ more) out) :
    ∃ samples, sym.Decodes decoder packets samples := by
  induction packets generalizing decoder out with
  | nil => exact ⟨[], .nil⟩
  | cons packet packets ih =>
    cases h with
    | heard hd h =>
      obtain ⟨samples, hsamples⟩ := ih h
      exact ⟨_, .heard hd hsamples⟩
    | skipped hd h =>
      obtain ⟨samples, hsamples⟩ := ih h
      exact ⟨samples, .skipped hd hsamples⟩

/-! ### What is accepted -/

/-- The file can be read: its default track has a rate, as many channels as a `u16` holds, and a decoder. -/
structure Opens (sym : Symphonia π δ) (hint : Option String) (source : List UInt8) (reader : FormatReader π) (track : Track)
    (decoder : δ) (sampleRate channels : ℕ) : Prop where
  /-- It is of a known format. -/
  isFormat : sym.format hint source = .ok reader
  /-- It has a default track. -/
  hasTrack : reader.defaultTrack = some track
  /-- Its rate is known. -/
  hasRate : track.codecParams.sampleRate = some sampleRate
  /-- So are its channels. -/
  hasChannels : track.codecParams.channels = some channels
  /-- They are not too many. -/
  channelsFit : channels < 2 ^ 16
  /-- There is one. -/
  channelsPos : 0 < channels
  /-- It can be decoded. -/
  isMade : sym.make track.codecParams = .ok decoder

variable {hint hint' : Option String} {source source' : List UInt8} {reader reader' : FormatReader π} {track : Track}
  {sampleRate channels : ℕ} {sound : DecodedSound} {params : CodecParameters}

theorem channelCount_eq_some_iff {count : { n : ℕ // 0 < n }} :
    params.channelCount = some count ↔ params.channels = some count.val ∧ count.val < 2 ^ 16 := by
  unfold CodecParameters.channelCount
  obtain ⟨n, hpos⟩ := count
  cases hc : params.channels with
  | none => simp
  | some m =>
    by_cases hfits : m < 2 ^ 16
    · by_cases hm : 0 < m
      · simp only [Option.filter_some, decide_eq_true hfits, if_true, Option.bind_some, dif_pos hm, Option.some.injEq,
          Subtype.mk.injEq]
        exact ⟨fun h => ⟨h, h ▸ hfits⟩, fun h => h.1⟩
      · simp only [Option.filter_some, decide_eq_true hfits, if_true, Option.bind_some, dif_neg hm, Option.some.injEq]
        exact ⟨nofun, fun h => absurd (h.1 ▸ hpos) hm⟩
    · simp only [Option.filter_some, decide_eq_false hfits, Bool.false_eq_true, if_false, Option.bind_none,
        Option.some.injEq]
      exact ⟨nofun, fun h => absurd (h.1 ▸ h.2) hfits⟩

/-- What `decode` makes of a file that can be read. -/
theorem Opens.decodeSound (h : sym.Opens hint source reader track decoder sampleRate channels) :
    sym.decodeSound hint source = (sym.decodeLoop track.id reader.ends reader.packets decoder []).bind
      (finish ⟨channels, h.channelsPos⟩ sampleRate) := by
  have hcount : track.codecParams.channelCount = some ⟨channels, h.channelsPos⟩ :=
    channelCount_eq_some_iff.mpr ⟨h.hasChannels, h.channelsFit⟩
  unfold Symphonia.decodeSound
  rw [h.isFormat]
  simp only [Except.mapError, bind, Except.bind, h.hasTrack, Option.elim_some, h.hasRate, hcount, h.isMade]

/-- A file that is decoded can be read. -/
theorem exists_opens (h : sym.decodeSound hint source = .ok sound) :
    ∃ reader track decoder sampleRate channels, sym.Opens hint source reader track decoder sampleRate channels := by
  unfold Symphonia.decodeSound at h
  cases hformat : sym.format hint source with
  | error e => simp [hformat, Except.mapError, bind, Except.bind] at h
  | ok reader =>
    cases htrack : reader.defaultTrack with
    | none => simp [hformat, htrack, Except.mapError, bind, Except.bind] at h
    | some track =>
      cases hrate : track.codecParams.sampleRate with
      | none => simp [hformat, htrack, hrate, Except.mapError, bind, Except.bind] at h
      | some sampleRate =>
        cases hcount : track.codecParams.channelCount with
        | none => simp [hformat, htrack, hrate, hcount, Except.mapError, bind, Except.bind] at h
        | some channels =>
          cases hmake : sym.make track.codecParams with
          | error e => simp [hformat, htrack, hrate, hcount, hmake, Except.mapError, bind, Except.bind] at h
          | ok decoder =>
            obtain ⟨hchannels, hfit⟩ := channelCount_eq_some_iff.mp hcount
            exact ⟨reader, track, decoder, sampleRate, channels.val, hformat, htrack, hrate, hchannels, hfit,
              channels.property, hmake⟩

/-- The checks of `decode` let a sound pass as it is. -/
theorem finish_eq_ok_iff {count : { n : ℕ // 0 < n }} :
    finish count sampleRate samples = .ok sound ↔
      sound.samples = samples ∧ sound.sampleRate = sampleRate ∧ sound.channels = count.val := by
  unfold finish
  constructor
  · intro h
    split at h
    · cases h
    · split at h
      · obtain rfl := Except.ok.inj h
        exact ⟨rfl, rfl, rfl⟩
      · cases h
  · rintro ⟨rfl, rfl, hchannels⟩
    obtain ⟨n, hpos⟩ := count
    obtain rfl : sound.channels = n := hchannels
    rw [dif_neg sound.nonempty, dif_pos sound.wholeFrames]

/-- What they say of one that does not. -/
theorem finish_cases (count : { n : ℕ // 0 < n }) (sampleRate : ℕ) (samples : List ℚ) :
    (∃ sound, finish count sampleRate samples = .ok sound) ∨
      finish count sampleRate samples = .error "decoded zero samples" ∧ samples = [] ∨
      finish count sampleRate samples = .error ("decoded " ++ toString samples.length ++ " samples, not a multiple of " ++
        toString count.val ++ " channels") ∧ ¬ count.val ∣ samples.length := by
  unfold finish
  split
  · rename_i hempty
    exact .inr (.inl ⟨rfl, hempty⟩)
  · split
    · exact .inl ⟨_, rfl⟩
    · rename_i hwhole
      exact .inr (.inr ⟨rfl, hwhole⟩)

/-- A file that is decoded can be read to its end, and the packets of its default track decode to the sound. -/
theorem exists_decodes (h : sym.decodeSound hint source = .ok sound) :
    ∃ (reader : FormatReader π) (track : Track) (decoder : δ),
      sym.Opens hint source reader track decoder sound.sampleRate sound.channels ∧
      reader.ends.isEnd = true ∧ sym.Decodes decoder (reader.own track.id) sound.samples := by
  obtain ⟨reader, track, decoder, sampleRate, channels, hopen⟩ := exists_opens h
  rw [hopen.decodeSound] at h
  cases hloop : sym.decodeLoop track.id reader.ends reader.packets decoder [] with
  | error e =>
    rw [hloop] at h
    cases h
  | ok samples =>
    rw [hloop] at h
    obtain ⟨rfl, rfl, rfl⟩ := finish_eq_ok_iff.mp h
    exact ⟨reader, track, decoder, hopen, (decodeLoop_eq_ok reader).mp hloop⟩

/-- A file is decoded to a sound exactly when it can be read to its end, and the sound is what the
packets of its default track decode to, with the rate and the channels of that track. -/
theorem decode_eq_ok_iff : sym.decodeSound hint source = .ok sound ↔
    ∃ (reader : FormatReader π) (track : Track) (decoder : δ),
      sym.Opens hint source reader track decoder sound.sampleRate sound.channels ∧
      reader.ends.isEnd = true ∧ sym.Decodes decoder (reader.own track.id) sound.samples := by
  constructor
  · exact exists_decodes
  · intro h
    obtain ⟨reader, track, decoder, hopen, hdecodes⟩ := h
    rw [hopen.decodeSound, (decodeLoop_eq_ok reader).mpr hdecodes]
    exact finish_eq_ok_iff.mpr ⟨rfl, rfl, rfl⟩

/-- Of a file whose default track is the beginning of that of a file that was decoded, whatever its
other tracks are, and which is read to its end without another error, as much is decoded: a beginning
of the sound, with its rate and its channels. It is rejected only if that is nothing, or ends within
a frame. -/
theorem decode_of_cut (h : sym.decodeSound hint source = .ok sound)
    (hopen : sym.Opens hint source reader track decoder sampleRate channels)
    (hopen' : sym.Opens hint' source' reader' track decoder sampleRate channels)
    (hend : reader'.ends.isEnd = true) (hcut : reader'.own track.id <+: reader.own track.id) :
    ∃ samples, samples <+: sound.samples ∧
      ((∃ sound', sym.decodeSound hint' source' = .ok sound' ∧ sound'.samples = samples ∧
        sound'.sampleRate = sound.sampleRate ∧ sound'.channels = sound.channels) ∨
      sym.decodeSound hint' source' = .error "decoded zero samples" ∧ samples = [] ∨
      sym.decodeSound hint' source' = .error ("decoded " ++ toString samples.length ++ " samples, not a multiple of " ++
        toString channels ++ " channels") ∧ ¬ channels ∣ samples.length) := by
  rw [hopen.decodeSound] at h
  cases hloop : sym.decodeLoop track.id reader.ends reader.packets decoder [] with
  | error e =>
    rw [hloop] at h
    cases h
  | ok whole =>
    rw [hloop] at h
    obtain ⟨rfl, hrate, hchannels⟩ := finish_eq_ok_iff.mp h
    obtain ⟨-, hdecodes⟩ := (decodeLoop_eq_ok reader).mp hloop
    obtain ⟨more, hmore⟩ := hcut
    rw [← hmore] at hdecodes
    obtain ⟨samples, hsamples⟩ := hdecodes.exists_of_append
    have hloop' := (decodeLoop_eq_ok reader').mpr ⟨hend, hsamples⟩
    refine ⟨samples, hsamples.isPrefix hdecodes, ?_⟩
    rw [hopen'.decodeSound, hloop']
    rcases finish_cases ⟨channels, hopen'.channelsPos⟩ sampleRate samples with ⟨sound', hok⟩ | herror
    · obtain ⟨hs', hr', hc'⟩ := finish_eq_ok_iff.mp hok
      exact .inl ⟨sound', hok, hs', hr'.trans hrate.symm, hc'.trans hchannels.symm⟩
    · exact .inr herror

/-! ### Files to try things on -/

/-- What symphonia answers of WAV files with these parameters: `files` has what is in each of them, with
the data its reader cuts into packets, and `samples` is what the decoder makes of such data. -/
def ofWavs (params : CodecParameters) (files : List (List UInt8 × List (List UInt8))) (samples : List UInt8 → List ℚ) :
    Symphonia (List UInt8) Unit where
  format _ source :=
    match files.lookup source with
    | some packets => .ok ⟨some ⟨0, params⟩, packets.map (Packet.mk 0), .ioError true "end of stream"⟩
    | none => .error (.other "unsupported feature: core (probe): no suitable format reader found")
  make params' := if params' = params then .ok () else .error (.other "unsupported feature: core (codec):unsupported codec")
  decode decoder packet := (.ok (samples packet.data), decoder)

section Wavs

variable {files : List (List UInt8 × List (List UInt8))} {chunks : List (List UInt8)} {wavSamples : List UInt8 → List ℚ}

theorem opens_ofWavs (hsource : files.lookup source = some chunks) (hrate : params.sampleRate = some sampleRate)
    (hchannels : params.channels = some 1) :
    (ofWavs params files wavSamples).Opens hint source
      ⟨some ⟨0, params⟩, chunks.map (Packet.mk 0), .ioError true "end of stream"⟩ ⟨0, params⟩ () sampleRate 1 :=
  ⟨by simp only [ofWavs, hsource], rfl, hrate, hchannels, by decide, Nat.one_pos, if_pos rfl⟩

/-- All packets are decoded. -/
theorem decodes_ofWavs : (ofWavs params files wavSamples).Decodes () (chunks.map (Packet.mk 0)) (chunks.flatMap wavSamples) := by
  induction chunks with
  | nil => exact .nil
  | cons data chunks ih => exact .heard rfl ih

theorem decodeSound_ofWavs (hsource : files.lookup source = some chunks) (hrate : params.sampleRate = some sampleRate)
    (hchannels : params.channels = some 1) (hne : chunks.flatMap wavSamples ≠ []) :
    (ofWavs params files wavSamples).decodeSound hint source =
      .ok ⟨chunks.flatMap wavSamples, 1, sampleRate, hne, Nat.one_pos, one_dvd _⟩ := by
  have hown : ∀ packet ∈ chunks.map (Packet.mk 0), packet.trackId = 0 := by
    intro packet hm
    obtain ⟨data, -, rfl⟩ := List.mem_map.mp hm
    rfl
  have hloop : (ofWavs params files wavSamples).decodeLoop 0 (.ioError true "end of stream") (chunks.map (Packet.mk 0)) ()
      [] = .ok (chunks.flatMap wavSamples) := (decodeLoop_eq_ok_iff hown).mpr ⟨rfl, _, decodes_ofWavs, rfl⟩
  rw [(opens_ofWavs hsource hrate hchannels).decodeSound, hloop]
  exact finish_eq_ok_iff.mpr ⟨rfl, rfl, rfl⟩

end Wavs

/-- The header of a WAV file of 1153 samples of 8 bits, of one channel, 8000 a second. -/
def shortHeader : List UInt8 :=
  [82, 73, 70, 70, 165, 4, 0, 0, 87, 65, 86, 69, 102, 109, 116, 32, 16, 0, 0, 0, 1, 0, 1, 0, 64, 31, 0, 0, 64, 31, 0, 0,
    1, 0, 8, 0, 100, 97, 116, 97, 129, 4, 0, 0]

/-- The data of its first packet, which is as long as one can be. -/
def shortData : List UInt8 := .replicate 1152 192

/-- What is in the file, and in the same file without its last sample, which is a packet of its own. -/
def shortFiles : List (List UInt8 × List (List UInt8)) :=
  [(shortHeader ++ shortData ++ [64], [shortData, [64]]), (shortHeader ++ shortData, [shortData])]

/-- Samples of 8 bits. -/
def unsignedSamples (data : List UInt8) : List ℚ := data.map fun b => b.toNat / 128 - 1

/-- symphonia, for the two files. -/
def shortWavs : Symphonia (List UInt8) Unit := ofWavs ⟨"pcm_u8", some 8000, some 1⟩ shortFiles unsignedSamples

theorem lookup_cut_shortFiles : shortFiles.lookup (shortHeader ++ shortData) = some [shortData] := by
  have hne : (shortHeader ++ shortData == shortHeader ++ shortData ++ [64]) = false := by
    rw [beq_eq_false_iff_ne, ne_eq, List.self_eq_append_right]
    exact List.cons_ne_nil _ _
  simp only [shortFiles, List.lookup_cons, hne, beq_self_eq_true]

/-- The file without its last sample decodes to the others. -/
theorem decode_of_cut_short :
    ∃ sound', shortWavs.decodeSound none (shortHeader ++ shortData) = .ok sound' ∧
      sound'.samples <+: unsignedSamples shortData ++ unsignedSamples [64] := by
  have hwhole : shortFiles.lookup (shortHeader ++ shortData ++ [64]) = some [shortData, [64]] := List.lookup_cons_self
  have hne : unsignedSamples shortData ≠ [] := List.cons_ne_nil _ _
  have hdecoded : shortWavs.decodeSound none _ = .ok _ :=
    decodeSound_ofWavs hwhole rfl rfl (List.append_ne_nil_of_left_ne_nil hne _)
  have hopen : shortWavs.Opens none _ _ _ () 8000 1 := opens_ofWavs hwhole rfl rfl
  have hopen' : shortWavs.Opens none _ _ _ () 8000 1 := opens_ofWavs lookup_cut_shortFiles rfl rfl
  obtain ⟨samples, hprefix, ⟨sound', hok, rfl, -⟩ | ⟨herror, -⟩ | ⟨-, hframes⟩⟩ :=
    decode_of_cut hdecoded hopen hopen' rfl ⟨[⟨0, [64]⟩], rfl⟩
  · exact ⟨sound', hok, by simpa using hprefix⟩
  · have hok : shortWavs.decodeSound none _ = .ok _ :=
      decodeSound_ofWavs lookup_cut_shortFiles rfl rfl (List.append_ne_nil_of_left_ne_nil hne _)
    cases herror.symm.trans hok
  · exact absurd (one_dvd _) hframes

end Symphonia

end HelmAlarm.Audio
