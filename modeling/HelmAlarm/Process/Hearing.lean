import HelmAlarm.Audio.Amplitude
import HelmAlarm.Audio.Decoded
import HelmAlarm.Process.Sounding

/-!
# From the file to the device

The whole way of a sound, from the call that asked for it to the device: every sample
that a device is given, in any interleaving of calls, triggers, the worker and the
callbacks, is silence or is in the file of an alarm that was due. The call for that
alarm was accepted; its own task read the file that the call had resolved, at least the
delay of the alarm later; and the sample is one of those that the packets of the default
track of that file decode to, neither louder nor softer than it is there:
`heard_is_decoded`.
-/

namespace HelmAlarm.Process

open HelmAlarm.Library HelmAlarm.Daemon HelmAlarm.Audio

variable {π δ : Type} {sym : Symphonia π δ} {w : World} {as : List Act} {acts : List Ipc.Act} {s t : Ipc.Sys}

/-- The file system is the one at the start, or one it was changed to. -/
theorem files_of_run (h : Machine.Run Ipc.step Machine.anyStep s acts t) :
    t.host.fs = s.host.fs ∨ .files t.host.fs ∈ acts := by
  refine h.invariant_trace (P := fun acts t => t.host.fs = s.host.fs ∨ .files t.host.fs ∈ acts) (.inl rfl) ?_
  intro acts t act u ih _ hs
  cases Ipc.stepped_of_step hs with
  | refiled fs => exact .inr (by simp)
  | _ => exact ih.imp_right fun hm => List.mem_append_left _ hm

/-- Files are decoded at the end of a run as they are read, when they are at its start and after each change. -/
theorem fromPath_of_run {contents : FileSystem → String → Option (List UInt8)}
    (h : Machine.Run Ipc.step Machine.anyStep s acts t) (hfs : s.host.fs.fromPath = sym.fromPath (contents s.host.fs))
    (hfiles : ∀ fs, .files fs ∈ acts → fs.fromPath = sym.fromPath (contents fs)) :
    t.host.fs.fromPath = sym.fromPath (contents t.host.fs) := by
  rcases files_of_run h with hkept | hm
  · rw [hkept]
    exact hfs
  · exact hfiles _ hm

theorem mem_of_mem_ipc {act : Ipc.Act} (h : act ∈ as.filterMap Act.ipc?) : .ipc act ∈ as := by
  obtain ⟨act', hm, hipc⟩ := List.mem_filterMap.mp h
  cases act' with
  | ipc act' =>
    obtain rfl := Option.some.inj hipc
    exact hm
  | audio act' => cases hipc

/-- The sample is in the default track of a file with these contents. -/
def InFile (sym : Symphonia π δ) (path : String) (source : List UInt8) (y : ℚ) : Prop :=
  ∃ reader track decoder sampleRate channels samples,
    sym.Opens (Symphonia.pathExtension path) source reader track decoder sampleRate channels ∧
      sym.Decodes decoder (reader.own track.id) samples ∧ y ∈ samples

/-- What a file is decoded to is in it. -/
theorem inFile_of_fromPath {contents : String → Option (List UInt8)} {path : String} {sound : DecodedSound} {y : ℚ}
    (h : sym.fromPath contents path = some sound) (hy : y ∈ sound.samples) :
    ∃ source, contents path = some source ∧ InFile sym path source y := by
  obtain ⟨source, hsource, hdecoded⟩ := Option.bind_eq_some_iff.mp h
  cases hd : sym.decodeSound (Symphonia.pathExtension path) source with
  | error e =>
    rw [hd] at hdecoded
    cases hdecoded
  | ok sound' =>
    rw [hd] at hdecoded
    obtain rfl := Option.some.inj hdecoded
    obtain ⟨reader, track, decoder, hopen, -, hdecodes⟩ := Symphonia.exists_decodes hd
    exact ⟨source, hsource, reader, track, decoder, _, _, _, hopen, hdecodes, hy⟩

/-- In every run in which files are decoded with this symphonia, `contents` being what can be read of them:
a sample that a device is given is silence, or is in a file that a task read in this run, when it was due
for the schedule it was spawned for; and a call was accepted with that schedule, which is of that file,
at least its delay before the file was read. -/
theorem heard_is_decoded {host : Ipc.Host} {env : Ipc.Env} {daemon : AlarmDaemon}
    {contents : FileSystem → String → Option (List UInt8)} {b : List ℚ} {y : ℚ}
    (h : Machine.Run step Machine.anyStep (fresh host env daemon) as w)
    (hfs : host.fs.fromPath = sym.fromPath (contents host.fs))
    (hfiles : ∀ fs, .ipc (.files fs) ∈ as → fs.fromPath = sym.fromPath (contents fs))
    (hb : b ∈ w.audio.rendered) (hy : y ∈ b) (hne : y ≠ 0) :
    ∃ n sch deadline mono s t source, Ipc.Asked (Ipc.fresh host env daemon) (as.filterMap Act.ipc?) sch mono ∧
      mono + sch.delay ≤ deadline ∧ deadline ≤ s.host.mono ∧
      Machine.Passes Ipc.step (Ipc.fresh host env daemon) (as.filterMap Act.ipc?) s (.decode n) t ∧
      s.control.tasks[n]? = some ⟨sch, deadline, .woken⟩ ∧
      contents s.host.fs sch.soundPath = some source ∧ InFile sym sch.soundPath source y := by
  obtain ⟨acts, hrun⟩ := audio_of_run h
  rcases CpalAudio.sourced_of_run hrun b hb y hy with rfl | ⟨i, sound, profile, hsent, -, x, hx, rfl⟩
  · exact absurd rfl hne
  · obtain ⟨n, -, task, sound', -, htask, -, hcommand, hheard, -, -⟩ := rang_of_sent h (List.mem_of_getElem? hsent)
    obtain ⟨rfl, rfl⟩ := PlayerCommand.play.inj hcommand
    obtain ⟨s, t, hp, hsound⟩ := hheard
    have hlift : Machine.Run step (lift Machine.anyStep) (fresh host env daemon) as w :=
      h.mono fun _ act _ => by cases act <;> trivial
    obtain ⟨bs, cs, hsplit, hbefore, -, hs, hafter⟩ := hp.cut ((ipc_of_run hlift).mono fun _ _ _ => trivial)
    -- the task that read the file is the one that played, and was due
    obtain ⟨sch, deadline, hn, -⟩ := Ipc.step_decode hs
    obtain ⟨task', hn', hschedule, -⟩ := Ipc.task_of_run (.cons trivial hs hafter) hn
    obtain rfl := Option.some.inj (hn'.symm.trans htask)
    rw [hschedule] at hsound
    have hdue := (Ipc.provenance_of_run hbefore).due n _ hn
    obtain ⟨mono, hasked, hle⟩ := hdue.asked
    have hchanges : ∀ fs, .files fs ∈ bs → fs.fromPath = sym.fromPath (contents fs) := fun fs hm =>
      hfiles fs (mem_of_mem_ipc (hsplit ▸ List.mem_append_left _ hm))
    rw [fromPath_of_run hbefore hfs hchanges] at hsound
    obtain ⟨source, hsource, hin⟩ := inFile_of_fromPath hsound hx
    have hfull : x * VolumeProfile.alarm.target = x := mul_one x
    rw [hfull]
    exact ⟨n, sch, deadline, mono, s, t, source, hsplit ▸ hasked.append _, hle, hdue.running rfl, hp, hn, hsource, hin⟩

/-- A WAV file of one sample, a float of 32 bits, of one channel, 8000 a second. -/
def hornWav : List UInt8 :=
  [82, 73, 70, 70, 40, 0, 0, 0, 87, 65, 86, 69, 102, 109, 116, 32, 16, 0, 0, 0, 3, 0, 1, 0, 64, 31, 0, 0, 0, 125, 0, 0,
    4, 0, 32, 0, 100, 97, 116, 97, 4, 0, 0, 0, 0, 0, 128, 63]

/-- What the data of its packet decodes to. -/
def hornSamples : List UInt8 → List ℚ
  | [0, 0, 128, 63] => [1]
  | _ => []

/-- symphonia, for this file. -/
def hornSymphonia : Symphonia (List UInt8) Unit :=
  .ofWavs ⟨"pcm_f32le", some 8000, some 1⟩ [(hornWav, [[0, 0, 128, 63]])] hornSamples

/-- What can be read of the files: this is in each of them. -/
def hornContents (fs : FileSystem) (path : String) : Option (List UInt8) :=
  if fs.pathExists path then some hornWav else none

theorem fromPath_hornFiles : Ipc.hornFiles.fromPath = hornSymphonia.fromPath (hornContents Ipc.hornFiles) := by
  funext path
  by_cases hp : path = "/usr/share/helm/sounds/horn.wav"
  · have hsamples : [[0, 0, 128, 63]].flatMap hornSamples = [1] := rfl
    have hdecoded : hornSymphonia.decodeSound (Symphonia.pathExtension path) hornWav = .ok Ipc.hornSound :=
      Symphonia.decodeSound_ofWavs List.lookup_cons_self rfl rfl (hsamples ▸ List.cons_ne_nil _ _)
    rw [hp] at hdecoded
    simp [Ipc.hornFiles, Symphonia.fromPath, hornContents, hp, hdecoded, Except.toOption]
  · simp [Ipc.hornFiles, Symphonia.fromPath, hornContents, hp]

/-- The alarm that fires, and a device that asks for a sample of it. -/
def ringingOut : List Act := ringing ++ [.audio (.render 1)]

theorem heard_is_decoded_ringing :
    ∃ w n sch deadline mono s t source, Machine.Run step Machine.anyStep hornWorld ringingOut w ∧
      w.audio.rendered = [[1]] ∧ Ipc.Asked Ipc.hornProcess (ringingOut.filterMap Act.ipc?) sch mono ∧
      mono + sch.delay ≤ deadline ∧ deadline ≤ s.host.mono ∧
      Machine.Passes Ipc.step Ipc.hornProcess (ringingOut.filterMap Act.ipc?) s (.decode n) t ∧
      s.control.tasks[n]? = some ⟨sch, deadline, .woken⟩ ∧
      hornContents s.host.fs sch.soundPath = some source ∧ InFile hornSymphonia sch.soundPath source 1 := by
  obtain ⟨w, hrun, hrendered⟩ : ∃ w, Machine.Run step Machine.anyStep hornWorld ringingOut w ∧
      w.audio.rendered = [[1]] := Machine.Run.exists_of_execIf (by decide +kernel)
  obtain ⟨n, sch, deadline, mono, s, t, source, hread⟩ := heard_is_decoded hrun fromPath_hornFiles
    (by simp [ringingOut, ringing, works, Ipc.advances]) (hrendered ▸ List.mem_singleton_self [1])
    (List.mem_singleton_self 1) one_ne_zero
  exact ⟨w, n, sch, deadline, mono, s, t, source, hrun, hrendered, hread⟩

end HelmAlarm.Process
