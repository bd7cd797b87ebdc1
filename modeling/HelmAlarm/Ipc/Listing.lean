import HelmAlarm.Audio.Offered
import HelmAlarm.Ipc.Control

/-!
# The method that lists sounds

`list_sounds` of `ipc/control.rs` replies with the ids of the sounds that the library
lists, or with what went wrong. Every id it replies with can be armed
(`schedule_of_listSounds`).

The interface says that it fails when a sound directory is unreadable. It does fail when
one breaks off while it is read, and not when one cannot be opened: that is passed over,
and its sounds are not listed. And it fails when the metadata of one file cannot be read,
of a dangling link for instance: then no sound of either directory is listed. When the
method does as it should is `others_listed_iff`.
-/

namespace HelmAlarm.Ipc

open HelmAlarm.Library HelmAlarm.Audio HelmAlarm.Audio.SoundLibrary

namespace Control

/-- `list_sounds`. -/
def listSounds (fs : Files) (readDir : ReadDir) (c : Control) : Except FdoError (List String) :=
  match c.sounds.listSounds fs readDir with
  | .error e => .error (.failed e.toString)
  | .ok summaries => .ok (summaries.map SoundSummary.id)

variable {fs : Files} {readDir : ReadDir} {c : Control} {ids : List String}

theorem listSounds_eq_ok : c.listSounds fs readDir = .ok ids ↔
    ∃ summaries, c.sounds.listSounds fs readDir = .ok summaries ∧ ids = summaries.map SoundSummary.id := by
  unfold listSounds
  cases c.sounds.listSounds fs readDir with
  | error e => simp
  | ok summaries =>
    simp only [Except.ok.injEq, exists_eq_left']
    exact eq_comm

/-- The method succeeds when every entry can be read, and every sound among them has a length. -/
theorem exists_listSounds_ok_iff :
    (∃ ids, c.listSounds fs readDir = .ok ids) ↔ c.sounds.Listable fs readDir := by
  rw [← exists_listSounds_iff]
  simp only [listSounds_eq_ok]
  constructor
  · intro h
    obtain ⟨_, summaries, hlist, -⟩ := h
    exact ⟨summaries, hlist⟩
  · intro h
    obtain ⟨summaries, hlist⟩ := h
    exact ⟨_, summaries, hlist, rfl⟩

/-- The ids are those of the sounds that the directories have. -/
theorem mem_iff_of_listSounds (h : c.listSounds fs readDir = .ok ids) (id : String) : id ∈ ids ↔
    ∃ source stem, id = source.label ++ ":" ++ stem ∧ Offers readDir (c.sounds.dir source) stem := by
  obtain ⟨summaries, hlist, rfl⟩ := listSounds_eq_ok.mp h
  rw [← (listsAll_of_listSounds hlist).mem_iff, List.mem_map]

/-! ### What is listed can be armed -/

/-- Every id that is listed can be scheduled. -/
theorem schedule_of_listSounds {h : Host} (hshows : Shows fs readDir) (hfs : h.fs = fs.toFileSystem)
    (hlist : c.listSounds fs readDir = .ok ids) (delay : ℕ) :
    ∀ id ∈ ids, ∃ sch, c.schedule h id delay = .ok sch := by
  intro id hm
  obtain ⟨source, stem, rfl, hoffers⟩ := (mem_iff_of_listSounds hlist id).mp hm
  have hlistable := exists_listSounds_ok_iff.mp ⟨ids, hlist⟩
  obtain ⟨extension, -, hresolve, -⟩ := resolvePath_of_offers hshows hlistable hoffers
  unfold schedule
  rw [hfs, hresolve]
  exact ⟨_, rfl⟩

/-! ### One bad entry -/

/-- A sound directory breaks off while it is read. -/
def BreaksOff (lib : SoundLibrary) (readDir : ReadDir) : Prop :=
  ∃ source e, .error e ∈ shownOf readDir (lib.dir source)

/-- The files of the sounds all have metadata that can be read. -/
def Statable (lib : SoundLibrary) (fs : Files) (readDir : ReadDir) : Prop :=
  ∀ source stem name, .ok name ∈ shownOf readDir (lib.dir source) → soundStem name = some stem →
    ∃ bytes, fs.metadata (entryPath (lib.dir source) name) = .ok bytes

theorem listable_iff {lib : SoundLibrary} :
    lib.Listable fs readDir ↔ ¬ BreaksOff lib readDir ∧ Statable lib fs readDir := by
  constructor
  · intro h
    constructor
    · intro hbreaks
      obtain ⟨source, e, hm⟩ := hbreaks
      obtain ⟨name, heq, -⟩ := h source _ hm
      cases heq
    · intro source stem name hm hsound
      obtain ⟨name', heq, hstat⟩ := h source _ hm
      cases heq
      exact hstat stem hsound
  · intro h source entry hm
    cases entry with
    | error e => exact absurd ⟨source, e, hm⟩ h.1
    | ok name => exact ⟨name, rfl, fun stem hsound => h.2 source stem name hm hsound⟩

/-- A sound directory is there, and cannot be opened. -/
def Unopenable (lib : SoundLibrary) (contents : Contents) (readDir : ReadDir) : Prop :=
  ∃ source names, contents (lib.dir source) = some names ∧ readDir (lib.dir source) = none

/-- A sound directory is unreadable. -/
def Unreadable (lib : SoundLibrary) (contents : Contents) (readDir : ReadDir) : Prop :=
  Unopenable lib contents readDir ∨ BreaksOff lib readDir

/-- A directory that cannot be opened has a sound whose metadata can be read. -/
def Hides (lib : SoundLibrary) (fs : Files) (contents : Contents) (readDir : ReadDir) : Prop :=
  ∃ source stem name bytes, readDir (lib.dir source) = none ∧ Has contents (lib.dir source) name ∧
    soundStem name = some stem ∧ fs.metadata (entryPath (lib.dir source) name) = .ok bytes

variable {contents : Contents}

/-- What the directories have and does not break off or hide is shown. -/
theorem offers_of_has {source : SoundSource} {name : OsStr} {stem : String} {bytes : ℕ}
    (henum : Enumerates fs contents readDir) (hbreaks : ¬ BreaksOff c.sounds readDir)
    (hhides : ¬ Hides c.sounds fs contents readDir) (hhas : Has contents (c.sounds.dir source) name)
    (hsound : soundStem name = some stem) (hmeta : fs.metadata (entryPath (c.sounds.dir source) name) = .ok bytes) :
    Offers readDir (c.sounds.dir source) stem := by
  cases hopen : readDir (c.sounds.dir source) with
  | none => exact absurd ⟨source, stem, name, bytes, hopen, hhas, hsound, hmeta⟩ hhides
  | some entries =>
    have hall : ∀ entry ∈ entries, ∃ name, entry = .ok name := by
      intro entry hm
      cases entry with
      | error e => exact absurd ⟨source, e, (shownOf_of_opened hopen).symm ▸ hm⟩ hbreaks
      | ok name => exact ⟨name, rfl⟩
    have hshown := henum.complete _ entries name hopen hall hhas
    exact offers_iff.mpr ⟨name, (shownOf_of_opened hopen).symm ▸ hshown, hsound⟩

/-- What cannot be opened offers nothing. -/
theorem not_offers_of_closed {dir stem : String} (hclosed : readDir dir = none) : ¬ Offers readDir dir stem := by
  intro hoffers
  obtain ⟨name, hm, -⟩ := offers_iff.mp hoffers
  rw [shownOf, hclosed] at hm
  cases hm

/-- For all contents of the two sound directories, whichever files have metadata: a reply of the method has
all sounds that have, and it fails only when a directory is unreadable, if and only if a directory breaks
off, or all sounds that are shown have metadata and no directory that cannot be opened has one that has, or
one that is shown has none while a directory cannot be opened. -/
theorem others_listed_iff (henum : Enumerates fs contents readDir) :
    ((∀ ids, c.listSounds fs readDir = .ok ids → ∀ source stem name bytes, Has contents (c.sounds.dir source) name →
        soundStem name = some stem → fs.metadata (entryPath (c.sounds.dir source) name) = .ok bytes →
        source.label ++ ":" ++ stem ∈ ids) ∧
      ∀ e, c.listSounds fs readDir = .error e → Unreadable c.sounds contents readDir) ↔
    BreaksOff c.sounds readDir ∨ (Statable c.sounds fs readDir ∧ ¬ Hides c.sounds fs contents readDir) ∨
      (¬ Statable c.sounds fs readDir ∧ Unopenable c.sounds contents readDir) := by
  have hlists : (∃ ids, c.listSounds fs readDir = .ok ids) ↔ ¬ BreaksOff c.sounds readDir ∧ Statable c.sounds fs readDir :=
    exists_listSounds_ok_iff.trans listable_iff
  constructor
  · intro h
    by_cases hbreaks : BreaksOff c.sounds readDir
    · exact .inl hbreaks
    · by_cases hstat : Statable c.sounds fs readDir
      · refine .inr (.inl ⟨hstat, fun hhides => ?_⟩)
        obtain ⟨source, stem, name, bytes, hclosed, hhas, hsound, hmeta⟩ := hhides
        obtain ⟨ids, hids⟩ := hlists.mpr ⟨hbreaks, hstat⟩
        obtain ⟨source', stem', heq, hoffers⟩ :=
          (mem_iff_of_listSounds hids _).mp (h.1 ids hids source stem name bytes hhas hsound hmeta)
        obtain ⟨rfl, rfl⟩ := label_append_inj heq
        exact not_offers_of_closed hclosed hoffers
      · cases hreply : c.listSounds fs readDir with
        | ok ids => exact absurd (hlists.mp ⟨ids, hreply⟩).2 hstat
        | error e => exact .inr (.inr ⟨hstat, (h.2 e hreply).resolve_right hbreaks⟩)
  · intro h
    refine ⟨fun ids hids source stem name bytes hhas hsound hmeta => ?_, fun e herror => ?_⟩
    · obtain ⟨hbreaks, hstat⟩ := hlists.mp ⟨ids, hids⟩
      have hhides : ¬ Hides c.sounds fs contents readDir := by
        rcases h with h | h | h
        · exact absurd h hbreaks
        · exact h.2
        · exact absurd hstat h.1
      exact (mem_iff_of_listSounds hids _).mpr
        ⟨source, stem, rfl, offers_of_has henum hbreaks hhides hhas hsound hmeta⟩
    · rcases h with hbreaks | ⟨hstat, -⟩ | ⟨-, hclosed⟩
      · exact .inr hbreaks
      · by_cases hbreaks : BreaksOff c.sounds readDir
        · exact .inr hbreaks
        · obtain ⟨ids, hids⟩ := hlists.mpr ⟨hbreaks, hstat⟩
          cases herror.symm.trans hids
      · exact .inl hclosed

/-- The sound directories of a control object in the default environment. -/
def soundControl : Control := .new (fun _ => none) ⟨.disarmed, {}⟩

/-- One sound that has metadata. -/
def soundFiles : Files := .ofSizes [("/usr/share/helm/sounds/chime.wav", 64)] (by decide)

/-- Beside it, a link to a file that is gone. -/
def oneBadContents (link : String) : Contents
  | "/usr/share/helm/sounds" => some [.ofStr "chime.wav", .ofStr link]
  | _ => none

/-- The directory shows both. -/
def oneBadEntry (link : String) : ReadDir
  | "/usr/share/helm/sounds" => some [.ok (.ofStr "chime.wav"), .ok (.ofStr link)]
  | _ => none

theorem enumerates_oneBad {link : String} (hlink : Ordinary (.ofStr link)) :
    Enumerates soundFiles (oneBadContents link) (oneBadEntry link) := by
  refine enumerates_ofSizes (fun dir names h => ?_) (fun file hm => ?_) fun dir entries hopen => ?_
  · unfold oneBadContents at h
    split at h
    · obtain rfl := Option.some.inj h
      exact ⟨by decide, List.forall_mem_cons.mpr ⟨by decide, List.forall_mem_singleton.mpr hlink⟩⟩
    · cases h
  · obtain rfl := List.mem_singleton.mp hm
    exact ⟨"/usr/share/helm/sounds", "chime.wav", _, by decide, rfl, List.mem_cons_self⟩
  · unfold oneBadEntry at hopen
    split at hopen
    · obtain rfl := Option.some.inj hopen
      exact ⟨_, rfl, by simp, by simp⟩
    · cases hopen

theorem not_breaksOff_oneBad (link : String) : ¬ BreaksOff soundControl.sounds (oneBadEntry link) := by
  rintro ⟨source, e, hm⟩
  cases source with
  | builtin =>
    rcases List.mem_pair.mp hm with heq | heq
    · cases heq
    · cases heq
  | custom => cases hm

/-- A link that is no sound does not matter: the sound beside it is listed. -/
theorem others_listed_iff_notes :
    ∃ ids, soundControl.listSounds soundFiles (oneBadEntry "gone.txt") = .ok ids ∧ "builtin:chime" ∈ ids := by
  have henum : Enumerates soundFiles (oneBadContents "gone.txt") (oneBadEntry "gone.txt") :=
    enumerates_oneBad (by decide)
  have hstat : Statable soundControl.sounds soundFiles (oneBadEntry "gone.txt") := by
    intro source stem name hm hsound
    cases source with
    | builtin =>
      rcases List.mem_pair.mp hm with heq | heq
      · obtain rfl := Except.ok.inj heq
        exact ⟨64, by decide +kernel⟩
      · obtain rfl := Except.ok.inj heq
        cases (by decide : soundStem (.ofStr "gone.txt") = none).symm.trans hsound
    | custom => cases hm
  have hhides : ¬ Hides soundControl.sounds soundFiles (oneBadContents "gone.txt") (oneBadEntry "gone.txt") := by
    rintro ⟨source, stem, name, bytes, hclosed, ⟨names, hnames, -⟩, -⟩
    cases source with
    | builtin => cases hclosed
    | custom => cases hnames
  obtain ⟨ids, hids⟩ := exists_listSounds_ok_iff.mpr (listable_iff.mpr ⟨not_breaksOff_oneBad _, hstat⟩)
  obtain ⟨hothers, -⟩ := (others_listed_iff henum).mpr (.inr (.inl ⟨hstat, hhides⟩))
  exact ⟨ids, hids, hothers ids hids .builtin "chime" (.ofStr "chime.wav") 64 ⟨_, rfl, List.mem_cons_self⟩ (by decide)
    (by decide +kernel)⟩

/-- The sound is not listed: no directory is unreadable, and yet the method fails. -/
theorem bad_entry_hides_all :
    Enumerates soundFiles (oneBadContents "gone.wav") (oneBadEntry "gone.wav") ∧
      soundControl.listSounds soundFiles (oneBadEntry "gone.wav") =
        .error (.failed "i/o error: No such file or directory") ∧
      ¬ Unreadable soundControl.sounds (oneBadContents "gone.wav") (oneBadEntry "gone.wav") ∧
      Has (oneBadContents "gone.wav") (soundControl.sounds.dir .builtin) (.ofStr "chime.wav") ∧
      soundStem (.ofStr "chime.wav") = some "chime" ∧
      soundFiles.metadata (entryPath (soundControl.sounds.dir .builtin) (.ofStr "chime.wav")) = .ok 64 := by
  refine ⟨enumerates_oneBad (by decide), by decide +kernel, ?_, ⟨_, rfl, List.mem_cons_self⟩, by decide, by decide +kernel⟩
  rintro (⟨source, names, hnames, hclosed⟩ | hbreaks)
  · cases source with
    | builtin => cases hclosed
    | custom => cases hnames
  · exact not_breaksOff_oneBad "gone.wav" hbreaks

end Control

end HelmAlarm.Ipc
