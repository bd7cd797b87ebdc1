import HelmAlarm.Audio.Contents
import Mathlib.Data.List.Sort

/-!
# Sounds that are offered

What `list_sounds` takes apart, the name of a file, `resolve_path` puts together again
from an id. So every id on the list leads to a file of the directory of its source, of
that very name, and every sound is on the list, as long as the directories are read
whole: `listing_offers`. The sounds of a directory that cannot be opened can be armed,
and are not listed: `hidden_sound_not_listed`.

The two do not agree on which file a name stands for when it is there both as `.wav`
and as `.flac`: resolution prefers the first, and the list says what the last of them
that the system enumerated is. So the list depends on the order of a directory exactly
when the two have different sizes: `listing_unordered_iff`, `listing_by_order`.
-/

namespace HelmAlarm.Audio

open HelmAlarm.Library

/-- An entry of that stem is shown of a directory, in one of the formats. -/
def Offers (readDir : ReadDir) (dir stem : String) : Prop :=
  ∃ name, .ok name ∈ shownOf readDir dir ∧ (OsStr.fileStem name).bind OsStr.toStr = some stem ∧
    ∃ extension ∈ ["wav", "flac"], (OsStr.extension name).bind OsStr.toStr = some extension

namespace SoundLibrary

variable {lib : SoundLibrary} {fs : Files} {readDir : ReadDir} {dir : String} {source : SoundSource} {stem : String}
  {entries : List (Except String OsStr)} {contents : Contents}

/-! ### Resolving what is listed -/

/-- An id is resolved in the directory of its source. -/
theorem resolvePath_label (fs : FileSystem) (source : SoundSource) (stem : String) :
    lib.resolvePath fs (source.label ++ ":" ++ stem) = resolveIn fs (lib.dir source) source.label stem := by
  have hbuiltin : SoundSource.builtin.label ++ ":" = "builtin:" := rfl
  have hcustom : SoundSource.custom.label ++ ":" = "custom:" := rfl
  unfold resolvePath
  cases source with
  | builtin =>
    rw [stripPrefix_eq_some_iff.mpr (by rw [hbuiltin])]
    rfl
  | custom =>
    have hnone : stripPrefix (SoundSource.custom.label ++ ":" ++ stem) "builtin:" = none := by
      cases hs : stripPrefix (SoundSource.custom.label ++ ":" ++ stem) "builtin:" with
      | none => rfl
      | some name =>
        have heq := stripPrefix_eq_some_iff.mp hs
        rw [← hbuiltin] at heq
        cases (label_append_inj heq).1
    rw [hnone, stripPrefix_eq_some_iff.mpr (by rw [hcustom])]
    rfl

/-- The `.wav` file is preferred. -/
theorem resolveIn_eq (fs : FileSystem) (dir pre name : String) : resolveIn fs dir pre name =
    if fs.pathExists (join dir (name ++ "." ++ "wav")) = true then .ok (join dir (name ++ "." ++ "wav"))
    else if fs.pathExists (join dir (name ++ "." ++ "flac")) = true then .ok (join dir (name ++ "." ++ "flac"))
    else .error (.unknownSound (pre ++ ":" ++ name)) := by
  unfold resolveIn
  cases hwav : fs.pathExists (join dir (name ++ "." ++ "wav")) with
  | true => simp [List.find?, hwav]
  | false =>
    cases hflac : fs.pathExists (join dir (name ++ "." ++ "flac")) with
    | true => simp [List.find?, hwav, hflac]
    | false => simp [List.find?, hwav, hflac]

/-- The files of a name are ordinary when the name is one component. -/
theorem ordinary_file {extension : String} (hm : extension ∈ ["wav", "flac"]) :
    Ordinary (.ofStr (stem ++ "." ++ extension)) ↔ OsStr.slash ∉ OsStr.ofStr stem := by
  have hext : OsStr.slash ∉ OsStr.ofStr extension ∧ 2 < (OsStr.ofStr extension).length := by
    rcases List.mem_pair.mp hm with rfl | rfl <;> decide
  have hne : OsStr.slash ≠ OsStr.dot := by decide
  rw [ofStr_file]
  constructor
  · intro h hmem
    exact h.component (List.mem_append_left _ hmem)
  · intro h
    have hlength : 3 < (OsStr.ofStr stem ++ OsStr.dot :: OsStr.ofStr extension).length := by
      simp only [List.length_append, List.length_cons]
      omega
    refine ⟨?_, ?_, ?_, ?_⟩
    · simp [h, hne, hext.1]
    · intro heq
      simp [heq] at hlength
    · intro heq
      simp [heq] at hlength
    · intro heq
      simp [heq] at hlength

/-- The path of an entry exists when it can be read. -/
theorem exists_of_metadata {file : String} {bytes : ℕ} (hord : Ordinary (.ofStr file))
    (hmeta : fs.metadata (entryPath dir (.ofStr file)) = .ok bytes) : fs.pathExists (join dir file) = true := by
  rw [entryPath_ofStr hord.component] at hmeta
  exact (fs.exists_iff _).mpr ⟨bytes, hmeta⟩

/-- Of the files of a sound, those exist that are entries. -/
theorem exists_iff_entry {extension : String} (hshows : Shows fs readDir) (hread : Readable fs dir (shownOf readDir dir))
    (hopen : ∃ entries, readDir dir = some entries) (hm : extension ∈ ["wav", "flac"]) (hne : stem ≠ "")
    (hstem : OsStr.slash ∉ OsStr.ofStr stem) :
    fs.pathExists (join dir (stem ++ "." ++ extension)) = true ↔
      .ok (.ofStr (stem ++ "." ++ extension)) ∈ shownOf readDir dir := by
  have hord := (ordinary_file hm).mpr hstem
  constructor
  · intro hexists
    obtain ⟨entries, hopen⟩ := hopen
    have heq : shownOf readDir dir = entries := by rw [shownOf, hopen, Option.getD_some]
    rw [heq] at hread ⊢
    refine hshows.complete dir entries _ hopen (fun entry hm => ?_) hord hexists
    obtain ⟨name, rfl, -⟩ := hread entry hm
    exact ⟨name, rfl⟩
  · intro hentry
    obtain ⟨name, heq, hstat⟩ := hread _ hentry
    cases heq
    obtain ⟨bytes, hmeta⟩ := hstat stem (soundStem_eq_some_iff.mpr ⟨hne, extension, hm, rfl⟩)
    exact exists_of_metadata hord hmeta

theorem open_of_mem {entry : Except String OsStr} (h : entry ∈ shownOf readDir dir) :
    ∃ entries, readDir dir = some entries := by
  unfold shownOf at h
  cases hdir : readDir dir with
  | none =>
    rw [hdir] at h
    cases h
  | some entries => exact ⟨entries, rfl⟩

theorem offers_iff : Offers readDir dir stem ↔ ∃ name, .ok name ∈ shownOf readDir dir ∧ soundStem name = some stem := by
  constructor
  · intro h
    obtain ⟨name, hm, hstem, hext⟩ := h
    exact ⟨name, hm, soundStem_iff.mpr ⟨fromPath_iff.mpr hext, hstem⟩⟩
  · intro h
    obtain ⟨name, hm, hsound⟩ := h
    obtain ⟨hformat, hstem⟩ := soundStem_iff.mp hsound
    exact ⟨name, hm, hstem, fromPath_iff.mp hformat⟩

/-- A sound is resolved to one of its files that is an entry of its directory, to the `.wav` file if that
is. -/
theorem resolvePath_of_offers (hshows : Shows fs readDir) (hread : lib.Listable fs readDir)
    (h : Offers readDir (lib.dir source) stem) : ∃ extension ∈ ["wav", "flac"],
      lib.resolvePath fs.toFileSystem (source.label ++ ":" ++ stem) =
        .ok (join (lib.dir source) (stem ++ "." ++ extension)) ∧
      .ok (.ofStr (stem ++ "." ++ extension)) ∈ shownOf readDir (lib.dir source) ∧
      soundStem (.ofStr (stem ++ "." ++ extension)) = some stem ∧
      (.ok (.ofStr (stem ++ "." ++ "wav")) ∈ shownOf readDir (lib.dir source) → extension = "wav") := by
  obtain ⟨name, hm, hsound⟩ := offers_iff.mp h
  obtain ⟨hne, extension, hext, rfl⟩ := soundStem_eq_some_iff.mp hsound
  have hslash := (ordinary_file hext).mp (hshows.ordinary _ _ hm)
  have hentry : ∀ extension ∈ ["wav", "flac"],
      fs.pathExists (join (lib.dir source) (stem ++ "." ++ extension)) = true ↔
        .ok (.ofStr (stem ++ "." ++ extension)) ∈ shownOf readDir (lib.dir source) :=
    fun extension hext => exists_iff_entry hshows (hread source) (open_of_mem hm) hext hne hslash
  have hof : ∀ extension ∈ ["wav", "flac"], soundStem (.ofStr (stem ++ "." ++ extension)) = some stem :=
    fun extension hext => soundStem_eq_some_iff.mpr ⟨hne, extension, hext, rfl⟩
  rw [resolvePath_label, resolveIn_eq]
  by_cases hwav : fs.pathExists (join (lib.dir source) (stem ++ "." ++ "wav")) = true
  · exact ⟨"wav", by simp, by rw [if_pos hwav], (hentry "wav" (by simp)).mp hwav, hof "wav" (by simp), fun _ => rfl⟩
  · -- there is no `.wav` file, so the entry is the `.flac` file
    have hflac : extension = "flac" := by
      rcases List.mem_pair.mp hext with rfl | rfl
      · exact absurd ((hentry "wav" hext).mpr hm) hwav
      · rfl
    subst hflac
    have hexists := (hentry "flac" hext).mpr hm
    refine ⟨"flac", hext, by rw [if_neg hwav, if_pos hexists], hm, hsound, fun hm' => ?_⟩
    exact absurd ((hentry "wav" (by simp)).mpr hm') hwav

/-! ### Every sound is offered -/

/-- The sounds that are listed are those the directories have. -/
theorem ListsAll.mem_iff {summaries : List SoundSummary} (h : ListsAll lib fs readDir summaries) (id : String) :
    (∃ summary ∈ summaries, summary.id = id) ↔
      ∃ source stem, id = source.label ++ ":" ++ stem ∧ Offers readDir (lib.dir source) stem := by
  constructor
  · intro hid
    obtain ⟨summary, hm, rfl⟩ := hid
    obtain ⟨source, name, stem, bytes, hentry, hsound, -, rfl⟩ := h.found summary hm
    exact ⟨source, stem, rfl, offers_iff.mpr ⟨name, hentry, hsound⟩⟩
  · intro hid
    obtain ⟨source, stem, rfl, hoffers⟩ := hid
    obtain ⟨name, hentry, hsound⟩ := offers_iff.mp hoffers
    obtain ⟨name', heq, hstat⟩ := h.listable source _ hentry
    cases heq
    obtain ⟨bytes, hmeta⟩ := hstat stem hsound
    exact h.listed (.of source stem bytes) ⟨source, name, stem, bytes, hentry, hsound, hmeta, rfl⟩

/-- Builtin sounds are listed before custom ones. -/
theorem ListsAll.builtin_first {summaries : List SoundSummary} (h : ListsAll lib fs readDir summaries) :
    summaries.Pairwise fun a b => a.source = .custom → b.source = .custom := by
  refine List.Pairwise.imp_of_mem ?_ h.sorted
  intro a b ha hb hlt hcustom
  obtain ⟨source, _, stem, _, _, _, _, haof⟩ := h.found a ha
  obtain ⟨source', _, stem', _, _, _, _, hbof⟩ := h.found b hb
  rw [haof] at hlt hcustom
  rw [hbof] at hlt ⊢
  cases hcustom
  cases source' with
  | custom => rfl
  | builtin => exact absurd hlt (not_custom_lt_builtin stem stem')

/-- Of a directory that is read whole, the sounds that are shown are those that it has. -/
theorem offers_iff_installed (henum : Enumerates fs contents readDir) (hread : ReadWhole contents readDir dir) :
    Offers readDir dir stem ↔ Installed contents dir stem := by
  unfold Offers Installed
  simp only [henum.mem_shownOf_iff hread]

/-- For all contents of the two sound directories, all with metadata, of which each is read to its end and can
be opened or has nothing: the sounds are listed, by increasing id, builtin ones before custom ones; an id is
on the list if and only if the directory of its source has a file of that stem in one of the formats; and
every id on the list resolves to a file of that directory, of that very stem, and to the `.wav` file if there
is one. -/
theorem listing_offers (henum : Enumerates fs contents readDir)
    (hstat : ∀ source name, Has contents (lib.dir source) name →
      ∃ bytes, fs.metadata (entryPath (lib.dir source) name) = .ok bytes)
    (hread : ∀ source, ReadWhole contents readDir (lib.dir source)) :
    ∃ summaries, lib.listSounds fs readDir = .ok summaries ∧
      (summaries.Pairwise fun a b => a.id < b.id) ∧
      (summaries.Pairwise fun a b => a.source = .custom → b.source = .custom) ∧
      (∀ id, (∃ summary ∈ summaries, summary.id = id) ↔
        ∃ source stem, id = source.label ++ ":" ++ stem ∧ Installed contents (lib.dir source) stem) ∧
      ∀ source stem, (∃ summary ∈ summaries, summary.id = source.label ++ ":" ++ stem) →
        ∃ extension ∈ ["wav", "flac"],
          lib.resolvePath fs.toFileSystem (source.label ++ ":" ++ stem) =
            .ok (join (lib.dir source) (stem ++ "." ++ extension)) ∧
          Has contents (lib.dir source) (.ofStr (stem ++ "." ++ extension)) ∧
          OsStr.fileStem (.ofStr (stem ++ "." ++ extension)) = some (.ofStr stem) ∧
          (Has contents (lib.dir source) (.ofStr (stem ++ "." ++ "wav")) → extension = "wav") := by
  have hlistable : lib.Listable fs readDir := by
    intro source entry hm
    obtain ⟨name, rfl⟩ := (hread source).1 entry hm
    exact ⟨name, rfl, fun _ _ => hstat source name (henum.shown _ name hm)⟩
  obtain ⟨summaries, hlist⟩ := exists_listSounds_iff.mpr hlistable
  have hall := listsAll_of_listSounds hlist
  refine ⟨summaries, hlist, hall.sorted, hall.builtin_first, fun id => ?_, fun source stem hid => ?_⟩
  · simp only [hall.mem_iff, offers_iff_installed henum (hread _)]
  · obtain ⟨source', stem', heq, hoffers⟩ := (hall.mem_iff _).mp hid
    obtain ⟨rfl, rfl⟩ := label_append_inj heq
    obtain ⟨extension, hext, hresolve, hentry, hsound, hwav⟩ := resolvePath_of_offers henum.shows hlistable hoffers
    simp only [henum.mem_shownOf_iff (hread source)] at hentry hwav
    exact ⟨extension, hext, hresolve, hentry, OsStr.bind_toStr_eq_some_iff.mp (soundStem_iff.mp hsound).2, hwav⟩

theorem listing_offers_chimes : ∃ summaries, chimes.listSounds chimesFiles chimesDir = .ok summaries ∧
    (summaries.Pairwise fun a b => a.id < b.id) ∧
    (∃ summary ∈ summaries, summary.id = "custom:dawn: v1.2") ∧
    chimes.resolvePath chimesFiles.toFileSystem "builtin:chime" = .ok "/b/chime.wav" := by
  have hread : ∀ source, ReadWhole chimesContents chimesDir (chimes.dir source) := by
    intro source
    cases source with
    | builtin => exact readWhole_of_map [.ofStr "chime.wav", .ofStr "chime.flac", .ofStr "README"] rfl
    | custom => exact readWhole_of_map [.ofStr "dawn: v1.2.flac"] rfl
  have hstat : ∀ source name, Has chimesContents (chimes.dir source) name →
      ∃ bytes, chimesFiles.metadata (entryPath (chimes.dir source) name) = .ok bytes := by
    rintro source name ⟨names, hnames, hm⟩
    cases source with
    | builtin =>
      obtain rfl := Option.some.inj hnames
      simp only [List.mem_cons, List.not_mem_nil, or_false] at hm
      rcases hm with rfl | rfl | rfl
      · exact ⟨64, by decide⟩
      · exact ⟨40, by decide⟩
      · exact ⟨7, by decide⟩
    | custom =>
      obtain rfl := Option.some.inj hnames
      obtain rfl := List.mem_singleton.mp hm
      exact ⟨9, by decide⟩
  obtain ⟨summaries, hlist, hsorted, -, hmem, hresolve⟩ := listing_offers enumerates_chimes hstat hread
  have hdawn : Installed chimesContents (chimes.dir .custom) "dawn: v1.2" :=
    ⟨.ofStr "dawn: v1.2.flac", ⟨_, rfl, List.mem_singleton_self _⟩, by decide, "flac", by simp, by decide⟩
  have hchime : Installed chimesContents (chimes.dir .builtin) "chime" :=
    ⟨.ofStr "chime.wav", ⟨_, rfl, List.mem_cons_self⟩, by decide, "wav", by simp, by decide⟩
  refine ⟨summaries, hlist, hsorted, (hmem _).mpr ⟨.custom, "dawn: v1.2", rfl, hdawn⟩, ?_⟩
  obtain ⟨extension, -, hpath, -, -, hwav⟩ := hresolve .builtin "chime" ((hmem _).mpr ⟨.builtin, "chime", rfl, hchime⟩)
  rw [hwav ⟨_, rfl, List.mem_cons_self⟩] at hpath
  exact hpath

/-- A directory with one sound. -/
def hiddenContents : Contents
  | "/b" => some [.ofStr "chime.wav"]
  | _ => none

/-- The sound. -/
def hiddenFiles : Files := .ofSizes [("/b/chime.wav", 64)] (by decide)

/-- The directory can be searched and not opened. -/
def hiddenDir : ReadDir := fun _ => none

/-- The directory breaks off before the sound is shown. -/
def brokenDir : ReadDir
  | "/b" => some [.error "Input/output error"]
  | _ => none

theorem enumerates_hidden {readDir : ReadDir}
    (hread : ∀ dir, readDir dir = none ∨ dir = "/b" ∧ readDir dir = some [.error "Input/output error"]) :
    Enumerates hiddenFiles hiddenContents readDir := by
  refine enumerates_ofSizes (fun dir names h => ?_) (fun file hm => ?_) fun dir entries hopen => ?_
  · unfold hiddenContents at h
    split at h
    · obtain rfl := Option.some.inj h
      decide
    · cases h
  · obtain rfl := List.mem_singleton.mp hm
    exact ⟨"/b", "chime.wav", _, by decide, rfl, by decide⟩
  · rcases hread dir with hnone | ⟨rfl, hbroken⟩
    · cases hnone.symm.trans hopen
    · obtain rfl := Option.some.inj (hbroken.symm.trans hopen)
      exact ⟨_, rfl, by simp, by simp⟩

/-- A sound with metadata that can be armed is not listed when its directory cannot be opened; and nothing is
listed when it breaks off. -/
theorem hidden_sound_not_listed :
    (Enumerates hiddenFiles hiddenContents hiddenDir ∧ Enumerates hiddenFiles hiddenContents brokenDir) ∧
      (∀ source name, Has hiddenContents (chimes.dir source) name →
        hiddenFiles.metadata (entryPath (chimes.dir source) name) = .ok 64) ∧
      Installed hiddenContents (chimes.dir .builtin) "chime" ∧
      chimes.resolvePath hiddenFiles.toFileSystem "builtin:chime" = .ok "/b/chime.wav" ∧
      chimes.listSounds hiddenFiles hiddenDir = .ok [] ∧
      chimes.listSounds hiddenFiles brokenDir = .error (.io "Input/output error") := by
  refine ⟨⟨enumerates_hidden fun dir => .inl rfl, enumerates_hidden fun dir => ?_⟩, ?_, ?_, by decide +kernel,
    by decide +kernel, by decide +kernel⟩
  · unfold brokenDir
    split
    · exact .inr ⟨rfl, rfl⟩
    · exact .inl rfl
  · rintro source name ⟨names, hnames, hm⟩
    cases source with
    | builtin =>
      obtain rfl := Option.some.inj hnames
      obtain rfl := List.mem_singleton.mp hm
      decide
    | custom => cases hnames
  · exact ⟨.ofStr "chime.wav", ⟨_, rfl, List.mem_cons_self⟩, by decide, "wav", by simp, by decide⟩

/-! ### The order of a directory -/

/-- The same directories, their entries in some order. -/
def Reorders (readDir readDir' : ReadDir) : Prop := ∀ dir, Option.Rel List.Perm (readDir dir) (readDir' dir)

/-- Where the entries of one directory that stand for one sound are more than one, they have the same size. -/
def SameSizes (lib : SoundLibrary) (fs : Files) (readDir : ReadDir) : Prop :=
  ∀ source stem name name' bytes bytes', .ok name ∈ shownOf readDir (lib.dir source) →
    .ok name' ∈ shownOf readDir (lib.dir source) → soundStem name = some stem → soundStem name' = some stem →
    fs.metadata (entryPath (lib.dir source) name) = .ok bytes →
    fs.metadata (entryPath (lib.dir source) name') = .ok bytes' → bytes = bytes'

variable {readDir' : ReadDir}

theorem perm_self (opened : Option (List (Except String OsStr))) : Option.Rel List.Perm opened opened := by
  cases opened with
  | none => exact .none
  | some entries => exact .some (List.Perm.refl entries)

theorem Reorders.mem_iff (h : Reorders readDir readDir') {entry : Except String OsStr} :
    entry ∈ shownOf readDir' dir ↔ entry ∈ shownOf readDir dir := by
  unfold shownOf
  have hdir := h dir
  generalize readDir dir = opened at hdir
  generalize readDir' dir = opened' at hdir
  cases hdir with
  | some hperm => exact hperm.mem_iff.symm
  | none => rfl

theorem Reorders.listable_iff (h : Reorders readDir readDir') : lib.Listable fs readDir' ↔ lib.Listable fs readDir := by
  unfold Listable Readable
  simp only [h.mem_iff]

theorem Reorders.lists_iff (h : Reorders readDir readDir') (summary : SoundSummary) :
    lib.Lists fs readDir' summary ↔ lib.Lists fs readDir summary := by
  unfold Lists Describes
  simp only [h.mem_iff]

/-- What is listed under an id is one thing, if the files of a sound have one size. -/
theorem SameSizes.lists_unique (h : SameSizes lib fs readDir) {summary summary' : SoundSummary}
    (hlists : lib.Lists fs readDir summary) (hlists' : lib.Lists fs readDir summary') (hid : summary.id = summary'.id) :
    summary = summary' := by
  obtain ⟨source, name, stem, bytes, hm, hsound, hmeta, rfl⟩ := hlists
  obtain ⟨source', name', stem', bytes', hm', hsound', hmeta', rfl⟩ := hlists'
  obtain ⟨rfl, rfl⟩ := label_append_inj hid
  rw [h source stem name name' bytes bytes' hm hm' hsound hsound' hmeta hmeta']

/-- There is one list of two directories, if the files of a sound have one size. -/
theorem SameSizes.listsAll_unique (h : SameSizes lib fs readDir) {summaries summaries' : List SoundSummary}
    (hall : ListsAll lib fs readDir summaries) (hall' : ListsAll lib fs readDir summaries') : summaries = summaries' := by
  have hsub : ∀ {summaries summaries' : List SoundSummary}, ListsAll lib fs readDir summaries →
      ListsAll lib fs readDir summaries' → ∀ summary ∈ summaries, summary ∈ summaries' := by
    intro summaries summaries' hall hall' summary hm
    obtain ⟨summary', hm', hid⟩ := hall'.listed summary (hall.found summary hm)
    rwa [← h.lists_unique (hall'.found summary' hm') (hall.found summary hm) hid]
  have : Std.Antisymm fun a b : SoundSummary => a.id < b.id := ⟨fun _ _ hlt hgt => absurd hgt (String.lt_asymm hlt)⟩
  have : Std.Irrefl fun a b : SoundSummary => a.id < b.id := ⟨fun a => String.lt_irrefl a.id⟩
  exact List.Pairwise.eq_of_mem_iff hall.sorted hall'.sorted fun summary => ⟨hsub hall hall' summary, hsub hall' hall summary⟩

theorem Reorders.listsAll (h : Reorders readDir readDir') {summaries : List SoundSummary}
    (hall : ListsAll lib fs readDir' summaries) : ListsAll lib fs readDir summaries where
  listable := h.listable_iff.mp hall.listable
  sorted := hall.sorted
  found summary hm := (h.lists_iff summary).mp (hall.found summary hm)
  listed summary hlists := hall.listed summary ((h.lists_iff summary).mpr hlists)

/-- The summary of a sound whose entry comes last is what that entry is. -/
theorem mem_listSounds_of_last {name : OsStr} {bytes : ℕ} {summaries : List SoundSummary}
    (h : lib.listSounds fs readDir = .ok summaries) (hlast : readDir (lib.dir source) = some (entries ++ [.ok name]))
    (hsound : soundStem name = some stem) (hmeta : fs.metadata (entryPath (lib.dir source) name) = .ok bytes) :
    .of source stem bytes ∈ summaries := by
  obtain ⟨builtins, sounds, hb, hc, rfl⟩ := listSounds_eq_ok_iff.mp h
  have hentries : shownOf readDir (lib.dir source) = entries ++ [.ok name] := by
    rw [shownOf, hlast, Option.getD_some]
  have hget : sounds[source.label ++ ":" ++ stem]? = some (.of source stem bytes) := by
    cases source with
    | custom =>
      rw [hentries] at hc
      exact getElem?_of_last hsound hmeta hc
    | builtin =>
      rw [hentries] at hb
      have hbuiltin := getElem?_of_last hsound hmeta hb
      have hcollected := collected_of_foldlM hc
      -- a custom sound has another id
      have hmem := hcollected.kept _ (Std.TreeMap.mem_iff_isSome_getElem?.mpr (Option.isSome_of_eq_some hbuiltin))
      obtain ⟨summary, hs⟩ := Option.isSome_iff_exists.mp (Std.TreeMap.mem_iff_isSome_getElem?.mp hmem)
      rcases hcollected.found _ _ hs with hold | ⟨hd, hid⟩
      · rw [hs, ← hold, hbuiltin]
      · obtain ⟨_, _, _, _, _, _, rfl⟩ := hd
        cases (label_append_inj hid).1
  exact List.mem_map.mpr ⟨_, Std.TreeMap.mem_toList_iff_getElem?_eq_some.mpr hget, rfl⟩

/-- The entries of a directory can be enumerated with any one of them last. -/
theorem exists_reorders_last {entry : Except String OsStr} (h : entry ∈ shownOf readDir dir) :
    ∃ readDir' entries, Reorders readDir readDir' ∧ readDir' dir = some (entries ++ [entry]) := by
  obtain ⟨entries, hopen⟩ := open_of_mem h
  have hm : entry ∈ entries := by
    rw [shownOf, hopen] at h
    exact h
  obtain ⟨before, after, rfl⟩ := List.append_of_mem hm
  refine ⟨Function.update readDir dir (some (before ++ after ++ [entry])), before ++ after, fun other => ?_,
    Function.update_self _ _ _⟩
  by_cases hother : other = dir
  · subst hother
    rw [hopen, Function.update_self]
    refine .some ?_
    rw [List.append_assoc]
    exact List.Perm.append_left before (List.perm_append_singleton entry after).symm
  · rw [Function.update_of_ne hother]
    exact perm_self _

/-- The file of an id that is listed has the size that is listed, if the files of a sound have one size. -/
theorem SameSizes.played (h : SameSizes lib fs readDir) (hshows : Shows fs readDir) (hlistable : lib.Listable fs readDir)
    {summary : SoundSummary} (hlists : lib.Lists fs readDir summary) : ∃ path,
      lib.resolvePath fs.toFileSystem summary.id = .ok path ∧ fs.metadata (.ofStr path) = .ok summary.bytes := by
  obtain ⟨source, name, stem, bytes, hentry, hsound, hmeta, rfl⟩ := hlists
  obtain ⟨extension, hext, hresolve, hentry', hsound', -⟩ :=
    resolvePath_of_offers hshows hlistable (offers_iff.mpr ⟨name, hentry, hsound⟩)
  obtain ⟨name', heq, hstat⟩ := hlistable source _ hentry'
  cases heq
  obtain ⟨bytes', hmeta'⟩ := hstat stem hsound'
  obtain rfl := h source stem _ _ bytes bytes' hentry hentry' hsound hsound' hmeta hmeta'
  rw [entryPath_ofStr (hshows.ordinary _ _ hentry').component] at hmeta'
  exact ⟨_, hresolve, hmeta'⟩

/-- For all contents of the two sound directories: the list is the same whatever the order in which the
entries are enumerated, and its sizes are those of the files that the ids resolve to, if and only if the
directories cannot be listed at all, or the files of each sound have one size. -/
theorem listing_unordered_iff (hshows : Shows fs readDir) :
    (∀ first second, Reorders readDir first → Reorders readDir second →
      (∀ summaries, lib.listSounds fs first = .ok summaries ↔ lib.listSounds fs second = .ok summaries) ∧
      ∀ summaries, lib.listSounds fs first = .ok summaries → ∀ summary ∈ summaries, ∃ path,
        lib.resolvePath fs.toFileSystem summary.id = .ok path ∧ fs.metadata (.ofStr path) = .ok summary.bytes) ↔
    (lib.Listable fs readDir → SameSizes lib fs readDir) := by
  constructor
  · intro h hlistable source stem name name' bytes bytes' hm hm' hsound hsound' hmeta hmeta'
    -- in one order the one entry comes last, in another the other
    obtain ⟨first, entries, hfirst, hlast⟩ := exists_reorders_last hm
    obtain ⟨second, entries', hsecond, hlast'⟩ := exists_reorders_last hm'
    obtain ⟨summaries, hlist⟩ := exists_listSounds_iff.mpr (hfirst.listable_iff.mpr hlistable)
    obtain ⟨hsame, hplayed⟩ := h first second hfirst hsecond
    have hlist' := (hsame summaries).mp hlist
    obtain ⟨path, hpath, hbytes⟩ := hplayed summaries hlist _ (mem_listSounds_of_last hlist hlast hsound hmeta)
    obtain ⟨path', hpath', hbytes'⟩ := hplayed summaries hlist _ (mem_listSounds_of_last hlist' hlast' hsound' hmeta')
    obtain rfl := Except.ok.inj (hpath.symm.trans hpath')
    exact Except.ok.inj (hbytes.symm.trans hbytes')
  · intro h first second hfirst hsecond
    by_cases hlistable : lib.Listable fs readDir
    · have hunique := h hlistable
      obtain ⟨summaries, hlist⟩ := exists_listSounds_iff.mpr (hfirst.listable_iff.mpr hlistable)
      obtain ⟨summaries', hlist'⟩ := exists_listSounds_iff.mpr (hsecond.listable_iff.mpr hlistable)
      have hall := hfirst.listsAll (listsAll_of_listSounds hlist)
      obtain rfl := hunique.listsAll_unique hall (hsecond.listsAll (listsAll_of_listSounds hlist'))
      refine ⟨fun other => by rw [hlist, hlist'], fun other hother summary hm => ?_⟩
      obtain rfl := Except.ok.inj (hlist.symm.trans hother)
      exact hunique.played hshows hlistable (hall.found summary hm)
    · have hfail : ∀ {other summaries}, Reorders readDir other → lib.listSounds fs other ≠ .ok summaries :=
        fun hother hlist => hlistable (hother.listable_iff.mp (exists_listSounds_iff.mp ⟨_, hlist⟩))
      exact ⟨fun summaries => iff_of_false (hfail hfirst) (hfail hsecond), fun summaries hlist => absurd hlist (hfail hfirst)⟩

/-- A sound in both formats, of one size. -/
def twinFiles : Files := .ofSizes [("/b/chime.wav", 64), ("/b/chime.flac", 64)] (by decide)

/-- The directory it is in. -/
def twinContents : Contents
  | "/b" => some [.ofStr "chime.wav", .ofStr "chime.flac"]
  | _ => none

/-- Its entries. -/
def twinDir : ReadDir
  | "/b" => some [.ok (.ofStr "chime.wav"), .ok (.ofStr "chime.flac")]
  | _ => none

/-- Its entries, in the other order. -/
def twinBack : ReadDir
  | "/b" => some [.ok (.ofStr "chime.flac"), .ok (.ofStr "chime.wav")]
  | _ => none

theorem enumerates_twin : Enumerates twinFiles twinContents twinDir := by
  refine enumerates_ofSizes (fun dir names h => ?_) (fun file hm => ?_) fun dir entries hopen => ?_
  · unfold twinContents at h
    split at h
    · obtain rfl := Option.some.inj h
      decide
    · cases h
  · rcases List.mem_pair.mp hm with rfl | rfl
    · exact ⟨"/b", "chime.wav", _, by decide, rfl, by decide⟩
    · exact ⟨"/b", "chime.flac", _, by decide, rfl, by decide⟩
  · unfold twinDir at hopen
    split at hopen
    · obtain rfl := Option.some.inj hopen
      exact ⟨_, rfl, by simp, by simp⟩
    · cases hopen

/-- In both orders the list is the same, and its size that of the file that is played. -/
theorem listing_unordered_iff_twin :
    (∀ summaries, chimes.listSounds twinFiles twinDir = .ok summaries ↔ chimes.listSounds twinFiles twinBack = .ok summaries) ∧
      chimes.listSounds twinFiles twinDir = .ok [.of .builtin "chime" 64] ∧
      ∃ path, chimes.resolvePath twinFiles.toFileSystem "builtin:chime" = .ok path ∧
        twinFiles.metadata (.ofStr path) = .ok 64 := by
  have hsize : ∀ name bytes, .ok name ∈ shownOf twinDir (chimes.dir .builtin) →
      twinFiles.metadata (entryPath (chimes.dir .builtin) name) = .ok bytes → bytes = 64 := by
    intro name bytes hm hmeta
    rcases List.mem_pair.mp hm with heq | heq
    · obtain rfl := Except.ok.inj heq
      exact (Except.ok.inj ((by decide : _ = Except.ok 64).symm.trans hmeta)).symm
    · obtain rfl := Except.ok.inj heq
      exact (Except.ok.inj ((by decide : _ = Except.ok 64).symm.trans hmeta)).symm
  have hsame : SameSizes chimes twinFiles twinDir := by
    intro source stem name name' bytes bytes' hm hm' _ _ hmeta hmeta'
    cases source with
    | builtin => exact (hsize name bytes hm hmeta).trans (hsize name' bytes' hm' hmeta').symm
    | custom => cases hm
  have hrefl : Reorders twinDir twinDir := fun dir => perm_self _
  have hback : Reorders twinDir twinBack := by
    intro dir
    unfold twinDir twinBack
    split
    · exact .some (List.Perm.swap _ _ _)
    · exact .none
  have hlist : chimes.listSounds twinFiles twinDir = .ok [.of .builtin "chime" 64] := by decide +kernel
  obtain ⟨hboth, hplayed⟩ := (listing_unordered_iff enumerates_twin.shows).mpr (fun _ => hsame) twinDir twinBack hrefl hback
  exact ⟨hboth, hlist, hplayed _ hlist _ (List.mem_singleton_self _)⟩

/-- The size that is listed of a sound in both formats is that of whichever file the system enumerated last,
here of the one that is not played. -/
theorem listing_by_order : Shows chimesFiles chimesDir ∧ Reorders chimesDir chimesBack ∧
    chimes.listSounds chimesFiles chimesDir = .ok [.of .builtin "chime" 40, .of .custom "dawn: v1.2" 9] ∧
    chimes.listSounds chimesFiles chimesBack = .ok [.of .builtin "chime" 64, .of .custom "dawn: v1.2" 9] ∧
    chimes.resolvePath chimesFiles.toFileSystem "builtin:chime" = .ok "/b/chime.wav" ∧
    chimesFiles.metadata (.ofStr "/b/chime.wav") = .ok 64 := by
  refine ⟨enumerates_chimes.shows, fun dir => ?_, by decide +kernel, by decide +kernel, by decide +kernel, by decide +kernel⟩
  unfold chimesDir chimesBack
  split
  · exact .some (by decide)
  · exact .some (List.Perm.refl _)
  · exact .none

end SoundLibrary

end HelmAlarm.Audio
