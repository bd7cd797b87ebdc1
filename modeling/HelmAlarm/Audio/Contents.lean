import HelmAlarm.Audio.Listing

/-!
# What a directory has, and what is shown of it

`fs::read_dir` shows the entries of a directory, and of a directory that cannot be opened
it shows none, though files may be in it that are found under their names. So what the
directories have (`Contents`) is kept apart here from what is shown of them: `Enumerates`
is what the one has to do with the other, and `ReadWhole` the case in which they are the
same, `mem_shownOf_iff`.
-/

namespace HelmAlarm.Audio

open HelmAlarm.Library

/-- What `fs::read_dir` shows of the file system: file names, and, of a directory that is read to its end,
all there are. -/
structure Shows (fs : Files) (readDir : ReadDir) : Prop where
  /-- The name of an entry is a file name. -/
  ordinary : ∀ dir name, .ok name ∈ shownOf readDir dir → Ordinary name
  /-- What exists in a directory is one of its entries. -/
  complete : ∀ dir entries file, readDir dir = some entries → (∀ entry ∈ entries, ∃ name, entry = .ok name) →
    Ordinary (.ofStr file) → fs.pathExists (join dir file) = true → .ok (.ofStr file) ∈ entries

/-- The file names in each directory; `none`, where there is no directory. -/
abbrev Contents := String → Option (List OsStr)

/-- The directory has a file of that name. -/
def Has (contents : Contents) (dir : String) (name : OsStr) : Prop := ∃ names, contents dir = some names ∧ name ∈ names

/-- The directory has a file of that stem, in one of the formats. -/
def Installed (contents : Contents) (dir stem : String) : Prop :=
  ∃ name, Has contents dir name ∧ (OsStr.fileStem name).bind OsStr.toStr = some stem ∧
    ∃ extension ∈ ["wav", "flac"], (OsStr.extension name).bind OsStr.toStr = some extension

/-- `fs::read_dir` enumerates what the directories have, as far as it comes. -/
structure Enumerates (fs : Files) (contents : Contents) (readDir : ReadDir) : Prop where
  /-- What is in a directory has a file name. -/
  ordinary : ∀ dir name, Has contents dir name → Ordinary name
  /-- What exists in a directory is under one of its names. -/
  found : ∀ dir names file, contents dir = some names → Ordinary (.ofStr file) →
    fs.pathExists (join dir file) = true → .ofStr file ∈ names
  /-- What can be opened is a directory. -/
  opened : ∀ dir entries, readDir dir = some entries → ∃ names, contents dir = some names
  /-- What is shown is in the directory. -/
  shown : ∀ dir name, .ok name ∈ shownOf readDir dir → Has contents dir name
  /-- A directory that is read to its end is shown whole. -/
  complete : ∀ dir entries name, readDir dir = some entries → (∀ entry ∈ entries, ∃ name, entry = .ok name) →
    Has contents dir name → .ok name ∈ entries

/-- The directory is read whole: to its end, without an error; and it can be opened, or has nothing. -/
def ReadWhole (contents : Contents) (readDir : ReadDir) (dir : String) : Prop :=
  (∀ entry ∈ shownOf readDir dir, ∃ name, entry = .ok name) ∧ (readDir dir = none → ∀ name, ¬ Has contents dir name)

variable {fs : Files} {contents : Contents} {readDir : ReadDir} {dir : String} {name : OsStr}

theorem shownOf_of_opened {entries : List (Except String OsStr)} (h : readDir dir = some entries) :
    shownOf readDir dir = entries := by
  rw [shownOf, h, Option.getD_some]

/-- So what exists is shown of a directory that is read to its end. -/
theorem Enumerates.shows (h : Enumerates fs contents readDir) : Shows fs readDir where
  ordinary dir name hm := h.ordinary dir name (h.shown dir name hm)
  complete := by
    intro dir entries file hopen hall hord hexists
    obtain ⟨names, hnames⟩ := h.opened dir entries hopen
    exact h.complete dir entries _ hopen hall ⟨names, hnames, h.found dir names file hnames hord hexists⟩

/-- Of a directory that is read whole, what is shown is what it has. -/
theorem Enumerates.mem_shownOf_iff (h : Enumerates fs contents readDir) (hread : ReadWhole contents readDir dir) :
    .ok name ∈ shownOf readDir dir ↔ Has contents dir name := by
  refine ⟨h.shown dir name, fun hhas => ?_⟩
  obtain ⟨hall, hhidden⟩ := hread
  cases hopen : readDir dir with
  | none => exact absurd hhas (hhidden hopen name)
  | some entries =>
    rw [shownOf_of_opened hopen] at hall ⊢
    exact h.complete dir entries name hopen hall hhas

/-- A directory whose names are all shown is read whole. -/
theorem readWhole_of_map (names : List OsStr)
    (h : readDir dir = some (names.map .ok)) : ReadWhole contents readDir dir := by
  refine ⟨fun entry hm => ?_, fun hnone => ?_⟩
  · rw [shownOf_of_opened h] at hm
    obtain ⟨name, -, rfl⟩ := List.mem_map.mp hm
    exact ⟨name, rfl⟩
  · cases h.symm.trans hnone

/-! ### File systems to try things on -/

/-- The path of a directory that a file name is put after with a separator. -/
def Plain (dir : String) : Prop := dir ≠ "" ∧ dir.toList.getLast? ≠ some '/'

instance (dir : String) : Decidable (Plain dir) := inferInstanceAs (Decidable (_ ∧ _))

instance (name : OsStr) : Decidable (Ordinary name) :=
  decidable_of_iff (OsStr.slash ∉ name ∧ name ≠ [] ∧ name ≠ [OsStr.dot] ∧ name ≠ [OsStr.dot, OsStr.dot])
    ⟨fun h => ⟨h.1, h.2.1, h.2.2.1, h.2.2.2⟩, fun h => ⟨h.component, h.nonempty, h.notDot, h.notDots⟩⟩

theorem Ordinary.slash_not_mem {file : String} (h : Ordinary (.ofStr file)) : '/' ∉ file.toList :=
  fun hm => h.component (slash_mem_ofStr hm)

theorem join_of_plain {file : String} (hdir : Plain dir) (h : Ordinary (.ofStr file)) :
    join dir file = dir ++ "/" ++ file := by
  have hfile : file.toList.head? ≠ some '/' := fun hhead => h.slash_not_mem (List.mem_of_mem_head? hhead)
  unfold join
  rw [if_neg hfile, if_neg (not_or.mpr ⟨hdir.2, hdir.1⟩)]

/-- The path of a file tells its directory and its name. -/
theorem path_inj {dir' file file' : String} (h : Ordinary (.ofStr file)) (h' : Ordinary (.ofStr file'))
    (heq : dir ++ "/" ++ file = dir' ++ "/" ++ file') : dir = dir' ∧ file = file' := by
  have hlist := congrArg String.toList heq
  have hslash : "/".toList = ['/'] := rfl
  simp only [String.toList_append, hslash, List.append_assoc, List.singleton_append] at hlist
  obtain ⟨hdir, hfile⟩ := append_cons_inj h.slash_not_mem h'.slash_not_mem hlist
  exact ⟨String.toList_inj.mp hdir, String.toList_inj.mp hfile⟩

/-- Files of these sizes, each in one of the directories, and directories that are shown as they are as far
as they are. -/
theorem enumerates_ofSizes {sizes : List (String × ℕ)} {hfits : ∀ file ∈ sizes, file.1.utf8ByteSize < pathMax}
    (hplain : ∀ dir names, contents dir = some names → Plain dir ∧ ∀ name ∈ names, Ordinary name)
    (hsizes : ∀ file ∈ sizes, ∃ dir name names, file.1 = dir ++ "/" ++ name ∧ contents dir = some names ∧
      .ofStr name ∈ names)
    (hread : ∀ dir entries, readDir dir = some entries → ∃ names, contents dir = some names ∧
      (∀ name, .ok name ∈ entries → name ∈ names) ∧
      ((∀ entry ∈ entries, ∃ name, entry = .ok name) → ∀ name ∈ names, .ok name ∈ entries)) :
    Enumerates (.ofSizes sizes hfits) contents readDir where
  ordinary := by
    rintro dir name ⟨names, hnames, hm⟩
    exact (hplain dir names hnames).2 name hm
  found := by
    intro dir names file hnames hord hexists
    obtain ⟨file', hm, heq⟩ := List.any_eq_true.mp hexists
    obtain ⟨dir', name', names', hpath, hnames', hm'⟩ := hsizes file' hm
    rw [join_of_plain (hplain dir names hnames).1 hord] at heq
    obtain ⟨rfl, rfl⟩ := path_inj ((hplain dir' names' hnames').2 _ hm') hord (hpath.symm.trans (of_decide_eq_true heq))
    obtain rfl := Option.some.inj (hnames.symm.trans hnames')
    exact hm'
  opened := by
    intro dir entries hopen
    obtain ⟨names, hnames, -⟩ := hread dir entries hopen
    exact ⟨names, hnames⟩
  shown := by
    intro dir name hm
    cases hopen : readDir dir with
    | none =>
      rw [shownOf, hopen] at hm
      cases hm
    | some entries =>
      rw [shownOf_of_opened hopen] at hm
      obtain ⟨names, hnames, hsub, -⟩ := hread dir entries hopen
      exact ⟨names, hnames, hsub name hm⟩
  complete := by
    rintro dir entries name hopen hall ⟨names, hnames, hm⟩
    obtain ⟨names', hnames', -, hsub⟩ := hread dir entries hopen
    obtain rfl := Option.some.inj (hnames.symm.trans hnames')
    exact hsub hall name hm

namespace SoundLibrary

/-- Two directories. -/
def chimes : SoundLibrary := ⟨"/b", "/c"⟩

/-- Their files: a sound in both formats and one that is no sound, and a sound with more than one dot in its
name. -/
def chimesFiles : Files :=
  .ofSizes [("/b/chime.wav", 64), ("/b/chime.flac", 40), ("/b/README", 7), ("/c/dawn: v1.2.flac", 9)] (by decide)

/-- Their names. -/
def chimesContents : Contents
  | "/b" => some [.ofStr "chime.wav", .ofStr "chime.flac", .ofStr "README"]
  | "/c" => some [.ofStr "dawn: v1.2.flac"]
  | _ => none

/-- Their entries. -/
def chimesDir : ReadDir
  | "/b" => some [.ok (.ofStr "chime.wav"), .ok (.ofStr "chime.flac"), .ok (.ofStr "README")]
  | "/c" => some [.ok (.ofStr "dawn: v1.2.flac")]
  | _ => none

/-- The same entries, in another order. -/
def chimesBack : ReadDir
  | "/b" => some [.ok (.ofStr "README"), .ok (.ofStr "chime.flac"), .ok (.ofStr "chime.wav")]
  | "/c" => some [.ok (.ofStr "dawn: v1.2.flac")]
  | _ => none

theorem plain_chimes (dir : String) (names : List OsStr) (h : chimesContents dir = some names) :
    Plain dir ∧ ∀ name ∈ names, Ordinary name := by
  unfold chimesContents at h
  split at h
  · obtain rfl := Option.some.inj h
    decide
  · obtain rfl := Option.some.inj h
    decide
  · cases h

theorem enumerates_chimes : Enumerates chimesFiles chimesContents chimesDir := by
  refine enumerates_ofSizes plain_chimes ?_ fun dir entries hopen => ?_
  · intro file hm
    simp only [List.mem_cons, List.not_mem_nil, or_false] at hm
    rcases hm with rfl | rfl | rfl | rfl
    · exact ⟨"/b", "chime.wav", _, by decide, rfl, by decide⟩
    · exact ⟨"/b", "chime.flac", _, by decide, rfl, by decide⟩
    · exact ⟨"/b", "README", _, by decide, rfl, by decide⟩
    · exact ⟨"/c", "dawn: v1.2.flac", _, by decide, rfl, by decide⟩
  · unfold chimesDir at hopen
    split at hopen
    · obtain rfl := Option.some.inj hopen
      exact ⟨_, rfl, by simp, by simp⟩
    · obtain rfl := Option.some.inj hopen
      exact ⟨_, rfl, by simp, by simp⟩
    · cases hopen

end SoundLibrary

end HelmAlarm.Audio
