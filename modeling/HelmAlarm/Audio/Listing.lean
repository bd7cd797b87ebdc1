import HelmAlarm.Audio.Sounds
import HelmAlarm.Library.FileNames

/-!
# The list of sounds

`list_sounds` of `audio/sounds.rs` goes through the entries of the two sound
directories, in the order of the system, and takes up every one whose name ends in
`.wav` or `.flac`; a map by namespaced id keeps the last entry of each name, and puts
them in order. A file name is a list of bytes here, as it need not be a string.
-/

namespace HelmAlarm.Audio

open HelmAlarm.Library

/-- `SoundFormat`. -/
inductive SoundFormat where
  /-- `.wav`. -/
  | wav
  /-- `.flac`. -/
  | flac
  deriving DecidableEq, Repr

/-- `from_path`, of the file name of the path. -/
def SoundFormat.fromPath (name : OsStr) : Option SoundFormat :=
  match (OsStr.extension name).bind OsStr.toStr with
  | some "wav" => some .wav
  | some "flac" => some .flac
  | _ => none

/-- `SoundSource`. -/
inductive SoundSource where
  /-- Bundled with the daemon. -/
  | builtin
  /-- User-supplied. -/
  | custom
  deriving DecidableEq, Repr

/-- The namespace of its ids. -/
def SoundSource.label : SoundSource → String
  | .builtin => "builtin"
  | .custom => "custom"

/-- `SoundSummary`. -/
structure SoundSummary where
  /-- The namespaced id. -/
  id : String
  /-- The name without the namespace. -/
  name : String
  /-- Where it comes from. -/
  source : SoundSource
  /-- The size of its file. -/
  bytes : ℕ
  deriving DecidableEq, Repr

/-- What the list says of the sound `stem`. -/
def SoundSummary.of (source : SoundSource) (stem : String) (bytes : ℕ) : SoundSummary where
  id := source.label ++ ":" ++ stem
  name := stem
  source := source
  bytes := bytes

/-! ### The file system, when it is listed -/

/-- The file system, with what `fs::metadata` gives for a path: a length, or an error. -/
structure Files extends FileSystem where
  /-- `fs::metadata`, of which only the length is read. -/
  metadata : OsStr → Except String ℕ
  /-- What exists has metadata. -/
  exists_iff : ∀ path, pathExists path = true ↔ ∃ bytes, metadata (OsStr.ofStr path) = .ok bytes

/-- The files of these paths and sizes, and no others. -/
def Files.ofSizes (sizes : List (String × ℕ)) (hfits : ∀ file ∈ sizes, file.1.utf8ByteSize < pathMax) : Files where
  pathExists path := sizes.any fun file => file.1 = path
  fromPath _ := none
  pathFits path h := by
    obtain ⟨file, hm, heq⟩ := List.any_eq_true.mp h
    exact of_decide_eq_true heq ▸ hfits file hm
  metadata path := match sizes.find? fun file => OsStr.ofStr file.1 = path with
    | some file => .ok file.2
    | none => .error "No such file or directory"
  exists_iff path := by
    cases hfind : sizes.find? fun file => OsStr.ofStr file.1 = OsStr.ofStr path with
    | none =>
      refine iff_of_false (fun h => ?_) (by simp)
      obtain ⟨file, hm, heq⟩ := List.any_eq_true.mp h
      exact List.find?_eq_none.mp hfind file hm (decide_eq_true (congrArg _ (of_decide_eq_true heq)))
    | some file =>
      have heq := List.find?_some hfind
      refine iff_of_true (List.any_eq_true.mpr ⟨file, List.mem_of_find?_eq_some hfind, ?_⟩) ⟨file.2, rfl⟩
      exact decide_eq_true (OsStr.ofStr_inj (of_decide_eq_true heq))

/-- `fs::read_dir`: the entries of a directory that can be opened, in the order of the system. Each is a
file name, or an error. -/
abbrev ReadDir := String → Option (List (Except String OsStr))

/-- `DirEntry::path`: a file name, joined to the directory. -/
def entryPath (dir : String) (name : OsStr) : OsStr :=
  if name.head? = some OsStr.slash then name
  else if dir.toList.getLast? = some '/' ∨ dir = "" then OsStr.ofStr dir ++ name
  else OsStr.ofStr (dir ++ "/") ++ name

/-- The entries that are shown of a directory. Of one that cannot be opened, whatever is in it, none are. -/
def shownOf (readDir : ReadDir) (dir : String) : List (Except String OsStr) := (readDir dir).getD []

/-- The map in which the sounds are collected. -/
abbrev Sounds := Std.TreeMap String SoundSummary

namespace SoundLibrary

/-- The directory of a source. -/
def dir (lib : SoundLibrary) : SoundSource → String
  | .builtin => lib.builtinDir
  | .custom => lib.customDir

/-- What the loop of `collect` does with one entry. -/
def collectEntry (fs : Files) (dir : String) (source : SoundSource) (sounds : Sounds) (entry : Except String OsStr) :
    Except AudioError Sounds :=
  match entry with
  | .error e => .error (.io e)
  | .ok name =>
    match SoundFormat.fromPath name with
    | none => .ok sounds
    | some _ =>
      match (OsStr.fileStem name).bind OsStr.toStr with
      | none => .ok sounds
      | some stem =>
        match fs.metadata (entryPath dir name) with
        | .error e => .error (.io e)
        | .ok bytes => .ok (sounds.insert (source.label ++ ":" ++ stem) (.of source stem bytes))

/-- `collect`. -/
def collect (fs : Files) (readDir : ReadDir) (dir : String) (source : SoundSource) (sounds : Sounds) :
    Except AudioError Sounds :=
  match readDir dir with
  | none => .ok sounds
  | some entries => entries.foldlM (collectEntry fs dir source) sounds

/-- `list_sounds`. -/
def listSounds (lib : SoundLibrary) (fs : Files) (readDir : ReadDir) : Except AudioError (List SoundSummary) := do
  let sounds ← collect fs readDir lib.builtinDir .builtin ∅
  let sounds ← collect fs readDir lib.customDir .custom sounds
  .ok (sounds.toList.map Prod.snd)

end SoundLibrary

/-! ### The names of sounds -/

/-- The sound a file name stands for: its stem, if its extension is one of the formats and it is a string. -/
def soundStem (name : OsStr) : Option String :=
  (SoundFormat.fromPath name).bind fun _ => (OsStr.fileStem name).bind OsStr.toStr

theorem fromPath_iff {name : OsStr} : (SoundFormat.fromPath name).isSome = true ↔
    ∃ extension ∈ ["wav", "flac"], (OsStr.extension name).bind OsStr.toStr = some extension := by
  unfold SoundFormat.fromPath
  split
  · rename_i he
    simp [he]
  · rename_i he
    simp [he]
  · rename_i hwav hflac
    simp only [List.mem_cons, List.not_mem_nil, or_false, exists_eq_or_imp, exists_eq_left, Option.isSome_none,
      Bool.false_eq_true, false_iff, not_or]
    exact ⟨hwav, hflac⟩

theorem soundStem_iff {name : OsStr} {stem : String} : soundStem name = some stem ↔
    (SoundFormat.fromPath name).isSome = true ∧ (OsStr.fileStem name).bind OsStr.toStr = some stem := by
  unfold soundStem
  cases SoundFormat.fromPath name with
  | none => simp
  | some format => simp

theorem ofStr_file (stem extension : String) :
    OsStr.ofStr (stem ++ "." ++ extension) = OsStr.ofStr stem ++ OsStr.dot :: OsStr.ofStr extension := by
  have hdot : OsStr.ofStr "." = [OsStr.dot] := by decide
  rw [OsStr.ofStr_append, OsStr.ofStr_append, hdot, List.append_assoc, List.singleton_append]

/-- The file names that stand for a sound are its stem with an extension put after it. -/
theorem soundStem_eq_some_iff {name : OsStr} {stem : String} : soundStem name = some stem ↔
    stem ≠ "" ∧ ∃ extension ∈ ["wav", "flac"], name = .ofStr (stem ++ "." ++ extension) := by
  have hempty : OsStr.ofStr "" = [] := by decide
  rw [soundStem_iff, fromPath_iff, OsStr.bind_toStr_eq_some_iff]
  simp only [OsStr.bind_toStr_eq_some_iff]
  constructor
  · intro h
    obtain ⟨⟨extension, hm, he⟩, hs⟩ := h
    obtain ⟨hname, -, hstem, -⟩ := OsStr.stem_extension_iff.mp ⟨hs, he⟩
    refine ⟨fun h => hstem (h ▸ hempty), extension, hm, ?_⟩
    rw [ofStr_file, hname]
  · intro h
    obtain ⟨hne, extension, hm, hname⟩ := h
    rw [ofStr_file] at hname
    have hdot : OsStr.dot ∉ OsStr.ofStr extension ∧ 2 < (OsStr.ofStr extension).length := by
      rcases List.mem_pair.mp hm with rfl | rfl <;> decide
    have hsplit := OsStr.stem_extension_iff.mpr ⟨hname, hdot.1, fun h => hne (OsStr.ofStr_inj (h.trans hempty.symm)), ?_⟩
    · exact ⟨⟨extension, hm, hsplit.2⟩, hsplit.1⟩
    · intro hdots
      have hlength := congrArg List.length (hname.symm.trans hdots)
      simp only [List.length_append, List.length_cons, List.length_nil] at hlength
      omega

/-! ### The paths of entries -/

/-- A file name that an entry can have: it is one component of a path, and is not `.` or `..`. -/
structure Ordinary (name : OsStr) : Prop where
  /-- It has no separator. -/
  component : OsStr.slash ∉ name
  /-- It is not empty. -/
  nonempty : name ≠ []
  /-- It does not stay in place. -/
  notDot : name ≠ [OsStr.dot]
  /-- It does not go up. -/
  notDots : name ≠ [OsStr.dot, OsStr.dot]

theorem slash_mem_ofStr {file : String} (h : '/' ∈ file.toList) : OsStr.slash ∈ OsStr.ofStr file := by
  obtain ⟨xs, ys, hsplit⟩ := List.append_of_mem h
  have hfile : file = String.ofList xs ++ "/" ++ String.ofList ys := by
    rw [← String.toList_inj, String.toList_append, String.toList_append, String.toList_ofList, String.toList_ofList,
      hsplit]
    simp
  have hslash : OsStr.ofStr "/" = [OsStr.slash] := by decide
  rw [hfile, OsStr.ofStr_append, OsStr.ofStr_append, hslash]
  simp

/-- The path of an entry is what resolution joins. -/
theorem entryPath_ofStr {dir file : String} (h : OsStr.slash ∉ OsStr.ofStr file) :
    entryPath dir (.ofStr file) = .ofStr (join dir file) := by
  have hbytes : (OsStr.ofStr file).head? ≠ some OsStr.slash := fun hhead => h (List.mem_of_mem_head? hhead)
  have hchars : file.toList.head? ≠ some '/' := fun hhead => h (slash_mem_ofStr (List.mem_of_mem_head? hhead))
  unfold entryPath join
  rw [if_neg hbytes, if_neg hchars]
  by_cases hdir : dir.toList.getLast? = some '/' ∨ dir = ""
  · rw [if_pos hdir, if_pos hdir, OsStr.ofStr_append]
  · rw [if_neg hdir, if_neg hdir, OsStr.ofStr_append (dir ++ "/") file]

/-! ### What is collected -/

/-- The entries of a directory can all be read, and the sounds among them have a length. -/
def Readable (fs : Files) (dir : String) (entries : List (Except String OsStr)) : Prop :=
  ∀ entry ∈ entries, ∃ name, entry = .ok name ∧
    ∀ stem, soundStem name = some stem → ∃ bytes, fs.metadata (entryPath dir name) = .ok bytes

/-- The summary says what one of the entries is. -/
def Describes (fs : Files) (dir : String) (source : SoundSource) (entries : List (Except String OsStr))
    (summary : SoundSummary) : Prop :=
  ∃ name stem bytes, .ok name ∈ entries ∧ soundStem name = some stem ∧
    fs.metadata (entryPath dir name) = .ok bytes ∧ summary = .of source stem bytes

theorem Describes.mono {fs : Files} {dir : String} {source : SoundSource} {entries entries' : List (Except String OsStr)}
    {summary : SoundSummary} (h : Describes fs dir source entries summary) (hsub : ∀ entry ∈ entries, entry ∈ entries') :
    Describes fs dir source entries' summary := by
  obtain ⟨name, stem, bytes, hm, h⟩ := h
  exact ⟨name, stem, bytes, hsub _ hm, h⟩

namespace SoundLibrary

variable {lib : SoundLibrary} {fs : Files} {readDir : ReadDir} {dir : String} {source : SoundSource}
  {sounds sounds' : Sounds} {entries : List (Except String OsStr)} {entry : Except String OsStr}

theorem collect_eq : collect fs readDir dir source sounds =
    (shownOf readDir dir).foldlM (collectEntry fs dir source) sounds := by
  unfold collect shownOf
  cases readDir dir with
  | none => rfl
  | some entries => rfl

/-- What the loop does with an entry: it passes over it, fails, or inserts its summary. -/
theorem collectEntry_cases (fs : Files) (dir : String) (source : SoundSource) (sounds : Sounds)
    (entry : Except String OsStr) :
    (∃ name, entry = .ok name ∧ soundStem name = none ∧ collectEntry fs dir source sounds entry = .ok sounds) ∨
    (∃ e, (entry = .error e ∨ ∃ name stem, entry = .ok name ∧ soundStem name = some stem ∧
        fs.metadata (entryPath dir name) = .error e) ∧ collectEntry fs dir source sounds entry = .error (.io e)) ∨
    (∃ name stem bytes, entry = .ok name ∧ soundStem name = some stem ∧
      fs.metadata (entryPath dir name) = .ok bytes ∧ collectEntry fs dir source sounds entry =
        .ok (sounds.insert (source.label ++ ":" ++ stem) (.of source stem bytes))) := by
  cases entry with
  | error e => exact .inr (.inl ⟨e, .inl rfl, rfl⟩)
  | ok name =>
    unfold collectEntry soundStem
    cases hformat : SoundFormat.fromPath name with
    | none => exact .inl ⟨name, rfl, by rw [hformat]; rfl, by simp only [hformat]⟩
    | some format =>
      cases hstem : (OsStr.fileStem name).bind OsStr.toStr with
      | none => exact .inl ⟨name, rfl, by rw [hformat]; exact hstem, by simp only [hformat, hstem]⟩
      | some stem =>
        have hsound : ((SoundFormat.fromPath name).bind fun _ => (OsStr.fileStem name).bind OsStr.toStr) = some stem := by
          rw [hformat]
          exact hstem
        cases hmeta : fs.metadata (entryPath dir name) with
        | error e => exact .inr (.inl ⟨e, .inr ⟨name, stem, rfl, hsound, hmeta⟩, by simp only [hformat, hstem, hmeta]⟩)
        | ok bytes => exact .inr (.inr ⟨name, stem, bytes, rfl, hsound, hmeta, by simp only [hformat, hstem, hmeta]⟩)

/-- What a directory was collected to: everything that was found is one of its entries, each of its sounds
is found, and nothing that was there is lost. -/
structure Collected (fs : Files) (dir : String) (source : SoundSource) (entries : List (Except String OsStr))
    (sounds sounds' : Sounds) : Prop where
  /-- Every entry could be read. -/
  readable : Readable fs dir entries
  /-- What is found was there, or is one of the entries. -/
  found : ∀ (id : String) summary, sounds'[id]? = some summary → sounds[id]? = some summary ∨
    Describes fs dir source entries summary ∧ summary.id = id
  /-- Each sound among the entries is found. -/
  listed : ∀ summary, Describes fs dir source entries summary → summary.id ∈ sounds'
  /-- What was there is still there. -/
  kept : ∀ id ∈ sounds, id ∈ sounds'

/-- An entry that is no sound is passed over. -/
theorem Collected.pass {name : OsStr} (hpass : soundStem name = none)
    (h : Collected fs dir source entries sounds sounds') : Collected fs dir source (.ok name :: entries) sounds sounds' := by
  have hsub : ∀ e ∈ entries, e ∈ .ok name :: entries := fun e he => List.mem_cons_of_mem _ he
  refine ⟨?_, ?_, ?_, h.kept⟩
  · intro entry hm
    rcases List.mem_cons.mp hm with rfl | hm
    · exact ⟨name, rfl, fun stem hstem => by rw [hpass] at hstem; cases hstem⟩
    · exact h.readable entry hm
  · intro id summary hs
    rcases h.found id summary hs with hold | ⟨hd, hid⟩
    · exact .inl hold
    · exact .inr ⟨hd.mono hsub, hid⟩
  · intro summary hd
    obtain ⟨name', stem, bytes, hm, hstem, hd⟩ := hd
    rcases List.mem_cons.mp hm with heq | hm
    · cases heq
      rw [hpass] at hstem
      cases hstem
    · exact h.listed summary ⟨name', stem, bytes, hm, hstem, hd⟩

/-- A sound takes the place of what was found by its id. -/
theorem Collected.insert {name : OsStr} {stem : String} {bytes : ℕ} (hsound : soundStem name = some stem)
    (hmeta : fs.metadata (entryPath dir name) = .ok bytes)
    (h : Collected fs dir source entries (sounds.insert (source.label ++ ":" ++ stem) (.of source stem bytes)) sounds') :
    Collected fs dir source (.ok name :: entries) sounds sounds' := by
  have hsub : ∀ e ∈ entries, e ∈ .ok name :: entries := fun e he => List.mem_cons_of_mem _ he
  refine ⟨?_, ?_, ?_, fun id hm => h.kept id (Std.TreeMap.mem_insert.mpr (.inr hm))⟩
  · intro entry hm
    rcases List.mem_cons.mp hm with rfl | hm
    · exact ⟨name, rfl, fun _ _ => ⟨bytes, hmeta⟩⟩
    · exact h.readable entry hm
  · intro id summary hs
    rcases h.found id summary hs with hold | ⟨hd, hid⟩
    · rw [Std.TreeMap.getElem?_insert] at hold
      split at hold
      · rename_i heq
        obtain rfl := Option.some.inj hold
        exact .inr ⟨⟨name, stem, bytes, List.mem_cons_self, hsound, hmeta, rfl⟩, Std.LawfulEqCmp.eq_of_compare heq⟩
      · exact .inl hold
    · exact .inr ⟨hd.mono hsub, hid⟩
  · intro summary hd
    obtain ⟨name', stem', bytes', hm, hstem, hmeta', hd⟩ := hd
    rcases List.mem_cons.mp hm with heq | hm
    · cases heq
      obtain rfl := Option.some.inj (hsound.symm.trans hstem)
      rw [hd]
      exact h.kept _ (Std.TreeMap.mem_insert.mpr (.inl Std.ReflCmp.compare_self))
    · exact h.listed summary ⟨name', stem', bytes', hm, hstem, hmeta', hd⟩

theorem collected_of_foldlM (h : entries.foldlM (collectEntry fs dir source) sounds = .ok sounds') :
    Collected fs dir source entries sounds sounds' := by
  induction entries generalizing sounds with
  | nil =>
    obtain rfl : sounds = sounds' := Except.ok.inj h
    refine ⟨fun entry hm => absurd hm List.not_mem_nil, fun id summary hs => .inl hs, ?_, fun id hm => hm⟩
    intro summary hd
    obtain ⟨name, stem, bytes, hm, -⟩ := hd
    exact absurd hm List.not_mem_nil
  | cons entry entries ih =>
    rw [List.foldlM_cons] at h
    rcases collectEntry_cases fs dir source sounds entry with ⟨name, rfl, hpass, hc⟩ | ⟨e, -, hc⟩ |
      ⟨name, stem, bytes, rfl, hsound, hmeta, hc⟩
    · rw [hc] at h
      exact .pass hpass (ih h)
    · rw [hc] at h
      cases h
    · rw [hc] at h
      exact .insert hsound hmeta (ih h)

/-- A directory is collected when every entry can be read, and every sound among them has a length. -/
theorem foldlM_ok_of_readable (source : SoundSource) (h : Readable fs dir entries) (sounds : Sounds) :
    ∃ sounds', entries.foldlM (collectEntry fs dir source) sounds = .ok sounds' := by
  induction entries generalizing sounds with
  | nil => exact ⟨sounds, rfl⟩
  | cons entry entries ih =>
    have hrest : Readable fs dir entries := fun e he => h e (List.mem_cons_of_mem entry he)
    rw [List.foldlM_cons]
    rcases collectEntry_cases fs dir source sounds entry with ⟨name, -, -, hc⟩ | ⟨e, hbad, hc⟩ | ⟨-, stem, bytes, -, -, -, hc⟩
    · rw [hc]
      exact ih hrest sounds
    · obtain ⟨name, rfl, hstat⟩ := h entry List.mem_cons_self
      rcases hbad with hbad | ⟨name', stem, hname, hsound, herror⟩
      · cases hbad
      · cases hname
        obtain ⟨bytes, hok⟩ := hstat stem hsound
        cases herror.symm.trans hok
    · rw [hc]
      exact ih hrest _

theorem exists_of_bind_eq_ok {ε α β : Type} {x : Except ε α} {f : α → Except ε β} {b : β} (h : x >>= f = .ok b) :
    ∃ a, x = .ok a ∧ f a = .ok b := by
  cases x with
  | error e => cases h
  | ok a => exact ⟨a, rfl, h⟩

/-- The last entry of a name is the one that is kept. -/
theorem getElem?_of_last {name : OsStr} {stem : String} {bytes : ℕ} (hsound : soundStem name = some stem)
    (hmeta : fs.metadata (entryPath dir name) = .ok bytes)
    (h : (entries ++ [Except.ok name]).foldlM (collectEntry fs dir source) sounds = .ok sounds') :
    sounds'[source.label ++ ":" ++ stem]? = some (.of source stem bytes) := by
  rw [List.foldlM_append] at h
  obtain ⟨middle, -, h⟩ := exists_of_bind_eq_ok h
  rw [List.foldlM_cons] at h
  obtain ⟨last, hlast, h⟩ := exists_of_bind_eq_ok h
  obtain rfl : last = sounds' := Except.ok.inj h
  rcases collectEntry_cases fs dir source middle (.ok name) with ⟨name', heq, hpass, -⟩ | ⟨e, -, hc⟩ |
    ⟨name', stem', bytes', heq, hsound', hmeta', hc⟩
  · cases heq
    cases hpass.symm.trans hsound
  · rw [hc] at hlast
    cases hlast
  · cases heq
    obtain rfl := Option.some.inj (hsound.symm.trans hsound')
    obtain rfl := Except.ok.inj (hmeta.symm.trans hmeta')
    rw [hc] at hlast
    rw [← Except.ok.inj hlast, Std.TreeMap.getElem?_insert_self]

/-! ### The list -/

/-- Both directories are collected, one after the other. -/
theorem listSounds_eq_ok_iff {summaries : List SoundSummary} : lib.listSounds fs readDir = .ok summaries ↔
    ∃ builtins sounds : Sounds,
      (shownOf readDir (lib.dir .builtin)).foldlM (collectEntry fs (lib.dir .builtin) .builtin) ∅ = .ok builtins ∧
      (shownOf readDir (lib.dir .custom)).foldlM (collectEntry fs (lib.dir .custom) .custom) builtins = .ok sounds ∧
      summaries = sounds.toList.map Prod.snd := by
  unfold listSounds
  simp only [collect_eq]
  constructor
  · intro h
    obtain ⟨builtins, hbuiltins, h⟩ := exists_of_bind_eq_ok h
    obtain ⟨sounds, hsounds, h⟩ := exists_of_bind_eq_ok h
    exact ⟨builtins, sounds, hbuiltins, hsounds, (Except.ok.inj h).symm⟩
  · intro h
    obtain ⟨builtins, sounds, hbuiltins, hsounds, rfl⟩ := h
    simp only [dir] at hbuiltins hsounds
    rw [hbuiltins]
    show ((shownOf readDir lib.customDir).foldlM (collectEntry fs lib.customDir .custom) builtins >>= _) = _
    rw [hsounds]
    rfl

/-- Every entry of the two directories can be read, and the sounds among them have a length. -/
def Listable (lib : SoundLibrary) (fs : Files) (readDir : ReadDir) : Prop :=
  ∀ source, Readable fs (lib.dir source) (shownOf readDir (lib.dir source))

/-- What is listed of the two directories: the summary says what one of the entries of its source is. -/
def Lists (lib : SoundLibrary) (fs : Files) (readDir : ReadDir) (summary : SoundSummary) : Prop :=
  ∃ source, Describes fs (lib.dir source) source (shownOf readDir (lib.dir source)) summary

theorem toList_label (source : SoundSource) (stem : String) :
    (source.label ++ ":" ++ stem).toList = source.label.toList ++ ':' :: stem.toList := by
  have hcolon : ":".toList = [':'] := rfl
  rw [String.toList_append, String.toList_append, hcolon, List.append_assoc, List.singleton_append]

/-- An id tells the source and the name. -/
theorem label_append_inj {source source' : SoundSource} {stem stem' : String}
    (h : source.label ++ ":" ++ stem = source'.label ++ ":" ++ stem') : source = source' ∧ stem = stem' := by
  have hlist := congrArg String.toList h
  rw [toList_label, toList_label] at hlist
  have hbuiltin : SoundSource.builtin.label.toList = ['b', 'u', 'i', 'l', 't', 'i', 'n'] := rfl
  have hcustom : SoundSource.custom.label.toList = ['c', 'u', 's', 't', 'o', 'm'] := rfl
  cases source with
  | builtin =>
    cases source' with
    | builtin => exact ⟨rfl, String.toList_inj.mp (by simpa using hlist)⟩
    | custom =>
      rw [hbuiltin, hcustom] at hlist
      simp at hlist
  | custom =>
    cases source' with
    | builtin =>
      rw [hbuiltin, hcustom] at hlist
      simp at hlist
    | custom => exact ⟨rfl, String.toList_inj.mp (by simpa using hlist)⟩

/-- The ids of builtin sounds come before those of custom ones. -/
theorem not_custom_lt_builtin (stem stem' : String) :
    ¬ SoundSource.custom.label ++ ":" ++ stem < SoundSource.builtin.label ++ ":" ++ stem' := by
  intro h
  have hlist : (SoundSource.custom.label ++ ":" ++ stem).toList < (SoundSource.builtin.label ++ ":" ++ stem').toList := h
  have hbuiltin : SoundSource.builtin.label.toList = ['b', 'u', 'i', 'l', 't', 'i', 'n'] := rfl
  have hcustom : SoundSource.custom.label.toList = ['c', 'u', 's', 't', 'o', 'm'] := rfl
  rw [toList_label, toList_label, hbuiltin, hcustom] at hlist
  simp [List.cons_lt_cons_iff] at hlist

/-- A list of the two directories: it is ordered by id, everything on it is one of the entries, and each of
their sounds is on it. -/
structure ListsAll (lib : SoundLibrary) (fs : Files) (readDir : ReadDir) (summaries : List SoundSummary) : Prop where
  /-- Every entry could be read. -/
  listable : lib.Listable fs readDir
  /-- The ids increase. -/
  sorted : summaries.Pairwise fun a b => a.id < b.id
  /-- What is listed is one of the entries. -/
  found : ∀ summary ∈ summaries, lib.Lists fs readDir summary
  /-- Each sound among the entries is listed. -/
  listed : ∀ summary, lib.Lists fs readDir summary → ∃ summary' ∈ summaries, summary'.id = summary.id

theorem listsAll_of_listSounds {summaries : List SoundSummary} (h : lib.listSounds fs readDir = .ok summaries) :
    ListsAll lib fs readDir summaries := by
  obtain ⟨builtins, sounds, hb, hc, rfl⟩ := listSounds_eq_ok_iff.mp h
  have hbuiltins := collected_of_foldlM hb
  have hcustoms := collected_of_foldlM hc
  -- what is in the map is one of the entries, under its own id
  have hfound : ∀ (id : String) summary, sounds[id]? = some summary → lib.Lists fs readDir summary ∧ summary.id = id := by
    intro id summary hs
    rcases hcustoms.found id summary hs with hold | ⟨hd, hid⟩
    · rcases hbuiltins.found id summary hold with hempty | ⟨hd, hid⟩
      · rw [Std.TreeMap.getElem?_emptyc] at hempty
        cases hempty
      · exact ⟨⟨.builtin, hd⟩, hid⟩
    · exact ⟨⟨.custom, hd⟩, hid⟩
  have hkey : ∀ kv ∈ sounds.toList, lib.Lists fs readDir kv.2 ∧ kv.2.id = kv.1 := fun kv hm =>
    hfound kv.1 kv.2 (Std.TreeMap.mem_toList_iff_getElem?_eq_some.mp hm)
  refine ⟨?_, ?_, ?_, ?_⟩
  · intro source
    cases source with
    | builtin => exact hbuiltins.readable
    | custom => exact hcustoms.readable
  · refine List.pairwise_map.mpr (List.Pairwise.imp_of_mem ?_ Std.TreeMap.ordered_keys_toList)
    intro a b ha hb hlt
    rw [(hkey a ha).2, (hkey b hb).2]
    exact compareOfLessAndEq_eq_lt.mp hlt
  · intro summary hm
    obtain ⟨kv, hkv, rfl⟩ := List.mem_map.mp hm
    exact (hkey kv hkv).1
  · intro summary hlists
    have hmem : summary.id ∈ sounds := by
      obtain ⟨source, hd⟩ := hlists
      cases source with
      | builtin => exact hcustoms.kept _ (hbuiltins.listed summary hd)
      | custom => exact hcustoms.listed summary hd
    obtain ⟨summary', hs⟩ := Option.isSome_iff_exists.mp (Std.TreeMap.mem_iff_isSome_getElem?.mp hmem)
    exact ⟨summary', List.mem_map.mpr ⟨_, Std.TreeMap.mem_toList_iff_getElem?_eq_some.mpr hs, rfl⟩,
      (hfound _ _ hs).2⟩

/-- The list is made when every entry can be read, and every sound among them has a length. -/
theorem exists_listSounds_iff : (∃ summaries, lib.listSounds fs readDir = .ok summaries) ↔ lib.Listable fs readDir := by
  constructor
  · intro h
    obtain ⟨summaries, h⟩ := h
    exact (listsAll_of_listSounds h).listable
  · intro h
    obtain ⟨builtins, hb⟩ := foldlM_ok_of_readable .builtin (h .builtin) ∅
    obtain ⟨sounds, hc⟩ := foldlM_ok_of_readable .custom (h .custom) builtins
    exact ⟨_, listSounds_eq_ok_iff.mpr ⟨builtins, sounds, hb, hc, rfl⟩⟩

end SoundLibrary

end HelmAlarm.Audio
