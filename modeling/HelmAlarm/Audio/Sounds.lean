import HelmAlarm.Audio.AlarmAudio
import Mathlib.Data.List.Basic

/-!
# Sound assets

`SoundLibrary` of `audio/sounds.rs`: the two sound directories, and the
resolution of a namespaced sound id to the file it names. The file system is
outside the repository; what is modelled of it, `FileSystem`, is which paths
exist and what `DecodedSound::from_path` makes of the file at a path.
-/

namespace HelmAlarm.Audio

/-- `DEFAULT_BUILTIN_SOUND_DIR`. -/
def defaultBuiltinSoundDir : String := "/usr/share/helm/sounds"

/-- `DEFAULT_CUSTOM_SOUND_DIR`. -/
def defaultCustomSoundDir : String := "/var/lib/helm/sounds"

/-- The longest path the system takes, with its terminator (`PATH_MAX`). -/
def pathMax : ℕ := 4096

/-- The file system at one moment. -/
structure FileSystem where
  /-- `Path::exists`. -/
  pathExists : String → Bool
  /-- `DecodedSound::from_path`, if it succeeds. -/
  fromPath : String → Option DecodedSound
  /-- Nothing is found at a path longer than the system takes. -/
  pathFits : ∀ path, pathExists path = true → path.utf8ByteSize < pathMax

/-- `str::strip_prefix`. -/
def stripPrefix (s pre : String) : Option String := (pre.toList.isPrefixOf? s.toList).map String.ofList

/-- `Path::join`: an absolute argument replaces the base. -/
def join (base path : String) : String :=
  if path.toList.head? = some '/' then path
  else if base.toList.getLast? = some '/' ∨ base = "" then base ++ path
  else base ++ "/" ++ path

/-- The two sound directories. -/
structure SoundLibrary where
  /-- Shipped with the daemon. -/
  builtinDir : String
  /-- User-managed sounds. -/
  customDir : String
  deriving DecidableEq, Repr

namespace SoundLibrary

/-- `from_env`. -/
def fromEnv (env : String → Option String) : SoundLibrary where
  builtinDir := (env "ALARM_DAEMON_SOUND_DIR").getD defaultBuiltinSoundDir
  customDir := (env "ALARM_DAEMON_CUSTOM_SOUND_DIR").getD defaultCustomSoundDir

/-- `resolve_in`: the `.wav` file of that name, else the `.flac` file. -/
def resolveIn (fs : FileSystem) (dir pre name : String) : Except AudioError String :=
  match ["wav", "flac"].find? fun extension => fs.pathExists (join dir (name ++ "." ++ extension)) with
  | some extension => .ok (join dir (name ++ "." ++ extension))
  | none => .error (.unknownSound (pre ++ ":" ++ name))

/-- `resolve_path`: the file a namespaced sound id names. -/
def resolvePath (lib : SoundLibrary) (fs : FileSystem) (soundId : String) : Except AudioError String :=
  match stripPrefix soundId "builtin:" with
  | some name => resolveIn fs lib.builtinDir "builtin" name
  | none =>
    match stripPrefix soundId "custom:" with
    | some name => resolveIn fs lib.customDir "custom" name
    | none => .error (.invalidSoundId soundId)

/-- The files a sound id can name: the `.wav` and the `.flac` file of that name in the directory
of its namespace. -/
def candidates (lib : SoundLibrary) (soundId : String) : List String :=
  match stripPrefix soundId "builtin:" with
  | some name => ["wav", "flac"].map fun extension => join lib.builtinDir (name ++ "." ++ extension)
  | none =>
    match stripPrefix soundId "custom:" with
    | some name => ["wav", "flac"].map fun extension => join lib.customDir (name ++ "." ++ extension)
    | none => []

/-- A sound id can be resolved: one of its files exists. -/
def resolves (lib : SoundLibrary) (fs : FileSystem) (soundId : String) : Bool :=
  (lib.candidates soundId).any fs.pathExists

/-! ### What a resolution finds -/

variable {lib : SoundLibrary} {fs : FileSystem} {soundId path : String}

theorem resolveIn_eq_ok {dir pre name : String} (h : resolveIn fs dir pre name = .ok path) :
    path ∈ (["wav", "flac"].map fun extension => join dir (name ++ "." ++ extension)) ∧
      fs.pathExists path = true := by
  unfold resolveIn at h
  split at h
  · rename_i extension hf
    obtain rfl := Except.ok.inj h
    have he : fs.pathExists (join dir (name ++ "." ++ extension)) = true := by simpa using List.find?_some hf
    exact ⟨List.mem_map.mpr ⟨extension, List.mem_of_find?_eq_some hf, rfl⟩, he⟩
  · cases h

/-- A sound id resolves to one of its files, which exists. -/
theorem resolvePath_eq_ok (h : lib.resolvePath fs soundId = .ok path) :
    path ∈ lib.candidates soundId ∧ fs.pathExists path = true := by
  unfold resolvePath at h
  unfold candidates
  split at h
  · exact resolveIn_eq_ok h
  · split at h
    · exact resolveIn_eq_ok h
    · cases h

theorem exists_resolveIn_eq_ok {dir pre name : String}
    (h : (["wav", "flac"].map fun extension => join dir (name ++ "." ++ extension)).any fs.pathExists = true) :
    ∃ path, resolveIn fs dir pre name = .ok path := by
  unfold resolveIn
  split
  · exact ⟨_, rfl⟩
  · rename_i hf
    rw [List.any_map, List.any_eq_true] at h
    obtain ⟨extension, hm, he⟩ := h
    exact absurd he (List.find?_eq_none.mp hf extension hm)

/-- Resolution succeeds exactly for the ids one of whose files exists. -/
theorem resolvePath_eq_ok_iff : (∃ path, lib.resolvePath fs soundId = .ok path) ↔ lib.resolves fs soundId := by
  constructor
  · rintro ⟨path, h⟩
    obtain ⟨hm, he⟩ := resolvePath_eq_ok h
    exact List.any_eq_true.mpr ⟨path, hm, he⟩
  · intro h
    unfold resolves candidates at h
    unfold resolvePath
    split at h
    · exact exists_resolveIn_eq_ok h
    · split at h
      · exact exists_resolveIn_eq_ok h
      · cases h

/-! ### The length of an id -/

/-- What is joined to a directory is no longer than the result. -/
theorem utf8ByteSize_le_join (base path : String) : path.utf8ByteSize ≤ (join base path).utf8ByteSize := by
  unfold join
  split
  · exact le_rfl
  · split <;> simp only [String.utf8ByteSize_append] <;> omega

/-- What is stripped is what the rest was put after. -/
theorem stripPrefix_eq_some_iff {s pre name : String} : stripPrefix s pre = some name ↔ s = pre ++ name := by
  unfold stripPrefix
  rw [← String.toList_inj, String.toList_append, Option.map_eq_some_iff]
  constructor
  · rintro ⟨rest, hp, rfl⟩
    rw [String.toList_ofList]
    exact (List.append_eq_of_isPrefixOf?_eq_some hp).symm
  · intro h
    exact ⟨name.toList, List.isPrefixOf?_eq_some_iff_append_eq.mpr h.symm, String.ofList_toList⟩

theorem utf8ByteSize_of_stripPrefix {s pre name : String} (h : stripPrefix s pre = some name) :
    s.utf8ByteSize = pre.utf8ByteSize + name.utf8ByteSize := by
  rw [stripPrefix_eq_some_iff.mp h, String.utf8ByteSize_append]

/-- An id that resolves is not empty: it names its namespace. -/
theorem ne_empty_of_resolvePath (h : lib.resolvePath fs soundId = .ok path) : soundId ≠ "" := by
  rintro rfl
  cases h

/-- An id is not much longer than the paths of its files. -/
theorem utf8ByteSize_le_of_mem_candidates (h : path ∈ lib.candidates soundId) :
    soundId.utf8ByteSize ≤ path.utf8ByteSize + 8 := by
  have hjoin : ∀ dir name extension : String,
      name.utf8ByteSize ≤ (join dir (name ++ "." ++ extension)).utf8ByteSize := by
    intro dir name extension
    refine le_trans ?_ (utf8ByteSize_le_join dir (name ++ "." ++ extension))
    simp only [String.utf8ByteSize_append]
    omega
  unfold candidates at h
  split at h
  · rename_i name hn
    obtain ⟨extension, -, rfl⟩ := List.mem_map.mp h
    have hpre : "builtin:".utf8ByteSize = 8 := by decide
    have := hjoin lib.builtinDir name extension
    have := utf8ByteSize_of_stripPrefix hn
    omega
  · split at h
    · rename_i name hn
      obtain ⟨extension, -, rfl⟩ := List.mem_map.mp h
      have hpre : "custom:".utf8ByteSize = 7 := by decide
      have := hjoin lib.customDir name extension
      have := utf8ByteSize_of_stripPrefix hn
      omega
    · cases h

/-- An id that resolves is shorter than a path. -/
theorem utf8ByteSize_lt_of_resolvePath (h : lib.resolvePath fs soundId = .ok path) :
    soundId.utf8ByteSize < pathMax + 8 := by
  obtain ⟨hm, he⟩ := resolvePath_eq_ok h
  have := utf8ByteSize_le_of_mem_candidates hm
  have := fs.pathFits path he
  omega

end SoundLibrary

end HelmAlarm.Audio
