import HelmAlarm.Ipc.Sequential
import Mathlib.Data.List.DropRight

/-!
# Where a sound id leads

What follows the namespace in a sound id is joined to a sound directory as it is,
with an extension put after it. It may hold separators, `..`, or be an absolute path,
and nothing looks at it. A path is read here as the file system reads it, by `walk`:
its segments one after the other, from the root if it is absolute; an empty segment
and `.` stay in place, and `..` is a segment like the others.

The file that an id is resolved to is an entry of its sound directory exactly when the
part of the name before its last separator leads nowhere else: `confined_iff`. That
is so for every name without a separator (`stays_of_not_mem`), and for no name that
goes up or starts at the root of another directory.
-/

namespace HelmAlarm.Audio

/-! ### Walking a path -/

/-- The segment leads somewhere. -/
def goes (segment : List Char) : Bool := segment ≠ [] ∧ segment ≠ ['.']

/-- What the file system reads a path as. -/
structure Walk where
  /-- It starts at the root. -/
  absolute : Bool
  /-- The segments it goes through. -/
  segments : List (List Char)
  deriving DecidableEq, Repr

/-- The walk of a path. -/
def walk (path : String) : Walk := ⟨path.toList.head? = some '/', (path.toList.splitOn '/').filter goes⟩

/-- One segment further. -/
def Walk.into (w : Walk) (segment : List Char) : Walk := { w with segments := w.segments ++ [segment] }

theorem Walk.into_inj {v w : Walk} {a b : List Char} (h : v.into a = w.into b) : v = w ∧ a = b := by
  obtain ⟨absolute, segments⟩ := v
  obtain ⟨absolute', segments'⟩ := w
  simp only [Walk.into, Walk.mk.injEq] at h
  obtain ⟨rfl, hs⟩ := h
  obtain ⟨rfl, hab⟩ := List.append_inj' hs rfl
  exact ⟨rfl, (List.cons.inj hab).1⟩

/-- A path that a name can follow: it is empty, or ends with a separator. -/
def Open (path : String) : Prop := path = "" ∨ path.toList.getLast? = some '/'

/-- A name after a path that is open is one segment further. -/
theorem walk_append {base name : String} (hbase : Open base) (hname : '/' ∉ name.toList)
    (hgoes : goes name.toList = true) : walk (base ++ name) = (walk base).into name.toList := by
  unfold walk
  rw [String.toList_append]
  rcases hbase with rfl | hlast
  · have hhead : name.toList.head? ≠ some '/' := fun h => hname (List.mem_of_mem_head? h)
    simp [Walk.into, hhead, List.splitOn_eq_singleton hname, hgoes, (by decide : goes [] = false)]
  · obtain ⟨xs, hxs⟩ := List.getLast?_eq_some_iff.mp hlast
    have hempty : goes [] = false := by decide
    have hhead : (xs ++ '/' :: name.toList).head? = (xs ++ ['/']).head? := by cases xs <;> rfl
    simp only [hxs, Walk.into, List.append_assoc, List.singleton_append, hhead, List.splitOn_append_cons_self,
      List.splitOn_eq_singleton hname, List.splitOn_nil, List.filter_append, List.filter_cons, hgoes, hempty]
    simp

/-! ### Names -/

/-- The part of a name up to its last separator. -/
def parent (name : String) : String := .ofList (name.toList.rdropWhile (· ≠ '/'))

/-- The part of a name after its last separator. -/
def fileName (name : String) : String := .ofList (name.toList.rtakeWhile (· ≠ '/'))

theorem parent_append_fileName (name : String) : parent name ++ fileName name = name := by
  rw [← String.toList_inj, String.toList_append, parent, fileName, String.toList_ofList, String.toList_ofList]
  exact List.rdropWhile_append_rtakeWhile

theorem not_mem_fileName (name : String) : '/' ∉ (fileName name).toList := by
  rw [fileName, String.toList_ofList]
  exact fun h => by simpa using List.mem_rtakeWhile_imp h

theorem open_parent (name : String) : Open (parent name) := by
  unfold Open parent
  rw [String.toList_ofList]
  by_cases hne : name.toList.rdropWhile (· ≠ '/') = []
  · rw [hne]
    exact .inl rfl
  · have hlast := List.rdropWhile_last_not _ _ hne
    rw [List.getLast?_eq_some_getLast hne]
    exact .inr (congrArg some (by simpa only [decide_not, Bool.not_eq_true', decide_eq_false_iff_not,
      Decidable.not_not] using hlast))

/-- A name without a separator has no part before one. -/
theorem parent_eq_empty {name : String} (h : '/' ∉ name.toList) : parent name = "" := by
  have hnil : name.toList.rdropWhile (· ≠ '/') = [] := by
    apply List.rdropWhile_eq_nil_iff.mpr
    intro x hx
    have hne : x ≠ '/' := fun hxs => h (hxs ▸ hx)
    simpa using hne
  rw [parent, hnil]

/-! ### Joining a name to a directory -/

/-- A name that is joined after a path is put after what the path is joined to. -/
theorem join_append {dir path name : String} (hname : '/' ∉ name.toList) :
    join dir (path ++ name) = join dir path ++ name := by
  have hhead : (path ++ name).toList.head? = some '/' ↔ path.toList.head? = some '/' := by
    rw [String.toList_append]
    cases hp : path.toList with
    | nil => exact ⟨fun h => absurd (List.mem_of_mem_head? h) hname, by rintro ⟨⟩⟩
    | cons x xs => rfl
  unfold join
  by_cases habs : path.toList.head? = some '/'
  · rw [if_pos habs, if_pos (hhead.mpr habs)]
  · rw [if_neg habs, if_neg (mt hhead.mp habs)]
    split <;> simp only [String.append_assoc]

/-- What is joined to a directory is open if it was. -/
theorem Open.join {dir path : String} (h : Open path) : Open (join dir path) := by
  unfold Audio.join
  rcases h with rfl | hlast
  · split
    · rename_i habs
      cases habs
    · split
      · rename_i hdir
        rw [String.append_empty]
        exact hdir.symm
      · right
        simp [String.toList_append]
  · right
    split
    · exact hlast
    · split <;> simp [String.toList_append, List.getLast?_append, List.getLast?_cons, hlast]

/-! ### Entries of a directory -/

/-- `path` is an entry directly inside `dir`: it goes where `dir` does, and on by one ordinary file
name that ends in `.wav` or `.flac`. -/
def EntryOf (dir path : String) : Prop :=
  ∃ file : String, walk path = (walk dir).into file.toList ∧
    '/' ∉ file.toList ∧ file ≠ "" ∧ file ≠ "." ∧ file ≠ ".." ∧
    ∃ stem, ∃ extension ∈ ["wav", "flac"], file = stem ++ "." ++ extension

/-- What ends in an extension is an ordinary name, if it has no separator. -/
theorem ordinary_of_extension {extension : String} (stem : String) (he : extension ∈ ["wav", "flac"]) :
    goes (stem ++ "." ++ extension).toList = true ∧ stem ++ "." ++ extension ≠ "" ∧
      stem ++ "." ++ extension ≠ "." ∧ stem ++ "." ++ extension ≠ ".." := by
  have hlength : 4 ≤ (stem ++ "." ++ extension).toList.length := by
    rcases List.mem_pair.mp he with rfl | rfl <;> simp [String.toList_append]
  have hne : ∀ s : String, s.toList.length < 4 → stem ++ "." ++ extension ≠ s := by
    rintro s hs rfl
    omega
  refine ⟨?_, hne "" (by decide), hne "." (by decide), hne ".." (by decide)⟩
  have hempty := hne "" (by decide)
  have hdot := hne "." (by decide)
  rw [ne_eq, ← String.toList_inj] at hempty hdot
  exact decide_eq_true ⟨hempty, hdot⟩

/-- The file of a name in a directory is an entry of it exactly when the part of the name before its
last separator leads nowhere else. -/
theorem entryOf_join_iff {dir name extension : String} (he : extension ∈ ["wav", "flac"]) :
    EntryOf dir (join dir (name ++ "." ++ extension)) ↔ walk (join dir (parent name)) = walk dir := by
  have hsplit : name ++ "." ++ extension = parent name ++ (fileName name ++ "." ++ extension) := by
    rw [← String.append_assoc, ← String.append_assoc, parent_append_fileName]
  have hmem : '/' ∉ (fileName name ++ "." ++ extension).toList := by
    have hname := not_mem_fileName name
    rcases List.mem_pair.mp he with rfl | rfl <;> simpa [String.toList_append] using hname
  obtain ⟨hgoes, hordinary⟩ := ordinary_of_extension (fileName name) he
  have hwalk : walk (join dir (name ++ "." ++ extension)) =
      (walk (join dir (parent name))).into (fileName name ++ "." ++ extension).toList := by
    rw [hsplit, join_append hmem]
    exact walk_append (open_parent name).join hmem hgoes
  rw [EntryOf, hwalk]
  constructor
  · rintro ⟨file, hfile, -⟩
    exact (Walk.into_inj hfile).1
  · intro hstays
    exact ⟨_, by rw [hstays], hmem, hordinary.1, hordinary.2.1, hordinary.2.2, _, _, he, rfl⟩

/-- A directory with nothing joined to it leads where it did. -/
theorem walk_join_empty (dir : String) : walk (join dir "") = walk dir := by
  unfold join
  rw [if_neg (by decide), String.append_empty]
  split
  · rfl
  · rename_i hdir
    obtain ⟨c, cs, hcs⟩ : ∃ c cs, dir.toList = c :: cs := by
      refine List.exists_cons_of_ne_nil fun hnil => hdir (.inr ?_)
      rw [← String.toList_inj, hnil]
      rfl
    have hslash : (dir ++ "/" ++ "").toList = dir.toList ++ ['/'] := by simp [String.toList_append]
    have hempty : goes [] = false := by decide
    rw [walk, hslash, List.splitOn_append_cons_self, walk, hcs]
    simp [hempty]

namespace SoundLibrary

variable {lib : SoundLibrary} {fs : FileSystem} {soundId path dir name : String}

/-- The directory that a sound id names, and the name in it. -/
def named (lib : SoundLibrary) (soundId : String) : Option (String × String) :=
  match stripPrefix soundId "builtin:" with
  | some name => some (lib.builtinDir, name)
  | none => (stripPrefix soundId "custom:").map fun name => (lib.customDir, name)

/-- The part of the name before its last separator leads nowhere out of the directory. -/
def stays (lib : SoundLibrary) (soundId : String) : Bool :=
  (lib.named soundId).all fun (dir, name) => walk (join dir (parent name)) = walk dir

/-- A path is an entry directly inside the directory that the sound id names. -/
def Confined (lib : SoundLibrary) (soundId path : String) : Prop :=
  ∃ dir name, lib.named soundId = some (dir, name) ∧ EntryOf dir path

theorem candidates_eq : lib.candidates soundId = match lib.named soundId with
    | some (dir, name) => ["wav", "flac"].map fun extension => join dir (name ++ "." ++ extension)
    | none => [] := by
  unfold candidates named
  cases stripPrefix soundId "builtin:" with
  | some name => rfl
  | none => cases stripPrefix soundId "custom:" <;> rfl

/-- A name without a separator stays in its directory. -/
theorem stays_of_not_mem (h : lib.named soundId = some (dir, name)) (hname : '/' ∉ name.toList) :
    lib.stays soundId = true := by
  have hwalk : walk (join dir (parent name)) = walk dir := by rw [parent_eq_empty hname, walk_join_empty]
  simp [stays, h, hwalk]

/-- A file that a sound id can name is an entry of its directory exactly when the name stays there. -/
theorem confined_iff_of_mem_candidates (h : path ∈ lib.candidates soundId) :
    lib.Confined soundId path ↔ lib.stays soundId = true := by
  rw [candidates_eq] at h
  cases hn : lib.named soundId with
  | none =>
    rw [hn] at h
    cases h
  | some pair =>
    obtain ⟨dir, name⟩ := pair
    rw [hn] at h
    obtain ⟨extension, he, rfl⟩ := List.mem_map.mp h
    simp only [Confined, stays, hn, Option.some.injEq, Prod.mk.injEq, Option.all_some, decide_eq_true_eq]
    rw [← entryOf_join_iff he]
    constructor
    · rintro ⟨_, _, ⟨rfl, rfl⟩, hentry⟩
      exact hentry
    · intro hentry
      exact ⟨_, _, ⟨rfl, rfl⟩, hentry⟩

end SoundLibrary

end HelmAlarm.Audio

namespace HelmAlarm.Ipc

open HelmAlarm.Library HelmAlarm.Daemon HelmAlarm.Audio

variable {h : Host} {f : Faults} {c : Control} {soundId : String} {n : ℕ} {task : Task}

/-- A trigger that an Arm spawns plays the file its sound id was resolved to. -/
theorem resolvePath_of_arm (hn : c.tasks.length ≤ n)
    (ht : (c.handle h f (.arm soundId)).2.tasks[n]? = some task) :
    c.sounds.resolvePath h.fs soundId = .ok task.schedule.soundPath := by
  have hh := handled h f (.arm soundId) c
  generalize (c.handle h f (.arm soundId)).1 = reply at hh
  generalize (c.handle h f (.arm soundId)).2 = c' at hh ht
  cases hh with
  | rejected hb =>
    rw [List.getElem?_eq_none hn] at ht
    cases ht
  | scheduled hb =>
    obtain ⟨hp, -, ⟨⟨⟩, -, -⟩ | ⟨durationS, ⟨⟩, -⟩⟩ := Control.begin_eq_schedule hb
    rcases Pool.of_add ht with ⟨-, rfl⟩ | ht
    · exact hp
    · rw [List.getElem?_eq_none (Control.length_tasks_takeTrigger.trans_le hn)] at ht
      cases ht
  | ended hack => cases hack

/-- For every sound id, whatever the directories and the files: what the id is resolved to, and what
the trigger of an Arm with it plays, are entries directly inside the directory that the id names,
exactly when the id resolves to nothing, or its name stays in the directory. -/
theorem confined_iff (lib : SoundLibrary) (fs : FileSystem) (soundId : String) :
    ((∀ path, lib.resolvePath fs soundId = .ok path → lib.Confined soundId path) ∧
      ∀ (h : Host) (f : Faults) (c : Control) (n : ℕ) (task : Task), h.fs = fs → c.sounds = lib →
        c.tasks.length ≤ n → (c.handle h f (.arm soundId)).2.tasks[n]? = some task →
        lib.Confined soundId task.schedule.soundPath) ↔
      (lib.resolves fs soundId = true → lib.stays soundId = true) := by
  constructor
  · rintro ⟨hpath, -⟩ hresolves
    obtain ⟨path, hp⟩ := SoundLibrary.resolvePath_eq_ok_iff.mpr hresolves
    exact (SoundLibrary.confined_iff_of_mem_candidates (SoundLibrary.resolvePath_eq_ok hp).1).mp (hpath path hp)
  · intro hstays
    have hpath : ∀ path, lib.resolvePath fs soundId = .ok path → lib.Confined soundId path := by
      intro path hp
      have hs := hstays (SoundLibrary.resolvePath_eq_ok_iff.mp ⟨path, hp⟩)
      exact (SoundLibrary.confined_iff_of_mem_candidates (SoundLibrary.resolvePath_eq_ok hp).1).mpr hs
    refine ⟨hpath, ?_⟩
    rintro h f c n task rfl rfl hn ht
    exact hpath _ (resolvePath_of_arm hn ht)

/-- A file system with one sound, which is not in a sound directory. -/
def straySound (file : String) (hfile : file.utf8ByteSize < pathMax) : FileSystem where
  pathExists path := path = file
  fromPath path := if path = file then some hornSound else none
  pathFits := by
    intro path hp
    obtain rfl : path = file := by simpa using hp
    exact hfile

/-- A name that goes up, and a name that is an absolute path, are resolved to files elsewhere; an Arm
with the name spawns a trigger for the file. -/
theorem strayed_ids_are_resolved :
    let lib := SoundLibrary.fromEnv fun _ => none
    let up := straySound "/usr/share/helm/sounds/../../../../tmp/x.wav" (by decide)
    let absolute := straySound "/tmp/x.wav" (by decide)
    (∃ path, lib.resolvePath up "builtin:../../../../tmp/x" = .ok path ∧
      ¬ lib.Confined "builtin:../../../../tmp/x" path) ∧
    (∃ path, lib.resolvePath absolute "custom:/tmp/x" = .ok path ∧ ¬ lib.Confined "custom:/tmp/x" path) ∧
    ((Control.new (fun _ => none) ⟨.disarmed, {}⟩).handle ⟨absolute, ⟨1000, by decide⟩, 0⟩ .none
      (.arm "custom:/tmp/x")).2.tasks = [⟨⟨"custom:/tmp/x", "/tmp/x.wav", 3000, 4000⟩, 3000, .sleeping⟩] := by
  intro lib up absolute
  refine ⟨⟨"/usr/share/helm/sounds/../../../../tmp/x.wav", by decide, ?_⟩, ⟨"/tmp/x.wav", by decide, ?_⟩, by decide⟩
  · rw [SoundLibrary.confined_iff_of_mem_candidates (by decide)]
    decide
  · rw [SoundLibrary.confined_iff_of_mem_candidates (by decide)]
    decide

end HelmAlarm.Ipc
