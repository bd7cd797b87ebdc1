import Mathlib.Data.List.DropRight

/-!
# File names and their extensions

A file name is a list of bytes, that may or may not be the UTF-8 encoding of a string
(`OsStr`). Its extension is what follows its last dot, and its stem what precedes it; a
name whose only dot is its first byte has no extension, and neither has `..`. This is
how `Path::file_stem` and `Path::extension` of the Rust standard library read the last
component of a path.

A name is put together again from its stem and its extension, and no other way:
`stem_extension_iff`.
-/

namespace HelmAlarm.Library

/-- A string of the system: its bytes. -/
abbrev OsStr := List UInt8

/-- A list is cut at the last place of an item in one way. -/
theorem append_cons_inj {α : Type*} {xs ys xs' ys' : List α} {a : α} (hys : a ∉ ys) (hys' : a ∉ ys')
    (h : xs ++ a :: ys = xs' ++ a :: ys') : xs = xs' ∧ ys = ys' := by
  rcases List.append_eq_append_iff.mp h with ⟨zs, rfl, hcons⟩ | ⟨zs, rfl, hcons⟩
  · cases zs with
    | nil => exact ⟨(List.append_nil _).symm, (List.cons.inj hcons).2⟩
    | cons z zs =>
      obtain ⟨-, rfl⟩ := List.cons.inj hcons
      exact absurd (List.mem_append_right _ List.mem_cons_self) hys
  · cases zs with
    | nil => exact ⟨List.append_nil _, (List.cons.inj hcons).2.symm⟩
    | cons z zs =>
      obtain ⟨-, rfl⟩ := List.cons.inj hcons
      exact absurd (List.mem_append_right _ List.mem_cons_self) hys'

namespace OsStr

/-- The byte of a dot. -/
def dot : UInt8 := 46

/-- The byte of a separator. -/
def slash : UInt8 := 47

/-- The bytes of a string. -/
def ofStr (s : String) : OsStr := s.toByteArray.data.toList

/-- `OsStr::to_str`: the string whose bytes these are, if there is one. -/
def toStr (name : OsStr) : Option String := String.fromUTF8? ⟨name.toArray⟩

theorem ofStr_append (s t : String) : ofStr (s ++ t) = ofStr s ++ ofStr t := by
  unfold ofStr
  rw [String.toByteArray_append, ByteArray.data_append, Array.toList_append]

theorem ofStr_inj {s t : String} (h : ofStr s = ofStr t) : s = t := by
  unfold ofStr at h
  apply String.toByteArray_inj.mp
  exact ByteArray.ext (Array.toList_inj.mp h)

theorem toStr_ofStr (s : String) : toStr (ofStr s) = some s := by
  have hbytes : (⟨(ofStr s).toArray⟩ : ByteArray) = s.toByteArray := by
    unfold ofStr
    rw [Array.toArray_toList]
  unfold toStr String.fromUTF8?
  simp only [hbytes, dif_pos s.isValidUTF8]
  rfl

theorem eq_ofStr_of_toStr {name : OsStr} {s : String} (h : toStr name = some s) : name = ofStr s := by
  unfold toStr String.fromUTF8? at h
  split at h
  · obtain rfl := Option.some.inj h
    rfl
  · cases h

theorem bind_toStr_eq_some_iff {name : Option OsStr} {s : String} :
    name.bind toStr = some s ↔ name = some (ofStr s) := by
  cases name with
  | none => simp
  | some name =>
    rw [Option.bind_some, Option.some.injEq]
    exact ⟨eq_ofStr_of_toStr, fun h => h ▸ toStr_ofStr s⟩

/-! ### The last dot -/

/-- The byte is not a dot. -/
def notDot (b : UInt8) : Bool := b ≠ dot

theorem notDot_dot : ¬ notDot dot = true := by decide

/-- `rsplit_file_at_dot`: what precedes the last dot, and what follows it. -/
def rsplitFileAtDot (name : OsStr) : Option OsStr × Option OsStr :=
  if name = [dot, dot] then (some name, none)
  else
    let after := name.rtakeWhile notDot
    let before := if dot ∈ name then some (name.rdropWhile notDot).dropLast else none
    if before = some [] then (some name, none) else (before, some after)

/-- `Path::file_stem`, of the last component of a path. -/
def fileStem (name : OsStr) : Option OsStr := (rsplitFileAtDot name).1.or (rsplitFileAtDot name).2

/-- `Path::extension`, of the last component of a path. -/
def extension (name : OsStr) : Option OsStr := (rsplitFileAtDot name).1.bind fun _ => (rsplitFileAtDot name).2

variable {name stem ext : OsStr}

/-- A name is taken apart at its last dot. -/
theorem split_lastDot (h : dot ∈ name) :
    name = (name.rdropWhile notDot).dropLast ++ dot :: name.rtakeWhile notDot ∧ dot ∉ name.rtakeWhile notDot := by
  have hne : name.rdropWhile notDot ≠ [] := fun hnil => notDot_dot (List.rdropWhile_eq_nil_iff.mp hnil dot h)
  have hlast : (name.rdropWhile notDot).getLast hne = dot := by
    simpa [notDot] using List.rdropWhile_last_not _ _ hne
  refine ⟨?_, fun hmem => notDot_dot (List.mem_rtakeWhile_imp hmem)⟩
  conv_lhs => rw [← List.rdropWhile_append_rtakeWhile (p := notDot) (l := name),
    ← List.dropLast_append_getLast hne, hlast, List.append_assoc, List.singleton_append]

/-- What is put together around a dot is taken apart there, if no dot follows. -/
theorem takeApart_split (stem : OsStr) (hext : dot ∉ ext) : (stem ++ dot :: ext).rtakeWhile notDot = ext ∧
    ((stem ++ dot :: ext).rdropWhile notDot).dropLast = stem := by
  induction ext using List.reverseRecOn with
  | nil =>
    refine ⟨List.rtakeWhile_concat_neg _ _ _ notDot_dot, ?_⟩
    rw [List.rdropWhile_concat_neg _ _ _ notDot_dot, List.dropLast_concat]
  | append_singleton ext b ih =>
    rw [List.mem_append, not_or, List.mem_singleton] at hext
    have hb : notDot b = true := by simpa [notDot] using Ne.symm hext.2
    obtain ⟨hafter, hbefore⟩ := ih hext.1
    have happend : stem ++ dot :: (ext ++ [b]) = (stem ++ dot :: ext) ++ [b] := by simp
    rw [happend, List.rtakeWhile_concat_pos _ _ _ hb, List.rdropWhile_concat_pos _ _ _ hb]
    exact ⟨by rw [hafter], hbefore⟩

/-- A name is put together again from its stem and its extension, and no other way. -/
theorem stem_extension_iff : fileStem name = some stem ∧ extension name = some ext ↔
    name = stem ++ dot :: ext ∧ dot ∉ ext ∧ stem ≠ [] ∧ name ≠ [dot, dot] := by
  unfold fileStem extension rsplitFileAtDot
  by_cases hdots : name = [dot, dot]
  · rw [if_pos hdots]
    constructor
    · intro h
      cases h.2
    · intro h
      exact absurd hdots h.2.2.2
  rw [if_neg hdots]
  by_cases hdot : dot ∈ name
  · obtain ⟨hsplit, hafter⟩ := split_lastDot hdot
    simp only [if_pos hdot, Option.some.injEq]
    by_cases hempty : (name.rdropWhile notDot).dropLast = []
    · -- the only dot is the first byte
      rw [if_pos hempty]
      constructor
      · intro h
        cases h.2
      · intro h
        obtain ⟨hname, hext, hstem, -⟩ := h
        rw [hname, (takeApart_split stem hext).2] at hempty
        exact absurd hempty hstem
    · rw [if_neg hempty]
      simp only [Option.some_or, Option.bind_some, Option.some.injEq]
      constructor
      · intro h
        obtain ⟨hstem, hext⟩ := h
        rw [hstem, hext] at hsplit
        rw [hext] at hafter
        exact ⟨hsplit, hafter, hstem ▸ hempty, hdots⟩
      · intro h
        obtain ⟨hname, hext, -⟩ := h
        obtain ⟨htake, hdrop⟩ := takeApart_split stem hext
        rw [← hname] at htake hdrop
        exact ⟨hdrop, htake⟩
  · simp only [if_neg hdot, reduceCtorEq, if_false]
    constructor
    · intro h
      cases h.2
    · intro h
      exact absurd (h.1 ▸ List.mem_append_right _ List.mem_cons_self) hdot

end OsStr

end HelmAlarm.Library
