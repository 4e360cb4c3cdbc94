import Sceau.Vex.Files

/-!
# The names of statement files

What a statement file is, is said of names: the extension is `json`, and the name does not begin
with a dot. `load_triaged_from_vex_dir` asks it of paths, and of the strings their parts are, so the
two have to be brought together: the extension is the same either way, the dot is not. A name that
is not UTF-8 is no string, hence has no first character, and the loader reads the file whatever its
first byte. `eligible_join_iff` says so for every name: the loader reads the statement files, and the
strays, and what the modules after this one say of it they say in these two words.
-/

set_option autoImplicit false

namespace Sceau.Vex

open Lib

namespace Path

/-! ## Bytes and strings

`OsStr::to_str` is defined on UTF-8 alone. Where it is defined, the first character is a dot if the
first byte is one. -/

theorem toStr_eq_some_iff {name : List UInt8} {s : String} :
    toStr name = some s ↔ s.toUTF8.data.toList = name := by
  unfold toStr String.fromUTF8?
  constructor
  · intro h
    split at h
    · cases h
      rfl
    · cases h
  · rintro rfl
    rw [dif_pos (show ByteArray.IsValidUTF8 ⟨s.toUTF8.data.toList.toArray⟩ from s.isValidUTF8)]
    rfl

/-- The bytes of an extension are those of `json` if it is that as a string. -/
theorem toStr_eq_json_iff {after : List UInt8} :
    toStr after = some "json" ↔ after = ofString "json" := by
  rw [toStr_eq_some_iff, eq_comm]
  rfl

/-- A character whose encoding begins with the byte of a dot is a dot. -/
theorem head?_utf8EncodeChar (c : Char) :
    (String.utf8EncodeChar c).head? = some dot ↔ c = '.' := by
  have hbyte : ∀ n, UInt8.ofNat n = dot ↔ n % 256 = 46 := by
    intro n
    rw [← UInt8.toNat_inj, UInt8.toNat_ofNat']
    rfl
  have hchar : c = '.' ↔ c.val.toNat = 46 := by
    rw [← Char.val_inj, ← UInt32.toNat_inj]
    rfl
  rw [hchar, String.utf8EncodeChar]
  -- one, two, three or four bytes: the first of several is 192 or more
  split
  · simp only [List.head?_cons, Option.some.injEq, hbyte]
    omega
  split
  · simp only [List.head?_cons, Option.some.injEq, hbyte]
    omega
  split
  · simp only [List.head?_cons, Option.some.injEq, hbyte]
    omega
  · simp only [List.head?_cons, Option.some.injEq, hbyte]
    omega

/-- So for a string and its first byte. -/
theorem head?_toUTF8 (s : String) :
    s.toUTF8.data.toList.head? = some dot ↔ s.toList.head? = some '.' := by
  have hbytes : s.toUTF8.data.toList = s.toList.flatMap String.utf8EncodeChar := by
    obtain ⟨cs, rfl⟩ := s.exists_eq_ofList
    simp [String.toUTF8, List.utf8Encode]
  rw [hbytes]
  cases s.toList with
  | nil => simp
  | cons c cs =>
    rw [List.flatMap_cons, List.head?_append_of_ne_nil _ String.utf8EncodeChar_ne_nil,
      head?_utf8EncodeChar, List.head?_cons, Option.some.injEq]

/-! ## Paths and their parts

The loader takes apart the path `DirEntry::path` has put together. The name comes out as it went in,
and the directory has no part in the extension. -/

theorem fileName_join (dir : Path) (name : FileName) :
    (dir.join name.bytes).fileName = some name.bytes := by
  have hself : name.bytes.splitOn slash = [name.bytes] := List.splitOn_eq_singleton name.noSlash
  -- the name is the last component, whether the directory ends in a slash or not
  have hsplit : ∃ dirs, (dir.join name.bytes).splitOn slash = dirs ++ [name.bytes] := by
    unfold join
    split
    · rename_i hend
      rcases hend with rfl | hend
      · exact ⟨[], hself⟩
      · obtain ⟨d, rfl⟩ := List.getLast?_eq_some_iff.mp hend
        refine ⟨d.splitOn slash, ?_⟩
        rw [List.append_assoc, List.singleton_append, List.splitOn_append_cons_self, hself]
    · refine ⟨dir.splitOn slash, ?_⟩
      rw [List.splitOn_append_cons_self, hself]
  obtain ⟨dirs, hdirs⟩ := hsplit
  have hlast : ((dirs ++ [name.bytes]).filter fun c => c ≠ [] ∧ c ≠ [dot]).getLast? =
      some name.bytes := by
    simp [List.filter_append, name.notEmpty, name.notDot]
  rw [fileName, hdirs, hlast]
  exact if_neg name.notDotDot

/-- The directory has no part in the extension. -/
theorem extension_join (dir : Path) (name : FileName) :
    (dir.join name.bytes).extension = extension name.bytes := by
  have hself : fileName name.bytes = some name.bytes := fileName_join [] name
  rw [extension, extension, fileName_join, hself]

theorem join_injective (dir : Path) {name name' : FileName}
    (h : dir.join name.bytes = dir.join name'.bytes) : name = name' := by
  unfold join at h
  split at h
  · exact FileName.ext (List.append_cancel_left h)
  · exact FileName.ext (List.cons.inj (List.append_cancel_left h)).2

end Path

/-! ## What the loader reads -/

namespace FileName

variable (name : FileName)

/-- A statement file: the extension is `json`, and the name does not begin with a dot. -/
def IsStatement : Prop :=
  Path.extension name.bytes = some (Path.ofString "json") ∧ name.bytes.head? ≠ some Path.dot

/-- A sidecar by its dot, in a name that is not UTF-8. -/
def IsStray : Prop :=
  Path.extension name.bytes = some (Path.ofString "json") ∧
    name.bytes.head? = some Path.dot ∧ Path.toStr name.bytes = none

instance : Decidable name.IsStatement := inferInstanceAs (Decidable (_ ∧ _))

instance : Decidable name.IsStray := inferInstanceAs (Decidable (_ ∧ _ ∧ _))

end FileName

/-- **Which files the loader reads**: the statement files, and strays. -/
theorem eligible_join_iff (dir : Path) (name : FileName) :
    eligible (dir.join name.bytes) = true ↔ name.IsStatement ∨ name.IsStray := by
  have hext : (dir.join name.bytes).extension.bind Path.toStr = some "json" ↔
      Path.extension name.bytes = some (Path.ofString "json") := by
    rw [Path.extension_join]
    cases Path.extension name.bytes with
    | none => simp
    | some after => rw [Option.bind_some, Path.toStr_eq_json_iff, Option.some.injEq]
  have hdot : ((Path.toStr name.bytes).any fun n => n.toList.head? = some '.') = true ↔
      name.bytes.head? = some Path.dot ∧ Path.toStr name.bytes ≠ none := by
    cases hstr : Path.toStr name.bytes with
    | none => simp
    | some s =>
      have hhead := Path.head?_toUTF8 s
      rw [Path.toStr_eq_some_iff.mp hstr] at hhead
      simp [hhead]
  rw [eligible, decide_eq_true_eq, hext, Path.fileName_join, Option.bind_some, hdot,
    FileName.IsStatement, FileName.IsStray]
  tauto

theorem FileName.IsStatement.eligible {name : FileName} (h : name.IsStatement) (dir : Path) :
    eligible (dir.join name.bytes) = true :=
  (eligible_join_iff dir name).mpr (.inl h)

/-- `.é.json` in Latin-1. -/
def latinSidecar : FileName := { bytes := [46, 233, 46, 106, 115, 111, 110] }

example : latinSidecar.IsStray := by decide

end Sceau.Vex
