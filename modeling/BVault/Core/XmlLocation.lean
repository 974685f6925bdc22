import BVault.Core.Xml
import BVault.Lib.Percent

/-!
# The location of a track

`file_uri` writes every byte of a path so that it is read back, in characters
that mean nothing to XML. What it does not keep is which slash a path was written
with, and whether it began with one.
-/

namespace BVault.Core

open Bytes Percent

/-- ASCII letters and digits, and `-` `_` `.` `~` `/` `:` `%`. -/
def LocationChar (c : Char) : Prop :=
  c.isAlphanum = true ∨ c ∈ ['-', '_', '.', '~', '/', ':', '%']

instance (c : Char) : Decidable (LocationChar c) := inferInstanceAs (Decidable (_ ∨ _))

/-- The path with a slash in front. -/
def anchored (path : String) : String :=
  if path.toList.head? = some '/' then path else "/" ++ path

/-- What percent-decoding makes of the part behind `file://localhost`. -/
def locatedPath (location : String) : Option String :=
  if "file://localhost".toList <+: location.toList then
    decodeUtf8 (decode (location.toList.drop "file://localhost".length))
  else none

theorem kept : ∀ n < 256, keep (UInt8.ofNat n) = true →
    n < 128 ∧ (Char.ofNat n).toNat = n ∧ n ≠ 37 ∧ LocationChar (Char.ofNat n) := by
  decide +kernel

theorem padded_byte : ∀ n < 256, '%' :: (padded 16 2 n).toList = escapeByte (UInt8.ofNat n) := by
  decide +kernel

/-- What stands for a byte. -/
def written (b : UInt8) : List Char :=
  if keep b then [Char.ofNat b.toNat] else '%' :: (padded 16 2 b.toNat).toList

theorem written_of_keep {b : UInt8} (keeps : keep b = true) : written b = [Char.ofNat b.toNat] :=
  if_pos keeps

theorem written_of_not_keep {b : UInt8} (escapes : ¬ keep b = true) : written b = escapeByte b := by
  rw [written, if_neg escapes, padded_byte b.toNat b.toNat_lt, UInt8.ofNat_toNat]

theorem toList_percentEncodePath (s : String) :
    (percentEncodePath s).toList = (utf8 s).flatMap written := by
  rw [percentEncodePath, String.toList_ofList]
  rfl

theorem decode_written (b : UInt8) (cs : List Char) : decode (written b ++ cs) = b :: decode cs := by
  by_cases keeps : keep b = true
  · obtain ⟨ascii, same, other, -⟩ := kept b.toNat b.toNat_lt (by rwa [UInt8.ofNat_toNat])
    have percent : Char.ofNat b.toNat ≠ '%' := by
      intro is
      rw [is] at same
      exact other same.symm
    rw [written_of_keep keeps, List.singleton_append, decode_ascii (by rwa [same]) percent, same,
      UInt8.ofNat_toNat]
  · rw [written_of_not_keep keeps]
    exact decode_escapeByte b cs

theorem written_locationChar (b : UInt8) : ∀ c ∈ written b, LocationChar c := by
  intro c mem
  by_cases keeps : keep b = true
  · rw [written_of_keep keeps] at mem
    obtain rfl := List.mem_singleton.mp mem
    exact (kept b.toNat b.toNat_lt (by rwa [UInt8.ofNat_toNat])).2.2.2
  · have digits : ∀ d < 16, LocationChar (Nat.digitChar d).toUpper := by decide
    have small := b.toNat_lt
    rw [written_of_not_keep keeps, escapeByte] at mem
    simp only [List.mem_cons, List.not_mem_nil, or_false] at mem
    rcases mem with rfl | rfl | rfl
    · decide
    · exact digits _ (by omega)
    · exact digits _ (by omega)

/-- The first character of an encoding is a slash if the path begins with one. -/
theorem head_percentEncodePath (s : String) :
    (percentEncodePath s).toList.head? = some '/' ↔ s.toList.head? = some '/' := by
  rw [toList_percentEncodePath, utf8]
  cases s.toList with
  | nil => simp
  | cons c cs =>
    rw [List.flatMap_cons, List.head?_cons, Option.some.injEq]
    by_cases small : c.val.toNat ≤ 0x7f
    · have one : String.utf8EncodeChar c = [UInt8.ofNat c.toNat] := by
        rw [String.utf8EncodeChar, if_pos small]
        rfl
      have size : (UInt8.ofNat c.toNat).toNat = c.toNat := by
        rw [UInt8.toNat_ofNat', Nat.mod_eq_of_lt]
        exact Nat.lt_of_le_of_lt small (by decide)
      rw [one, List.singleton_append, List.flatMap_cons]
      by_cases keeps : keep (UInt8.ofNat c.toNat) = true
      · rw [written_of_keep keeps, size, Char.ofNat_toNat]
        simp
      · have other : c ≠ '/' := by
          rintro rfl
          exact keeps rfl
        rw [written_of_not_keep keeps, escapeByte]
        simp [other]
    · obtain ⟨b, bs, parts, high⟩ := utf8EncodeChar_large small
      have escapes : ¬ keep b = true := by
        intro keeps
        have ascii := (kept b.toNat b.toNat_lt (by rwa [UInt8.ofNat_toNat])).1
        omega
      have other : c ≠ '/' := by
        rintro rfl
        exact small (by decide)
      rw [parts, List.cons_append, List.flatMap_cons, written_of_not_keep escapes, escapeByte]
      simp [other]

theorem fileUri_eq (path : String) :
    fileUri path = "file://localhost" ++ percentEncodePath (anchored (normalised path)) := by
  rw [fileUri, anchored]
  by_cases absolute : (normalised path).toList.head? = some '/'
  · rw [if_pos ((head_percentEncodePath _).mpr absolute), if_pos absolute]
  · rw [if_neg (mt (head_percentEncodePath _).mp absolute), if_neg absolute, ← String.toList_inj]
    simp only [String.toList_append, toList_percentEncodePath, utf8, List.flatMap_append]
    rfl

theorem head_anchored (path : String) : (anchored path).toList.head? = some '/' := by
  rw [anchored]
  split
  · assumption
  · rw [String.toList_append]
    rfl

theorem locatedPath_fileUri (path : String) :
    locatedPath (fileUri path) = some (anchored (normalised path)) := by
  rw [fileUri_eq, locatedPath, String.toList_append, if_pos (List.prefix_append _ _)]
  have behind : ("file://localhost".toList ++
      (percentEncodePath (anchored (normalised path))).toList).drop "file://localhost".length =
        (percentEncodePath (anchored (normalised path))).toList :=
    List.drop_left
  rw [behind, toList_percentEncodePath, decode_flatMap decode_written, decodeUtf8_iff]
  rfl

theorem locationChars (path : String) : ∀ c ∈ (fileUri path).toList, LocationChar c := by
  intro c mem
  rw [fileUri_eq, String.toList_append, List.mem_append, toList_percentEncodePath,
    List.mem_flatMap] at mem
  rcases mem with host | ⟨b, -, mem⟩
  · have plain : "file://localhost".toList.all (fun c => decide (LocationChar c)) = true := by decide
    exact of_decide_eq_true (List.all_eq_true.mp plain c host)
  · exact written_locationChar b c mem

/-- What is written in the characters of a location has nothing to escape. -/
theorem esc_of_locationChars {s : String} (plain : ∀ c ∈ s.toList, LocationChar c) : esc s = s := by
  have each : s.toList.flatMap escChar = s.toList.flatMap fun c => [c] := by
    refine List.flatMap_congr ?_
    intro c mem
    have location := plain c mem
    have amp : c ≠ '&' := by rintro rfl; exact absurd location (by decide)
    have lt : c ≠ '<' := by rintro rfl; exact absurd location (by decide)
    have gt : c ≠ '>' := by rintro rfl; exact absurd location (by decide)
    have quot : c ≠ '"' := by rintro rfl; exact absurd location (by decide)
    have apos : c ≠ '\'' := by rintro rfl; exact absurd location (by decide)
    simp only [escChar, amp, lt, gt, quot, apos, if_false]
  rw [esc, each, List.flatMap_singleton', String.ofList_toList]

/-- A location has only the characters it may have, begins with the host, and leads to the path
up to its slashes; so two paths have one location exactly when they agree so far. -/
theorem fileUri_locates (path : String) :
    (∀ c ∈ (fileUri path).toList, LocationChar c) ∧ esc (fileUri path) = fileUri path ∧
      "file://localhost/".toList <+: (fileUri path).toList ∧
      locatedPath (fileUri path) = some (anchored (normalised path)) ∧
      ∀ other, fileUri other = fileUri path ↔
        anchored (normalised other) = anchored (normalised path) := by
  refine ⟨locationChars path, esc_of_locationChars (locationChars path), ?_,
    locatedPath_fileUri path, ?_⟩
  · obtain ⟨rest, first⟩ := List.head?_eq_some_iff.mp
      ((head_percentEncodePath _).mpr (head_anchored (normalised path)))
    rw [fileUri_eq, String.toList_append, first]
    exact ⟨rest, rfl⟩
  · intro other
    constructor
    · intro same
      have located := locatedPath_fileUri other
      rw [same, locatedPath_fileUri] at located
      exact (Option.some.inj located).symm
    · intro same
      rw [fileUri_eq, fileUri_eq, same]

end BVault.Core
