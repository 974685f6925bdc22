import BVault.Core.AnlzDat
import BVault.Core.PdbDictionary
import BVault.Lib.Hex
import BVault.Lib.Pointwise

/-!
# Paths of a track

A track's paths as players find them: in the string table of its row, and in the
PPTH tag that every analysis file begins with. The directory of the analysis
files gives back the id it was made from.
-/

namespace BVault.Core

open Bytes Loops

namespace Reader

/-- A string of a track row, by its place in the offset table. -/
def stringAt (row : Bytes) (k : Nat) : Option String := nameAt row (readLE row (FIXED_SIZE + k * 2) 2)

def trackAnalyzePath (row : Bytes) : Option String := stringAt row 14

def trackFilePath (row : Bytes) : Option String := stringAt row 20

/-- The path in the first tag of an analysis file, if that is PPTH. -/
def ppthPath (file : Bytes) : Option String :=
  if fourcc (file.drop 28) = PPTH_TAG then pathOf (file.drop 28) else none

end Reader

theorem stringOffsets_getElem? {strings : List Bytes} {k : Nat} {s : Bytes}
    (here : strings[k]? = some s) (start : Nat) :
    (stringOffsets start strings)[k]? = some (start + ((strings.take k).map List.length).sum) := by
  induction strings generalizing start k with
  | nil => cases here
  | cons first strings ih =>
    cases k with
    | zero => rfl
    | succ k =>
      rw [List.getElem?_cons_succ] at here
      rw [stringOffsets, List.getElem?_cons_succ, ih here, List.take_succ_cons, List.map_cons,
        List.sum_cons, Nat.add_assoc]

theorem length_stringOffsets (strings : List Bytes) (start : Nat) :
    (stringOffsets start strings).length = strings.length := by
  induction strings generalizing start with
  | nil => rfl
  | cons s strings ih => rw [stringOffsets, List.length_cons, List.length_cons, ih]

/-- The fixed fields and the offsets. -/
def headFields (track : TrackInfo) : List Bytes :=
  trackFields track ++ (stringOffsets HEADER_SIZE (trackStrings track)).map (leBytes 2)

theorem buildTrackRow_eq (track : TrackInfo) :
    buildTrackRow track = (headFields track ++ trackStrings track).flatten := by
  simp only [buildTrackRow, headFields, List.flatten_append, List.flatMap_def]

theorem sum_words (ns : List Nat) : ((ns.map (leBytes 2)).map List.length).sum = ns.length * 2 := by
  induction ns with
  | nil => rfl
  | cons n ns ih =>
    simp only [List.map_cons, List.sum_cons, length_leBytes, List.length_cons] at ih ⊢
    omega

theorem sum_trackFields (track : TrackInfo) :
    ((trackFields track).map List.length).sum = FIXED_SIZE := by
  simp [trackFields, FIXED_SIZE]

theorem sum_headFields (track : TrackInfo) :
    ((headFields track).map List.length).sum = HEADER_SIZE := by
  have strings : (trackStrings track).length = STRING_COUNT := rfl
  rw [headFields, List.map_append, List.sum_append, sum_trackFields, sum_words,
    length_stringOffsets, strings, HEADER_SIZE]

/-- What follows the first strings are the other ones. -/
theorem drop_strings (track : TrackInfo) (k : Nat) :
    (buildTrackRow track).drop
        (HEADER_SIZE + (((trackStrings track).take k).map List.length).sum) =
      ((trackStrings track).drop k).flatten := by
  have length : (headFields track ++ (trackStrings track).take k).flatten.length =
      HEADER_SIZE + (((trackStrings track).take k).map List.length).sum := by
    rw [List.length_flatten, List.map_append, List.sum_append, sum_headFields]
  have row : buildTrackRow track = (headFields track ++ (trackStrings track).take k).flatten ++
      ((trackStrings track).drop k).flatten := by
    rw [← List.flatten_append, List.append_assoc, List.take_append_drop, buildTrackRow_eq]
  rw [row, List.drop_left' length]

section
variable {track : TrackInfo} {k : Nat} {s : Bytes} (here : (trackStrings track)[k]? = some s)
include here

/-- The offset of a string is a field of the row. -/
theorem headFields_offset : (headFields track)[(trackFields track).length + k]? =
    some (leBytes 2 (HEADER_SIZE + (((trackStrings track).take k).map List.length).sum)) := by
  rw [headFields, List.getElem?_append_right (Nat.le_add_right _ _), Nat.add_sub_cancel_left,
    List.getElem?_map, stringOffsets_getElem? here, Option.map_some]

theorem sum_before_offset :
    (((headFields track).take ((trackFields track).length + k)).map List.length).sum =
      FIXED_SIZE + k * 2 := by
  have inside := (List.getElem?_eq_some_iff.mp here).1
  have few : k ≤ (stringOffsets HEADER_SIZE (trackStrings track)).length := by
    rw [length_stringOffsets]
    omega
  rw [headFields, List.take_length_add_append, List.map_append, List.sum_append, sum_trackFields,
    ← List.map_take, sum_words, List.length_take, Nat.min_eq_left few]

theorem strings_split_drop :
    (trackStrings track).drop k = s :: (trackStrings track).drop (k + 1) := by
  obtain ⟨inside, there⟩ := List.getElem?_eq_some_iff.mp here
  rw [← there, ← List.drop_eq_getElem_cons inside]

theorem strings_split : trackStrings track =
    (trackStrings track).take k ++ s :: (trackStrings track).drop (k + 1) := by
  rw [← strings_split_drop here, List.take_append_drop]

theorem length_buildTrackRow : (buildTrackRow track).length =
    HEADER_SIZE + ((((trackStrings track).take k).map List.length).sum +
      (s.length + (((trackStrings track).drop (k + 1)).map List.length).sum)) := by
  have split := congrArg (fun strings => (strings.map List.length).sum) (strings_split here)
  simp only [List.map_append, List.map_cons, List.sum_append, List.sum_cons] at split
  rw [buildTrackRow_eq, List.length_flatten, List.map_append, List.sum_append, sum_headFields,
    split]

end

section
variable {track : TrackInfo} {seen : Bytes} (front : buildTrackRow track <+: seen)
  (fits : (buildTrackRow track).length ≤ 65535)
include front fits

/-- The offsets of the strings are read back: they add up the lengths of the strings before. -/
theorem readLE_offset {k : Nat} {s : Bytes} (here : (trackStrings track)[k]? = some s) :
    readLE seen (FIXED_SIZE + k * 2) 2 =
      HEADER_SIZE + (((trackStrings track).take k).map List.length).sum := by
  obtain ⟨rest, rfl⟩ := front
  rw [length_buildTrackRow here] at fits
  rw [buildTrackRow_eq, List.flatten_append, List.append_assoc]
  exact read_word _ _ _ _ (headFields_offset here) (sum_before_offset here) (by omega)

/-- A string is decoded at its offset, up to the next one. -/
theorem decodeString_offset {k : Nat} {s : String}
    (here : (trackStrings track)[k]? = some (encodeString s)) :
    ∃ rest, buildTrackRow track ++ rest = seen ∧
      decodeString (seen.drop (readLE seen (FIXED_SIZE + k * 2) 2)) =
        some (s, ((trackStrings track).drop (k + 1)).flatten ++ rest) := by
  rw [readLE_offset front fits here]
  obtain ⟨rest, rfl⟩ := front
  refine ⟨rest, rfl, ?_⟩
  rw [length_buildTrackRow here] at fits
  have behind := drop_strings track k
  rw [strings_split_drop here] at behind
  have inside : HEADER_SIZE + (((trackStrings track).take k).map List.length).sum ≤
      (buildTrackRow track).length := by
    rw [length_buildTrackRow here]
    omega
  rw [List.drop_append_of_le_length inside, behind, List.flatten_cons, List.append_assoc,
    decodeString_encodeString (by omega)]

/-- The string is found behind its offset, whatever follows the row. -/
theorem stringAt_front {k : Nat} {s : String}
    (here : (trackStrings track)[k]? = some (encodeString s)) :
    Reader.stringAt seen k = some s := by
  obtain ⟨rest, _, decoded⟩ := decodeString_offset front fits here
  rw [Reader.stringAt, Reader.nameAt, decoded]
  rfl

end

theorem stringAt_found {track : TrackInfo} {seen : Bytes} (found : Found (buildTrackRow track) seen)
    {k : Nat} {s : String} (here : (trackStrings track)[k]? = some (encodeString s)) :
    Reader.stringAt seen k = some s :=
  stringAt_front found.1 (le_trans found.2 (by decide)) here

/-- What the row of a track shows of its id and paths. -/
structure TrackShown (entry : TrackAnalysis × String × Option String) (row : Bytes) : Prop where
  id : Reader.trackId row = entry.1.id.toNat
  filePath : Reader.trackFilePath row = some entry.1.filePath
  analyzePath : Reader.trackAnalyzePath row = some ("/" ++ trimStartSlashes entry.2.1)
  short : (encodeString entry.1.filePath).length ≤ PAGE_SIZE

theorem trackShown_found {track : TrackInfo} {seen : Bytes}
    (found : Found (buildTrackRow track) seen) (artwork : Option String) :
    TrackShown (track.analysis, track.analyzePath, artwork) seen where
  id := track_id found.1
  filePath := stringAt_found found rfl
  analyzePath := stringAt_found found rfl
  short := by
    have total := @length_buildTrackRow track 20 (encodeString track.analysis.filePath) rfl
    have fits := found.2
    show (encodeString track.analysis.filePath).length ≤ PAGE_SIZE
    omega

/-- Whatever was added, the rows of a built file show the tracks in the order of the calls. -/
theorem build_tracksShown {calls : List PdbBuilder.Call} {file : Bytes}
    (built : PdbBuilder.buildAfter calls = .ok file) :
    List.Forall₂ TrackShown (calls.filterMap PdbBuilder.Call.track?) (Reader.tableRows file 0) := by
  obtain ⟨b, ran, built⟩ := of_bind built
  obtain ⟨plan, header, realizes⟩ := PdbBuilder.build_realizes built
  have holds : HoldsTable file 0 (b.rows .tracks) := realizes.holdsTable rfl
  have rows := holds.found
  rw [PdbBuilder.rows, List.forall₂_map_left_iff] at rows
  refine Pointwise.chain (PdbBuilder.run_faithful ran).tracks rows ?_
  rintro ⟨analysis, analyzePath, artwork⟩ track seen refers found
  obtain rfl : track.analysis = analysis := refers.same
  obtain rfl : track.analyzePath = analyzePath := refers.path
  exact trackShown_found found artwork

theorem length_utf16Units_le (c : Char) :
    (utf16Units c).length ≤ (String.utf8EncodeChar c).length := by
  simp only [utf16Units, String.utf8EncodeChar]
  split
  · split
    · simp
    · split
      · simp
      · split <;> simp
  · rename_i large
    have wide : 0xFFFF < c.val.toNat := Nat.lt_of_not_le (fun small => large (Nat.lt_succ_of_le small))
    rw [if_neg (by omega), if_neg (by omega), if_neg (by omega)]
    simp

theorem length_utf16_le_utf8 (s : String) : (utf16 s).length ≤ (utf8 s).length := by
  rw [utf16, utf8, List.length_flatMap, List.length_flatMap]
  exact List.sum_le_sum (fun c _ => length_utf16Units_le c)

/-- A path that fits a row fits a tag. -/
theorem length_utf16_le (s : String) : (utf16 s).length ≤ (encodeString s).length := by
  have bytes := length_utf16_le_utf8 s
  rw [encodeString]
  split
  · rename_i nothing
    have empty : s = "" := by simpa using nothing
    subst empty
    decide
  · split
    · rw [encodeShortAscii, List.length_cons]
      omega
    · split
      · simp only [encodeLongAscii, List.length_append, List.length_cons]
        omega
      · have units : ((utf16 s).flatMap (leBytes 2)).length = (utf16 s).length * 2 :=
          length_flatMap_of_const (fun _ _ => length_leBytes 2 _)
        simp only [encodeUtf16le, List.length_append, List.length_cons, units]
        omega

theorem ppthPath_anlzFile {filePath : String} (fits : (encodeString filePath).length ≤ PAGE_SIZE)
    (sections : List Bytes) :
    Reader.ppthPath (anlzFile (generatePpthSection filePath :: sections)) = some filePath := by
  have units := length_utf16_le filePath
  have data : ((utf16 filePath ++ [0]).flatMap (beBytes 2)).length =
      (utf16 filePath ++ [0]).length * 2 := length_flatMap_of_const (fun _ _ => length_beBytes 2 _)
  have short : (generatePpthSection filePath).length < 2 ^ 32 := by
    rw [PAGE_SIZE] at fits
    have header := fun len => @length_tagHeader PPTH_TAG rfl 16 len
    rw [List.length_append, List.length_singleton] at data
    simp only [generatePpthSection, List.length_append, header, length_beBytes, data,
      List.length_singleton]
    omega
  have name : fourcc (generatePpthSection filePath ++ sections.flatten) = PPTH_TAG := by
    obtain ⟨four, body, eq⟩ := ppth_section filePath
    rw [eq, List.append_assoc]
    exact fourcc_tagHeader four _ _ _
  rw [Reader.ppthPath, drop_anlzFile, List.flatten_cons, if_pos name,
    pathOf_ppth_append short]

theorem length_padded {base width n : Nat} (big : 1 < base) (positive : 0 < width)
    (fits : n < base ^ width) : (padded base width n).toList.length = width := by
  have few := (Nat.length_toDigits_le_iff big positive).mpr fits
  simp only [padded, String.toList_ofList, List.length_append, List.length_replicate,
    List.length_map]
  omega

theorem padded_injective {m n : Nat} (hm : m < 2 ^ 32) (hn : n < 2 ^ 32)
    (same : padded 16 8 m = padded 16 8 n) : m = n := by
  have read (k : Nat) (small : k < 2 ^ 32) :
      Hex.value (2 ^ 32) (padded 16 8 k).toList = some k := by
    rw [padded, String.toList_ofList]
    exact Hex.value_padded Hex.spells_upper small _
  have both := read m hm
  rw [same, read n hn] at both
  exact (Option.some.inj both).symm

/-- The path of the analysis files of a track, without their extensions. -/
def anlzStem (trackId : UInt32) : String :=
  "PIONEER/USBANLZ/P" ++ padded 10 3 (trackId.toNat / 256 % 1000) ++ "/" ++
    padded 16 8 trackId.toNat ++ "/ANLZ0000"

theorem generateAnlzPath_eq (trackId : UInt32) :
    generateAnlzPath trackId = anlzStem trackId ++ ".DAT" := by
  have suffix : "/ANLZ0000.DAT" = "/ANLZ0000" ++ ".DAT" := by decide
  have front : "PIONEER/USBANLZ/P" = "PIONEER/USBANLZ/" ++ "P" := by decide
  unfold generateAnlzPath anlzStem
  rw [front, suffix]
  simp only [String.append_assoc]

theorem length_hundreds (trackId : UInt32) :
    (padded 10 3 (trackId.toNat / 256 % 1000)).toList.length = 3 :=
  length_padded (by decide) (by decide) (by omega)

theorem length_number (trackId : UInt32) : (padded 16 8 trackId.toNat).toList.length = 8 := by
  have small := trackId.toNat_lt
  exact length_padded (by decide) (by decide) (by omega)

theorem length_anlzStem (trackId : UInt32) : (anlzStem trackId).toList.length = 38 := by
  unfold anlzStem
  simp only [String.toList_append, List.length_append]
  rw [length_hundreds, length_number]
  rfl

/-- No two tracks share analysis files. -/
theorem anlzStem_injective {i j : UInt32} (same : anlzStem i = anlzStem j) : i = j := by
  have chars := congrArg String.toList same
  unfold anlzStem at chars
  simp only [String.toList_append] at chars
  have front := (List.append_inj' chars (Eq.refl _)).1
  have number := (List.append_inj' front ((length_number i).trans (length_number j).symm)).2
  have same := padded_injective i.toNat_lt j.toNat_lt (String.toList_inj.mp number)
  exact UInt32.toNat_inj.mp same

theorem anlzStem_append_injective {i j : UInt32} {ext ext' : String}
    (same : anlzStem i ++ ext = anlzStem j ++ ext') : i = j ∧ ext = ext' := by
  have chars := congrArg String.toList same
  simp only [String.toList_append] at chars
  obtain ⟨stems, exts⟩ :=
    List.append_inj chars ((length_anlzStem i).trans (length_anlzStem j).symm)
  exact ⟨anlzStem_injective (String.toList_inj.mp stems), String.toList_inj.mp exts⟩

/-- The path has no slash in front. -/
theorem trimStartSlashes_anlzPath (trackId : UInt32) :
    trimStartSlashes (anlzStem trackId ++ ".DAT") = anlzStem trackId ++ ".DAT" := by
  have letter : "PIONEER/USBANLZ/P".toList = 'P' :: "IONEER/USBANLZ/P".toList := by decide
  rw [← String.toList_inj]
  unfold trimStartSlashes anlzStem
  simp only [String.toList_append, String.toList_ofList, letter, List.cons_append]
  rfl

end BVault.Core
