import Mathlib.Data.List.TakeWhile
import BVault.Core.TrackPaths

/-!
# Track rows

A track row read back: each of its 21 string offsets leads to the string that
the slot is for, the strings follow each other up to the row's end, and ids and
audio properties stand at their offsets.
-/

namespace BVault.Core

open Bytes

namespace Reader

/-- The string offsets begin behind the fixed fields. -/
def stringOffset (row : Bytes) (k : Nat) : Nat := readLE row (0x5E + k * 2) 2

/-- Where a string ends: at the next one, or with the row. -/
def stringEnd (row : Bytes) (k : Nat) : Nat :=
  if k + 1 < 21 then stringOffset row (k + 1) else row.length

def trackSampleRate (row : Bytes) : Nat := readLE row 0x08 4

def trackBitrate (row : Bytes) : Nat := readLE row 0x30 4

def trackNumber (row : Bytes) : Nat := readLE row 0x34 4

def trackYear (row : Bytes) : Nat := readLE row 0x50 2

def trackBitDepth (row : Bytes) : Nat := readLE row 0x52 2

end Reader

/-- The last component of a path. -/
def LastComponent (path name : String) : Prop :=
  '/' ∉ name.toList ∧ (path = name ∨ ∃ parent, path = parent ++ "/" ++ name)

/-- A text without the slashes at its start. -/
def WithoutLeadingSlashes (s t : String) : Prop :=
  t.toList.head? ≠ some '/' ∧ ∃ slashes : String, (∀ c ∈ slashes.toList, c = '/') ∧ s = slashes ++ t

/-- The texts that belong into the 21 slots. -/
structure IntendedTexts (track : TrackInfo) (text : Nat → String) : Prop where
  releaseDate : text 11 =
    match track.analysis.year with
    | some y => toString y.toNat ++ "-01-01"
    | none => ""
  analyzePath : ∃ path, WithoutLeadingSlashes track.analyzePath path ∧ text 14 = "/" ++ path
  comment : text 16 = track.analysis.comment.getD ""
  title : text 17 = track.analysis.title
  fileName : LastComponent track.analysis.filePath (text 19)
  filePath : text 20 = track.analysis.filePath
  empty : ∀ k, k ∉ [11, 14, 16, 17, 19, 20] → text k = ""

theorem lastComponent_fileName (path : String) : LastComponent path (fileName path) := by
  have parts : path.toList = (path.toList.reverse.dropWhile (· ≠ '/')).reverse ++
      (path.toList.reverse.takeWhile (· ≠ '/')).reverse := by
    rw [← List.reverse_append, List.takeWhile_append_dropWhile, List.reverse_reverse]
  constructor
  · intro mem
    rw [fileName, String.toList_ofList, List.mem_reverse] at mem
    have plain := List.mem_takeWhile_imp mem
    simp at plain
  · cases rest : path.toList.reverse.dropWhile (· ≠ '/') with
    | nil =>
      left
      rw [rest, List.reverse_nil, List.nil_append] at parts
      rw [fileName, ← parts, String.ofList_toList]
    | cons c chars =>
      right
      have slash := List.head_dropWhile_not (p := (· ≠ '/')) (l := path.toList.reverse)
        (by rw [rest]; exact List.cons_ne_nil c chars)
      simp only [rest, List.head_cons] at slash
      obtain rfl : c = '/' := by simpa using slash
      refine ⟨String.ofList chars.reverse, ?_⟩
      rw [← String.toList_inj, parts, rest, fileName]
      simp

theorem withoutLeadingSlashes_trimStart (s : String) :
    WithoutLeadingSlashes s (trimStartSlashes s) := by
  constructor
  · rw [trimStartSlashes, String.toList_ofList]
    intro slash
    have plain := List.head?_dropWhile_not (· = '/') s.toList
    rw [slash] at plain
    simp at plain
  · refine ⟨String.ofList (s.toList.takeWhile (· = '/')), ?_, ?_⟩
    · intro c mem
      rw [String.toList_ofList] at mem
      simpa using List.mem_takeWhile_imp mem
    · rw [← String.toList_inj, trimStartSlashes, String.toList_append, String.toList_ofList,
        String.toList_ofList, List.takeWhile_append_dropWhile]

/-- The texts of the row, by their slots. -/
def trackText (track : TrackInfo) : Nat → String
  | 11 => (track.analysis.year.map (fun y => toString y.toNat ++ "-01-01")).getD ""
  | 14 => "/" ++ trimStartSlashes track.analyzePath
  | 16 => track.analysis.comment.getD ""
  | 17 => track.analysis.title
  | 19 => fileName track.analysis.filePath
  | 20 => track.analysis.filePath
  | _ => ""

theorem trackStrings_eq (track : TrackInfo) :
    trackStrings track = (List.range 21).map (fun k => encodeString (trackText track k)) := rfl

theorem intended_trackText (track : TrackInfo) : IntendedTexts track (trackText track) where
  releaseDate := by
    rw [trackText]
    cases track.analysis.year with
    | none => rfl
    | some y => rfl
  analyzePath := ⟨_, withoutLeadingSlashes_trimStart track.analyzePath, rfl⟩
  comment := rfl
  title := rfl
  fileName := lastComponent_fileName track.analysis.filePath
  filePath := rfl
  empty := by
    intro k other
    rw [trackText.eq_def]
    split <;> simp at other ⊢

/-- The ids are `u32`. -/
structure TrackInfo.Typed (track : TrackInfo) : Prop where
  artist : track.artistId < 2 ^ 32
  album : track.albumId < 2 ^ 32
  genre : track.genreId < 2 ^ 32
  label : track.labelId < 2 ^ 32
  key : track.keyId < 2 ^ 32
  artwork : track.artworkId < 2 ^ 32

/-- The row is read back: the strings where the offsets point, one behind the other from the
offsets' end to the row's end, and the fixed fields. -/
structure TrackRowReads (track : TrackInfo) (row : Bytes) : Prop where
  first : Reader.stringOffset row 0 = 0x5E + 21 * 2
  strings : ∃ text, IntendedTexts track text ∧ ∀ k < 21,
    Reader.stringOffset row k < row.length ∧
      decodeString (row.drop (Reader.stringOffset row k)) =
        some (text k, row.drop (Reader.stringEnd row k))
  id : Reader.trackId row = track.analysis.id.toNat
  artistId : Reader.trackArtist row = track.artistId
  albumId : Reader.trackAlbum row = track.albumId
  genreId : Reader.trackGenre row = track.genreId
  labelId : Reader.trackLabel row = track.labelId
  keyId : Reader.trackKey row = track.keyId
  artworkId : Reader.trackArtwork row = track.artworkId
  sampleRate : Reader.trackSampleRate row = track.analysis.sampleRate.toNat
  bitrate : Reader.trackBitrate row = track.analysis.bitrate.toNat
  trackNumber : Reader.trackNumber row = (track.analysis.trackNumber.getD 0).toNat
  year : Reader.trackYear row = (track.analysis.year.getD 0).toNat
  bitDepth : Reader.trackBitDepth row = track.analysis.bitDepth.toNat

section
variable {track : TrackInfo} (fits : (buildTrackRow track).length ≤ 65535)
include fits

theorem stringOffset_eq {k : Nat} (inside : k < 21) :
    Reader.stringOffset (buildTrackRow track) k =
      HEADER_SIZE + (((trackStrings track).take k).map List.length).sum := by
  have here : (trackStrings track)[k]? = some (trackStrings track)[k] :=
    List.getElem?_eq_getElem inside
  exact readLE_offset (List.prefix_refl _) fits here

/-- Behind a string come the strings after it, and behind the last one nothing. -/
theorem drop_stringEnd {k : Nat} (inside : k < 21) :
    (buildTrackRow track).drop (Reader.stringEnd (buildTrackRow track) k) =
      ((trackStrings track).drop (k + 1)).flatten := by
  rw [Reader.stringEnd]
  split
  · rename_i more
    rw [stringOffset_eq fits more]
    exact drop_strings track (k + 1)
  · have last : (trackStrings track).length ≤ k + 1 := by
      have count : (trackStrings track).length = 21 := rfl
      omega
    rw [List.drop_length, List.drop_eq_nil_of_le last]
    rfl

theorem decodeString_stringOffset {k : Nat} (inside : k < 21) :
    decodeString ((buildTrackRow track).drop (Reader.stringOffset (buildTrackRow track) k)) =
      some (trackText track k,
        (buildTrackRow track).drop (Reader.stringEnd (buildTrackRow track) k)) := by
  have here : (trackStrings track)[k]? = some (encodeString (trackText track k)) := by
    rw [trackStrings_eq, List.getElem?_map, List.getElem?_range inside]
    rfl
  obtain ⟨rest, whole, decoded⟩ := decodeString_offset (List.prefix_refl _) fits here
  obtain rfl : rest = [] := List.append_right_eq_self.mp whole
  rw [List.append_nil, ← drop_stringEnd fits inside] at decoded
  exact decoded

/-- No string is beyond the row's end: an encoding has one byte at least. -/
theorem stringOffset_lt {k : Nat} (inside : k < 21) :
    Reader.stringOffset (buildTrackRow track) k < (buildTrackRow track).length := by
  by_contra outside
  have decoded := decodeString_stringOffset fits inside
  rw [List.drop_eq_nil_of_le (by omega)] at decoded
  cases decoded

/-- Every track whose row is of at most 65535 bytes is read back from it. -/
theorem trackRow_reads (typed : track.Typed) : TrackRowReads track (buildTrackRow track) := by
  have front : buildTrackRow track <+: buildTrackRow track := List.prefix_refl _
  constructor
  · exact stringOffset_eq fits (by decide)
  · refine ⟨_, intended_trackText track, ?_⟩
    intro k inside
    exact ⟨stringOffset_lt fits inside, decodeString_stringOffset fits inside⟩
  · exact track_id front
  · exact track_artist front typed.artist
  · exact track_album front typed.album
  · exact track_genre front typed.genre
  · exact track_label front typed.label
  · exact track_key front typed.key
  · exact track_artwork front typed.artwork
  · exact track_word front 3 0x08 rfl (by simp [trackFields]) track.analysis.sampleRate.toNat_lt
  · exact track_word front 14 0x30 rfl (by simp [trackFields]) track.analysis.bitrate.toNat_lt
  · exact track_word front 15 0x34 rfl (by simp [trackFields]) (UInt32.toNat_lt _)
  · exact track_word front 23 0x50 rfl (by simp [trackFields]) (UInt16.toNat_lt _)
  · exact track_word front 24 0x52 rfl (by simp [trackFields]) track.analysis.bitDepth.toNat_lt

end

/-- A track with a comment beyond the basic plane. -/
def clefTrack : TrackInfo where
  analysis := { PdbBuilder.fullTrack with comment := some "a𝄞" }
  artistId := 1
  albumId := 2
  genreId := 3
  labelId := 4
  keyId := 5
  artworkId := 0
  analyzePath := "//PIONEER/USBANLZ/P000/00000007/ANLZ0000.DAT"

theorem clefTrack_reads : TrackRowReads clefTrack (buildTrackRow clefTrack) :=
  trackRow_reads (by decide +kernel)
    ⟨by decide, by decide, by decide, by decide, by decide, by decide⟩

end BVault.Core
