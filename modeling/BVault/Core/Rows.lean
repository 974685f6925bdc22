import BVault.Core.DeviceSql
import BVault.Core.Track

/-!
# Rows

The rows of the tables of `export.pdb`, field by field in the order of the
source, and how a player reads the ids and names back out of them.
-/

namespace BVault.Core

open Bytes

/-- Row subtypes for offset size determination. -/
def SUBTYPE_NEAR : Nat := 0x0060

def SUBTYPE_FAR : Nat := 0x0064

def SUBTYPE_TRACK : Nat := 0x0024

/-- Internal track representation. -/
structure TrackInfo where
  analysis : TrackAnalysis
  artistId : Nat
  albumId : Nat
  genreId : Nat
  labelId : Nat
  keyId : Nat
  artworkId : Nat
  analyzePath : String

/-- Playlist information. -/
structure PlaylistInfo where
  id : UInt32
  parentId : UInt32
  name : String
  isFolder : Bool
  sortOrder : Nat
  trackIds : List UInt32

def FIXED_SIZE : Nat := 0x5E

def STRING_COUNT : Nat := 21

def HEADER_SIZE : Nat := FIXED_SIZE + STRING_COUNT * 2

/-- `s.trim_start_matches('/')`. -/
def trimStartSlashes (s : String) : String := String.ofList (s.toList.dropWhile (· = '/'))

/-- `s.split('/').next_back()`; a split has at least one part. -/
def fileName (s : String) : String :=
  String.ofList (s.toList.reverse.takeWhile (· ≠ '/')).reverse

/-- The 21 strings of a track row. -/
def trackStrings (track : TrackInfo) : List Bytes :=
  let analysis := track.analysis
  [encodeIsrc "",
    encodeString "",
    encodeString "",
    encodeString "",
    encodeString "",
    encodeString "",
    encodeString "",
    encodeString "",
    encodeString "",
    encodeString "",
    encodeString "",
    encodeString ((analysis.year.map (fun y => toString y.toNat ++ "-01-01")).getD ""),
    encodeString "",
    encodeString "",
    encodeString ("/" ++ trimStartSlashes track.analyzePath),
    encodeString "",
    encodeString (analysis.comment.getD ""),
    encodeString analysis.title,
    encodeString "",
    encodeString (fileName analysis.filePath),
    encodeString analysis.filePath]

/-- Offsets of strings relative to the row start. -/
def stringOffsets (start : Nat) : List Bytes → List Nat
  | [] => []
  | s :: strings => start :: stringOffsets (start + s.length) strings

/-- The fixed fields of a track row, 0x00 to 0x5D. -/
def trackFields (track : TrackInfo) : List Bytes :=
  let analysis := track.analysis
  [leBytes 2 SUBTYPE_TRACK,
    leBytes 2 0x20,
    leBytes 4 0x000C0700,
    leBytes 4 analysis.sampleRate.toNat,
    leBytes 4 0,
    leBytes 4 analysis.fileSize.toNat,
    leBytes 4 0,
    leBytes 2 0,
    leBytes 2 0,
    leBytes 4 track.artworkId,
    leBytes 4 track.keyId,
    leBytes 4 0,
    leBytes 4 track.labelId,
    leBytes 4 0,
    leBytes 4 analysis.bitrate.toNat,
    leBytes 4 (analysis.trackNumber.getD 0).toNat,
    leBytes 4 (analysis.bpm * 100.0).toUInt32.toNat,
    leBytes 4 track.genreId,
    leBytes 4 track.albumId,
    leBytes 4 track.artistId,
    leBytes 4 analysis.id.toNat,
    leBytes 2 1,
    leBytes 2 0,
    leBytes 2 (analysis.year.getD 0).toNat,
    leBytes 2 analysis.bitDepth.toNat,
    leBytes 2 analysis.durationSecs.toUInt16.toNat,
    leBytes 2 41,
    [0],
    [0],
    leBytes 2 1,
    leBytes 2 0x0003]

def buildTrackRow (track : TrackInfo) : Bytes :=
  let strings := trackStrings track
  (trackFields track).flatten ++ (stringOffsets HEADER_SIZE strings).flatMap (leBytes 2) ++
    strings.flatten

/-- Build a single artist row, with a near or a far offset to the name. -/
def buildArtistRow (id : Nat) (name : String) : Bytes :=
  let nameEncoded := encodeString name
  (if nameEncoded.length ≤ 200 then
    [leBytes 2 SUBTYPE_NEAR, leBytes 2 0, leBytes 4 id, [0x03], [10], nameEncoded]
  else
    [leBytes 2 SUBTYPE_FAR, leBytes 2 0, leBytes 4 id, [0x03], [0], leBytes 2 12,
      nameEncoded]).flatten

/-- Build a single album row, with a near or a far offset to the name. -/
def buildAlbumRow (id artistId : Nat) (name : String) : Bytes :=
  let nameEncoded := encodeString name
  (if nameEncoded.length ≤ 200 then
    [leBytes 2 0x0080, leBytes 2 0, leBytes 4 0, leBytes 4 artistId, leBytes 4 id, leBytes 4 0,
      [0x03], [22], nameEncoded]
  else
    [leBytes 2 0x0084, leBytes 2 0, leBytes 4 0, leBytes 4 artistId, leBytes 4 id, leBytes 4 0,
      [0x03], [0], leBytes 2 24, nameEncoded]).flatten

/-- An id and a string: genre, label and artwork rows. -/
def buildNamedRow (id : Nat) (name : String) : Bytes := leBytes 4 id ++ encodeString name

def buildGenreRow (id : Nat) (name : String) : Bytes := buildNamedRow id name

def buildLabelRow (id : Nat) (name : String) : Bytes := buildNamedRow id name

def buildArtworkRow (id : Nat) (path : String) : Bytes := buildNamedRow id path

def buildKeyRow (id : Nat) (name : String) : Bytes :=
  leBytes 4 id ++ leBytes 4 id ++ encodeString name

def buildColorRow (id : Nat) (name : String) : Bytes :=
  List.replicate 4 0 ++ [UInt8.ofNat id, UInt8.ofNat id] ++ List.replicate 2 0 ++ encodeString name

def buildPlaylistTreeRow (playlist : PlaylistInfo) : Bytes :=
  leBytes 4 playlist.parentId.toNat ++ leBytes 4 0 ++ leBytes 4 playlist.sortOrder ++
    leBytes 4 playlist.id.toNat ++ leBytes 4 (if playlist.isFolder then 1 else 0) ++
    encodeString playlist.name

def buildPlaylistEntryRow (entryIndex trackId playlistId : Nat) : Bytes :=
  leBytes 4 entryIndex ++ leBytes 4 trackId ++ leBytes 4 playlistId

/-- Default colors. -/
def colors : List (Nat × String) :=
  [(1, "Pink"), (2, "Red"), (3, "Orange"), (4, "Yellow"), (5, "Green"), (6, "Aqua"),
    (7, "Blue"), (8, "Purple")]

/-- Column metadata: id, subtype and the bytes of the name. -/
def columnsData : List Bytes :=
  [[1, 0, 128, 0, 144, 18, 0, 0, 250, 255, 71, 0, 69, 0, 78, 0, 82, 0, 69, 0,
      251, 255, 0, 0],  -- GENRE
    [2, 0, 129, 0, 144, 20, 0, 0, 250, 255, 65, 0, 82, 0, 84, 0, 73, 0, 83, 0, 84,
      0, 251, 255],  -- ARTIST
    [3, 0, 130, 0, 144, 18, 0, 0, 250, 255, 65, 0, 76, 0, 66, 0, 85, 0, 77, 0,
      251, 255, 0, 0],  -- ALBUM
    [4, 0, 131, 0, 144, 18, 0, 0, 250, 255, 84, 0, 82, 0, 65, 0, 67, 0, 75, 0,
      251, 255, 0, 0],  -- TRACK
    [5, 0, 133, 0, 144, 14, 0, 0, 250, 255, 66, 0, 80, 0, 77, 0, 251, 255, 0, 0],  -- BPM
    [6, 0, 134, 0, 144, 20, 0, 0, 250, 255, 82, 0, 65, 0, 84, 0, 73, 0, 78, 0, 71,
      0, 251, 255],  -- RATING
    [7, 0, 135, 0, 144, 16, 0, 0, 250, 255, 89, 0, 69, 0, 65, 0, 82, 0, 251, 255],  -- YEAR
    [8, 0, 136, 0, 144, 22, 0, 0, 250, 255, 82, 0, 69, 0, 77, 0, 73, 0, 88, 0, 69,
      0, 82, 0, 251, 255, 0, 0],  -- REMIXER
    [9, 0, 137, 0, 144, 18, 0, 0, 250, 255, 76, 0, 65, 0, 66, 0, 69, 0, 76, 0,
      251, 255, 0, 0],  -- LABEL
    [10, 0, 138, 0, 144, 38, 0, 0, 250, 255, 79, 0, 82, 0, 73, 0, 71, 0, 73, 0,
      78, 0, 65, 0, 76, 0, 32, 0, 65, 0, 82, 0, 84, 0, 73, 0, 83, 0, 84, 0, 251,
      255, 0, 0],  -- ORIGINAL ARTIST
    [11, 0, 139, 0, 144, 14, 0, 0, 250, 255, 75, 0, 69, 0, 89, 0, 251, 255, 0, 0],  -- KEY
    [12, 0, 141, 0, 144, 14, 0, 0, 250, 255, 67, 0, 85, 0, 69, 0, 251, 255, 0, 0],  -- CUE
    [13, 0, 142, 0, 144, 18, 0, 0, 250, 255, 67, 0, 79, 0, 76, 0, 79, 0, 82, 0,
      251, 255, 0, 0],  -- COLOR
    [14, 0, 146, 0, 144, 16, 0, 0, 250, 255, 84, 0, 73, 0, 77, 0, 69, 0, 251, 255],  -- TIME
    [15, 0, 147, 0, 144, 22, 0, 0, 250, 255, 66, 0, 73, 0, 84, 0, 82, 0, 65, 0,
      84, 0, 69, 0, 251, 255, 0, 0],  -- BITRATE
    [16, 0, 148, 0, 144, 26, 0, 0, 250, 255, 70, 0, 73, 0, 76, 0, 69, 0, 32, 0,
      78, 0, 65, 0, 77, 0, 69, 0, 251, 255, 0, 0],  -- FILE NAME
    [17, 0, 132, 0, 144, 24, 0, 0, 250, 255, 80, 0, 76, 0, 65, 0, 89, 0, 76, 0,
      73, 0, 83, 0, 84, 0, 251, 255],  -- PLAYLIST
    [18, 0, 152, 0, 144, 32, 0, 0, 250, 255, 72, 0, 79, 0, 84, 0, 32, 0, 67, 0,
      85, 0, 69, 0, 32, 0, 66, 0, 65, 0, 78, 0, 75, 0, 251, 255],  -- HOT CUE BANK
    [19, 0, 149, 0, 144, 22, 0, 0, 250, 255, 72, 0, 73, 0, 83, 0, 84, 0, 79, 0,
      82, 0, 89, 0, 251, 255, 0, 0],  -- HISTORY
    [20, 0, 145, 0, 144, 20, 0, 0, 250, 255, 83, 0, 69, 0, 65, 0, 82, 0, 67, 0,
      72, 0, 251, 255],  -- SEARCH
    [21, 0, 150, 0, 144, 24, 0, 0, 250, 255, 67, 0, 79, 0, 77, 0, 77, 0, 69, 0,
      78, 0, 84, 0, 83, 0, 251, 255],  -- COMMENTS
    [22, 0, 140, 0, 144, 28, 0, 0, 250, 255, 68, 0, 65, 0, 84, 0, 69, 0, 32, 0,
      65, 0, 68, 0, 68, 0, 69, 0, 68, 0, 251, 255],  -- DATE ADDED
    [23, 0, 151, 0, 144, 34, 0, 0, 250, 255, 68, 0, 74, 0, 32, 0, 80, 0, 76, 0,
      65, 0, 89, 0, 32, 0, 67, 0, 79, 0, 85, 0, 78, 0, 84, 0, 251, 255, 0, 0],  -- DJ PLAY COUNT
    [24, 0, 144, 0, 144, 20, 0, 0, 250, 255, 70, 0, 79, 0, 76, 0, 68, 0, 69, 0,
      82, 0, 251, 255],  -- FOLDER
    [25, 0, 161, 0, 144, 22, 0, 0, 250, 255, 68, 0, 69, 0, 70, 0, 65, 0, 85, 0,
      76, 0, 84, 0, 251, 255, 0, 0],  -- DEFAULT
    [26, 0, 162, 0, 144, 24, 0, 0, 250, 255, 65, 0, 76, 0, 80, 0, 72, 0, 65, 0,
      66, 0, 69, 0, 84, 0, 251, 255],  -- ALPHABET
    [27, 0, 170, 0, 144, 24, 0, 0, 250, 255, 77, 0, 65, 0, 84, 0, 67, 0, 72, 0,
      73, 0, 78, 0, 71, 0, 251, 255]]  -- MATCHING

/-- Four 16-bit words. -/
def wordsRow (u : Nat × Nat × Nat × Nat) : Bytes :=
  leBytes 2 u.1 ++ leBytes 2 u.2.1 ++ leBytes 2 u.2.2.1 ++ leBytes 2 u.2.2.2

/-- Static dataset of table 17. -/
def unknown17Dataset : List (Nat × Nat × Nat × Nat) :=
  [(0x1, 0x1, 0x163, 0x0), (0x5, 0x6, 0x105, 0x0), (0x6, 0x7, 0x163, 0x0), (0x7, 0x8, 0x163, 0x0),
    (0x8, 0x9, 0x163, 0x0), (0x9, 0xa, 0x163, 0x0), (0xa, 0xb, 0x163, 0x0),
    (0xd, 0xf, 0x163, 0x0), (0xe, 0x13, 0x104, 0x0), (0xf, 0x14, 0x106, 0x0),
    (0x10, 0x15, 0x163, 0x0), (0x12, 0x17, 0x163, 0x0), (0x2, 0x2, 0x2, 0x1),
    (0x3, 0x3, 0x3, 0x2), (0x4, 0x4, 0x1, 0x3), (0xb, 0xc, 0x63, 0x4), (0x11, 0x5, 0x63, 0x5),
    (0x13, 0x16, 0x63, 0x6), (0x14, 0x12, 0x63, 0x7), (0x1b, 0x1a, 0x263, 0x8),
    (0x18, 0x11, 0x63, 0x9), (0x16, 0x1b, 0x63, 0xa)]

/-- System mapping data of table 18. -/
def unknown18Data : List (Nat × Nat × Nat × Nat) :=
  [(1, 6, 1, 0), (21, 7, 1, 0), (14, 8, 1, 0), (8, 9, 1, 0), (9, 10, 1, 0), (10, 11, 1, 0),
    (15, 13, 1, 0), (13, 15, 1, 0), (23, 16, 1, 0), (22, 17, 1, 0), (25, 0, 256, 0),
    (26, 1, 512, 0), (2, 2, 768, 0), (3, 3, 1024, 0), (5, 4, 1280, 0), (6, 5, 1536, 0),
    (11, 12, 1792, 0)]

/-- The one row of the history table, 40 bytes. -/
def historyRow : Bytes :=
  [0x80, 0x02,
    0x00, 0x00, 0x00, 0x00, 0x00, 0x00, 0x00, 0x00, 0x00, 0x00,
    0x17,
    0x32, 0x30, 0x32, 0x35, 0x2D, 0x30, 0x31, 0x2D, 0x30, 0x31,  -- 2025-01-01
    0x19, 0x1E,
    0x0B,
    0x31, 0x30, 0x30, 0x30,  -- 1000
    0x03,
    0x00, 0x00, 0x00, 0x00, 0x00, 0x00, 0x00, 0x00, 0x00]

end BVault.Core
