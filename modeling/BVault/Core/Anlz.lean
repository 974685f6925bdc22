import BVault.Core.DeviceSql
import BVault.Core.Track
import BVault.Lib.Hex

/-!
# ANLZ file generation (.DAT, .EXT, .2EX)

Big-endian files of tagged sections. Every section begins with its tag, the
length of its own header and its total length; the generators are written field
by field in the order of the source. They never fail.
-/

namespace BVault.Core

open Bytes

def PMAI_TAG : Bytes := [0x50, 0x4D, 0x41, 0x49]

def PQTZ_TAG : Bytes := [0x50, 0x51, 0x54, 0x5A]

def PWAV_TAG : Bytes := [0x50, 0x57, 0x41, 0x56]

def PWV2_TAG : Bytes := [0x50, 0x57, 0x56, 0x32]

def PWV3_TAG : Bytes := [0x50, 0x57, 0x56, 0x33]

def PWV4_TAG : Bytes := [0x50, 0x57, 0x56, 0x34]

def PWV5_TAG : Bytes := [0x50, 0x57, 0x56, 0x35]

def PWV6_TAG : Bytes := [0x50, 0x57, 0x56, 0x36]

def PWV7_TAG : Bytes := [0x50, 0x57, 0x56, 0x37]

def PWVC_TAG : Bytes := [0x50, 0x57, 0x56, 0x43]

def PPTH_TAG : Bytes := [0x50, 0x50, 0x54, 0x48]

def PVBR_TAG : Bytes := [0x50, 0x56, 0x42, 0x52]

def PCOB_TAG : Bytes := [0x50, 0x43, 0x4F, 0x42]

def PCO2_TAG : Bytes := [0x50, 0x43, 0x4F, 0x32]

/-- Entry marker `PCP\x01` of a basic cue list. -/
def PCP1_TAG : Bytes := [0x50, 0x43, 0x50, 0x01]

/-- Entry marker `PCP2` of an extended cue list. -/
def PCP2_TAG : Bytes := [0x50, 0x43, 0x50, 0x32]

/-- The three fields every section begins with: tag, `len_header`, `len_tag`. -/
def tagHeader (fourcc : Bytes) (lenHeader lenTag : Nat) : Bytes :=
  fourcc ++ beBytes 4 lenHeader ++ beBytes 4 lenTag

/-- The 28-byte PMAI file header. -/
def writePmaiHeader (totalSize : Nat) : Bytes :=
  tagHeader PMAI_TAG 28 totalSize ++ beBytes 4 0x00000001 ++ beBytes 4 0x00010000 ++
    beBytes 4 0x00010000 ++ beBytes 4 0x00000000

/-- The path as NUL-terminated UTF-16BE, with its length in bytes. -/
def generatePpthSection (filePath : String) : Bytes :=
  let pathUtf16 := utf16 filePath ++ [0]
  let pathBytesLen := pathUtf16.length * 2
  tagHeader PPTH_TAG 16 (16 + pathBytesLen) ++ beBytes 4 pathBytesLen ++
    pathUtf16.flatMap (beBytes 2)

/-- `file_size_bytes.saturating_mul(i) / 400`, cut to 32 bits by the word it is written to. -/
def seekPoint (fileSizeBytes : UInt64) (i : Nat) : Nat :=
  min (fileSizeBytes.toNat * i) (2 ^ 64 - 1) / 400

def generatePvbrSection (fileSizeBytes totalSamples : UInt64) : Bytes :=
  tagHeader PVBR_TAG 16 1620 ++ beBytes 4 0 ++
    (List.range 400).flatMap (fun i => beBytes 4 (seekPoint fileSizeBytes i)) ++
    beBytes 4 totalSamples.toNat

/-- Beat number, tempo and whole milliseconds. -/
def beatEntry (beat : Beat) : Bytes :=
  beBytes 2 beat.beatNumber.toNat ++ beBytes 2 beat.tempo100.toNat ++
    beBytes 4 beat.timeMs.toUInt32.toNat

def generatePqtzSection (beatGrid : BeatGrid) : Bytes :=
  let beatDataLen := beatGrid.beats.length * 8
  tagHeader PQTZ_TAG 24 (24 + beatDataLen) ++ beBytes 4 0 ++ beBytes 4 0x00080000 ++
    beBytes 4 beatGrid.beats.length ++ beatGrid.beats.flatMap beatEntry

/-- The byte of a preview column; 0 behind the last column. -/
def previewByte (preview : List WaveformColumn) (i : Nat) : UInt8 :=
  match preview[i]? with
  | some column => column.toByte
  | none => 0

def generatePwavSection (preview : List WaveformColumn) : Bytes :=
  tagHeader PWAV_TAG 20 (20 + 400) ++ beBytes 4 400 ++ beBytes 4 0x00010000 ++
    (List.range 400).map (previewByte preview)

/-- The largest byte over a group of four source columns. -/
def peakOf (preview : List WaveformColumn) (i : Nat) : UInt8 :=
  (List.range 4).foldl
    (fun peak j => if peak < previewByte preview (i * 4 + j) then previewByte preview (i * 4 + j)
      else peak) 0

def generatePwv2Section (preview : List WaveformColumn) : Bytes :=
  tagHeader PWV2_TAG 20 (20 + 100) ++ beBytes 4 100 ++ beBytes 4 0x00010000 ++
    (List.range 100).map (peakOf preview)

/-- Bits 15-13 red, 12-10 green, 9-7 blue, 6-2 height. -/
def WaveformColorEntry.toBytes (e : WaveformColorEntry) : Bytes :=
  let value : UInt16 := ((e.red.toUInt16 &&& 0x07) <<< 13) ||| ((e.green.toUInt16 &&& 0x07) <<< 10)
    ||| ((e.blue.toUInt16 &&& 0x07) <<< 7) ||| ((e.height.toUInt16 &&& 0x1F) <<< 2)
  beBytes 2 value.toNat

def generatePwv5Section (detail : List WaveformColorEntry) : Bytes :=
  let dataSize := detail.length * 2
  tagHeader PWV5_TAG 24 (24 + dataSize) ++ beBytes 4 2 ++ beBytes 4 detail.length ++
    beBytes 4 0x00960305 ++ detail.flatMap WaveformColorEntry.toBytes

/-- The mean of the bands as whiteness, over the height. -/
def monochromeByte (e : WaveformColorEntry) : UInt8 :=
  let whiteness := min (UInt8.ofNat ((e.red.toNat + e.green.toNat + e.blue.toNat) / 3)) 7
  (whiteness <<< 5) ||| (e.height &&& 0x1F)

def generatePwv3Section (detail : List WaveformColorEntry) : Bytes :=
  tagHeader PWV3_TAG 24 (24 + detail.length) ++ beBytes 4 1 ++ beBytes 4 detail.length ++
    beBytes 4 0x00960000 ++ detail.map monochromeByte

/-- Low, mid and high bands of a column; zeros behind the last column. -/
def bandBytes (colorPreview : List WaveformColorPreviewColumn) (i : Nat) : Bytes :=
  match colorPreview[i]? with
  | some c => [c.blue &&& 0x7F, c.red &&& 0x7F, c.green &&& 0x7F]
  | none => [0, 0, 0]

def generatePwv6Section (colorPreview : List WaveformColorPreviewColumn) : Bytes :=
  let dataSize := 1200 * 3
  tagHeader PWV6_TAG 20 (20 + dataSize) ++ beBytes 4 3 ++ beBytes 4 1200 ++
    (List.range 1200).flatMap (bandBytes colorPreview)

/-- A 3-bit band scaled by the 5-bit height. -/
def scaleBand (e : WaveformColorEntry) (ch : UInt8) : UInt8 :=
  UInt8.ofNat (min ((ch &&& 0x07).toNat * (e.height &&& 0x1F).toNat * 127 / (7 * 31)) 127)

def generatePwv7Section (detail : List WaveformColorEntry) : Bytes :=
  let dataSize := detail.length * 3
  tagHeader PWV7_TAG 24 (24 + dataSize) ++ beBytes 4 3 ++ beBytes 4 detail.length ++
    beBytes 4 0x00960000 ++
    detail.flatMap (fun e => [scaleBand e e.red, scaleBand e e.green, scaleBand e e.blue])

def generatePwvcSection : Bytes :=
  tagHeader PWVC_TAG 14 20 ++ beBytes 2 0 ++ beBytes 2 100 ++ beBytes 2 100 ++ beBytes 2 100

/-- The six bytes of a colour column; zeros behind the last column. -/
def colorBytes (colorPreview : List WaveformColorPreviewColumn) (i : Nat) : Bytes :=
  match colorPreview[i]? with
  | some c => c.toBytes
  | none => [0, 0, 0, 0, 0, 0]

def generatePwv4Section (colorPreview : List WaveformColorPreviewColumn) : Bytes :=
  let dataSize := 1200 * 6
  tagHeader PWV4_TAG 24 (24 + dataSize) ++ beBytes 4 6 ++ beBytes 4 1200 ++ beBytes 4 0 ++
    (List.range 1200).flatMap (colorBytes colorPreview)

/-- An empty PCOB tag. -/
def generatePcobEmpty (cueType : Nat) : Bytes :=
  tagHeader PCOB_TAG 24 24 ++ beBytes 4 cueType ++ beBytes 2 0 ++ beBytes 2 0 ++
    beBytes 4 0xffffffff

/-- An empty PCO2 tag. -/
def generatePco2Empty (cueType : Nat) : Bytes :=
  tagHeader PCO2_TAG 20 20 ++ beBytes 4 cueType ++ beBytes 2 0 ++ beBytes 2 0

/-- Loop end in milliseconds, `0xFFFFFFFF` if not a loop. -/
def loopEnd (cue : CuePoint) : Nat :=
  if cue.loopMs > 0.0 then (cue.timeMs + cue.loopMs).toUInt32.toNat else 0xFFFFFFFF

def pcobStatus : CueType → Nat
  | .cue => 0
  | .fadeIn => 1
  | .fadeOut => 2
  | .load => 3
  | .loop => 4

def pcobEntrySize : Nat := 24

def pcobEntry (cue : CuePoint) : Bytes :=
  PCP1_TAG ++ beBytes 4 (pcobEntrySize - 4) ++ beBytes 4 cue.hotCue.toNat ++
    beBytes 4 (pcobStatus cue.cueType) ++ beBytes 4 cue.timeMs.toUInt32.toNat ++
    beBytes 4 (loopEnd cue)

/-- The basic cue list; its type field is 1 whatever cues it is given. -/
def generatePcobSection (cuePoints : List CuePoint) : Bytes :=
  let entriesSize := cuePoints.length * pcobEntrySize
  tagHeader PCOB_TAG 24 (24 + entriesSize) ++ beBytes 4 1 ++ beBytes 2 0 ++
    beBytes 2 cuePoints.length ++ beBytes 4 0xffffffff ++ cuePoints.flatMap pcobEntry

def cueTypeByte : CueType → Nat
  | .cue => 1
  | .loop => 2
  | .fadeIn => 3
  | .fadeOut => 4
  | .load => 5

/-- The size an extended entry is taken to have. -/
def pco2EntryLen (isHotCue : Bool) (cue : CuePoint) : Nat :=
  let commentLen := match cue.comment with
    | some c => (utf8 c).length + 4
    | none => 0
  if isHotCue then 56 + commentLen else 40 + commentLen

/-- Length with terminator, text and terminator of a comment, if there is one. -/
def commentBytes (cue : CuePoint) : Bytes :=
  match cue.comment with
  | some comment => beBytes 4 ((utf8 comment).length + 1) ++ utf8 comment ++ [0]
  | none => []

/-- Palette index, RGB values and padding of a hot cue. -/
def colorData (cue : CuePoint) : Bytes :=
  let color := cue.color.getD (HotCueColor.defaultForSlot cue.hotCue)
  [color.paletteIndex, color.red, color.green, color.blue, 0, 0, 0, 0]

def pco2Entry (isHotCue : Bool) (cue : CuePoint) : Bytes :=
  PCP2_TAG ++ beBytes 4 (pco2EntryLen isHotCue cue - 4) ++ beBytes 4 cue.hotCue.toNat ++
    beBytes 4 (cueTypeByte cue.cueType) ++ beBytes 4 cue.timeMs.toUInt32.toNat ++
    beBytes 4 (loopEnd cue) ++ beBytes 4 0 ++ List.replicate 8 0 ++ commentBytes cue ++
    (if isHotCue then colorData cue else [])

/-- An extended cue list of one kind. -/
def generatePco2Entries (cues : List CuePoint) (isHotCue : Bool) : Bytes :=
  let entriesSize := (cues.map (pco2EntryLen isHotCue)).sum
  tagHeader PCO2_TAG (20 - 4) (20 + entriesSize) ++ beBytes 4 (if isHotCue then 1 else 0) ++
    beBytes 2 0 ++ beBytes 2 cues.length ++ cues.flatMap (pco2Entry isHotCue)

def hotCues (cuePoints : List CuePoint) : List CuePoint := cuePoints.filter (fun c => 0 < c.hotCue)

def memoryCues (cuePoints : List CuePoint) : List CuePoint :=
  cuePoints.filter (fun c => c.hotCue = 0)

/-- The extended cue lists of the kinds that occur. -/
def generatePco2Section (cuePoints : List CuePoint) : Bytes :=
  (if hotCues cuePoints = [] then [] else generatePco2Entries (hotCues cuePoints) true) ++
    (if memoryCues cuePoints = [] then [] else generatePco2Entries (memoryCues cuePoints) false)

/-- The file header in front of the sections. -/
def anlzFile (sections : List Bytes) : Bytes :=
  writePmaiHeader (28 + (sections.map List.length).sum) ++ sections.flatten

def generateDatFile (beatGrid : BeatGrid) (waveform : Waveform) (filePath : String)
    (audioFileSize totalSamples : UInt64) : Bytes :=
  anlzFile [generatePpthSection filePath, generatePvbrSection audioFileSize totalSamples,
    generatePqtzSection beatGrid, generatePwavSection waveform.preview,
    generatePwv2Section waveform.preview, generatePcobEmpty 1, generatePcobEmpty 0]

def generateExtFile (waveform : Waveform) (filePath : String) (cuePoints : List CuePoint) :
    Bytes :=
  let pcobHot := if cuePoints.isEmpty then generatePcobEmpty 1 else generatePcobSection cuePoints
  let pco2Hot := if cuePoints.isEmpty then generatePco2Empty 1 else generatePco2Section cuePoints
  anlzFile [generatePpthSection filePath, generatePwv3Section waveform.detail, pcobHot,
    generatePcobEmpty 0, pco2Hot, generatePco2Empty 0, generatePwv5Section waveform.detail,
    generatePwv4Section waveform.colorPreview]

def generate2exFile (waveform : Waveform) (filePath : String) : Bytes :=
  anlzFile [generatePpthSection filePath, generatePwv7Section waveform.detail,
    generatePwv6Section waveform.colorPreview, generatePwvcSection]

/-- `format!("{:0w$}", n)` in the given base, upper case. -/
def padded (base width n : Nat) : String :=
  let digits := (Nat.toDigits base n).map Char.toUpper
  String.ofList (List.replicate (width - digits.length) '0' ++ digits)

theorem upper_isAlphanum : ∀ d < 16, (Nat.digitChar d).toUpper.isAlphanum := by decide

theorem isAlphanum_of_mem_padded {base width n : Nat} (small : base ≤ 16) (big : 1 < base)
    {c : Char} (mem : c ∈ (padded base width n).toList) : c.isAlphanum := by
  rw [padded, String.toList_ofList, List.mem_append, List.mem_map] at mem
  rcases mem with zeros | ⟨digit, written, rfl⟩
  · obtain rfl := List.eq_of_mem_replicate zeros
    decide
  · obtain ⟨d, isDigit, rfl⟩ := Hex.mem_toDigits big written
    exact upper_isAlphanum d (by omega)

/-- The ANLZ directory path for a track: `PIONEER/USBANLZ/Pnnn/xxxxxxxx/ANLZ0000.DAT`. -/
def generateAnlzPath (trackId : UInt32) : String :=
  let dir1 := "P" ++ padded 10 3 (trackId.toNat / 256 % 1000)
  let dir2 := padded 16 8 trackId.toNat
  "PIONEER/USBANLZ/" ++ dir1 ++ "/" ++ dir2 ++ "/ANLZ0000.DAT"

example : generateAnlzPath 0x1234 = "PIONEER/USBANLZ/P018/00001234/ANLZ0000.DAT" := by decide

end BVault.Core
