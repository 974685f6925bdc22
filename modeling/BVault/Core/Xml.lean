import BVault.Analysis.Decode
import BVault.Core.Anlz
import BVault.Lib.Paths
import BVault.Store.Raw

/-!
# rekordbox XML (`DJ_PLAYLISTS`) export

`generate_xml` as it appends to its output, with the escaper of attribute values
and the encoder of file locations. A key outside the twelve pitches is the one
panic. The upper case of a text is the library's table and stands as an argument.
-/

namespace BVault.Core

open Analysis (FileType)

/-- The nearest multiple, a tie to the even one: `n / d` to an integer. -/
def roundHalfEven (n d : Nat) : Nat :=
  if d < 2 * (n % d) ∨ (2 * (n % d) = d ∧ n / d % 2 = 1) then n / d + 1 else n / d

/-- `format!("{x:.digits$}")`, for at least one digit. -/
def fixed (digits : Nat) (x : Float) : String :=
  let bits := x.toBits.toNat
  let exponent := bits / 2 ^ 52 % 2 ^ 11
  let fraction := bits % 2 ^ 52
  let sign := if bits / 2 ^ 63 = 1 then "-" else ""
  if exponent = 2 ^ 11 - 1 then if fraction = 0 then sign ++ "inf" else "NaN"
  else
    -- a subnormal number has no hidden bit and the exponent of the smallest normal one
    let mantissa := if exponent = 0 then fraction else 2 ^ 52 + fraction
    let scale := max exponent 1
    let scaled := roundHalfEven (mantissa * 2 ^ scale * 10 ^ digits) (2 ^ 1075)
    sign ++ toString (scaled / 10 ^ digits) ++ "." ++ padded 10 digits (scaled % 10 ^ digits)

def escChar (c : Char) : List Char :=
  if c = '&' then "&amp;".toList
  else if c = '<' then "&lt;".toList
  else if c = '>' then "&gt;".toList
  else if c = '"' then "&quot;".toList
  else if c = '\'' then "&apos;".toList
  else [c]

/-- XML attribute-value escaping. -/
def esc (s : String) : String := String.ofList (s.toList.flatMap escChar)

/-- ` name="value"` for each attribute of a format string. -/
def attributes (values : List (String × String)) : String :=
  String.join (values.map fun v => " " ++ v.1 ++ "=\"" ++ v.2 ++ "\"")

/-- `music_root` is the text that a path is shown as. -/
def absPath (filePath musicRoot : String) : String :=
  if filePath.toList.head? = some '/' then filePath else Store.join musicRoot filePath

/-- The bytes that `percent_encode_path` leaves as they are. -/
def keep (b : UInt8) : Bool :=
  let c := Char.ofNat b.toNat
  b < 128 && (c.isAlphanum || ['-', '_', '.', '~', '/', ':'].contains c)

def percentEncodePath (s : String) : String :=
  String.ofList ((utf8 s).flatMap fun b =>
    if keep b then [Char.ofNat b.toNat] else '%' :: (padded 16 2 b.toNat).toList)

/-- `abs.replace('\\', "/")`. -/
def normalised (abs : String) : String := abs.map fun c => if c = '\\' then '/' else c

def fileUri (abs : String) : String :=
  let encoded := percentEncodePath (normalised abs)
  if encoded.toList.head? = some '/' then "file://localhost" ++ encoded
  else "file://localhost/" ++ encoded

structure XmlExportOptions where
  productName : String
  productVersion : String
  company : String
  dateAdded : String
  includeCueColors : Bool
  musicRoot : String

/-- A track with the fields that only the XML shows. -/
structure XmlTrack extends TrackAnalysis where
  beatGrid : BeatGrid
  firstBeatMs : Float
  cuePoints : List CuePoint
  fileType : FileType

/-- Names with track ids, in the order in which the hash map yields them. -/
structure PlaylistMap where
  entries : List (String × List UInt32)
  distinct : (entries.map Prod.fst).Nodup

namespace PlaylistMap

/-- The non-empty names, sorted. -/
def names (playlists : PlaylistMap) : List String :=
  ((playlists.entries.map Prod.fst).filter (· ≠ "")).mergeSort (· ≤ ·)

def get (playlists : PlaylistMap) (name : String) : List UInt32 :=
  (playlists.entries.lookup name).getD []

end PlaylistMap

def kindString (toUppercase : String → String) (ft : FileType) (filePath : String) : String :=
  match ft with
  | .mp3 => "MP3 File"
  | .m4a => "M4A File"
  | .flac => "FLAC File"
  | .wav => "WAV File"
  | .aiff => "AIFF File"
  | .unknown =>
    let ext := ((Paths.extension filePath).map toUppercase).getD ""
    if ext = "" then "" else ext ++ " File"

def tempoAttributes (inizio bpm : Float) (battito : Nat) : List (String × String) :=
  [("Inizio", fixed 3 inizio), ("Bpm", fixed 2 bpm), ("Metro", "4/4"), ("Battito", toString battito)]

def writeTempo (inizio bpm : Float) (battito : Nat) : String :=
  "      <TEMPO" ++ attributes (tempoAttributes inizio bpm battito) ++ "/>\n"

/-- A marker wherever the tempo is not the one before. -/
def temposFrom (prevTempo : Option UInt16) : List Beat → String
  | [] => ""
  | beat :: beats =>
    if prevTempo ≠ some beat.tempo100 then
      writeTempo (beat.timeMs / 1000) (beat.tempo100.toFloat / 100)
        (max 1 (min beat.beatNumber.toNat 4)) ++ temposFrom (some beat.tempo100) beats
    else temposFrom prevTempo beats

def writeTempos (grid : BeatGrid) (firstBeatMs fallbackBpm : Float) : String :=
  if grid.beats.isEmpty then
    if fallbackBpm > 0 then writeTempo (firstBeatMs / 1000) fallbackBpm 1 else ""
  else temposFrom none grid.beats

def cueTypeToRb : CueType → Nat
  | .cue => 0
  | .fadeIn => 1
  | .fadeOut => 2
  | .load => 3
  | .loop => 4

def CuePoint.isLoop (cue : CuePoint) : Bool := cue.cueType = .loop || cue.loopMs > 0

/-- Memory cues have the number -1. -/
def CuePoint.num (cue : CuePoint) : Int := if cue.hotCue = 0 then -1 else (cue.hotCue.toNat : Int) - 1

def markAttributes (cue : CuePoint) (includeColors : Bool) : List (String × String) :=
  [("Name", esc (cue.comment.getD "")),
    ("Type", toString (if cue.isLoop then 4 else cueTypeToRb cue.cueType)),
    ("Start", fixed 3 (cue.timeMs / 1000))] ++
  (if cue.isLoop then [("End", fixed 3 ((cue.timeMs + cue.loopMs) / 1000))] else []) ++
  [("Num", toString cue.num)] ++
  (match cue.color with
    | some c =>
      if includeColors ∧ cue.hotCue ≠ 0 then
        [("Red", toString c.red.toNat), ("Green", toString c.green.toNat),
          ("Blue", toString c.blue.toNat)]
      else []
    | none => [])

def writePositionMark (cue : CuePoint) (includeColors : Bool) : String :=
  "      <POSITION_MARK" ++ attributes (markAttributes cue includeColors) ++ "/>\n"

/-- `none` is the panic of a key outside the table. -/
def XmlTrack.tonality (t : XmlTrack) : Option String :=
  match t.key with
  | some k => k.name
  | none => some ""

def XmlTrack.hasChildren (t : XmlTrack) : Bool :=
  !t.beatGrid.beats.isEmpty || t.bpm > 0 || !t.cuePoints.isEmpty

def trackAttributes (toUppercase : String → String) (t : XmlTrack) (opts : XmlExportOptions)
    (tonality : String) : List (String × String) :=
  [("TrackID", toString t.id.toNat), ("Name", esc t.title), ("Artist", esc t.artist),
    ("Composer", ""), ("Album", esc (t.album.getD "")), ("Grouping", ""),
    ("Genre", esc (t.genre.getD "")), ("Kind", esc (kindString toUppercase t.fileType t.filePath)),
    ("Size", toString t.fileSize.toNat), ("TotalTime", toString t.durationSecs.round.toUInt64.toNat),
    ("DiscNumber", "0"), ("TrackNumber", toString (t.trackNumber.getD 0).toNat),
    ("Year", toString (t.year.getD 0).toNat), ("AverageBpm", fixed 2 t.bpm),
    ("DateAdded", esc opts.dateAdded), ("BitRate", toString t.bitrate.toNat),
    ("SampleRate", toString t.sampleRate.toNat), ("Comments", esc (t.comment.getD "")),
    ("PlayCount", "0"), ("Rating", "0"),
    ("Location", fileUri (absPath t.filePath opts.musicRoot)), ("Remixer", ""),
    ("Tonality", esc tonality), ("Label", esc (t.label.getD "")), ("Mix", "")]

def writeTrack (toUppercase : String → String) (opts : XmlExportOptions) (t : XmlTrack) :
    Option String :=
  t.tonality.map fun tonality =>
    "    <TRACK" ++ attributes (trackAttributes toUppercase t opts tonality) ++
      if !t.hasChildren then "/>\n"
      else
        ">\n" ++ writeTempos t.beatGrid t.firstBeatMs t.bpm ++
          String.join (t.cuePoints.map fun cue => writePositionMark cue opts.includeCueColors) ++
            "    </TRACK>\n"

def nodeAttributes (name : String) (ids : List UInt32) : List (String × String) :=
  [("Name", esc name), ("Type", "1"), ("KeyType", "0"), ("Entries", toString ids.length)]

def keyAttributes (id : UInt32) : List (String × String) := [("Key", toString id.toNat)]

/-- A playlist's node under ROOT. -/
def writeNode (name : String) (ids : List UInt32) : String :=
  "      <NODE" ++ attributes (nodeAttributes name ids) ++ ">\n" ++
    String.join (ids.map fun id => "        <TRACK" ++ attributes (keyAttributes id) ++ "/>\n") ++
    "      </NODE>\n"

def productAttributes (opts : XmlExportOptions) : List (String × String) :=
  [("Name", esc opts.productName), ("Version", esc opts.productVersion),
    ("Company", esc opts.company)]

def rootAttributes (count : Nat) : List (String × String) :=
  [("Type", "0"), ("Name", "ROOT"), ("Count", toString count)]

/-- A complete rekordbox XML document. -/
def generateXml (toUppercase : String → String) (tracks : List XmlTrack) (playlists : PlaylistMap)
    (opts : XmlExportOptions) : Option String :=
  (tracks.mapM (writeTrack toUppercase opts)).map fun written =>
    "<?xml version=\"1.0\" encoding=\"UTF-8\" ?>\n" ++
      "<DJ_PLAYLISTS" ++ attributes [("Version", "1.0.0")] ++ ">\n" ++
      "  <PRODUCT" ++ attributes (productAttributes opts) ++ "/>\n" ++
      "  <COLLECTION" ++ attributes [("Entries", toString tracks.length)] ++ ">\n" ++
      String.join written ++ "  </COLLECTION>\n" ++
      "  <PLAYLISTS>\n    <NODE" ++ attributes (rootAttributes playlists.names.length) ++ ">\n" ++
      String.join (playlists.names.map fun name => writeNode name (playlists.get name)) ++
      "    </NODE>\n  </PLAYLISTS>\n" ++ "</DJ_PLAYLISTS>\n"

end BVault.Core
