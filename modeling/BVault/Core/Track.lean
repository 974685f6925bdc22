/-!
# Track analysis data

The fields of a track's analysis that go into `export.pdb`, the musical key with
its two tables, and the beat grid, waveforms and cue points of the ANLZ files.
-/

namespace BVault.Core

/-- Musical key. -/
structure Key where
  pitchClass : UInt8
  isMajor : Bool
  deriving DecidableEq, Repr

namespace Key

def minorMap : List Nat := [1, 8, 3, 10, 5, 12, 7, 2, 9, 4, 11, 6]

def inverseMap : List Nat := [0, 0, 7, 2, 9, 4, 11, 6, 1, 8, 3, 10, 5]

def noteNames : List String :=
  ["C", "C#", "D", "D#", "E", "F", "F#", "G", "G#", "A", "A#", "B"]

/-- Rekordbox's internal key ID (1-24); `none` is the panic of an index out of bounds. -/
def toRekordboxId (k : Key) : Option Nat :=
  minorMap[k.pitchClass.toNat]?.map (fun id => if k.isMajor then id + 12 else id)

/-- Inverse of `toRekordboxId`, with C minor for anything else. -/
def fromRekordboxId (id : Nat) : Key :=
  if id = 0 then ⟨0, false⟩
  else if id ≤ 12 then ⟨UInt8.ofNat (inverseMap.getD id 0), false⟩
  else if id ≤ 24 then ⟨UInt8.ofNat (inverseMap.getD (id - 12) 0), true⟩
  else ⟨0, false⟩

/-- The key name (e.g. "Am", "C"); `none` is the panic of an index out of bounds. -/
def name (k : Key) : Option String :=
  noteNames[k.pitchClass.toNat]?.map (fun note => if k.isMajor then note else note ++ "m")

theorem toRekordboxId_table : ∀ n < 12, ∀ major : Bool,
    ((Key.mk (UInt8.ofNat n) major).toRekordboxId).map fromRekordboxId =
      some ⟨UInt8.ofNat n, major⟩ := by
  decide

theorem pitch_lt {k : Key} {id : Nat} (h : k.toRekordboxId = some id) :
    k.pitchClass.toNat < 12 := by
  rcases Nat.lt_or_ge k.pitchClass.toNat 12 with inside | outside
  · exact inside
  · rw [toRekordboxId, List.getElem?_eq_none outside] at h
    cases h

/-- The inverse table recovers the key. -/
theorem fromRekordboxId_toRekordboxId {k : Key} {id : Nat} (h : k.toRekordboxId = some id) :
    fromRekordboxId id = k := by
  have table := toRekordboxId_table k.pitchClass.toNat (pitch_lt h) k.isMajor
  rw [UInt8.ofNat_toNat] at table
  rw [show Key.mk k.pitchClass k.isMajor = k from rfl, h] at table
  exact Option.some.inj table

theorem name_of_toRekordboxId {k : Key} {id : Nat} (h : k.toRekordboxId = some id) :
    ∃ name, k.name = some name :=
  ⟨_, by rw [name, List.getElem?_eq_getElem (pitch_lt h)]; rfl⟩

/-- The inverse table only names pitches. -/
theorem name_fromRekordboxId (id : Nat) : ∃ name, (fromRekordboxId id).name = some name := by
  have table : ∀ n, inverseMap.getD n 0 < 12 := by
    intro n
    rcases Nat.lt_or_ge n inverseMap.length with inside | outside
    · have entries : ∀ m < 13, inverseMap.getD m 0 < 12 := by decide
      exact entries n inside
    · rw [List.getD_eq_getElem?_getD, List.getElem?_eq_none outside]
      decide
  have pitch : (fromRekordboxId id).pitchClass.toNat < noteNames.length := by
    rw [fromRekordboxId]
    split
    · decide
    · split
      · have := table id
        simp only [UInt8.toNat_ofNat']
        exact Nat.lt_of_le_of_lt (Nat.mod_le _ _) this
      · split
        · have := table (id - 12)
          simp only [UInt8.toNat_ofNat']
          exact Nat.lt_of_le_of_lt (Nat.mod_le _ _) this
        · decide
  exact ⟨_, by rw [name, List.getElem?_eq_getElem pitch]; rfl⟩

/-- Keys with one name are one key. -/
theorem name_injective {k l : Key} {id id' : Nat} (hk : k.toRekordboxId = some id)
    (hl : l.toRekordboxId = some id') (same : k.name = l.name) : id = id' := by
  have table : ∀ n < 12, ∀ m < 12, ∀ major minor : Bool,
      (Key.mk (UInt8.ofNat n) major).name = (Key.mk (UInt8.ofNat m) minor).name →
        (Key.mk (UInt8.ofNat n) major).toRekordboxId =
          (Key.mk (UInt8.ofNat m) minor).toRekordboxId := by
    decide
  have equal := table k.pitchClass.toNat (pitch_lt hk) l.pitchClass.toNat (pitch_lt hl) k.isMajor
    l.isMajor
  rw [UInt8.ofNat_toNat, UInt8.ofNat_toNat] at equal
  have ids : k.toRekordboxId = l.toRekordboxId := equal same
  rw [hk, hl] at ids
  exact Option.some.inj ids

end Key

/-- Complete analysis results for a single track, as far as the database shows them. -/
structure TrackAnalysis where
  id : UInt32
  filePath : String
  title : String
  artist : String
  album : Option String
  genre : Option String
  label : Option String
  durationSecs : Float
  sampleRate : UInt32
  bitDepth : UInt16
  bitrate : UInt32
  bpm : Float
  key : Option Key
  fileSize : UInt64
  year : Option UInt16
  comment : Option String
  trackNumber : Option UInt32

/-- Single beat in the grid. -/
structure Beat where
  beatNumber : UInt8
  timeMs : Float
  tempo100 : UInt16

/-- Beat positions of a track. -/
structure BeatGrid where
  beats : List Beat

inductive CueType where
  | cue
  | fadeIn
  | fadeOut
  | load
  | loop
  deriving DecidableEq, Repr

/-- Hot cue colour: palette index and RGB values. -/
structure HotCueColor where
  paletteIndex : UInt8
  red : UInt8
  green : UInt8
  blue : UInt8
  deriving DecidableEq, Repr

namespace HotCueColor

def GREEN : HotCueColor := ⟨0x00, 0x28, 0xE2, 0x14⟩

def CYAN : HotCueColor := ⟨0x09, 0x00, 0xE0, 0xFF⟩

def BLUE : HotCueColor := ⟨0x11, 0x00, 0x50, 0xFF⟩

def PURPLE : HotCueColor := ⟨0x3E, 0x64, 0x73, 0xFF⟩

def PINK : HotCueColor := ⟨0x1A, 0xFF, 0x00, 0xC8⟩

def RED : HotCueColor := ⟨0x2A, 0xE6, 0x28, 0x28⟩

def ORANGE : HotCueColor := ⟨0x22, 0xFF, 0xA0, 0x00⟩

def YELLOW : HotCueColor := ⟨0x32, 0xFF, 0xFF, 0x00⟩

/-- Default color for a hot cue slot (A-H). -/
def defaultForSlot (slot : UInt8) : HotCueColor :=
  match slot.toNat with
  | 1 => GREEN
  | 2 => CYAN
  | 3 => BLUE
  | 4 => PURPLE
  | 5 => PINK
  | 6 => RED
  | 7 => ORANGE
  | 8 => YELLOW
  | _ => GREEN

end HotCueColor

/-- Cue point; hot cue 0 is a memory cue. -/
structure CuePoint where
  hotCue : UInt8
  cueType : CueType
  timeMs : Float
  loopMs : Float
  comment : Option String
  color : Option HotCueColor

/-- Single column in the preview waveform. -/
structure WaveformColumn where
  height : UInt8
  whiteness : UInt8

/-- Bits 7-5 are the whiteness, bits 4-0 the height. -/
def WaveformColumn.toByte (c : WaveformColumn) : UInt8 :=
  ((c.whiteness &&& 0x07) <<< 5) ||| (c.height &&& 0x1F)

/-- Single column in the color preview waveform. -/
structure WaveformColorPreviewColumn where
  height : UInt8
  luminance : UInt8
  blue : UInt8
  red : UInt8
  green : UInt8
  blue2 : UInt8

def WaveformColorPreviewColumn.toBytes (c : WaveformColorPreviewColumn) : List UInt8 :=
  [c.height &&& 0x7F, c.luminance &&& 0x7F, c.blue &&& 0x7F, c.red &&& 0x7F, c.green &&& 0x7F,
    c.blue2 &&& 0x7F]

/-- Color waveform entry. -/
structure WaveformColorEntry where
  red : UInt8
  green : UInt8
  blue : UInt8
  height : UInt8

/-- Waveform data for the preview, the color preview and the detail displays. -/
structure Waveform where
  preview : List WaveformColumn
  colorPreview : List WaveformColorPreviewColumn
  detail : List WaveformColorEntry

end BVault.Core
