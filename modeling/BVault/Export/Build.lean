import BVault.Core.Pdb
import BVault.Core.Anlz
import BVault.Export.Device
import BVault.Gateway.Audio
import BVault.Transfer.Reconcile

/-!
# Building an export

`build_export`: ids and paths of the tracks, the database, the device library,
the auxiliary files, three analysis files per track and the manifest. What lies
outside, the stores, the JSON and SQL libraries, the clock and the staging disk,
is an argument.
-/

namespace BVault.Export

open BVault.Core BVault.Gateway BVault.Store BVault.Transfer

/-- A stored analysis with all that an export reads of it. -/
structure StoredAnalysis extends TrackAnalysis where
  beatGrid : BeatGrid
  waveform : Waveform
  cuePoints : List CuePoint

/-- Input to a build. The order of the tracks, content hash and raw location, defines their
1-based ids. -/
structure ExportInput where
  tracks : List (String × String)
  playlists : List PlaylistInput
  profileName : String

structure TrackRef where
  hash : String
  rawLocation : String
  contentsUsb : String
  deriving DecidableEq, Repr

/-- One playlist of the device library. -/
structure PlaylistSpec where
  id : Nat
  name : String
  contentIds : List UInt32

inductive ExportError where
  | io
  | store (e : StoreError)
  | core (e : Fault)
  | deviceLibrary (message : String)
  | decode (message : String)

/-- What a build finds around it. -/
structure Environment where
  /-- `analysis.json` of the bundles in the artifact store. -/
  artifacts : String → Option Bytes
  /-- `serde_json::from_slice`. -/
  fromSlice : Bytes → Except String StoredAnalysis
  raw : RawStore
  files : FileSystem
  /-- What `metadata` gives as the length of a folder. -/
  folderLength : String → Nat
  /-- The bytes that SQLCipher leaves in `exportLibrary.db`. -/
  exportLibrary : List StoredAnalysis → List PlaylistSpec → DeviceLibraryOptions →
    Except String Bytes
  /-- Seconds since 1970. -/
  now : Nat
  /-- The staging disk cannot take the file. -/
  writeFails : String → Bool

/-- The entries so far, and the staging directory. -/
structure Staging where
  entries : List ManifestEntry
  files : String → Option Bytes

/-- The tracks so far. -/
structure Loaded where
  analyses : List StoredAnalysis
  refs : List TrackRef
  idByHash : List (String × UInt32)

/-- `?` on an error of bvault-core. -/
def fromCore {α : Type} (x : Except Fault α) : Except ExportError α := x.mapError ExportError.core

/-- `(i as u32) + 1`. -/
def oneBased (i : Nat) : Except ExportError UInt32 := do
  let id ← fromCore (addU32 (i % 2 ^ 32) 1)
  .ok (UInt32.ofNat id)

/-- `s.strip_suffix(suffix)`. -/
def stripSuffix (s suffix : String) : Option String :=
  if suffix.toList <:+ s.toList then
    some (String.ofList (s.toList.take (s.toList.length - suffix.toList.length)))
  else none

section
variable (env : Environment)

def readAnalysis (hash : String) : Except ExportError StoredAnalysis :=
  match env.artifacts hash with
  | none => .error (.store (.notFound (hash ++ "/analysis.json")))
  | some bytes => (env.fromSlice bytes).mapError fun e => .decode (hash ++ "/analysis.json: " ++ e)

/-- Load an analysis, assign its id and its Contents path. -/
def loadTrack (s : Loaded) (track : (String × String) × Nat) : Except ExportError Loaded := do
  let ((hash, rawLocation), i) := track
  let id ← oneBased i
  let analysis ← readAnalysis env hash
  let path := contentsUsb hash rawLocation
  .ok
    { analyses := s.analyses ++ [{ analysis with id := id, filePath := "/" ++ path }]
      refs := s.refs ++ [⟨hash, rawLocation, path⟩]
      idByHash := (hash, id) :: s.idByHash }

/-- Write a rendered file into staging and record it. -/
def writeStaged (s : Staging) (usbPath : String) (bytes : Bytes) : Except ExportError Staging :=
  if env.writeFails usbPath then .error .io
  else
    .ok
      { entries := s.entries ++ [⟨usbPath, bytes.length, .staging⟩]
        files := fun path => if path = usbPath then some bytes else s.files path }

/-- `db_path` is filled by the library, and its size read back. -/
def writeDeviceLibrary (analyses : List StoredAnalysis) (playlists : List PlaylistInput)
    (contentIds : List (List UInt32)) (s : Staging) : Except ExportError Staging := do
  let opts := deviceOptions (analyses.map fun a => a.id) playlists env.now
  let specs := (playlists.zip contentIds).zipIdx.map fun ((p, ids), i) =>
    { id := i + 1, name := p.name, contentIds := ids : PlaylistSpec }
  let db ← (env.exportLibrary analyses specs opts).mapError ExportError.deviceLibrary
  let s ← writeStaged env s "PIONEER/rekordbox/exportLibrary.db" db
  writeStaged env s ("PIONEER/DeviceLibBackup/" ++ devlibBackupFilename opts)
    (utf8 (buildDevlibBackupJson opts))

/-- `(duration_secs * sample_rate.max(1) as f64).round() as u64`. -/
def totalSamples (a : StoredAnalysis) : UInt64 :=
  (a.durationSecs * (max a.sampleRate 1).toNat.toFloat).round.toUInt64

/-- The analysis files of a track. -/
def writeAnlz (s : Staging) (a : StoredAnalysis) : Except ExportError Staging := do
  let datRel := generateAnlzPath a.id
  let stem := (stripSuffix datRel ".DAT").getD datRel
  let s ← writeStaged env s datRel
    (generateDatFile a.beatGrid a.waveform a.filePath a.fileSize (totalSamples a))
  let s ← writeStaged env s (stem ++ ".EXT") (generateExtFile a.waveform a.filePath a.cuePoints)
  writeStaged env s (stem ++ ".2EX") (generate2exFile a.waveform a.filePath)

/-- `metadata()?.len()` of what is at a canonical path; where no file is, it is a folder. -/
def length (path : String) : Nat :=
  match env.files path with
  | some bytes => bytes.length
  | none => env.folderLength path

/-- The audio of a track is an entry without a staged file. -/
def addAudio (s : Staging) (r : TrackRef) : Except ExportError Staging := do
  let path ← (env.raw.resolve env.files r.rawLocation).mapError ExportError.store
  .ok { s with entries := s.entries ++ [⟨r.contentsUsb, length env path, .raw r.hash⟩] }

/-- The calls on the builder of `export.pdb`. -/
def pdbCalls (analyses : List StoredAnalysis) (playlists : List PlaylistInput)
    (contentIds : List (List UInt32)) : Except ExportError (List PdbBuilder.Call) := do
  let tracks := analyses.map fun a => .addTrack a.toTrackAnalysis (generateAnlzPath a.id)
  let lists ← (playlists.zip contentIds).zipIdx.mapM fun ((p, ids), i) => do
    let id ← oneBased i
    .ok (.addPlaylist id 0 p.name ids)
  .ok (tracks ++ lists)

/-- Render the export into staging and describe the USB tree. -/
def buildExport (input : ExportInput) (staging : String → Option Bytes) :
    Except ExportError Staging := do
  let loaded ← input.tracks.zipIdx.foldlM (loadTrack env) ⟨[], [], []⟩
  let playlists := sortByName (input.playlists.filter fun p => p.name ≠ "")
  let contentIds := playlists.map fun p => p.hashes.filterMap fun h => loaded.idByHash.lookup h
  let calls ← pdbCalls loaded.analyses playlists contentIds
  let pdb ← fromCore (PdbBuilder.buildAfter calls)
  let s ← writeStaged env ⟨[], staging⟩ "PIONEER/rekordbox/export.pdb" pdb
  let s ← writeDeviceLibrary env loaded.analyses playlists contentIds s
  let s ← writeStaged env s "PIONEER/DEVSETTING.DAT" generateDevsetting
  let s ← writeStaged env s "PIONEER/djprofile.nxs" (generateDjprofile input.profileName)
  let s ← loaded.analyses.foldlM (writeAnlz env) s
  loaded.refs.foldlM (addAudio env) s

end

/-- The manifest of a build. -/
def Staging.manifest (s : Staging) : Manifest := ⟨s.entries⟩

end BVault.Export
