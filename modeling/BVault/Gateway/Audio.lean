import BVault.Hash.Content
import BVault.Lib.Paths
import BVault.Lib.Runs
import BVault.Meta.OwnSteps
import BVault.Store.Raw

/-!
# Ways to a raw file

The calls of the gateway and of the export-builder that bring audio in, refer to
it or stream it. A call is one step; a Google Drive import is a step for each of
its files, since other calls may come in between. Who has uploaded what is kept
beside the state, for the statements only.
-/

namespace BVault.Gateway

open BVault.Hash BVault.Meta BVault.Store

/-- A staged export: the `owner` marker and `sources.json`, USB path to raw location. -/
structure Export where
  owner : Uuid
  sources : List (String × String)

/-- What the services share; `uploads` are the contents ingested so far, and by whom. -/
structure Service where
  tables : Tables
  files : FileSystem
  exports : Uuid → Option Export
  uploads : List (Uuid × Bytes)

inductive Request where
  | registerTrack (hash rawLocation : String) (title artist : Option String)
  /-- The upload of a file in chunks. `stored` and `recorded`: the store and the database
  take it. -/
  | ingestUpload (chunks : List Bytes) (fileName titleOverride artistOverride : Option String)
      (stored recorded : Bool)
  /-- One audio file of a folder import. -/
  | ingestGdrive (chunks : List Bytes) (name : String) (stored recorded : Bool)
  | createPlaylist (name : String) (description : Option String) (hashes : List String)
  | downloadTrackRaw (hash : String)
  /-- `rows` are the resolved hashes in the order the database returns them, `analyzed` what
  the artifact store has, `built` whether the rest of the build succeeds. -/
  | createExport (playlistIds : List Uuid) (rows : List (String × String))
      (analyzed : String → Bool) (built : Bool)
  | serveFile (id : Uuid) (usbPath : String)

/-- A request of a user, with the id that is drawn for it and the time. -/
structure Call where
  user : Uuid
  request : Request
  newId : Uuid
  now : Nat

/-- Characters that `str::trim` takes away. -/
def isWhitespace (c : Char) : Bool :=
  c ∈ ['\t', '\n', '\u000b', '\u000c', '\r', ' ', '\u0085', '\u00a0', '\u1680', '\u2000', '\u2001',
    '\u2002', '\u2003', '\u2004', '\u2005', '\u2006', '\u2007', '\u2008', '\u2009', '\u200a',
    '\u2028', '\u2029', '\u202f', '\u205f', '\u3000']

/-- `name.trim().is_empty()`. -/
def isBlank (name : String) : Bool := name.toList.all isWhitespace

/-- Where an export puts the audio of a track. -/
def contentsUsb (hash rawLocation : String) : String :=
  "Contents/" ++ hash ++ "." ++ (Paths.extension rawLocation).getD "bin"

/-- `sources.get`, where a later insert replaces an earlier one. -/
def Export.source (e : Export) (usbPath : String) : Option String :=
  (e.sources.reverse.find? (fun pair => pair.1 = usbPath)).map Prod.snd

/-- The server-side resolver of an export's tracks. -/
def rawSources (tracks : List (String × String)) : List (String × String) :=
  tracks.map (fun (hash, location) => (contentsUsb hash location, location))

section
variable (xxh3_64 : Bytes → UInt64) (raw : RawStore)

/-- The content hash of a file that comes in chunks. -/
def hashOfChunks (chunks : List Bytes) : String :=
  hashHex ((chunks.foldl ContentHasher.update .new).finalize xxh3_64)

/-- A file goes into the store, then the track into the tables. -/
def ingest (s : Service) (c : Call) (chunks : List Bytes) (ext : String)
    (title artist : Option String) (stored recorded : Bool) : Service :=
  if stored then
    let hash := hashOfChunks xxh3_64 chunks
    let (files, rawLocation) := raw.storeFromTemp s.files chunks.flatten hash ext
    { s with
      tables :=
        if recorded then
          Meta.step s.tables ⟨c.user, .upsertTrack hash rawLocation title artist, c.newId, c.now⟩
        else s.tables
      files := files
      uploads := s.uploads ++ [(c.user, chunks.flatten)] }
  else s

def createExport (s : Service) (c : Call) (playlistIds : List Uuid) (rows : List (String × String))
    (analyzed : String → Bool) (built : Bool) : Service :=
  if playlistIds = [] ∨ rows.toFinset ≠ resolveHashes s.tables c.user playlistIds then s
  else
    let tracks := rows.filter (fun row => analyzed row.1)
    if tracks = [] ∨ (∃ row ∈ tracks, (raw.resolve s.files row.2).isOk = false) ∨ ¬ built then s
    else
      { s with
        exports := fun id => if id = c.newId then some ⟨c.user, rawSources tracks⟩ else s.exports id }

def step (s : Service) (c : Call) : Service :=
  match c.request with
  | .registerTrack hash rawLocation title artist =>
    { s with
      tables :=
        Meta.step s.tables ⟨c.user, .upsertTrack hash rawLocation title artist, c.newId, c.now⟩ }
  | .ingestUpload chunks fileName titleOverride artistOverride stored recorded =>
    ingest xxh3_64 raw s c chunks ((fileName.bind Paths.extension).getD "mp3")
      (titleOverride.or (fileName.map (fun name => (Paths.fileStem name).getD "")))
      artistOverride stored recorded
  | .ingestGdrive chunks name stored recorded =>
    ingest xxh3_64 raw s c chunks ((Paths.extension name).getD "mp3") (Paths.fileStem name) none
      stored recorded
  | .createPlaylist name description hashes =>
    if isBlank name then s
    else
      { s with
        tables :=
          Meta.step s.tables ⟨c.user, .createPlaylist name description hashes, c.newId, c.now⟩ }
  | .createExport playlistIds rows analyzed built =>
    createExport raw s c playlistIds rows analyzed built
  | .downloadTrackRaw _ => s
  | .serveFile _ _ => s

/-- The bytes of a raw file that a call streams to its user. -/
def streamed (s : Service) (c : Call) : Option Bytes :=
  match c.request with
  | .downloadTrackRaw hash =>
    (getTrackByHash s.tables c.user hash).bind (fun track => raw.contents s.files track.rawLocation)
  | .serveFile id usbPath =>
    match s.exports id with
    | none => none
    | some e =>
      if e.owner = c.user then (e.source usbPath).bind (raw.contents s.files) else none
  | _ => none

/-- Nothing yet; the store may hold files that nobody uploaded. -/
def start (files : FileSystem) : Service := ⟨Tables.empty, files, fun _ => none, []⟩

/-- The state after a run of calls. -/
def after (files : FileSystem) (calls : List Call) : Service :=
  Runs.run (step xxh3_64 raw) (start files) calls

end

end BVault.Gateway
