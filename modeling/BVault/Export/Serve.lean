import BVault.Export.Build
import BVault.Lib.Folders

/-!
# Serving an export

`create_export` and `serve_file`: an export is built into a folder of its own,
with a record of where the audio of its tracks lies; a file of it is streamed
from the music store, or else from that folder. A folder can be opened, but
nothing can be read from it.
-/

namespace BVault.Export

open BVault.Gateway BVault.Meta BVault.Store BVault.Transfer Folders

inductive ApiError where
  | notFound
  | badRequest (message : String)
  | build (e : ExportError)
  | internal

structure CreateExport where
  playlistIds : List Uuid
  profileName : Option String

/-- What `create_export` finds in the database and in the artifact store. -/
structure Answers where
  /-- `resolve_hashes`. -/
  union : List (String × String)
  /-- `get_playlist` and `playlist_hashes`. -/
  playlist : Uuid → Option PlaylistInput
  /-- The bundles with a marker. -/
  analyzed : String → Bool
  /-- The records beside the tree can be written. -/
  recorded : Bool

/-- The answers are those of the database. -/
structure Answered (tables : Tables) (user : Uuid) (req : CreateExport) (found : Answers) : Prop where
  distinct : found.union.Nodup
  union : found.union.toFinset = resolveHashes tables user req.playlistIds
  playlist : ∀ id, (found.playlist id).map (fun p => (p.name, p.hashes.toFinset)) =
    (getPlaylist tables user id).map (fun p => (p.name, playlistHashes tables user id))

/-- A created export: its manifest, what lies in its tree, and its records. -/
structure Created where
  manifest : Manifest
  tree : String → Option Bytes
  records : Gateway.Export

/-- `raw_sources`, insert after insert; of the locations of one hash the last one stays. -/
def sourcesOf (tracks : List (String × String)) (entries : List ManifestEntry) :
    List (String × String) :=
  entries.filterMap fun e =>
    match e.source with
    | .staging => none
    | .raw hash => (tracks.reverse.lookup hash).map fun location => (e.usbPath, location)

def createExport (env : Environment) (user : Uuid) (req : CreateExport) (found : Answers) :
    Except ApiError Created :=
  if req.playlistIds = [] then .error (.badRequest "no playlists selected")
  else
    let tracks := found.union.filter fun t => found.analyzed t.1
    if tracks = [] then .error (.badRequest "no analyzed tracks to export")
    else do
      let playlists := req.playlistIds.filterMap found.playlist
      let input := ⟨tracks, playlists, req.profileName.getD "bvault"⟩
      let s ← (buildExport env input fun _ => none).mapError ApiError.build
      if found.recorded then
        .ok ⟨s.manifest, s.files, ⟨user, sourcesOf tracks s.entries⟩⟩
      else .error .internal

/-- A name of a file or a folder. -/
abbrev Name := List Char

def names (path : String) : List Name := path.toList.splitOn '/'

/-- A segment as the kernel follows it. -/
def segment (name : Name) : Segment Name :=
  if name = [] ∨ name = ['.'] then .stay
  else if name = ['.', '.'] then .up
  else .name name

/-- Reject anything that could escape the staging tree. -/
def guardRelative (p : String) : Except ApiError Unit :=
  let bad := p.isEmpty || p.toList.head? = some '/' ||
    (names p).any fun c => c = [] || c = ['.', '.'] || c = ['.']
  if bad then .error (.badRequest "invalid path") else .ok ()

/-- What the server has: the stores, the staging disk, the folder of each export there, and the
records that it holds. -/
structure Server where
  env : Environment
  disk : Folders Name Bytes
  folder : Uuid → List Name
  exports : Uuid → Option Gateway.Export

/-- `dir.join("tree")`. -/
def Server.tree (srv : Server) (id : Uuid) : List Name := srv.folder id ++ ["tree".toList]

/-- What is at `tree.join(path)`, if it is a file: an absolute path replaces the tree. -/
def Server.staged (srv : Server) (id : Uuid) (path : String) : Option (List Name × Bytes) :=
  let base := if path.toList.head? = some '/' then [] else srv.tree id
  srv.disk.read base ((names path).map segment)

inductive Place where
  | raw (path : String)
  | staged (place : List Name)
  deriving DecidableEq

/-- An answer with its `Content-Length`; the body breaks off where nothing can be read. -/
structure Reply where
  place : Place
  size : Nat
  body : Option Bytes

/-- `stream_path` of what is at a canonical path of the music store. -/
def streamRaw (env : Environment) (path : String) : Reply :=
  ⟨.raw path, length env path, env.files path⟩

def streamStaged (place : List Name) (bytes : Bytes) : Reply :=
  ⟨.staged place, bytes.length, some bytes⟩

def serveFile (srv : Server) (user id : Uuid) (usbPath : String) : Except ApiError Reply :=
  match srv.exports id with
  | none => .error .notFound
  | some e =>
    if e.owner ≠ user then .error .notFound
    else
      match e.source usbPath with
      | some location =>
        match srv.env.raw.resolve srv.env.files location with
        | .ok path => .ok (streamRaw srv.env path)
        | .error _ => .error .notFound
      | none => do
        guardRelative usbPath
        match srv.staged id usbPath with
        | some (place, bytes) => .ok (streamStaged place bytes)
        | none => .error .notFound

end BVault.Export
