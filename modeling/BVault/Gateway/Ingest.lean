import BVault.Gateway.Audio

/-!
# Reading an incoming file

Two loops bring audio in: an upload reads the fields of a multipart form, a
Google Drive import downloads the files of a folder. Both write and hash chunk
by chunk and hand the temporary file to the store. An upload takes a chunk that
cannot be read for a failure; an import takes it for the end of the file.
-/

namespace BVault.Gateway

open BVault.Hash BVault.Meta BVault.Store

inductive GatewayError where
  | badRequest (message : String)
  | internal
  deriving DecidableEq, Repr

/-- What an incoming file is read as: its chunks, then a clean end or an error. -/
structure Stream where
  chunks : List Bytes
  error : Option String
  deriving DecidableEq, Repr

def Stream.content (stream : Stream) : Bytes := stream.chunks.flatten

/-- A temporary file: whether it can be created, how many writes it takes, and what it holds
when the store takes it. Nothing flushes it before, so that may be anything. -/
structure TempFile where
  created : Bool
  writable : Nat
  landed : Bytes
  deriving DecidableEq, Repr

structure IngestResult where
  hash : String
  rawLocation : String
  title : Option String
  artist : Option String
  deriving DecidableEq, Repr

/-- What the gateway writes to. -/
structure Stores where
  tables : Tables
  files : FileSystem

/-- A field of the form; `text` is what its bytes spell, unless they cannot be read. -/
structure Field where
  name : Option String
  fileName : Option String
  stream : Stream
  text : Option String
  temp : TempFile
  deriving DecidableEq, Repr

/-- The variables of the handler. -/
structure Form where
  filePath : Option TempFile
  fileName : Option String
  titleOverride : Option String
  artistOverride : Option String
  finalHash : Option String
  deriving DecidableEq, Repr

def Form.new : Form := ⟨none, none, none, none, none⟩

/-- An upload: the fields, an error behind them if the form breaks off, and whether the store
and the database take the file. -/
structure Upload where
  fields : List Field
  broken : Option String
  stored : Bool
  recorded : Bool
  now : Nat

/-- A form's name for an audio file. -/
def Field.isAudio (field : Field) : Bool :=
  let name := field.name.getD ""
  name = "file" || name = "audio"

/-- The chunk loop of `ingest_upload`. -/
def readUpload : List Bytes → Option String → Nat → ContentHasher →
    Except GatewayError ContentHasher
  | [], none, _, hasher => .ok hasher
  | [], some message, _, _ => .error (.badRequest message)
  | _ :: _, _, 0, _ => .error .internal
  | chunk :: chunks, error, writable + 1, hasher =>
    readUpload chunks error writable (hasher.update chunk)

section
variable (xxh3_64 : Bytes → UInt64) (raw : RawStore)

def readField (form : Form) (field : Field) : Except GatewayError Form :=
  let name := field.name.getD ""
  if field.isAudio then
    let form := { form with fileName := field.fileName }
    if field.temp.created then do
      let hasher ← readUpload field.stream.chunks field.stream.error field.temp.writable .new
      .ok { form with
        filePath := some field.temp
        finalHash := some (hashHex (hasher.finalize xxh3_64)) }
    else .error .internal
  else if name = "title" then
    .ok { form with titleOverride := field.text.or form.titleOverride }
  else if name = "artist" then
    .ok { form with artistOverride := field.text.or form.artistOverride }
  else .ok form

def readFields : List Field → Option String → Form → Except GatewayError Form
  | [], none, form => .ok form
  | [], some message, _ => .error (.badRequest message)
  | field :: fields, broken, form => do
    let form ← readField xxh3_64 form field
    readFields fields broken form

/-- `ingest_upload` from the store on. -/
def storeUpload (s : Stores) (user : Uuid) (u : Upload) (form : Form) (temp : TempFile)
    (hash : String) : Stores × Except GatewayError IngestResult :=
  let ext := (form.fileName.bind Paths.extension).getD "mp3"
  if u.stored then
    let (files, rawLocation) := raw.storeFromTemp s.files temp.landed hash ext
    let fallbackTitle := form.fileName.map (fun name => (Paths.fileStem name).getD "")
    let finalTitle := form.titleOverride.or fallbackTitle
    let finalArtist := form.artistOverride
    if u.recorded then
      (⟨upsertTrack s.tables user hash rawLocation finalTitle finalArtist u.now, files⟩,
        .ok ⟨hash, rawLocation, finalTitle, finalArtist⟩)
    else (⟨s.tables, files⟩, .error .internal)
  else (s, .error .internal)

def ingestUpload (s : Stores) (user : Uuid) (u : Upload) :
    Stores × Except GatewayError IngestResult :=
  match readFields xxh3_64 u.fields u.broken .new with
  | .error e => (s, .error e)
  | .ok form =>
    match form.filePath, form.finalHash with
    | some temp, some hash => storeUpload raw s user u form temp hash
    | _, _ => (s, .error (.badRequest "missing audio file payload"))

/-- A file of the folder; `downloaded`: its download, with the redirects, is a success. -/
structure GDriveFile where
  name : String
  mimeType : Option String
  downloaded : Bool
  stream : Stream
  temp : TempFile
  stored : Bool
  recorded : Bool
  now : Nat

def GDriveFile.isAudio (file : GDriveFile) : Bool :=
  match file.mimeType with
  | some m => "audio/".toList.isPrefixOf m.toList || m = "application/octet-stream"
  | none => true

/-- The chunk loop of `ingest_gdrive`: `while let Ok(Some(chunk))`. -/
def readGdrive : List Bytes → Nat → ContentHasher → Except GatewayError ContentHasher
  -- a clean end and an error both leave the loop
  | [], _, hasher => .ok hasher
  | _ :: _, 0, _ => .error .internal
  | chunk :: chunks, writable + 1, hasher => readGdrive chunks writable (hasher.update chunk)

/-- The body of the loop over the folder, from the store on. -/
def storeGdrive (s : Stores) (user : Uuid) (file : GDriveFile) (hash : String) :
    Stores × Option IngestResult :=
  let ext := (Paths.extension file.name).getD "mp3"
  if file.stored then
    let (files, rawLocation) := raw.storeFromTemp s.files file.temp.landed hash ext
    let title := Paths.fileStem file.name
    -- the database's error is dropped
    let tables :=
      if file.recorded then upsertTrack s.tables user hash rawLocation title none file.now
      else s.tables
    (⟨tables, files⟩, some ⟨hash, rawLocation, title, none⟩)
  else (s, none)

/-- The body of the loop over the folder. An error ends the whole import. -/
def gdriveFile (s : Stores) (user : Uuid) (file : GDriveFile) :
    Except GatewayError (Stores × Option IngestResult) :=
  if ¬ file.isAudio ∨ ¬ file.downloaded then .ok (s, none)
  else if ¬ file.temp.created then .error .internal
  else do
    let hasher ← readGdrive file.stream.chunks file.temp.writable .new
    .ok (storeGdrive raw s user file (hashHex (hasher.finalize xxh3_64)))

/-- The loop over the folder. -/
def gdriveFiles (user : Uuid) : Stores → List IngestResult → List GDriveFile →
    Stores × Except GatewayError (List IngestResult)
  | s, imported, [] => (s, .ok imported)
  | s, imported, file :: files =>
    match gdriveFile xxh3_64 raw s user file with
    | .error e => (s, .error e)
    | .ok (s', result) => gdriveFiles user s' (imported ++ result.toList) files

def ingestGdrive (s : Stores) (user : Uuid) (files : List GDriveFile) :
    Stores × Except GatewayError (List IngestResult) :=
  gdriveFiles xxh3_64 raw user s [] files

end

end BVault.Gateway
