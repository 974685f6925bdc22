import BVault.Export.Build

/-!
# The rows of the device library

What `build_export_library` inserts into the tables of `exportLibrary.db` for an
export: artists, contents, playlists and their members, and the one property
row. The tables of fixed content are the same in every export. The library that
encrypts and writes the database is an argument.
-/

namespace BVault.Export

open BVault.Core

/-- A row of `content`, without the columns that get a constant. -/
structure ContentRow where
  contentId : Nat
  title : String
  bpmx100 : Int64
  length : Int64
  trackNo : Nat
  artistId : Nat
  imageId : Option Nat
  releaseYear : Nat
  dateCreated : String
  dateAdded : String
  path : String
  fileName : String
  fileSize : Nat
  bitrate : Nat
  bitDepth : Nat
  samplingRate : Nat
  masterDbId : Nat
  masterContentId : Nat
  analysisDataFilePath : String
  analysedBits : Nat
  deriving DecidableEq

/-- A row of `playlist`. -/
structure PlaylistRow where
  playlistId : Nat
  sequenceNo : Nat
  name : String
  deriving DecidableEq, Repr

/-- A row of `playlist_content`. -/
structure PlaylistContentRow where
  playlistId : Nat
  contentId : Nat
  sequenceNo : Nat
  deriving DecidableEq, Repr

/-- The row of `property`. -/
structure PropertyRow where
  deviceName : String
  dbVersion : String
  numberOfContents : Nat
  createdDate : String
  myTagMasterDBID : Nat
  deriving DecidableEq, Repr

/-- The rows in the order of their inserts. -/
structure DeviceLibrary where
  artists : List (Nat × String)
  contents : List ContentRow
  playlists : List PlaylistRow
  playlistContents : List PlaylistContentRow
  property : PropertyRow
  deriving DecidableEq

def DB_VERSION : String := "10000"

/-- `artist_id_for`: artist ids in first-seen order. -/
def artistIdFor (artistIds : List (String × Nat)) (name : String) : List (String × Nat) × Nat :=
  match artistIds.lookup name with
  | some id => (artistIds, id)
  | none => (artistIds ++ [(name, artistIds.length + 1)], artistIds.length + 1)

/-- The artists of the tracks, and the artist id of each track. -/
def trackArtists (tracks : List StoredAnalysis) : List (String × Nat) × List Nat :=
  tracks.foldl (fun (artistIds, ids) t =>
    let (artistIds, id) := artistIdFor artistIds t.artist
    (artistIds, ids ++ [id])) ([], [])

/-- No artwork is exported yet. -/
def artworkImagePath (_trackId : Nat) : Option String := none

/-- A single leading slash and forward slashes. -/
def normalizeUsbPath (p : String) : String :=
  let p := p.map (fun c => if c = '\\' then '/' else c)
  if p.toList.head? = some '/' then p else "/" ++ p

def contentRow (opts : DeviceLibraryOptions) (t : StoredAnalysis) (artistId : Nat) :
    ContentRow where
  contentId := t.id.toNat
  title := t.title
  bpmx100 := (t.bpm * 100.0).round.toInt64
  length := t.durationSecs.round.toInt64
  trackNo := (t.trackNumber.getD 0).toNat
  artistId := artistId
  imageId := (artworkImagePath t.id.toNat).map (fun _ => t.id.toNat)
  releaseYear := (t.year.getD 0).toNat
  dateCreated := opts.createdDate
  dateAdded := opts.createdDate
  path := normalizeUsbPath t.filePath
  fileName := ((Paths.fileName t.filePath).map String.ofList).getD ""
  fileSize := t.fileSize.toNat
  bitrate := t.bitrate.toNat
  bitDepth := t.bitDepth.toNat
  samplingRate := t.sampleRate.toNat
  masterDbId := opts.masterDbId
  masterContentId := t.id.toNat
  analysisDataFilePath := "/" ++ trimStartSlashes (generateAnlzPath t.id)
  analysedBits := 41

def playlistRow (pl : PlaylistSpec) : PlaylistRow := ⟨pl.id, pl.id - 1, pl.name⟩

/-- The members of a playlist, numbered `seq + 1`. -/
def playlistContentRows (pl : PlaylistSpec) : List PlaylistContentRow :=
  pl.contentIds.zipIdx.map (fun (cid, seq) => ⟨pl.id, cid.toNat, seq + 1⟩)

def exportLibraryRows (tracks : List StoredAnalysis) (playlists : List PlaylistSpec)
    (opts : DeviceLibraryOptions) : DeviceLibrary :=
  let (artistIds, trackArtistId) := trackArtists tracks
  { artists := artistIds.map (fun (name, id) => (id, name))
    contents := (tracks.zip trackArtistId).map (fun (t, artistId) => contentRow opts t artistId)
    playlists := playlists.map playlistRow
    playlistContents := playlists.flatMap playlistContentRows
    property := ⟨opts.deviceName, DB_VERSION, tracks.length, opts.createdDate, opts.masterDbId⟩ }

/-- `sqlcipher` keys, fills and closes the database, or rejects a statement. -/
def buildExportLibrary (sqlcipher : DeviceLibrary → Except String Bytes)
    (tracks : List StoredAnalysis) (playlists : List PlaylistSpec) (opts : DeviceLibraryOptions) :
    Except String Bytes :=
  sqlcipher (exportLibraryRows tracks playlists opts)

theorem length_trackArtists (tracks : List StoredAnalysis) :
    (trackArtists tracks).2.length = tracks.length := by
  induction tracks using List.reverseRecOn with
  | nil => rfl
  | append_singleton tracks t ih =>
    unfold trackArtists at ih ⊢
    rw [List.foldl_append, List.foldl_cons, List.foldl_nil, List.length_append, List.length_append,
      ih]
    rfl

/-- The content rows are the tracks, under their ids. -/
theorem contentIds_eq (tracks : List StoredAnalysis) (playlists : List PlaylistSpec)
    (opts : DeviceLibraryOptions) :
    (exportLibraryRows tracks playlists opts).contents.map ContentRow.contentId =
      tracks.map (fun t => t.id.toNat) := by
  have same := length_trackArtists tracks
  unfold exportLibraryRows
  simp only [List.map_map]
  have first : (tracks.zip (trackArtists tracks).2).map Prod.fst = tracks :=
    List.map_fst_zip (by omega)
  conv_rhs => rw [← first, List.map_map]
  rfl

end BVault.Export
