import BVault.Core.Page
import BVault.Core.Rows
import BVault.Lib.Interner

/-!
# The database builder

`pdb.rs`: tracks and playlists are added with their dictionary ids, and `build`
lays out the 20 tables, hands out the page chains' ends and writes the header.
A `u32` addition that does not fit is a panic, as in a build with overflow
checks; `PdbContent.build` is the same builder where it wraps.
-/

namespace BVault.Core

/-- A `HashMap<K, u32>` together with its `next_*_id`. -/
abbrev Dictionary (K : Type) := Interner K (2 ^ 32)

/-- High-level database builder. -/
structure PdbBuilder where
  tracks : List TrackInfo
  artists : Dictionary String
  albums : Dictionary (String × Nat)
  genres : Dictionary String
  labels : Dictionary String
  keys : Dictionary Nat
  playlists : List PlaylistInfo
  artworks : Dictionary String

/-- Result of building a single table. -/
structure TableBuildResult where
  indexPage : Bytes
  dataPages : List Bytes
  indexPageIdx : Nat
  lastDataPageIdx : Nat
  newSequence : Nat

namespace PdbBuilder

open Bytes

def new : PdbBuilder where
  tracks := []
  artists := Interner.empty (by decide)
  albums := Interner.empty (by decide)
  genres := Interner.empty (by decide)
  labels := Interner.empty (by decide)
  keys := Interner.empty (by decide)
  playlists := []
  artworks := Interner.empty (by decide)

/-- Look a key up, or insert it under the next id. -/
def getOrCreate {K : Type} [DecidableEq K] (d : Dictionary K) (key : K) :
    Except Fault (Nat × Dictionary K) :=
  match d.intern key with
  | some result => .ok result
  | none => .error .integerOverflow

def getOrCreateArtist (b : PdbBuilder) (name : String) : Except Fault (Nat × PdbBuilder) :=
  if name.isEmpty then .ok (0, b)
  else do
    let (id, artists) ← getOrCreate b.artists name
    .ok (id, { b with artists := artists })

def getOrCreateAlbum (b : PdbBuilder) (name : String) (artistId : Nat) :
    Except Fault (Nat × PdbBuilder) :=
  if name.isEmpty then .ok (0, b)
  else do
    let (id, albums) ← getOrCreate b.albums (name, artistId)
    .ok (id, { b with albums := albums })

def getOrCreateGenre (b : PdbBuilder) (name : String) : Except Fault (Nat × PdbBuilder) :=
  if name.isEmpty then .ok (0, b)
  else do
    let (id, genres) ← getOrCreate b.genres name
    .ok (id, { b with genres := genres })

def getOrCreateLabel (b : PdbBuilder) (name : String) : Except Fault (Nat × PdbBuilder) :=
  if name.isEmpty then .ok (0, b)
  else do
    let (id, labels) ← getOrCreate b.labels name
    .ok (id, { b with labels := labels })

def getOrCreateKey (b : PdbBuilder) (rekordboxId : Nat) (_name : String) :
    Except Fault (Nat × PdbBuilder) := do
  let (id, keys) ← getOrCreate b.keys rekordboxId
  .ok (id, { b with keys := keys })

/-- `get_or_create_key(k.to_rekordbox_id(), &k.name())`. -/
def getOrCreateKeyOf (b : PdbBuilder) (k : Key) : Except Fault (Nat × PdbBuilder) :=
  match k.toRekordboxId, k.name with
  | some rekordboxId, some name => b.getOrCreateKey rekordboxId name
  | _, _ => .error .indexOutOfBounds

def getOrCreateArtwork (b : PdbBuilder) (path : String) : Except Fault (Nat × PdbBuilder) :=
  if path.isEmpty then .ok (0, b)
  else do
    let (id, artworks) ← getOrCreate b.artworks path
    .ok (id, { b with artworks := artworks })

/-- `value.map(create).unwrap_or(0)`. -/
def orZero {α : Type} (b : PdbBuilder) (value : Option α)
    (create : α → Except Fault (Nat × PdbBuilder)) : Except Fault (Nat × PdbBuilder) :=
  match value with
  | some a => create a
  | none => .ok (0, b)

/-- Add a track with optional artwork path and return its ID. -/
def addTrackWithArtwork (b : PdbBuilder) (analysis : TrackAnalysis) (analyzePath : String)
    (artworkPath : Option String) : Except Fault (Nat × PdbBuilder) := do
  let trackId := analysis.id.toNat
  let (artistId, b) ← b.getOrCreateArtist analysis.artist
  let (albumId, b) ← b.orZero analysis.album (fun a => b.getOrCreateAlbum a artistId)
  let (genreId, b) ← b.orZero analysis.genre b.getOrCreateGenre
  let (labelId, b) ← b.orZero analysis.label b.getOrCreateLabel
  let (keyId, b) ← b.orZero analysis.key b.getOrCreateKeyOf
  let (artworkId, b) ← b.orZero artworkPath b.getOrCreateArtwork
  .ok (trackId,
    { b with
      tracks := b.tracks ++
        [{ analysis, artistId, albumId, genreId, labelId, keyId, artworkId, analyzePath }] })

/-- Add a track and return its ID. -/
def addTrack (b : PdbBuilder) (analysis : TrackAnalysis) (analyzePath : String) :
    Except Fault (Nat × PdbBuilder) :=
  b.addTrackWithArtwork analysis analyzePath none

def addPlaylist (b : PdbBuilder) (id parentId : UInt32) (name : String)
    (trackIds : List UInt32) : PdbBuilder :=
  { b with
    playlists := b.playlists ++
      [{ id, parentId, name, isFolder := false, sortOrder := b.playlists.length % 2 ^ 32,
         trackIds }] }

def addFolder (b : PdbBuilder) (id parentId : UInt32) (name : String) : PdbBuilder :=
  { b with
    playlists := b.playlists ++
      [{ id, parentId, name, isFolder := true, sortOrder := b.playlists.length % 2 ^ 32,
         trackIds := [] }] }

/-- A call on a builder before `build`. -/
inductive Call where
  | addTrack (analysis : TrackAnalysis) (analyzePath : String)
  | addTrackWithArtwork (analysis : TrackAnalysis) (analyzePath : String)
      (artworkPath : Option String)
  | addPlaylist (id parentId : UInt32) (name : String) (trackIds : List UInt32)
  | addFolder (id parentId : UInt32) (name : String)

def call (b : PdbBuilder) : Call → Except Fault PdbBuilder
  | .addTrack analysis analyzePath => do
    let (_, b) ← b.addTrack analysis analyzePath
    .ok b
  | .addTrackWithArtwork analysis analyzePath artworkPath => do
    let (_, b) ← b.addTrackWithArtwork analysis analyzePath artworkPath
    .ok b
  | .addPlaylist id parentId name trackIds => .ok (b.addPlaylist id parentId name trackIds)
  | .addFolder id parentId name => .ok (b.addFolder id parentId name)

/-- A builder's history. -/
def run (calls : List Call) : Except Fault PdbBuilder := calls.foldlM call new

/-! ## Data pages

Every table has its own loop in the source; they differ in the rows alone, and
in whether a full page is followed by another one. Each returns the pages,
whether there is data, and the next free page index.
-/

abbrev DataPages := Except Fault (List Bytes × Bool × Nat)

/-- Empty pages are completely zeros. -/
def buildEmptyDataPages (nextIdx : Nat) : DataPages := do
  let after ← addU32 nextIdx 1
  .ok ([zeroPage], false, after)

/-- Finalized pages, the current page and the next free index. -/
structure Paging where
  pages : List Bytes
  currentPage : PageBuilder
  nextIdx : Nat

/-- A row that would overflow starts a new page. -/
def turnPage (pageType : PageType) (s : Paging) (row : Bytes) : Except Fault Paging :=
  if s.currentPage.wouldOverflow row.length then do
    let after ← addU32 s.nextIdx 1
    .ok { pages := s.pages ++ [s.currentPage.finalize s.nextIdx]
          currentPage := PageBuilder.new s.nextIdx pageType
          nextIdx := after }
  else .ok s

/-- The body of the loop. -/
def pageRow (pageType : PageType) (s : Paging) (row : Bytes) : Except Fault Paging := do
  let s ← turnPage pageType s row
  let currentPage ← s.currentPage.writeRow row
  .ok { s with currentPage := currentPage }

def buildRowPages (pageType : PageType) (rows : List Bytes) (nextIdx : Nat) : DataPages :=
  if rows = [] then buildEmptyDataPages nextIdx
  else do
    let after ← addU32 nextIdx 1
    let s ← rows.foldlM (pageRow pageType)
      { pages := [], currentPage := PageBuilder.new nextIdx pageType, nextIdx := after }
    .ok (s.pages ++ [s.currentPage.finalize 0xFFFFFFFF], true, s.nextIdx)

/-- The tables with a fixed content fit one page. -/
def buildFixedPage (pageType : PageType) (rows : List Bytes) (nextIdx : Nat) : DataPages := do
  let after ← addU32 nextIdx 1
  let page ← rows.foldlM PageBuilder.writeRow (PageBuilder.new nextIdx pageType)
  .ok ([page.finalize 0xFFFFFFFF], true, after)

def buildTrackDataPages (b : PdbBuilder) (nextIdx : Nat) : DataPages :=
  buildRowPages .tracks (b.tracks.map buildTrackRow) nextIdx

def buildGenreDataPages (b : PdbBuilder) (nextIdx : Nat) : DataPages :=
  buildRowPages .genres
    ((Interner.sortById b.genres.entries).map (fun (name, id) => buildGenreRow id name)) nextIdx

def buildArtistDataPages (b : PdbBuilder) (nextIdx : Nat) : DataPages :=
  buildRowPages .artists
    ((Interner.sortById b.artists.entries).map (fun (name, id) => buildArtistRow id name)) nextIdx

def buildAlbumDataPages (b : PdbBuilder) (nextIdx : Nat) : DataPages :=
  buildRowPages .albums
    ((Interner.sortById b.albums.entries).map
      (fun ((name, artistId), id) => buildAlbumRow id artistId name)) nextIdx

def buildLabelDataPages (b : PdbBuilder) (nextIdx : Nat) : DataPages :=
  buildRowPages .labels
    ((Interner.sortById b.labels.entries).map (fun (name, id) => buildLabelRow id name)) nextIdx

/-- The row of a key, whose name is rebuilt from its rekordbox id. -/
def keyRow (entry : Nat × Nat) : Except Fault Bytes :=
  match (Key.fromRekordboxId entry.1).name with
  | some name => .ok (buildKeyRow entry.2 name)
  | none => .error .indexOutOfBounds

def buildKeyDataPages (b : PdbBuilder) (nextIdx : Nat) : DataPages := do
  let rows ← (Interner.sortById b.keys.entries).mapM keyRow
  buildRowPages .keys rows nextIdx

def buildColorDataPages (nextIdx : Nat) : DataPages :=
  buildFixedPage .colors (colors.map (fun (id, name) => buildColorRow id name)) nextIdx

def buildPlaylistTreeDataPages (b : PdbBuilder) (nextIdx : Nat) : DataPages :=
  buildRowPages .playlistTree (b.playlists.map buildPlaylistTreeRow) nextIdx

/-- The entries of all playlists that are no folders: position, track and playlist. -/
def playlistEntries (b : PdbBuilder) : List (Nat × UInt32 × UInt32) :=
  (b.playlists.filter (fun p => !p.isFolder)).flatMap (fun p =>
    p.trackIds.zipIdx.map (fun (trackId, idx) => (idx, trackId, p.id)))

/-- The row of an entry, numbered `idx as u32 + 1`; without overflow checks it is
`PdbContent.entryRow`. -/
def entryRow (entry : Nat × UInt32 × UInt32) : Except Fault Bytes := do
  let entryIndex ← addU32 (entry.1 % 2 ^ 32) 1
  .ok (buildPlaylistEntryRow entryIndex entry.2.1.toNat entry.2.2.toNat)

def buildPlaylistEntryDataPages (b : PdbBuilder) (nextIdx : Nat) : DataPages := do
  let rows ← b.playlistEntries.mapM entryRow
  buildRowPages .playlistEntries rows nextIdx

def buildHistoryPlaylistDataPages (nextIdx : Nat) : DataPages := buildEmptyDataPages nextIdx

def buildArtworkDataPages (b : PdbBuilder) (nextIdx : Nat) : DataPages :=
  buildRowPages .artwork
    ((Interner.sortById b.artworks.entries).map (fun (path, id) => buildArtworkRow id path)) nextIdx

def buildColumnsDataPages (nextIdx : Nat) : DataPages :=
  buildFixedPage .columns columnsData nextIdx

def buildUnknown17DataPages (nextIdx : Nat) : DataPages :=
  buildFixedPage .unknown17 (unknown17Dataset.map wordsRow) nextIdx

def buildUnknown18DataPages (nextIdx : Nat) : DataPages :=
  buildFixedPage .unknown18 (unknown18Data.map wordsRow) nextIdx

def buildHistoryDataPages (nextIdx : Nat) : DataPages :=
  buildFixedPage .history [historyRow] nextIdx

def buildDataPages (b : PdbBuilder) (pageType : PageType) (nextIdx : Nat) : DataPages :=
  match pageType with
  | .tracks => b.buildTrackDataPages nextIdx
  | .genres => b.buildGenreDataPages nextIdx
  | .artists => b.buildArtistDataPages nextIdx
  | .albums => b.buildAlbumDataPages nextIdx
  | .labels => b.buildLabelDataPages nextIdx
  | .keys => b.buildKeyDataPages nextIdx
  | .colors => buildColorDataPages nextIdx
  | .playlistTree => b.buildPlaylistTreeDataPages nextIdx
  | .playlistEntries => b.buildPlaylistEntryDataPages nextIdx
  | .historyPlaylists => buildHistoryPlaylistDataPages nextIdx
  | .artwork => b.buildArtworkDataPages nextIdx
  | .columns => buildColumnsDataPages nextIdx
  | .unknown17 => buildUnknown17DataPages nextIdx
  | .unknown18 => buildUnknown18DataPages nextIdx
  | .history => buildHistoryDataPages nextIdx
  | _ => buildEmptyDataPages nextIdx

/-- Patch the non-empty pages with the sequence counter. -/
def patchSequence : List Bytes → Nat → Except Fault (List Bytes × Nat)
  | [], sequence => .ok ([], sequence)
  | page :: pages, sequence =>
    if page.getD 0x1B 0 ≠ 0 then do
      let next ← addU32 sequence 1
      let (pages, sequence') ← patchSequence pages next
      .ok (patch page 0x10 (leBytes 4 sequence) :: pages, sequence')
    else do
      let (pages, sequence') ← patchSequence pages sequence
      .ok (page :: pages, sequence')

/-- Build a single table with sequence tracking, and the next free page index. -/
def buildTableWithSequence (b : PdbBuilder) (pageType : PageType) (nextIdx sequence : Nat) :
    Except Fault (TableBuildResult × Nat) := do
  let indexPageIdx := nextIdx
  let dataPageIdx ← addU32 nextIdx 1
  let (dataPages, hasData, nextIdx) ← b.buildDataPages pageType dataPageIdx
  let (dataPages, sequence) ← patchSequence dataPages sequence
  let numRowOffsets :=
    if hasData ∧ dataPages ≠ [] then ((dataPages.getLastD []).getD 0x18 0).toNat else 0
  let indexPage :=
    (IndexPageBuilder.mk indexPageIdx pageType).finalize dataPageIdx hasData numRowOffsets
  let lastDataPage :=
    if hasData ∧ dataPages ≠ [] then dataPageIdx + dataPages.length - 1 else indexPageIdx
  .ok ({ indexPage, dataPages, indexPageIdx, lastDataPageIdx := lastDataPage,
         newSequence := sequence }, nextIdx)

structure TableInfo where
  pageType : PageType
  indexPageIdx : Nat
  lastDataPage : Nat

/-- The loop over the tables: the pages so far, the two counters and the table infos. -/
structure Assembly where
  allPages : List Bytes
  nextPageIndex : Nat
  sequence : Nat
  tableInfos : List TableInfo

def assembleTable (b : PdbBuilder) (s : Assembly) (pageType : PageType) :
    Except Fault Assembly := do
  let (result, nextPageIndex) ← b.buildTableWithSequence pageType s.nextPageIndex s.sequence
  .ok
    { allPages := s.allPages ++ result.indexPage :: result.dataPages
      nextPageIndex := nextPageIndex
      sequence := result.newSequence
      tableInfos := s.tableInfos ++
        [⟨pageType, result.indexPageIdx, result.lastDataPageIdx⟩] }

/-- The loop over the table infos: the header, the next phantom page and the pages to patch. -/
structure Pointers where
  header : FileHeader
  phantom : Nat
  patchTargets : List (Nat × Nat)

/-- A table with data ends in a phantom page of its own, an empty one in its reserved page. -/
def pointTable (s : Pointers) (info : TableInfo) : Except Fault Pointers :=
  if info.indexPageIdx < info.lastDataPage then do
    let emptyCandidate := s.phantom
    let phantom ← addU32 s.phantom 1
    .ok
      { header := s.header.addTable
          (TablePointer.new info.pageType emptyCandidate info.indexPageIdx info.lastDataPage)
        phantom := phantom
        patchTargets := s.patchTargets ++ [(info.lastDataPage, emptyCandidate)] }
  else do
    let emptyCandidate ← addU32 info.lastDataPage 1
    .ok { s with
      header := s.header.addTable
        (TablePointer.new info.pageType emptyCandidate info.indexPageIdx info.lastDataPage) }

/-- `next_page` of a last data page. -/
def patchTarget (allPages : List Bytes) (target : Nat × Nat) : Except Fault (List Bytes) :=
  match allPages[target.1]? with
  | some page => .ok (allPages.set target.1 (patch page 0x0C (leBytes 4 target.2)))
  | none => .error .indexOutOfBounds

/-- Build the complete PDB file. -/
def build (b : PdbBuilder) : Except Fault Bytes := do
  let s ← PageType.allTypes.foldlM b.assembleTable
    { allPages := [zeroPage], nextPageIndex := 1, sequence := 2, tableInfos := [] }
  let pointers ← s.tableInfos.foldlM pointTable
    { header := FileHeader.new, phantom := s.nextPageIndex, patchTargets := [] }
  let allPages ← pointers.patchTargets.foldlM patchTarget s.allPages
  let header :=
    { pointers.header with
      nextUnusedPage := pointers.phantom
      sequence := s.sequence
      trackCount := b.tracks.length % 2 ^ 32 }
  .ok (allPages.set 0 header.toPage).flatten

/-- The file of a whole history. -/
def buildAfter (calls : List Call) : Except Fault Bytes := do
  let b ← run calls
  b.build

end PdbBuilder

end BVault.Core
