import BVault.Core.PdbPlaylists
import BVault.Export.Library
import BVault.Export.Links

/-!
# The playlists of both databases

`export.pdb` and `exportLibrary.db` are filled apart from each other. Whenever a
build returns, they hold the same playlists under the same ids and at the same
positions, with the same tracks in the same order, and each of these tracks has
its row in both.
-/

namespace BVault.Export

open BVault.Core BVault.Gateway BVault.Transfer Loops Pointwise

/-- The id belongs to a track with this hash. -/
def TrackOf (input : ExportInput) (hash : String) (id : Nat) : Prop :=
  0 < id ∧ ∃ rawLocation, input.tracks[id - 1]? = some (hash, rawLocation)

/-- The hashes of a playlist that belong to tracks of the export. -/
def exportedHashes (input : ExportInput) (p : PlaylistInput) : List String :=
  p.hashes.filter (fun hash => hash ∈ input.tracks.map Prod.fst)

namespace DeviceLibrary

/-- Id, name and position of the playlists. -/
def playlistTree (library : DeviceLibrary) : List (Nat × String × Nat) :=
  library.playlists.map (fun p => (p.playlistId, p.name, p.sequenceNo))

/-- Position, content and playlist. -/
def playlistEntries (library : DeviceLibrary) : List (Nat × Nat × Nat) :=
  library.playlistContents.map (fun row => (row.sequenceNo, row.contentId, row.playlistId))

def entriesOf (library : DeviceLibrary) (playlistId : Nat) : List (Nat × Nat) :=
  ((library.playlistEntries).filter (fun e => e.2.2 = playlistId)).map (fun e => (e.1, e.2.1))

end DeviceLibrary

/-- Both databases hold the playlists of an export. -/
structure SameLists (input : ExportInput) (pdb : Bytes) (library : DeviceLibrary) : Prop where
  tree : Reader.playlistTree pdb = some library.playlistTree
  entries : Reader.playlistEntries pdb = library.playlistEntries
  playlists : library.playlistTree =
    (exportedPlaylists input).zipIdx.map (fun (p, i) => (i + 1, p.name, i))
  members : ∀ p i, (exportedPlaylists input)[i]? = some p →
    ∃ ids, List.Forall₂ (TrackOf input) (exportedHashes input p) ids ∧
      Reader.entriesOf pdb (i + 1) = numbered ids ∧ library.entriesOf (i + 1) = numbered ids
  known : ∀ e ∈ Reader.playlistEntries pdb,
    e.2.1 ∈ (Reader.tableRows pdb 0).map Reader.trackId ∧
      e.2.1 ∈ library.contents.map ContentRow.contentId

variable {env : Environment} {input : ExportInput} {loaded : Loaded}

/-- The id that a track gets in the map from hashes. -/
def Numbered (track : (String × String) × Nat) (e : String × UInt32) : Prop :=
  e.1 = track.1.1 ∧ e.2.toNat = track.2 + 1

theorem idByHash_numbered {tracks : List (String × String)}
    (ran : tracks.zipIdx.foldlM (loadTrack env) ⟨[], [], []⟩ = .ok loaded) :
    List.Forall₂ Numbered tracks.zipIdx loaded.idByHash.reverse := by
  have both : LoadedFrom tracks.zipIdx loaded ∧
      List.Forall₂ Numbered tracks.zipIdx loaded.idByHash.reverse := by
    refine foldlM_invariant
      (P := fun done s => LoadedFrom done s ∧ List.Forall₂ Numbered done s.idByHash.reverse)
      ⟨⟨by decide, .nil, rfl⟩, .nil⟩ ?_ ran
    rintro done track s s' ⟨before, numbers⟩ here ran
    have turn : track.2 = done.length := by
      have turn := getElem?_of_consumed here
      rw [List.getElem?_zipIdx] at turn
      obtain ⟨t, _, rfl⟩ := Option.map_eq_some_iff.mp turn
      exact Nat.zero_add _
    have after := loadTrack_spec before turn ran
    obtain ⟨id, number, ran⟩ := of_bind ran
    obtain ⟨analysis, _, ran⟩ := of_bind ran
    cases ran
    refine ⟨after, ?_⟩
    rw [List.reverse_cons]
    have few := before.few
    exact List.rel_append numbers (.cons ⟨rfl, (oneBased_ok number (by omega)).1⟩ .nil)
  exact both.2

section
variable (numbers : List.Forall₂ Numbered input.tracks.zipIdx loaded.idByHash.reverse)
include numbers

theorem trackOf_lookup {hash : String} {id : UInt32}
    (found : loaded.idByHash.lookup hash = some id) : TrackOf input hash id.toNat := by
  have mem : (hash, id) ∈ loaded.idByHash.reverse := by
    obtain ⟨front, back, same, _⟩ := List.lookup_eq_some_iff.mp found
    rw [List.mem_reverse, same]
    simp
  obtain ⟨⟨⟨hash', rawLocation⟩, i⟩, track, same, number⟩ := exists_of_mem numbers.flip mem
  obtain rfl : hash = hash' := same
  have number : id.toNat = i + 1 := number
  refine ⟨by omega, rawLocation, ?_⟩
  rw [number]
  exact List.mem_zipIdx_iff_getElem?.mp track

theorem lookup_of_exported {hash : String} (mem : hash ∈ input.tracks.map Prod.fst) :
    ∃ id, loaded.idByHash.lookup hash = some id := by
  rw [← List.zipIdx_map_fst 0 input.tracks, List.map_map] at mem
  obtain ⟨track, there, rfl⟩ := List.mem_map.mp mem
  obtain ⟨⟨hash, id⟩, listed, same, _⟩ := exists_of_mem numbers there
  have known : loaded.idByHash.lookup track.1.1 ≠ none := by
    intro missing
    have other := List.lookup_eq_none_iff.mp missing (hash, id) (List.mem_reverse.mp listed)
    rw [same] at other
    simp at other
  exact Option.ne_none_iff_exists'.mp known

theorem members_of (hashes : List String) :
    List.Forall₂ (TrackOf input) (hashes.filter (fun hash => hash ∈ input.tracks.map Prod.fst))
      ((hashes.filterMap fun h => loaded.idByHash.lookup h).map UInt32.toNat) := by
  induction hashes with
  | nil => exact .nil
  | cons hash hashes ih =>
    by_cases mem : hash ∈ input.tracks.map Prod.fst
    · obtain ⟨id, found⟩ := lookup_of_exported numbers mem
      rw [List.filter_cons, if_pos (decide_eq_true mem), List.filterMap_cons, found]
      exact .cons (trackOf_lookup numbers found) ih
    · have missing : loaded.idByHash.lookup hash = none := by
        cases found : loaded.idByHash.lookup hash with
        | none => rfl
        | some id =>
          obtain ⟨_, rawLocation, track⟩ := trackOf_lookup numbers found
          exact absurd (List.mem_map.mpr ⟨_, List.mem_of_getElem? track, rfl⟩) mem
      rw [List.filter_cons, if_neg (by simpa using mem), List.filterMap_cons, missing]
      exact ih

end

/-- The ids of the members of a playlist. -/
def members (loaded : Loaded) (p : PlaylistInput) : List UInt32 :=
  p.hashes.filterMap fun h => loaded.idByHash.lookup h

theorem zip_members : ((exportedPlaylists input).zip (memberIds input loaded)).zipIdx =
    (exportedPlaylists input).zipIdx.map (fun (p, i) => ((p, members loaded p), i)) := by
  have pairs : (exportedPlaylists input).zip (memberIds input loaded) =
      (exportedPlaylists input).map (fun p => (p, members loaded p)) :=
    List.map_prod_left_eq_zip.symm
  rw [pairs, List.zipIdx_map]
  rfl

theorem playlistSpecs_eq : playlistSpecs (exportedPlaylists input) (memberIds input loaded) =
    (exportedPlaylists input).zipIdx.map (fun (p, i) => ⟨i + 1, p.name, members loaded p⟩) := by
  unfold playlistSpecs
  rw [zip_members, List.map_map]
  rfl

/-- A playlist as the builder of `export.pdb` keeps it. -/
def playlistInfo (loaded : Loaded) (p : PlaylistInput) (i : Nat) : PlaylistInfo where
  id := UInt32.ofNat (i + 1)
  parentId := 0
  name := p.name
  isFolder := false
  sortOrder := i
  trackIds := members loaded p

theorem playlistsOf_lists {tracks : List PdbBuilder.Call}
    (none_ : tracks.countP PdbBuilder.Call.isPlaylist = 0) (lists : List PlaylistInput)
    (few : lists.length < 2 ^ 32) :
    PdbBuilder.playlistsOf (tracks ++ lists.zipIdx.map (fun (p, i) =>
        PdbBuilder.Call.addPlaylist (UInt32.ofNat (i + 1)) 0 p.name (members loaded p))) =
      lists.zipIdx.map (fun (p, i) => playlistInfo loaded p i) := by
  induction lists using List.reverseRecOn with
  | nil =>
    apply List.eq_nil_of_length_eq_zero
    rw [PdbBuilder.length_playlistsOf]
    simpa using none_
  | append_singleton lists p ih =>
    rw [List.length_append, List.length_singleton] at few
    have before := ih (by omega)
    rw [List.zipIdx_append, List.map_append, ← List.append_assoc, List.map_append]
    simp only [List.zipIdx_singleton, List.map_cons, List.map_nil, Nat.zero_add]
    rw [PdbBuilder.playlistsOf_snoc, before]
    simp only [PdbBuilder.Call.playlist?, List.length_map, List.length_zipIdx,
      Nat.mod_eq_of_lt (show lists.length < 2 ^ 32 by omega)]
    rfl

/-- The playlists of the database, and there are not too many for their ids. -/
theorem pdbCalls_playlists {calls : List PdbBuilder.Call}
    (ran : pdbCalls loaded.analyses (exportedPlaylists input) (memberIds input loaded) =
      .ok calls) :
    (exportedPlaylists input).length < 2 ^ 32 ∧ PdbBuilder.playlistsOf calls =
      (exportedPlaylists input).zipIdx.map (fun (p, i) => playlistInfo loaded p i) := by
  obtain ⟨lists, numbered, ran⟩ := of_bind ran
  cases ran
  rw [zip_members] at numbered
  have few : (exportedPlaylists input).length < 2 ^ 32 := by
    apply few_of_indices
    intro i inside
    have mem : ((exportedPlaylists input)[i], i) ∈ (exportedPlaylists input).zipIdx :=
      List.mem_zipIdx_iff_getElem?.mpr (List.getElem?_eq_getElem inside)
    obtain ⟨call, made⟩ := mapM_each numbered (List.mem_map_of_mem mem)
    obtain ⟨id, number, _⟩ := of_bind made
    exact (oneBased_fits number).2
  refine ⟨few, ?_⟩
  have added : lists = (exportedPlaylists input).zipIdx.map fun listed =>
      PdbBuilder.Call.addPlaylist (UInt32.ofNat (listed.2 + 1)) 0 listed.1.name
        (members loaded listed.1) := by
    rw [mapM_eq_map (h := fun entry => PdbBuilder.Call.addPlaylist (UInt32.ofNat (entry.2 + 1)) 0
      entry.1.1.name entry.1.2) ?_ numbered, List.map_map]
    · rfl
    · intro entry mem call made
      obtain ⟨⟨p, i⟩, there, rfl⟩ := List.mem_map.mp mem
      obtain ⟨id, number, made⟩ := of_bind made
      cases made
      have inside : i < (exportedPlaylists input).length := by
        simpa using (List.mem_zipIdx there).2.1
      obtain ⟨value, fits⟩ := oneBased_ok number (by omega)
      have same : id = UInt32.ofNat (i + 1) := by
        apply UInt32.toNat_inj.mp
        rw [value, UInt32.toNat_ofNat_of_lt' fits]
      rw [same]
  rw [added]
  apply playlistsOf_lists _ _ few
  rw [List.countP_eq_zero]
  intro call mem
  obtain ⟨a, _, rfl⟩ := List.mem_map.mp mem
  simp [PdbBuilder.Call.isPlaylist]

/-- The entries that a playlist gets in both databases. -/
def listEntries (loaded : Loaded) (p : PlaylistInput) (i : Nat) : List (Nat × Nat × Nat) :=
  (members loaded p).zipIdx.map (fun (id, seq) => (seq + 1, id.toNat, i + 1))

section
variable (opts : DeviceLibraryOptions)

theorem library_tree :
    (exportLibraryRows loaded.analyses
      (playlistSpecs (exportedPlaylists input) (memberIds input loaded)) opts).playlistTree =
        (exportedPlaylists input).zipIdx.map (fun (p, i) => (i + 1, p.name, i)) := by
  rw [playlistSpecs_eq]
  simp only [DeviceLibrary.playlistTree, exportLibraryRows, List.map_map]
  rfl

theorem library_entries :
    (exportLibraryRows loaded.analyses
      (playlistSpecs (exportedPlaylists input) (memberIds input loaded)) opts).playlistEntries =
        (exportedPlaylists input).zipIdx.flatMap (fun (p, i) => listEntries loaded p i) := by
  rw [playlistSpecs_eq]
  simp only [DeviceLibrary.playlistEntries, exportLibraryRows, List.flatMap_map, List.map_flatMap]
  congr 1
  funext ⟨p, i⟩
  simp only [playlistContentRows, listEntries, List.map_map]
  rfl

end

section
variable {calls : List PdbBuilder.Call} {pdb db : Bytes}
  (databases : Databases env input loaded calls pdb db)
include databases

/-- The id of a playlist in the database is its position and one. -/
theorem playlistInfo_id {p : PlaylistInput} {i : Nat}
    (there : (p, i) ∈ (exportedPlaylists input).zipIdx) :
    (playlistInfo loaded p i).id.toNat = i + 1 := by
  have few := (pdbCalls_playlists databases.called).1
  have inside : i < (exportedPlaylists input).length := by
    simpa using (List.mem_zipIdx there).2.1
  have fits : i + 1 < 2 ^ 32 := by omega
  exact UInt32.toNat_ofNat_of_lt' fits

theorem pdb_tree : Reader.playlistTree pdb =
    some ((exportedPlaylists input).zipIdx.map (fun (p, i) => (i + 1, p.name, i))) := by
  rw [build_playlistTree databases.rendered, (pdbCalls_playlists databases.called).2, List.map_map]
  congr 1
  apply List.map_congr_left
  rintro ⟨p, i⟩ there
  have id := playlistInfo_id databases there
  simp only [Function.comp_apply, id]
  rfl

theorem pdb_entries : Reader.playlistEntries pdb =
    (exportedPlaylists input).zipIdx.flatMap (fun (p, i) => listEntries loaded p i) := by
  rw [build_playlistEntries databases.rendered, (pdbCalls_playlists databases.called).2,
    List.filter_eq_self.mpr, List.flatMap_map]
  · simp only [List.flatMap_def]
    congr 1
    apply List.map_congr_left
    rintro ⟨p, i⟩ there
    have id := playlistInfo_id databases there
    simp only [entryRows, id]
    rfl
  · intro info mem
    obtain ⟨_, _, rfl⟩ := List.mem_map.mp mem
    rfl

theorem pdb_entriesOf {p : PlaylistInput} {i : Nat}
    (there : (exportedPlaylists input)[i]? = some p) :
    Reader.entriesOf pdb (i + 1) = numbered ((members loaded p).map UInt32.toNat) := by
  have listed : (p, i) ∈ (exportedPlaylists input).zipIdx :=
    List.mem_zipIdx_iff_getElem?.mpr there
  have lists := (pdbCalls_playlists databases.called).2
  have ids : (PdbBuilder.playlistsOf calls).map (fun p => p.id.toNat) =
      (exportedPlaylists input).zipIdx.map (fun t => t.2 + 1) := by
    rw [lists, List.map_map]
    apply List.map_congr_left
    rintro ⟨q, j⟩ mem
    exact playlistInfo_id databases mem
  have mem : playlistInfo loaded p i ∈ PdbBuilder.playlistsOf calls := by
    rw [lists]
    exact List.mem_map_of_mem listed
  rw [← playlistInfo_id databases listed]
  apply build_entriesOf databases.rendered _ mem rfl
  rw [ids]
  exact oneBased_nodup _

end

section
variable {staging : String → Option Bytes} {s : Staging}
  {analyses : List StoredAnalysis} {fixed : List (String × Bytes)} {audio : List ManifestEntry}
  {pdb : Bytes} (assembled : Assembled env input staging s analyses fixed audio pdb)
include assembled

/-- The id of a track stands in both track tables. -/
theorem trackOf_known {hash : String} {id : Nat} (track : TrackOf input hash id)
    (playlists : List PlaylistSpec) (opts : DeviceLibraryOptions) :
    id ∈ (Reader.tableRows pdb 0).map Reader.trackId ∧
      id ∈ (exportLibraryRows analyses playlists opts).contents.map ContentRow.contentId := by
  obtain ⟨positive, rawLocation, here⟩ := track
  have listed : ((hash, rawLocation), id - 1) ∈ input.tracks.zipIdx :=
    List.mem_zipIdx_iff_getElem?.mpr here
  constructor
  · obtain ⟨row, mem, linked⟩ := exists_of_mem (rows_linked assembled) listed
    refine List.mem_map.mpr ⟨row, mem, linked.id.trans ?_⟩
    exact Nat.sub_add_cancel positive
  · rw [contentIds_eq]
    obtain ⟨a, mem, number, _⟩ := exists_of_mem assembled.analyses_of listed
    refine List.mem_map.mpr ⟨a, mem, number.trans ?_⟩
    exact Nat.sub_add_cancel positive

end

/-- Whenever a build returns, its two databases hold the same playlists. -/
theorem export_same_lists {sqlcipher : DeviceLibrary → Except String Bytes}
    {readLibrary : Bytes → Option DeviceLibrary} {staging : String → Option Bytes} {s : Staging}
    (library : env.exportLibrary = buildExportLibrary sqlcipher)
    (reads : ∀ rows bytes, sqlcipher rows = .ok bytes → readLibrary bytes = some rows)
    (built : buildExport env input staging = .ok s) :
    ∃ pdb db rows, s.files "PIONEER/rekordbox/export.pdb" = some pdb ∧
      s.files "PIONEER/rekordbox/exportLibrary.db" = some db ∧ readLibrary db = some rows ∧
      SameLists input pdb rows := by
  obtain ⟨loaded, calls, pdb, db, fixed, audio, databases, assembled, backup⟩ :=
    buildExport_parts built
  obtain ⟨opts, filled⟩ := databases.library
  rw [library] at filled
  have numbers := idByHash_numbered databases.tracks
  refine ⟨pdb, db, _, ?_, ?_, reads _ _ filled, ?_⟩
  · exact (found_file assembled (List.mem_append_left _ assembled.fixed_database)).1
  · exact (found_file assembled (List.mem_append_left _ backup)).1
  · have entries := pdb_entries databases
    have shared := entries.trans (library_entries opts).symm
    refine ⟨?_, shared, library_tree opts, ?_, ?_⟩
    · rw [library_tree]
      exact pdb_tree databases
    · intro p i here
      have list := pdb_entriesOf databases here
      refine ⟨(members loaded p).map UInt32.toNat, members_of numbers p.hashes, list, ?_⟩
      rw [← list, Reader.entriesOf, shared]
      rfl
    · intro e mem
      rw [entries] at mem
      obtain ⟨⟨p, i⟩, _, inside⟩ := List.mem_flatMap.mp mem
      obtain ⟨⟨id, seq⟩, member, rfl⟩ := List.mem_map.mp inside
      obtain ⟨hash, _, found⟩ := List.mem_filterMap.mp (List.fst_mem_of_mem_zipIdx member)
      exact trackOf_known assembled (trackOf_lookup numbers found) _ _

def twoLoaded : Loaded where
  analyses :=
    [{ plainAnalysis with id := 1, filePath := "/" ++ contentsUsb "a1b2" "a1/a1b2.mp3" },
      { plainAnalysis with id := 2, filePath := "/" ++ contentsUsb "c3d4" "c3/c3d4.flac" }]
  refs :=
    [⟨"a1b2", "a1/a1b2.mp3", contentsUsb "a1b2" "a1/a1b2.mp3"⟩,
      ⟨"c3d4", "c3/c3d4.flac", contentsUsb "c3d4" "c3/c3d4.flac"⟩]
  idByHash := [("c3d4", 2), ("a1b2", 1)]

def warmUp : List PlaylistInput := [⟨"Warm-up", ["c3d4", "a1b2"]⟩]

/-- What the library of the two tracks is filled with. -/
def twoRows : DeviceLibrary :=
  exportLibraryRows twoLoaded.analyses (playlistSpecs warmUp [[2, 1]])
    (deviceOptions (twoLoaded.analyses.map fun a => a.id) warmUp 0)

/-- A database that takes these rows. -/
def takesTwoRows (rows : DeviceLibrary) : Except String Bytes :=
  if rows = twoRows then .ok [0] else .error "disk I/O error"

def readsTwoRows (_ : Bytes) : Option DeviceLibrary := some twoRows

def twoDatabases : Environment :=
  { twoFiles with exportLibrary := buildExportLibrary takesTwoRows }

theorem twoDatabases_build : ∃ s, buildExport twoDatabases twoTracks (fun _ => none) = .ok s := by
  obtain ⟨b, ran, modest⟩ := twoCalls_modest
  obtain ⟨pdb, rendered⟩ := PdbBuilder.buildAfter_returns ran modest
  have database : fromCore (PdbBuilder.buildAfter twoCalls) = .ok pdb := by rw [rendered]; rfl
  have sorted : sortByName (twoTracks.playlists.filter fun p => p.name ≠ "") = warmUp := by
    simp [sortByName, twoTracks, warmUp]
  have filled : takesTwoRows twoRows = .ok [0] := if_pos rfl
  have library : (twoDatabases.exportLibrary twoLoaded.analyses (playlistSpecs warmUp [[2, 1]])
      (deviceOptions (twoLoaded.analyses.map fun a => a.id) warmUp 0)).mapError
        ExportError.deviceLibrary = .ok [0] := by
    exact congrArg _ filled
  unfold buildExport
  rw [sorted]
  obtain ⟨s', added⟩ := audio_added _
  refine ⟨s', bind_ok (a := twoLoaded) rfl (bind_ok (a := twoCalls) rfl (bind_ok database ?_))⟩
  refine bind_ok rfl (bind_ok (bind_ok library rfl) (bind_ok rfl (bind_ok rfl (bind_ok rfl ?_))))
  exact added

theorem twoDatabases_same_lists : ∃ s pdb db rows,
    buildExport twoDatabases twoTracks (fun _ => none) = .ok s ∧
      s.files "PIONEER/rekordbox/export.pdb" = some pdb ∧
      s.files "PIONEER/rekordbox/exportLibrary.db" = some db ∧ SameLists twoTracks pdb rows := by
  obtain ⟨s, built⟩ := twoDatabases_build
  have reads : ∀ rows bytes, takesTwoRows rows = .ok bytes → readsTwoRows bytes = some rows := by
    intro rows bytes taken
    unfold takesTwoRows at taken
    split at taken
    · rename_i same
      rw [same]
      rfl
    · cases taken
  obtain ⟨pdb, db, rows, first, second, _, same⟩ := export_same_lists rfl reads built
  exact ⟨s, pdb, db, rows, built, first, second, same⟩

end BVault.Export
