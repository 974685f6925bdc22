import BVault.Core.TrackPaths
import BVault.Export.Build

/-!
# The stages of a build

What each stage of a build that returns has written and listed, from the ids of
the tracks to the audio, put together in `Assembled`.
-/

namespace BVault.Export

open BVault.Core BVault.Gateway BVault.Transfer Loops

variable {env : Environment}

/-- A rendered file as the manifest lists it. -/
def stagedEntry (file : String × Bytes) : ManifestEntry := ⟨file.1, file.2.length, .staging⟩

def overwrite (files : String → Option Bytes) (file : String × Bytes) : String → Option Bytes :=
  fun path => if path = file.1 then some file.2 else files path

/-- These files were written and listed, in this order. -/
structure Wrote (s s' : Staging) (files : List (String × Bytes)) : Prop where
  entries : s'.entries = s.entries ++ files.map stagedEntry
  files : s'.files = files.foldl overwrite s.files

theorem Wrote.nothing (s : Staging) : Wrote s s [] := ⟨(List.append_nil _).symm, rfl⟩

theorem Wrote.trans {s t u : Staging} {files more : List (String × Bytes)} (first : Wrote s t files)
    (second : Wrote t u more) : Wrote s u (files ++ more) where
  entries := by
    rw [second.entries, first.entries, List.map_append, List.append_assoc]
  files := by
    rw [second.files, first.files, List.foldl_append]

theorem wrote_of_writeStaged {s s' : Staging} {usbPath : String} {bytes : Bytes}
    (ran : writeStaged env s usbPath bytes = .ok s') : Wrote s s' [(usbPath, bytes)] := by
  unfold writeStaged at ran
  split at ran
  · cases ran
  · cases ran
    exact ⟨rfl, rfl⟩

theorem overwrite_absent {files : List (String × Bytes)} {path : String}
    (absent : path ∉ files.map Prod.fst) (before : String → Option Bytes) :
    files.foldl overwrite before path = before path := by
  induction files generalizing before with
  | nil => rfl
  | cons file files ih =>
    rw [List.map_cons, List.mem_cons, not_or] at absent
    rw [List.foldl_cons, ih absent.2]
    exact if_neg absent.1

/-- Of files with different paths, each one is found with its content. -/
theorem found_of_mem {files : List (String × Bytes)} (apart : (files.map Prod.fst).Nodup)
    (before : String → Option Bytes) {path : String} {bytes : Bytes} (mem : (path, bytes) ∈ files) :
    files.foldl overwrite before path = some bytes := by
  induction files generalizing before with
  | nil => cases mem
  | cons file files ih =>
    rw [List.map_cons, List.nodup_cons] at apart
    rw [List.foldl_cons]
    rcases List.mem_cons.mp mem with rfl | later
    · rw [overwrite_absent apart.1]
      exact if_pos rfl
    · exact ih apart.2 _ later

theorem ok_of_mapError {ε ε' α : Type} {f : ε → ε'} {x : Except ε α} {a : α}
    (ran : x.mapError f = .ok a) : x = .ok a := by
  cases x with
  | error e => cases ran
  | ok b => exact congrArg Except.ok (Except.ok.inj ran)

theorem fromCore_ok {α : Type} {x : Except Fault α} {a : α} (ran : fromCore x = .ok a) :
    x = .ok a :=
  ok_of_mapError ran

/-- What comes back is the index in 32 bits, and one. -/
theorem oneBased_fits {i : Nat} {id : UInt32} (ran : oneBased i = .ok id) :
    id.toNat = i % 2 ^ 32 + 1 ∧ i % 2 ^ 32 + 1 < 2 ^ 32 := by
  obtain ⟨n, sum, ran⟩ := of_bind ran
  have sum := fromCore_ok sum
  unfold addU32 at sum
  split at sum
  · rename_i fits
    cases sum
    cases ran
    exact ⟨UInt32.toNat_ofNat_of_lt' fits, fits⟩
  · cases sum

/-- A returned id does not wrap. -/
theorem oneBased_ok {i : Nat} {id : UInt32} (ran : oneBased i = .ok id) (small : i < 2 ^ 32) :
    id.toNat = i + 1 ∧ i + 1 < 2 ^ 32 := by
  obtain ⟨number, fits⟩ := oneBased_fits ran
  rw [Nat.mod_eq_of_lt small] at number fits
  exact ⟨number, fits⟩

/-- The analysis of a track as an export uses it. -/
def AnalysisOf (track : (String × String) × Nat) (a : StoredAnalysis) : Prop :=
  a.id.toNat = track.2 + 1 ∧ a.filePath = "/" ++ contentsUsb track.1.1 track.1.2

def refOf (track : (String × String) × Nat) : TrackRef :=
  ⟨track.1.1, track.1.2, contentsUsb track.1.1 track.1.2⟩

/-- The tracks loaded so far. -/
structure LoadedFrom (done : List ((String × String) × Nat)) (s : Loaded) : Prop where
  few : done.length < 2 ^ 32
  analyses : List.Forall₂ AnalysisOf done s.analyses
  refs : s.refs = done.map refOf

theorem loadTrack_spec {done : List ((String × String) × Nat)} {s s' : Loaded}
    {track : (String × String) × Nat} (loaded : LoadedFrom done s) (turn : track.2 = done.length)
    (ran : loadTrack env s track = .ok s') : LoadedFrom (done ++ [track]) s' := by
  obtain ⟨⟨hash, rawLocation⟩, i⟩ := track
  obtain ⟨id, numbered, ran⟩ := of_bind ran
  obtain ⟨analysis, _, ran⟩ := of_bind ran
  cases ran
  obtain rfl : i = done.length := turn
  obtain ⟨number, few⟩ := oneBased_ok numbered loaded.few
  refine ⟨?_, ?_, ?_⟩
  · rwa [List.length_append, List.length_singleton]
  · exact List.rel_append loaded.analyses (.cons ⟨number, rfl⟩ .nil)
  · rw [loaded.refs, List.map_append]
    rfl

theorem loadTracks_spec {tracks : List (String × String)} {s : Loaded}
    (ran : tracks.zipIdx.foldlM (loadTrack env) ⟨[], [], []⟩ = .ok s) :
    LoadedFrom tracks.zipIdx s := by
  refine foldlM_invariant (P := LoadedFrom) ⟨by decide, .nil, rfl⟩ ?_ ran
  intro done track s s' loaded here ran
  refine loadTrack_spec loaded ?_ ran
  have turn := getElem?_of_consumed here
  rw [List.getElem?_zipIdx] at turn
  obtain ⟨t, _, rfl⟩ := Option.map_eq_some_iff.mp turn
  exact Nat.zero_add _

/-- The analysis files of a track. -/
def anlzFiles (a : StoredAnalysis) : List (String × Bytes) :=
  [(anlzStem a.id ++ ".DAT",
      generateDatFile a.beatGrid a.waveform a.filePath a.fileSize (totalSamples a)),
    (anlzStem a.id ++ ".EXT", generateExtFile a.waveform a.filePath a.cuePoints),
    (anlzStem a.id ++ ".2EX", generate2exFile a.waveform a.filePath)]

theorem stripSuffix_append (s suffix : String) : stripSuffix (s ++ suffix) suffix = some s := by
  unfold stripSuffix
  rw [String.toList_append, if_pos (List.suffix_append _ _), List.length_append,
    Nat.add_sub_cancel, List.take_left', String.ofList_toList]
  rfl

theorem wrote_of_writeAnlz {s s' : Staging} {a : StoredAnalysis}
    (ran : writeAnlz env s a = .ok s') : Wrote s s' (anlzFiles a) := by
  unfold writeAnlz at ran
  simp only [generateAnlzPath_eq, stripSuffix_append, Option.getD_some] at ran
  obtain ⟨s₁, dat, ran⟩ := of_bind ran
  obtain ⟨s₂, ext, two⟩ := of_bind ran
  exact (wrote_of_writeStaged dat).trans
    ((wrote_of_writeStaged ext).trans (wrote_of_writeStaged two))

theorem wrote_of_writeAnlzs {s s' : Staging} {analyses : List StoredAnalysis}
    (ran : analyses.foldlM (writeAnlz env) s = .ok s') :
    Wrote s s' (analyses.flatMap anlzFiles) := by
  refine foldlM_invariant (P := fun done t => Wrote s t (done.flatMap anlzFiles))
    (Wrote.nothing s) ?_ ran
  intro done a t t' wrote _ ran
  rw [List.flatMap_append, List.flatMap_singleton]
  exact wrote.trans (wrote_of_writeAnlz ran)

/-- The entry of a track's audio. -/
def AudioOf (env : Environment) (r : TrackRef) (e : ManifestEntry) : Prop :=
  e.usbPath = r.contentsUsb ∧ e.source = .raw r.hash ∧
    ∃ path, env.raw.resolve env.files r.rawLocation = .ok path ∧ e.size = length env path

/-- Audio was listed and nothing staged. -/
structure Listed (env : Environment) (s s' : Staging) (refs : List TrackRef)
    (audio : List ManifestEntry) : Prop where
  entries : s'.entries = s.entries ++ audio
  files : s'.files = s.files
  audio : List.Forall₂ (AudioOf env) refs audio

theorem listed_of_addAudio {s s' : Staging} {r : TrackRef} (ran : addAudio env s r = .ok s') :
    ∃ e, Listed env s s' [r] [e] := by
  obtain ⟨path, resolved, ran⟩ := of_bind ran
  cases ran
  exact ⟨_, rfl, rfl, .cons ⟨rfl, rfl, path, ok_of_mapError resolved, rfl⟩ .nil⟩

theorem listed_of_addAudios {s s' : Staging} {refs : List TrackRef}
    (ran : refs.foldlM (addAudio env) s = .ok s') : ∃ audio, Listed env s s' refs audio := by
  refine foldlM_invariant (P := fun done t => ∃ audio, Listed env s t done audio)
    ⟨[], (List.append_nil _).symm, rfl, .nil⟩ ?_ ran
  rintro done r t t' ⟨audio, listed⟩ _ ran
  obtain ⟨e, next⟩ := listed_of_addAudio ran
  refine ⟨audio ++ [e], ?_, next.files.trans listed.files, List.rel_append listed.audio next.audio⟩
  rw [next.entries, listed.entries, List.append_assoc]

/-- The calls add the tracks with the paths of their analysis files. -/
theorem pdbCalls_tracks {analyses : List StoredAnalysis} {playlists : List PlaylistInput}
    {contentIds : List (List UInt32)} {calls : List PdbBuilder.Call}
    (ran : pdbCalls analyses playlists contentIds = .ok calls) :
    calls.filterMap PdbBuilder.Call.track? =
      analyses.map (fun a => (a.toTrackAnalysis, generateAnlzPath a.id, none)) := by
  obtain ⟨lists, numbered, ran⟩ := of_bind ran
  cases ran
  have added : (analyses.map fun a =>
      PdbBuilder.Call.addTrack a.toTrackAnalysis (generateAnlzPath a.id)).filterMap
        PdbBuilder.Call.track? =
      analyses.map (fun a => (a.toTrackAnalysis, generateAnlzPath a.id, none)) := by
    rw [List.filterMap_map]
    exact congrFun (@List.filterMap_eq_map _ _ (fun a : StoredAnalysis =>
      (a.toTrackAnalysis, generateAnlzPath a.id, none))) analyses
  have none_ : lists.filterMap PdbBuilder.Call.track? = [] := by
    rw [List.filterMap_eq_nil_iff]
    intro call mem
    obtain ⟨p, _, ran⟩ := mapM_mem numbered mem
    obtain ⟨id, _, ran⟩ := of_bind ran
    cases ran
    rfl
  rw [List.filterMap_append, added, none_, List.append_nil]

/-- The paths of the files that every export has. -/
def fixedPaths (opts : DeviceLibraryOptions) : List String :=
  ["PIONEER/rekordbox/export.pdb", "PIONEER/rekordbox/exportLibrary.db",
    "PIONEER/DeviceLibBackup/" ++ devlibBackupFilename opts, "PIONEER/DEVSETTING.DAT",
    "PIONEER/djprofile.nxs"]

/-- What a build has put together. -/
structure Assembled (env : Environment) (input : ExportInput) (staging : String → Option Bytes)
    (s : Staging) (analyses : List StoredAnalysis) (fixed : List (String × Bytes))
    (audio : List ManifestEntry) (pdb : Bytes) : Prop where
  analyses_of : List.Forall₂ AnalysisOf input.tracks.zipIdx analyses
  database : ∃ calls, calls.filterMap PdbBuilder.Call.track? =
      analyses.map (fun a => (a.toTrackAnalysis, generateAnlzPath a.id, none)) ∧
    PdbBuilder.buildAfter calls = .ok pdb
  fixed_paths : ∃ opts, fixed.map Prod.fst = fixedPaths opts
  fixed_database : ("PIONEER/rekordbox/export.pdb", pdb) ∈ fixed
  entries : s.entries = (fixed ++ analyses.flatMap anlzFiles).map stagedEntry ++ audio
  files : s.files = (fixed ++ analyses.flatMap anlzFiles).foldl overwrite staging
  audio_of : List.Forall₂ (AudioOf env) (input.tracks.zipIdx.map refOf) audio

/-- The playlists that are exported, in the order of their ids. -/
def exportedPlaylists (input : ExportInput) : List PlaylistInput :=
  sortByName (input.playlists.filter fun p => p.name ≠ "")

/-- The ids of the members of each exported playlist. -/
def memberIds (input : ExportInput) (loaded : Loaded) : List (List UInt32) :=
  (exportedPlaylists input).map fun p => p.hashes.filterMap fun h => loaded.idByHash.lookup h

/-- One playlist of the device library for each of the given ones. -/
def playlistSpecs (playlists : List PlaylistInput) (contentIds : List (List UInt32)) :
    List PlaylistSpec :=
  (playlists.zip contentIds).zipIdx.map fun ((p, ids), i) =>
    { id := i + 1, name := p.name, contentIds := ids }

/-- Where the two databases of an export come from. -/
structure Databases (env : Environment) (input : ExportInput) (loaded : Loaded)
    (calls : List PdbBuilder.Call) (pdb db : Bytes) : Prop where
  tracks : input.tracks.zipIdx.foldlM (loadTrack env) ⟨[], [], []⟩ = .ok loaded
  called : pdbCalls loaded.analyses (exportedPlaylists input) (memberIds input loaded) = .ok calls
  rendered : PdbBuilder.buildAfter calls = .ok pdb
  library : ∃ opts, env.exportLibrary loaded.analyses
    (playlistSpecs (exportedPlaylists input) (memberIds input loaded)) opts = .ok db

theorem buildExport_parts {input : ExportInput} {staging : String → Option Bytes} {s : Staging}
    (built : buildExport env input staging = .ok s) :
    ∃ loaded calls pdb db fixed audio, Databases env input loaded calls pdb db ∧
      Assembled env input staging s loaded.analyses fixed audio pdb ∧
      ("PIONEER/rekordbox/exportLibrary.db", db) ∈ fixed := by
  obtain ⟨loaded, tracks, built⟩ := of_bind built
  obtain ⟨calls, called, built⟩ := of_bind built
  obtain ⟨pdb, rendered, built⟩ := of_bind built
  obtain ⟨s₁, database, built⟩ := of_bind built
  obtain ⟨s₂, library, built⟩ := of_bind built
  obtain ⟨s₃, setting, built⟩ := of_bind built
  obtain ⟨s₄, profile, built⟩ := of_bind built
  obtain ⟨s₅, anlz, built⟩ := of_bind built
  obtain ⟨db, filled, library⟩ := of_bind library
  obtain ⟨s₆, library, backup⟩ := of_bind library
  have loaded_from := loadTracks_spec tracks
  obtain ⟨audio, listed⟩ := listed_of_addAudios built
  have wrote := ((((wrote_of_writeStaged database).trans (wrote_of_writeStaged library)).trans
    (wrote_of_writeStaged backup)).trans (wrote_of_writeStaged setting)).trans
    (wrote_of_writeStaged profile)
  have all := wrote.trans (wrote_of_writeAnlzs anlz)
  have entries := all.entries.trans (List.nil_append _)
  refine ⟨loaded, calls, pdb, db, _, audio,
    { tracks := tracks
      called := called
      rendered := fromCore_ok rendered
      library := ⟨_, ok_of_mapError filled⟩ },
    { analyses_of := loaded_from.analyses
      database := ⟨calls, pdbCalls_tracks called, fromCore_ok rendered⟩
      entries := listed.entries.trans (congrArg (fun es => es ++ audio) entries)
      files := listed.files.trans all.files
      fixed_paths := ⟨_, rfl⟩
      fixed_database := List.mem_cons_self
      audio_of := ?_ }, List.mem_cons_of_mem _ List.mem_cons_self⟩
  rw [← loaded_from.refs]
  exact listed.audio

theorem buildExport_assembled {input : ExportInput} {staging : String → Option Bytes} {s : Staging}
    (built : buildExport env input staging = .ok s) :
    ∃ analyses fixed audio pdb, Assembled env input staging s analyses fixed audio pdb := by
  obtain ⟨loaded, _, pdb, _, fixed, audio, _, assembled, _⟩ := buildExport_parts built
  exact ⟨loaded.analyses, fixed, audio, pdb, assembled⟩

end BVault.Export
