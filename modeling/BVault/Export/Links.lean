import BVault.Core.PdbReturns
import BVault.Export.Stages
import BVault.Lib.Pointwise

/-!
# What refers to what on an exported USB

The rows of the database, the paths inside the analysis files and the manifest
are made apart from each other. Whenever a build returns, they agree: a row
leads to its audio and to its three analysis files, these lead back to the
audio, and no file is without its row or has two.
-/

namespace BVault.Export

open BVault.Core BVault.Gateway BVault.Transfer Loops Paths Pointwise

variable {env : Environment}

theorem under_of_fixed {opts : DeviceLibraryOptions} {path : String} (mem : path ∈ fixedPaths opts) :
    ∃ front ∈ ["PIONEER/r", "PIONEER/D", "PIONEER/d"], Under front path := by
  have backup : Under "PIONEER/D" ("PIONEER/DeviceLibBackup/" ++ devlibBackupFilename opts) := by
    have front : Under "PIONEER/D" "PIONEER/DeviceLibBackup/" := by decide
    exact Under.trans front (under_append _ _)
  simp only [fixedPaths, List.mem_cons, List.not_mem_nil, or_false] at mem
  rcases mem with rfl | rfl | rfl | rfl | rfl
  · exact ⟨"PIONEER/r", by decide, by decide⟩
  · exact ⟨"PIONEER/r", by decide, by decide⟩
  · exact ⟨"PIONEER/D", by decide, backup⟩
  · exact ⟨"PIONEER/D", by decide, by decide⟩
  · exact ⟨"PIONEER/d", by decide, by decide⟩

theorem fixedPaths_nodup (opts : DeviceLibraryOptions) : (fixedPaths opts).Nodup := by
  have backup := under_append "PIONEER/DeviceLibBackup/" (devlibBackupFilename opts)
  have other {front path : String} (h : Under front path)
      (apart : ¬ Under "PIONEER/DeviceLibBackup/" front ∧ ¬ Under front "PIONEER/DeviceLibBackup/") :
      "PIONEER/DeviceLibBackup/" ++ devlibBackupFilename opts ≠ path :=
    ne_of_under backup h apart
  have pdb := @other "PIONEER/r" "PIONEER/rekordbox/export.pdb" (by decide) (by decide)
  have db := @other "PIONEER/r" "PIONEER/rekordbox/exportLibrary.db" (by decide) (by decide)
  have setting := @other "PIONEER/DEV" "PIONEER/DEVSETTING.DAT" (by decide) (by decide)
  have profile := @other "PIONEER/d" "PIONEER/djprofile.nxs" (by decide) (by decide)
  simp only [fixedPaths, List.nodup_cons, List.mem_cons, List.not_mem_nil, or_false, not_or,
    List.nodup_nil, and_true, not_false_eq_true]
  exact ⟨⟨by decide, pdb.symm, by decide, by decide⟩, ⟨db.symm, by decide, by decide⟩,
    ⟨setting, profile⟩, by decide⟩

theorem under_contentsUsb (hash rawLocation : String) :
    Under "Contents/" (contentsUsb hash rawLocation) := by
  unfold contentsUsb
  simp only [String.append_assoc]
  exact under_append _ _

/-- A hash is read off the path of its audio: the extension has no dot. -/
theorem contentsUsb_injective {hash hash' rawLocation rawLocation' : String}
    (same : contentsUsb hash rawLocation = contentsUsb hash' rawLocation') : hash = hash' := by
  have dotless (location : String) : '.' ∉ ((Paths.extension location).getD "bin").toList := by
    cases is : Paths.extension location with
    | none => decide
    | some ext => exact Paths.dot_not_mem_extension is
  have chars := congrArg String.toList same
  unfold contentsUsb at chars
  simp only [String.toList_append, List.append_assoc, List.append_cancel_left_eq] at chars
  exact String.toList_inj.mp
    (Paths.append_dot_inj (dotless rawLocation) (dotless rawLocation') chars)

/-- What the three analysis files of a track are called. -/
def anlzExts : List String := [".DAT", ".EXT", ".2EX"]

theorem anlzFiles_paths (a : StoredAnalysis) :
    (anlzFiles a).map Prod.fst = anlzExts.map (fun ext => anlzStem a.id ++ ext) := rfl

theorem under_anlzStem (trackId : UInt32) (ext : String) :
    Under "PIONEER/USBANLZ/" (anlzStem trackId ++ ext) := by
  unfold anlzStem
  have folder : Under "PIONEER/USBANLZ/" "PIONEER/USBANLZ/P" := by decide
  simp only [String.append_assoc]
  exact Under.trans folder (under_append _ _)

theorem mem_anlzPaths {analyses : List StoredAnalysis} {path : String}
    (mem : path ∈ (analyses.flatMap anlzFiles).map Prod.fst) :
    ∃ a ∈ analyses, ∃ ext ∈ anlzExts, path = anlzStem a.id ++ ext := by
  rw [List.map_flatMap] at mem
  obtain ⟨a, there, mem⟩ := List.mem_flatMap.mp mem
  rw [anlzFiles_paths] at mem
  obtain ⟨ext, is, same⟩ := List.mem_map.mp mem
  exact ⟨a, there, ext, is, same.symm⟩

theorem zipIdx_map {α β : Type} (xs : List α) (f : α → β) :
    xs.zipIdx.map (fun x => f x.1) = xs.map f := by
  conv_rhs => rw [← List.zipIdx_map_fst 0 xs, List.map_map]
  rfl

/-- Different tracks have their audio at different paths. -/
theorem contents_distinct {tracks : List (String × String)}
    (distinct : (tracks.map Prod.fst).Nodup) :
    (tracks.map (fun t => contentsUsb t.1 t.2)).Nodup := by
  unfold List.Nodup at distinct ⊢
  rw [List.pairwise_map] at distinct ⊢
  exact distinct.imp (fun apart same => apart (contentsUsb_injective same))

theorem contents_nodup {tracks : List (String × String)} (distinct : (tracks.map Prod.fst).Nodup) :
    (tracks.zipIdx.map (fun t => contentsUsb t.1.1 t.1.2)).Nodup := by
  have paths := zipIdx_map tracks (fun t => contentsUsb t.1 t.2)
  rw [paths]
  exact contents_distinct distinct

/-- Ids that count from 1 are distinct. -/
theorem oneBased_nodup {α : Type} (xs : List α) : (xs.zipIdx.map (fun t => t.2 + 1)).Nodup := by
  have indices : (xs.zipIdx.map Prod.snd).Nodup := by
    rw [List.zipIdx_map_snd]
    exact List.nodup_range'
  have next := indices.map Nat.succ_injective
  rwa [List.map_map] at next

section
variable {input : ExportInput} {staging : String → Option Bytes} {s : Staging}
  {analyses : List StoredAnalysis} {fixed : List (String × Bytes)} {audio : List ManifestEntry}
  {pdb : Bytes} (assembled : Assembled env input staging s analyses fixed audio pdb)
include assembled

/-- The ids count the tracks. -/
theorem ids_nodup : (analyses.map fun a => a.id).Nodup := by
  have numbers : input.tracks.zipIdx.map (fun t => t.2 + 1) = analyses.map fun a => a.id.toNat :=
    map_eq assembled.analyses_of (fun _ _ is => is.1.symm)
  have counted := oneBased_nodup input.tracks
  rw [numbers] at counted
  refine List.Nodup.of_map UInt32.toNat ?_
  rwa [List.map_map]

theorem audio_paths : audio.map ManifestEntry.usbPath =
    input.tracks.zipIdx.map (fun t => contentsUsb t.1.1 t.1.2) := by
  have paths := map_eq (f := TrackRef.contentsUsb) (g := ManifestEntry.usbPath)
    assembled.audio_of (fun _ _ is => is.1.symm)
  rw [← paths, List.map_map]
  rfl

theorem anlzPaths_nodup : ((analyses.flatMap anlzFiles).map Prod.fst).Nodup := by
  rw [List.map_flatMap, List.nodup_flatMap]
  constructor
  · intro a _
    rw [anlzFiles_paths]
    have exts : anlzExts.Nodup := by decide
    exact exts.map (fun ext ext' same => (anlzStem_append_injective same).2)
  · have ids := ids_nodup assembled
    unfold List.Nodup at ids
    rw [List.pairwise_map] at ids
    refine ids.imp (fun {a b} apart path here there => apart ?_)
    dsimp only at here there
    rw [anlzFiles_paths] at here there
    obtain ⟨ext, _, rfl⟩ := List.mem_map.mp here
    obtain ⟨ext', _, same⟩ := List.mem_map.mp there
    exact (anlzStem_append_injective same).1.symm

theorem under_of_fixed_file {path : String} (mem : path ∈ fixed.map Prod.fst) :
    ∃ front ∈ ["PIONEER/r", "PIONEER/D", "PIONEER/d"], Under front path := by
  obtain ⟨opts, paths⟩ := assembled.fixed_paths
  rw [paths] at mem
  exact under_of_fixed mem

theorem staged_nodup : ((fixed ++ analyses.flatMap anlzFiles).map Prod.fst).Nodup := by
  rw [List.map_append, List.nodup_append]
  refine ⟨?_, anlzPaths_nodup assembled, ?_⟩
  · obtain ⟨opts, paths⟩ := assembled.fixed_paths
    rw [paths]
    exact fixedPaths_nodup opts
  · intro path here path' there
    obtain ⟨front, is, under⟩ := under_of_fixed_file assembled here
    obtain ⟨a, _, ext, _, rfl⟩ := mem_anlzPaths there
    have apart : ∀ front ∈ ["PIONEER/r", "PIONEER/D", "PIONEER/d"],
        ¬ Under front "PIONEER/USBANLZ/" ∧ ¬ Under "PIONEER/USBANLZ/" front := by decide
    exact ne_of_under under (under_anlzStem a.id ext) (apart front is)

theorem under_pioneer {path : String}
    (mem : path ∈ (fixed ++ analyses.flatMap anlzFiles).map Prod.fst) : Under "PIONEER/" path := by
  rw [List.map_append, List.mem_append] at mem
  rcases mem with here | there
  · obtain ⟨front, is, under⟩ := under_of_fixed_file assembled here
    have all : ∀ front ∈ ["PIONEER/r", "PIONEER/D", "PIONEER/d"], Under "PIONEER/" front := by decide
    exact Under.trans (all front is) under
  · obtain ⟨a, _, ext, _, rfl⟩ := mem_anlzPaths there
    have folder : Under "PIONEER/" "PIONEER/USBANLZ/" := by decide
    exact Under.trans folder (under_anlzStem a.id ext)

theorem usbPaths_eq : s.entries.map ManifestEntry.usbPath =
    (fixed ++ analyses.flatMap anlzFiles).map Prod.fst ++ audio.map ManifestEntry.usbPath := by
  rw [assembled.entries, List.map_append, List.map_map]
  rfl

theorem usbPaths_nodup (distinct : (input.tracks.map Prod.fst).Nodup) :
    (s.entries.map ManifestEntry.usbPath).Nodup := by
  rw [usbPaths_eq assembled, List.nodup_append, audio_paths assembled]
  refine ⟨staged_nodup assembled, contents_nodup distinct, ?_⟩
  intro path here path' there
  obtain ⟨t, _, rfl⟩ := List.mem_map.mp there
  exact ne_of_under (under_pioneer assembled here) (under_contentsUsb _ _) (by decide)

theorem rows_shown : List.Forall₂
    (fun a => TrackShown (a.toTrackAnalysis, generateAnlzPath a.id, none)) analyses
      (Reader.tableRows pdb 0) := by
  obtain ⟨calls, tracks, built⟩ := assembled.database
  have shown := build_tracksShown built
  rwa [tracks, List.forall₂_map_left_iff] at shown

theorem found_file {path : String} {bytes : Bytes}
    (mem : (path, bytes) ∈ fixed ++ analyses.flatMap anlzFiles) :
    s.files path = some bytes ∧ ⟨path, bytes.length, .staging⟩ ∈ s.entries := by
  constructor
  · rw [assembled.files]
    exact found_of_mem (staged_nodup assembled) staging mem
  · rw [assembled.entries]
    exact List.mem_append_left _ (List.mem_map.mpr ⟨_, mem, rfl⟩)

end

/-- The three files begin with the path of the audio. -/
theorem ppthPath_of_mem {a : StoredAnalysis} {path : String} {bytes : Bytes}
    (mem : (path, bytes) ∈ anlzFiles a) (short : (encodeString a.filePath).length ≤ PAGE_SIZE) :
    Reader.ppthPath bytes = some a.filePath := by
  simp only [anlzFiles, List.mem_cons, Prod.mk.injEq, List.not_mem_nil, or_false] at mem
  rcases mem with ⟨_, rfl⟩ | ⟨_, rfl⟩ | ⟨_, rfl⟩
  · exact ppthPath_anlzFile short _
  · exact ppthPath_anlzFile short _
  · exact ppthPath_anlzFile short _

/-- The row of a track leads to its audio and its analysis files, and these to the audio. -/
structure TrackLinked (s : Staging) (track : (String × String) × Nat) (row : Bytes) : Prop where
  id : Reader.trackId row = track.2 + 1
  audio : ∃ path size, Reader.trackFilePath row = some ("/" ++ path) ∧
    ⟨path, size, .raw track.1.1⟩ ∈ s.entries
  anlz : ∃ stem, Reader.trackAnalyzePath row = some ("/" ++ (stem ++ ".DAT")) ∧
    ∀ ext ∈ anlzExts, ∃ content, ⟨stem ++ ext, content.length, .staging⟩ ∈ s.entries ∧
      s.files (stem ++ ext) = some content ∧
      Reader.ppthPath content = Reader.trackFilePath row

def RefersToAudio (path : String) (row : Bytes) : Prop :=
  Reader.trackFilePath row = some ("/" ++ path)

/-- The path is that of the row's analysis file, or of one beside it. -/
def RefersToAnlz (path : String) (row : Bytes) : Prop :=
  ∃ stem, ∃ ext ∈ anlzExts,
    Reader.trackAnalyzePath row = some ("/" ++ (stem ++ ".DAT")) ∧ path = stem ++ ext

/-- The database, the staged files and the manifest agree. -/
structure Linked (input : ExportInput) (s : Staging) (pdb : Bytes) : Prop where
  distinct : (s.manifest.entries.map ManifestEntry.usbPath).Nodup
  database : s.files "PIONEER/rekordbox/export.pdb" = some pdb
  rows : List.Forall₂ (TrackLinked s) input.tracks.zipIdx (Reader.tableRows pdb 0)
  audio : ∀ e ∈ s.manifest.entries, ∀ hash, e.source = .raw hash →
    ByOne (Reader.tableRows pdb 0) (RefersToAudio e.usbPath)
  anlz : ∀ e ∈ s.manifest.entries, Under "PIONEER/USBANLZ/" e.usbPath →
    ByOne (Reader.tableRows pdb 0) (RefersToAnlz e.usbPath)

section
variable {input : ExportInput} {staging : String → Option Bytes} {s : Staging}
  {analyses : List StoredAnalysis} {fixed : List (String × Bytes)} {audio : List ManifestEntry}
  {pdb : Bytes} (assembled : Assembled env input staging s analyses fixed audio pdb)
include assembled

theorem rows_linked : List.Forall₂ (TrackLinked s) input.tracks.zipIdx (Reader.tableRows pdb 0) := by
  refine chain (with_mem assembled.analyses_of) (with_mem (rows_shown assembled)) ?_
  rintro t a row ⟨track, number, path⟩ ⟨there, shown⟩
  refine ⟨shown.id.trans number, ?_, anlzStem a.id, ?_, ?_⟩
  · obtain ⟨e, mem, usbPath, source, _⟩ :=
      exists_of_mem assembled.audio_of (List.mem_map_of_mem track)
    refine ⟨contentsUsb t.1.1 t.1.2, e.size, shown.filePath.trans (congrArg some path), ?_⟩
    rw [assembled.entries]
    refine List.mem_append_right _ ?_
    obtain ⟨_, size, _⟩ := e
    cases usbPath
    cases source
    exact mem
  · rw [shown.analyzePath, generateAnlzPath_eq, trimStartSlashes_anlzPath]
  · intro ext is
    have paths : anlzStem a.id ++ ext ∈ (anlzFiles a).map Prod.fst := by
      rw [anlzFiles_paths]
      exact List.mem_map.mpr ⟨ext, is, rfl⟩
    obtain ⟨⟨path', content⟩, file, same⟩ := List.mem_map.mp paths
    cases same
    obtain ⟨found, entry⟩ := found_file assembled
      (List.mem_append_right fixed (List.mem_flatMap.mpr ⟨a, there, file⟩))
    refine ⟨content, entry, found, ?_⟩
    rw [ppthPath_of_mem file shown.short, shown.filePath]

theorem audio_byOne (distinct : (input.tracks.map Prod.fst).Nodup) {e : ManifestEntry}
    (mem : e ∈ s.entries) {hash : String} (is : e.source = .raw hash) :
    ByOne (Reader.tableRows pdb 0) (RefersToAudio e.usbPath) := by
  have rows := chain assembled.analyses_of (rows_shown assembled)
    (fun t a row of shown => shown.filePath.trans (congrArg some of.2))
  refine byOne (k := e.usbPath) rows (contents_nodup distinct) ?_ ?_
  · rw [← audio_paths assembled]
    rw [assembled.entries] at mem
    rcases List.mem_append.mp mem with staged | listed
    · obtain ⟨file, _, rfl⟩ := List.mem_map.mp staged
      cases is
    · exact List.mem_map_of_mem listed
  · intro t row shown
    unfold RefersToAudio
    rw [shown, Option.some.injEq, String.append_right_inj]

/-- What is in the folder of the analysis files is one of them. -/
theorem anlz_of_under {e : ManifestEntry} (mem : e ∈ s.entries)
    (under : Under "PIONEER/USBANLZ/" e.usbPath) :
    ∃ a ∈ analyses, ∃ ext ∈ anlzExts, e.usbPath = anlzStem a.id ++ ext := by
  have path := List.mem_map_of_mem (f := ManifestEntry.usbPath) mem
  rw [usbPaths_eq assembled, audio_paths assembled, List.map_append, List.append_assoc,
    List.mem_append, List.mem_append] at path
  rcases path with file | anlz | contents
  · obtain ⟨front, is, elsewhere⟩ := under_of_fixed_file assembled file
    have apart : ∀ front ∈ ["PIONEER/r", "PIONEER/D", "PIONEER/d"],
        ¬ Under front "PIONEER/USBANLZ/" ∧ ¬ Under "PIONEER/USBANLZ/" front := by decide
    exact absurd rfl (ne_of_under elsewhere under (apart front is))
  · exact mem_anlzPaths anlz
  · obtain ⟨t, _, same⟩ := List.mem_map.mp contents
    exact absurd same (ne_of_under (under_contentsUsb _ _) under (by decide))

theorem anlz_byOne {e : ManifestEntry} (mem : e ∈ s.entries)
    (under : Under "PIONEER/USBANLZ/" e.usbPath) :
    ByOne (Reader.tableRows pdb 0) (RefersToAnlz e.usbPath) := by
  obtain ⟨a, there, ext, is, path⟩ := anlz_of_under assembled mem under
  refine byOne (rows_shown assembled) (ids_nodup assembled) (List.mem_map_of_mem there) ?_
  intro b row shown
  have analyzePath : Reader.trackAnalyzePath row = some ("/" ++ (anlzStem b.id ++ ".DAT")) := by
    rw [shown.analyzePath, generateAnlzPath_eq, trimStartSlashes_anlzPath]
  constructor
  · rintro ⟨stem, ext', _, refers, same⟩
    rw [analyzePath, Option.some.injEq, String.append_right_inj, String.append_left_inj] at refers
    subst refers
    rw [path] at same
    exact (anlzStem_append_injective same).1.symm
  · intro ids
    refine ⟨anlzStem b.id, ext, is, analyzePath, ?_⟩
    rw [ids]
    exact path

end

/-- Whenever a build of different tracks returns, its database, files and manifest agree. -/
theorem export_linked {input : ExportInput} {staging : String → Option Bytes} {s : Staging}
    (distinct : (input.tracks.map Prod.fst).Nodup)
    (built : buildExport env input staging = .ok s) : ∃ pdb, Linked input s pdb := by
  obtain ⟨analyses, fixed, audio, pdb, assembled⟩ := buildExport_assembled built
  exact ⟨pdb,
    { distinct := usbPaths_nodup assembled distinct
      database :=
        (found_file assembled (List.mem_append_left _ assembled.fixed_database)).1
      rows := rows_linked assembled
      audio := fun _ mem _ is => audio_byOne assembled distinct mem is
      anlz := fun _ mem under => anlz_byOne assembled mem under }⟩

def plainAnalysis : StoredAnalysis :=
  { PdbBuilder.fullTrack with beatGrid := ⟨[]⟩, waveform := ⟨[], [], []⟩, cuePoints := [] }

/-- A store with one analysis for every hash and two raw files. -/
def twoFiles : Environment where
  artifacts := fun _ => some []
  fromSlice := fun _ => .ok plainAnalysis
  raw := .linkFree
  files := fun path =>
    if path = "/music/a1/a1b2.mp3" ∨ path = "/music/c3/c3d4.flac" then some [1, 2, 3] else none
  folderLength := fun _ => 4096
  exportLibrary := fun _ _ _ => .ok [0]
  now := 0
  writeFails := fun _ => false

def twoTracks : ExportInput where
  tracks := [("a1b2", "a1/a1b2.mp3"), ("c3d4", "c3/c3d4.flac")]
  playlists := [⟨"Warm-up", ["c3d4", "a1b2"]⟩, ⟨"", []⟩]
  profileName := "DJ"

def twoCalls : List PdbBuilder.Call :=
  [.addTrack
      { PdbBuilder.fullTrack with id := 1, filePath := "/" ++ contentsUsb "a1b2" "a1/a1b2.mp3" }
      (generateAnlzPath 1),
    .addTrack
      { PdbBuilder.fullTrack with id := 2, filePath := "/" ++ contentsUsb "c3d4" "c3/c3d4.flac" }
      (generateAnlzPath 2),
    .addPlaylist 1 0 "Warm-up" [2, 1]]

theorem twoCalls_modest : ∃ b, PdbBuilder.run twoCalls = .ok b ∧ PdbBuilder.Modest b := by
  refine ⟨_, rfl, PdbBuilder.modest_of_all ?_ ?_⟩
  · decide +kernel
  · decide +kernel

theorem audio_added (s : Staging) : ∃ s',
    [(⟨"a1b2", "a1/a1b2.mp3", contentsUsb "a1b2" "a1/a1b2.mp3"⟩ : TrackRef),
      ⟨"c3d4", "c3/c3d4.flac", contentsUsb "c3d4" "c3/c3d4.flac"⟩].foldlM (addAudio twoFiles) s =
        .ok s' := by
  have first : twoFiles.raw.resolve twoFiles.files "a1/a1b2.mp3" = .ok "/music/a1/a1b2.mp3" := by
    decide +kernel
  have second : twoFiles.raw.resolve twoFiles.files "c3/c3d4.flac" = .ok "/music/c3/c3d4.flac" := by
    decide +kernel
  simp only [List.foldlM_cons, List.foldlM_nil, addAudio, first, second, Except.mapError]
  exact ⟨_, rfl⟩

theorem twoTracks_builds : ∃ s, buildExport twoFiles twoTracks (fun _ => none) = .ok s := by
  obtain ⟨b, ran, modest⟩ := twoCalls_modest
  obtain ⟨pdb, rendered⟩ := PdbBuilder.buildAfter_returns ran modest
  have database : fromCore (PdbBuilder.buildAfter twoCalls) = .ok pdb := by rw [rendered]; rfl
  have sorted : sortByName (twoTracks.playlists.filter fun p => p.name ≠ "") =
      [⟨"Warm-up", ["c3d4", "a1b2"]⟩] := by
    simp [sortByName, twoTracks]
  unfold buildExport
  rw [sorted]
  obtain ⟨s', added⟩ := audio_added _
  refine ⟨s', bind_ok rfl (bind_ok (a := twoCalls) rfl (bind_ok database ?_))⟩
  refine bind_ok rfl (bind_ok rfl (bind_ok rfl (bind_ok rfl (bind_ok rfl ?_))))
  exact added

theorem twoTracks_linked : ∃ s pdb, buildExport twoFiles twoTracks (fun _ => none) = .ok s ∧
    Linked twoTracks s pdb := by
  obtain ⟨s, built⟩ := twoTracks_builds
  obtain ⟨pdb, linked⟩ := export_linked (by decide) built
  exact ⟨s, pdb, built, linked⟩

end BVault.Export
