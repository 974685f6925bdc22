import BVault.Export.TreePaths
import BVault.Gateway.Confinement

/-!
# What an export serves

The server streams exactly the files of the manifest, each with the listed
length and from below the export's tree or the root of the music store, as long
as every track of the export has a file and not a folder behind its raw
location. Whatever else is asked for is refused.
-/

namespace BVault.Export

open BVault.Core BVault.Gateway BVault.Meta BVault.Store BVault.Transfer Loops Pointwise

/-- The server after the export was created: it holds the records, and in the tree lies what the
build left, path by path. -/
structure Server.Keeps (srv : Server) (id : Uuid) (created : Created) : Prop where
  records : srv.exports id = some created.records
  tree : ∀ path, guardRelative path = .ok () →
    srv.disk.content (srv.tree id ++ names path) = created.tree path

/-- Below the tree of the export, or below the root of the music store. -/
def Server.Inside (srv : Server) (id : Uuid) : Place → Prop
  | .staged place => srv.tree id <+: place
  | .raw path => ∃ root, srv.env.raw.canonicalize srv.env.files srv.env.raw.root = some root ∧
      startsWith path root = true

/-- The server streams the files of the manifest and nothing else. -/
structure ServesListed (srv : Server) (user id : Uuid) (manifest : Manifest) : Prop where
  listed : ∀ path, (∃ reply bytes, serveFile srv user id path = .ok reply ∧
    reply.body = some bytes) ↔ path ∈ manifest.entries.map ManifestEntry.usbPath
  length : ∀ path reply bytes, serveFile srv user id path = .ok reply → reply.body = some bytes →
    ∀ e ∈ manifest.entries, e.usbPath = path → reply.size = e.size ∧ bytes.length = e.size
  inside : ∀ path reply, serveFile srv user id path = .ok reply → srv.Inside id reply.place

/-- The raw location leads to a file of the music store. -/
def IsFile (env : Environment) (location : String) : Prop :=
  ∃ path bytes, env.raw.resolve env.files location = .ok path ∧ env.files path = some bytes

section
variable {tables : Tables} {user : Uuid} {req : CreateExport} {found : Answers}

/-- The tracks of an export. -/
def exportTracks (found : Answers) : List (String × String) :=
  found.union.filter fun t => found.analyzed t.1

theorem exportTracks_distinct (answered : Answered tables user req found) :
    ((exportTracks found).map Prod.fst).Nodup := by
  refine List.Nodup.map_on ?_ (answered.distinct.filter _)
  rintro ⟨hash, location⟩ first ⟨hash', location'⟩ second same
  have located {t : String × String} (mem : t ∈ exportTracks found) :
      tables.tracks t.1 = some t.2 := by
    have listed : t ∈ found.union.toFinset := List.mem_toFinset.mpr (List.mem_filter.mp mem).1
    rw [answered.union] at listed
    obtain ⟨_, _, _, _, location⟩ := mem_resolveHashes.mp listed
    exact location
  obtain rfl : hash = hash' := same
  have here := located first
  have there := located second
  exact congrArg (Prod.mk hash) (Option.some.inj (here.symm.trans there))

end

section
variable {tracks : List (String × String)}

theorem contentsUsb_distinct (distinct : (tracks.map Prod.fst).Nodup) :
    ((rawSources tracks).map Prod.fst).Nodup := by
  unfold rawSources
  rw [List.map_map]
  exact contents_distinct distinct

/-- The path of a track, and no other, has its location in the records. -/
theorem source_iff (user : Uuid) (distinct : (tracks.map Prod.fst).Nodup) {path location : String} :
    (Gateway.Export.mk user (rawSources tracks)).source path = some location ↔
      ∃ hash, (hash, location) ∈ tracks ∧ contentsUsb hash location = path := by
  unfold Gateway.Export.source
  rw [find?_key, lookup_reverse_iff_mem (contentsUsb_distinct distinct)]
  simp only [rawSources, List.mem_map, Prod.mk.injEq, Prod.exists]
  constructor
  · rintro ⟨hash, _, mem, rfl, rfl⟩
    exact ⟨hash, mem, rfl⟩
  · rintro ⟨hash, mem, rfl⟩
    exact ⟨hash, location, mem, rfl, rfl⟩

theorem sourcesOf_audio {env : Environment} {refs : List TrackRef} {audio : List ManifestEntry}
    (distinct : (tracks.map Prod.fst).Nodup) (within : ∀ r ∈ refs, (r.hash, r.rawLocation) ∈ tracks)
    (listed : List.Forall₂ (AudioOf env) refs audio) :
    sourcesOf tracks audio = refs.map (fun r => (r.contentsUsb, r.rawLocation)) := by
  induction listed with
  | nil => rfl
  | @cons r e refs audio here _ ih =>
    obtain ⟨path, source, _⟩ := here
    have known := (lookup_reverse_iff_mem distinct).mpr (within r List.mem_cons_self)
    have rest := ih (fun r mem => within r (List.mem_cons_of_mem _ mem))
    unfold sourcesOf at rest ⊢
    rw [List.filterMap_cons, source, List.map_cons, ← rest, ← path]
    simp only [known, Option.map_some]

end

section
variable {env : Environment} {input : ExportInput} {s : Staging} {analyses : List StoredAnalysis}
  {fixed : List (String × Bytes)} {audio : List ManifestEntry} {pdb : Bytes}
  (assembled : Assembled env input (fun _ => none) s analyses fixed audio pdb)
include assembled

/-- The loop over the manifest records where the audio of each track is. -/
theorem sourcesOf_entries (distinct : (input.tracks.map Prod.fst).Nodup) :
    sourcesOf input.tracks s.entries = rawSources input.tracks := by
  have staged : sourcesOf input.tracks ((fixed ++ analyses.flatMap anlzFiles).map stagedEntry) =
      [] := by
    unfold sourcesOf
    rw [List.filterMap_eq_nil_iff]
    intro e mem
    obtain ⟨file, _, rfl⟩ := List.mem_map.mp mem
    rfl
  have within : ∀ r ∈ input.tracks.zipIdx.map refOf, (r.hash, r.rawLocation) ∈ input.tracks := by
    intro r mem
    obtain ⟨t, there, rfl⟩ := List.mem_map.mp mem
    exact List.fst_mem_of_mem_zipIdx there
  have listed := sourcesOf_audio distinct within assembled.audio_of
  unfold sourcesOf at staged listed ⊢
  rw [assembled.entries, List.filterMap_append, staged, listed, List.nil_append, List.map_map]
  exact zipIdx_map input.tracks (fun t => (contentsUsb t.1 t.2, t.2))

/-- The tree holds the rendered files and no others. -/
theorem tree_iff {path : String} {bytes : Bytes} : s.files path = some bytes ↔
    (path, bytes) ∈ fixed ++ analyses.flatMap anlzFiles := by
  constructor
  · intro there
    rw [assembled.files] at there
    by_cases listed : path ∈ (fixed ++ analyses.flatMap anlzFiles).map Prod.fst
    · obtain ⟨⟨path', content⟩, mem, rfl⟩ := List.mem_map.mp listed
      rw [found_of_mem (staged_nodup assembled) _ mem] at there
      cases there
      exact mem
    · rw [overwrite_absent listed] at there
      cases there
  · exact fun mem => (found_file assembled mem).1

theorem listed_iff {path : String} : path ∈ s.entries.map ManifestEntry.usbPath ↔
    (∃ bytes, (path, bytes) ∈ fixed ++ analyses.flatMap anlzFiles) ∨
      ∃ t ∈ input.tracks, contentsUsb t.1 t.2 = path := by
  rw [usbPaths_eq assembled, audio_paths assembled,
    zipIdx_map input.tracks (fun t => contentsUsb t.1 t.2), List.mem_append, List.mem_map,
    List.mem_map]
  constructor
  · rintro (⟨⟨path, bytes⟩, mem, rfl⟩ | track)
    · exact Or.inl ⟨bytes, mem⟩
    · exact Or.inr track
  · rintro (⟨bytes, mem⟩ | track)
    · exact Or.inl ⟨(path, bytes), mem, rfl⟩
    · exact Or.inr track

/-- The entry of a track. -/
theorem audio_entry {t : String × String} (mem : t ∈ input.tracks) :
    ∃ path, env.raw.resolve env.files t.2 = .ok path ∧
      ⟨contentsUsb t.1 t.2, length env path, .raw t.1⟩ ∈ s.entries := by
  rw [← List.zipIdx_map_fst 0 input.tracks] at mem
  obtain ⟨⟨t, i⟩, there, rfl⟩ := List.mem_map.mp mem
  obtain ⟨e, listed, usbPath, source, path, resolved, size⟩ :=
    exists_of_mem assembled.audio_of (List.mem_map_of_mem there)
  refine ⟨path, resolved, ?_⟩
  rw [assembled.entries]
  refine List.mem_append_right _ ?_
  obtain ⟨_, _, _⟩ := e
  cases usbPath
  cases source
  cases size
  exact listed

theorem entry_unique (distinct : (input.tracks.map Prod.fst).Nodup) {e e' : ManifestEntry}
    (mem : e ∈ s.entries) (mem' : e' ∈ s.entries) (same : e.usbPath = e'.usbPath) : e = e' :=
  List.inj_on_of_nodup_map (usbPaths_nodup assembled distinct) mem mem' same

end

/-- A disk with the tree somewhere on it. -/
theorem exists_disk
    {env : Environment} {input : ExportInput} {s : Staging} {analyses : List StoredAnalysis}
    {fixed : List (String × Bytes)} {audio : List ManifestEntry} {pdb : Bytes}
    (assembled : Assembled env input (fun _ => none) s analyses fixed audio pdb)
    (base : List Name) : ∃ disk : Folders Name Bytes, ∀ path,
      disk.content (base ++ names path) = s.files path := by
  let staged := fixed ++ analyses.flatMap anlzFiles
  let files := staged.map (fun f => (base ++ names f.1, f.2))
  have apart : Folders.Apart files := by
    constructor
    · intro f mem
      obtain ⟨file, _, rfl⟩ := List.mem_map.mp mem
      exact List.append_ne_nil_of_right_ne_nil _ (List.splitOn_ne_nil _ _)
    · intro f mem g mem' through
      obtain ⟨file, there, rfl⟩ := List.mem_map.mp mem
      obtain ⟨file', there', rfl⟩ := List.mem_map.mp mem'
      have inner := (List.prefix_append_right_inj base).mp through
      have same := eq_of_names_prefix (rendered_of_mem assembled there)
        (rendered_of_mem assembled there') inner
      exact congrArg (fun path => base ++ names path) same
  have distinct : (files.map Prod.fst).Nodup := by
    have paths : files.map Prod.fst = (staged.map Prod.fst).map (fun path => base ++ names path) := by
      simp [files]
    rw [paths]
    refine (staged_nodup assembled).map ?_
    intro path path' same
    exact names_injective (List.append_cancel_left same)
  refine ⟨Folders.ofFiles apart, fun path => ?_⟩
  apply Option.ext
  intro bytes
  rw [Folders.content_ofFiles_iff apart distinct, tree_iff assembled, List.mem_map]
  constructor
  · rintro ⟨⟨path', bytes'⟩, mem, same⟩
    obtain ⟨place, rfl⟩ := Prod.mk.inj same
    obtain rfl := names_injective (List.append_cancel_left place)
    exact mem
  · exact fun mem => ⟨(path, bytes), mem, rfl⟩

/-- What passes the guard is read in the tree, name by name. -/
theorem staged_of_guard (srv : Server) (id : Uuid) {path : String}
    (passes : guardRelative path = .ok ()) : srv.staged id path =
      (srv.disk.content (srv.tree id ++ names path)).map (srv.tree id ++ names path, ·) := by
  obtain ⟨relative, segments⟩ := segments_of_guard passes
  unfold Server.staged
  dsimp only
  rw [if_neg relative, segments, Folders.read_names]

/-- The answer to a request of the owner: the audio of a track, a rendered file, or a refusal. -/
inductive Answer (srv : Server) (id : Uuid) (input : ExportInput) (s : Staging) (path : String)
    (answer : Except ApiError Reply) : Prop where
  | audio (t : String × String) (canonical : String) (track : t ∈ input.tracks)
      (asked : contentsUsb t.1 t.2 = path)
      (resolved : srv.env.raw.resolve srv.env.files t.2 = .ok canonical)
      (is : answer = .ok (streamRaw srv.env canonical))
  | rendered (bytes : Bytes) (there : s.files path = some bytes)
      (listed : ⟨path, bytes.length, .staging⟩ ∈ s.entries)
      (is : answer = .ok (streamStaged (srv.tree id ++ names path) bytes))
  | refused (unlisted : path ∉ s.entries.map ManifestEntry.usbPath) (e : ApiError)
      (is : answer = .error e)

/-- Whatever the music store resolves is below its root. -/
theorem inside_of_resolve {srv : Server} {id : Uuid} {location path : String}
    (resolved : srv.env.raw.resolve srv.env.files location = .ok path) :
    srv.Inside id (.raw path) := by
  unfold RawStore.resolve at resolved
  split at resolved
  · cases resolved
  · split at resolved
    · cases resolved
    · rename_i root is
      split at resolved
      · rename_i below
        cases resolved
        exact ⟨root, is, below⟩
      · cases resolved

section
variable {srv : Server} {user id : Uuid} {input : ExportInput} {s : Staging}
  {analyses : List StoredAnalysis} {fixed : List (String × Bytes)} {audio : List ManifestEntry}
  {pdb : Bytes} (assembled : Assembled srv.env input (fun _ => none) s analyses fixed audio pdb)
  (distinct : (input.tracks.map Prod.fst).Nodup)
  (records : srv.exports id = some ⟨user, rawSources input.tracks⟩)
  (tree : ∀ path, guardRelative path = .ok () →
    srv.disk.content (srv.tree id ++ names path) = s.files path)
include assembled distinct records tree

theorem answer_of (path : String) :
    Answer srv id input s path (serveFile srv user id path) := by
  unfold serveFile
  rw [records]
  dsimp only
  rw [if_neg (not_not.mpr rfl)]
  cases source : (Gateway.Export.mk user (rawSources input.tracks)).source path with
  | some location =>
    obtain ⟨hash, track, asked⟩ := (source_iff user distinct).mp source
    obtain ⟨canonical, resolved, _⟩ := audio_entry assembled track
    refine .audio (hash, location) canonical track asked resolved ?_
    dsimp only at resolved ⊢
    rw [resolved]
  | none =>
    have other : ¬ ∃ t ∈ input.tracks, contentsUsb t.1 t.2 = path := by
      rintro ⟨t, track, asked⟩
      have found := (source_iff user distinct).mpr ⟨t.1, track, asked⟩
      rw [source] at found
      cases found
    dsimp only
    cases passes : guardRelative path with
    | error e =>
      refine .refused ?_ e rfl
      rw [listed_iff assembled]
      rintro (⟨bytes, mem⟩ | track)
      · have guarded := guard_of_rendered (rendered_of_mem assembled mem)
        rw [passes] at guarded
        cases guarded
      · exact other track
    | ok _ =>
      have staged := staged_of_guard srv id passes
      rw [tree path passes] at staged
      cases there : s.files path with
      | some bytes =>
        have mem := (tree_iff assembled).mp there
        refine .rendered bytes there (found_file assembled mem).2 ?_
        rw [staged, there]
        rfl
      | none =>
        refine .refused ?_ .notFound ?_
        · rw [listed_iff assembled]
          rintro (⟨bytes, mem⟩ | track)
          · have found := (tree_iff assembled).mpr mem
            rw [there] at found
            cases found
          · exact other track
        · rw [staged, there]
          rfl

/-- What is served as listed has a file behind each track. -/
theorem isFile_of_serves (serves : ServesListed srv user id s.manifest) {t : String × String}
    (track : t ∈ input.tracks) : IsFile srv.env t.2 := by
  obtain ⟨canonical, resolved, listed⟩ := audio_entry assembled track
  obtain ⟨reply, bytes, ok, body⟩ := (serves.listed _).mpr (List.mem_map_of_mem listed)
  cases answer_of assembled distinct records tree (contentsUsb t.1 t.2) with
  | audio t' canonical' track' asked resolved' is =>
    obtain rfl : t' = t := by
      have hashes := contentsUsb_injective asked
      exact List.inj_on_of_nodup_map distinct track' track hashes
    rw [is] at ok
    cases ok
    exact ⟨canonical', bytes, resolved', body⟩
  | rendered bytes' there staged is =>
    have unique := entry_unique assembled distinct listed staged rfl
    have sources := congrArg ManifestEntry.source unique
    cases sources
  | refused unlisted e is => exact absurd (List.mem_map_of_mem listed) unlisted

theorem streams_iff_listed (files : ∀ t ∈ input.tracks, IsFile srv.env t.2) (path : String) :
    (∃ reply bytes, serveFile srv user id path = .ok reply ∧ reply.body = some bytes) ↔
      path ∈ s.entries.map ManifestEntry.usbPath := by
  cases answer_of assembled distinct records tree path with
  | audio t canonical track asked resolved is =>
    obtain ⟨_, _, listed⟩ := audio_entry assembled track
    obtain ⟨canonical', bytes, resolved', there⟩ := files t track
    obtain rfl : canonical = canonical' := Except.ok.inj (resolved.symm.trans resolved')
    constructor
    · intro _
      rw [← asked]
      exact List.mem_map_of_mem listed
    · intro _
      exact ⟨_, bytes, is, there⟩
  | rendered bytes there listed is =>
    constructor
    · intro _
      exact List.mem_map_of_mem listed
    · intro _
      exact ⟨_, bytes, is, rfl⟩
  | refused unlisted e is =>
    constructor
    · rintro ⟨reply, bytes, ok, _⟩
      rw [is] at ok
      cases ok
    · intro listed
      exact absurd listed unlisted

theorem size_of_streamed {path : String} {reply : Reply} {bytes : Bytes}
    (ok : serveFile srv user id path = .ok reply) (body : reply.body = some bytes)
    {e : ManifestEntry} (mem : e ∈ s.entries) (asked : e.usbPath = path) :
    reply.size = e.size ∧ bytes.length = e.size := by
  cases answer_of assembled distinct records tree path with
  | audio t canonical track named resolved is =>
    obtain ⟨canonical', resolved', listed⟩ := audio_entry assembled track
    obtain rfl : canonical = canonical' := Except.ok.inj (resolved.symm.trans resolved')
    obtain rfl := entry_unique assembled distinct mem listed (asked.trans named.symm)
    rw [is] at ok
    cases ok
    have there : srv.env.files canonical = some bytes := body
    refine ⟨rfl, ?_⟩
    unfold length
    rw [there]
  | rendered bytes' there listed is =>
    obtain rfl := entry_unique assembled distinct mem listed asked
    rw [is] at ok
    cases ok
    cases body
    exact ⟨rfl, rfl⟩
  | refused unlisted fault is =>
    rw [is] at ok
    cases ok

theorem inside_of_answer {path : String} {reply : Reply}
    (ok : serveFile srv user id path = .ok reply) : srv.Inside id reply.place := by
  cases answer_of assembled distinct records tree path with
  | audio t canonical track named resolved is =>
    rw [is] at ok
    cases ok
    exact inside_of_resolve resolved
  | rendered bytes there listed is =>
    rw [is] at ok
    cases ok
    exact List.prefix_append _ _
  | refused unlisted e is =>
    rw [is] at ok
    cases ok

end

/-- What a successful `create_export` has built. -/
theorem created_parts {env : Environment} {user : Uuid} {req : CreateExport} {found : Answers}
    {created : Created} (ran : createExport env user req found = .ok created) :
    ∃ input s, input.tracks = exportTracks found ∧ buildExport env input (fun _ => none) = .ok s ∧
      created = ⟨s.manifest, s.files, ⟨user, sourcesOf input.tracks s.entries⟩⟩ := by
  unfold createExport at ran
  split at ran
  · cases ran
  · dsimp only at ran
    split at ran
    · cases ran
    · obtain ⟨s, built, ran⟩ := of_bind ran
      split at ran
      · cases ran
        exact ⟨_, s, rfl, ok_of_mapError built, rfl⟩
      · cases ran

section
variable {srv : Server} {tables : Tables} {user id : Uuid} {req : CreateExport} {found : Answers}
  {created : Created} (answered : Answered tables user req found)
  (ran : createExport srv.env user req found = .ok created) (keeps : srv.Keeps id created)
include answered ran keeps

theorem created_assembled : ∃ input s analyses fixed audio pdb,
    Assembled srv.env input (fun _ => none) s analyses fixed audio pdb ∧
      input.tracks = exportTracks found ∧ (input.tracks.map Prod.fst).Nodup ∧
      srv.exports id = some ⟨user, rawSources input.tracks⟩ ∧ created.manifest = s.manifest ∧
      created.tree = s.files := by
  obtain ⟨input, s, tracks, built, rfl⟩ := created_parts ran
  obtain ⟨analyses, fixed, audio, pdb, assembled⟩ := buildExport_assembled built
  have distinct : (input.tracks.map Prod.fst).Nodup := by
    rw [tracks]
    exact exportTracks_distinct answered
  have records := keeps.records
  rw [sourcesOf_entries assembled distinct] at records
  exact ⟨input, s, analyses, fixed, audio, pdb, assembled, tracks, distinct, records, rfl, rfl⟩

theorem files_of_serves (serves : ServesListed srv user id created.manifest) :
    ∀ t ∈ found.union, found.analyzed t.1 = true → IsFile srv.env t.2 := by
  obtain ⟨input, s, _, _, _, _, assembled, tracks, distinct, records, manifest, there⟩ :=
    created_assembled answered ran keeps
  have tree := keeps.tree
  rw [there] at tree
  rw [manifest] at serves
  intro t mem analyzed
  have track : t ∈ input.tracks := by
    rw [tracks]
    exact List.mem_filter.mpr ⟨mem, analyzed⟩
  exact isFile_of_serves assembled distinct records tree serves track

theorem serves_of_files
    (files : ∀ t ∈ found.union, found.analyzed t.1 = true → IsFile srv.env t.2) :
    ServesListed srv user id created.manifest := by
  obtain ⟨input, s, _, _, _, _, assembled, tracks, distinct, records, manifest, there⟩ :=
    created_assembled answered ran keeps
  have tree := keeps.tree
  rw [there] at tree
  have every : ∀ t ∈ input.tracks, IsFile srv.env t.2 := by
    intro t track
    rw [tracks] at track
    obtain ⟨mem, analyzed⟩ := List.mem_filter.mp track
    exact files t mem analyzed
  rw [manifest]
  exact
    { listed := streams_iff_listed assembled distinct records tree every
      length := fun path reply bytes ok body e mem asked =>
        size_of_streamed assembled distinct records tree ok body mem asked
      inside := fun path reply ok => inside_of_answer assembled distinct records tree ok }

end

/-- An export is served as listed exactly when a file is behind every one of its tracks. -/
theorem serves_listed_iff {srv : Server} {tables : Tables} {user id : Uuid} {req : CreateExport}
    {found : Answers} {created : Created} (answered : Answered tables user req found)
    (ran : createExport srv.env user req found = .ok created) (keeps : srv.Keeps id created) :
    ServesListed srv user id created.manifest ↔
      ∀ t ∈ found.union, found.analyzed t.1 = true → IsFile srv.env t.2 :=
  ⟨files_of_serves answered ran keeps, serves_of_files answered ran keeps⟩

/-- A build that finds one analysis for every hash. -/
def holding (raw : RawStore) (files : FileSystem) : Environment :=
  { twoFiles with raw := raw, files := files }

/-- One track in one playlist. -/
def oneTrack (hash location : String) : ExportInput where
  tracks := [(hash, location)]
  playlists := [⟨"Warm-up", [hash]⟩]
  profileName := "bvault"

def oneCalls (contents : String) : List PdbBuilder.Call :=
  [.addTrack { PdbBuilder.fullTrack with id := 1, filePath := "/" ++ contents } (generateAnlzPath 1),
    .addPlaylist 1 0 "Warm-up" [1]]

theorem oneTrack_builds {raw : RawStore} {files : FileSystem} {hash location contents path : String}
    (kept : contentsUsb hash location = contents)
    (resolved : raw.resolve files location = .ok path)
    (ran : ∃ b, PdbBuilder.run (oneCalls contents) = .ok b ∧ PdbBuilder.Modest b) :
    ∃ s, buildExport (holding raw files) (oneTrack hash location) (fun _ => none) = .ok s := by
  obtain ⟨b, ran, modest⟩ := ran
  obtain ⟨pdb, rendered⟩ := PdbBuilder.buildAfter_returns ran modest
  have database : fromCore (PdbBuilder.buildAfter (oneCalls contents)) = .ok pdb := by
    rw [rendered]
    rfl
  have sorted : sortByName ((oneTrack hash location).playlists.filter fun p => p.name ≠ "") =
      [⟨"Warm-up", [hash]⟩] := by
    simp [sortByName, oneTrack]
  let loaded : Loaded :=
    { analyses := [{ plainAnalysis with id := 1, filePath := "/" ++ contents }]
      refs := [⟨hash, location, contents⟩]
      idByHash := [(hash, 1)] }
  have load : (oneTrack hash location).tracks.zipIdx.foldlM (loadTrack (holding raw files))
      ⟨[], [], []⟩ = .ok loaded := by
    have step : loadTrack (holding raw files) ⟨[], [], []⟩ ((hash, location), 0) = .ok loaded := by
      refine bind_ok (a := 1) rfl (bind_ok (a := plainAnalysis) rfl ?_)
      dsimp only
      rw [kept]
      rfl
    exact bind_ok step rfl
  have ids : [(⟨"Warm-up", [hash]⟩ : PlaylistInput)].map (fun p => p.hashes.filterMap fun h =>
      loaded.idByHash.lookup h) = [[1]] := by
    simp [loaded]
  have calls : pdbCalls loaded.analyses [⟨"Warm-up", [hash]⟩] [[1]] = .ok (oneCalls contents) := rfl
  have audio (s : Staging) : ∃ s', loaded.refs.foldlM (addAudio (holding raw files)) s = .ok s' := by
    have there : (raw.resolve files location).mapError ExportError.store = .ok path :=
      congrArg _ resolved
    exact ⟨_, bind_ok (bind_ok there rfl) rfl⟩
  unfold buildExport
  rw [sorted]
  obtain ⟨s', added⟩ := audio _
  refine ⟨s', bind_ok load ?_⟩
  dsimp only
  rw [ids]
  refine bind_ok calls (bind_ok database ?_)
  refine bind_ok rfl (bind_ok rfl (bind_ok rfl (bind_ok rfl (bind_ok rfl ?_))))
  exact added

/-- A music store with a folder and one file in it. -/
def oneFolder : Environment :=
  holding
    { root := "/music"
      canonicalPath := fun there path =>
        if path = "/music" ∨ path = "/music/a1" ∨ there path then some path else none
      place := fun _ path => path
      placed := fun there path => by simp }
    (fun path => if path = "/music/a1/a1b2.bin" then some [1, 2, 3] else none)

theorem oneCalls_modest : ∃ b, PdbBuilder.run (oneCalls "Contents/a1b2.bin") = .ok b ∧
    PdbBuilder.Modest b := by
  refine ⟨_, rfl, PdbBuilder.modest_of_all ?_ ?_⟩
  · decide +kernel
  · decide +kernel

def oneRequest : CreateExport := ⟨[1], none⟩

def oneTables (location : String) : Tables where
  tracks := fun hash => if hash = "a1b2" then some location else none
  userTracks := []
  playlists := [⟨1, "Warm-up", none, 0, 0, 7⟩]
  playlistTracks := {(1, "a1b2")}
  batches := []

def oneAnswers (location : String) : Answers where
  union := [("a1b2", location)]
  playlist := fun id => if id = 1 then some ⟨"Warm-up", ["a1b2"]⟩ else none
  analyzed := fun _ => true
  recorded := true

theorem one_answered (location : String) :
    Answered (oneTables location) 7 oneRequest (oneAnswers location) where
  distinct := by simp [oneAnswers]
  union := by
    ext ⟨hash, place⟩
    rw [mem_resolveHashes]
    simp only [oneAnswers, oneRequest, oneTables, Owns, List.toFinset_cons, List.toFinset_nil,
      insert_empty_eq, Finset.mem_singleton, List.mem_singleton, Prod.mk.injEq]
    constructor
    · rintro ⟨rfl, rfl⟩
      simp
    · rintro ⟨id, _, ⟨_, rfl⟩, _, located⟩
      simpa [eq_comm] using located
  playlist := by
    intro id
    by_cases is : id = 1
    · subst is
      rfl
    · simp [oneAnswers, oneTables, getPlaylist, is, Ne.symm is]

/-- A server that has built the export of the one track. -/
theorem one_created {location path : String}
    (kept : contentsUsb "a1b2" location = "Contents/a1b2.bin")
    (resolved : oneFolder.raw.resolve oneFolder.files location = .ok path) :
    ∃ (srv : Server) (created : Created), srv.env = oneFolder ∧
      createExport srv.env 7 oneRequest (oneAnswers location) = .ok created ∧
      srv.Keeps 9 created := by
  obtain ⟨s, built⟩ := oneTrack_builds kept resolved oneCalls_modest
  obtain ⟨_, _, _, _, assembled⟩ := buildExport_assembled built
  obtain ⟨disk, holds⟩ := exists_disk assembled ["tree".toList]
  let created : Created := ⟨s.manifest, s.files, ⟨7, sourcesOf [("a1b2", location)] s.entries⟩⟩
  refine ⟨⟨oneFolder, disk, fun _ => [], fun _ => some created.records⟩, created, rfl, ?_, rfl, ?_⟩
  · have built : (buildExport oneFolder (oneTrack "a1b2" location) fun _ => none).mapError
        ApiError.build = .ok s := congrArg _ built
    exact bind_ok built rfl
  · exact fun path _ => holds path

theorem oneFile_serves : ∃ (srv : Server) (created : Created),
    createExport srv.env 7 oneRequest (oneAnswers "a1/a1b2.bin") = .ok created ∧
      ServesListed srv 7 9 created.manifest := by
  have resolved : oneFolder.raw.resolve oneFolder.files "a1/a1b2.bin" = .ok "/music/a1/a1b2.bin" := by
    decide +kernel
  obtain ⟨srv, created, env, ran, keeps⟩ := one_created (by decide) resolved
  refine ⟨srv, created, ran, (serves_listed_iff (one_answered _) ran keeps).mpr ?_⟩
  intro t mem _
  obtain rfl := List.mem_singleton.mp mem
  rw [env]
  exact ⟨_, [1, 2, 3], resolved, by decide⟩

/-- With a folder behind the track, its entry is listed and nothing can be read of it. -/
theorem folder_not_served : ∃ (srv : Server) (created : Created),
    Answered (oneTables "a1") 7 oneRequest (oneAnswers "a1") ∧
      createExport srv.env 7 oneRequest (oneAnswers "a1") = .ok created ∧ srv.Keeps 9 created ∧
      ¬ ServesListed srv 7 9 created.manifest := by
  have resolved : oneFolder.raw.resolve oneFolder.files "a1" = .ok "/music/a1" := by
    decide +kernel
  obtain ⟨srv, created, env, ran, keeps⟩ := one_created (by decide) resolved
  refine ⟨srv, created, one_answered "a1", ran, keeps, ?_⟩
  intro serves
  obtain ⟨path, bytes, resolved', there⟩ :=
    files_of_serves (one_answered "a1") ran keeps serves _ List.mem_cons_self rfl
  rw [env] at resolved' there
  obtain rfl : "/music/a1" = path := Except.ok.inj (resolved.symm.trans resolved')
  have nothing : oneFolder.files "/music/a1" = none := by decide
  rw [nothing] at there
  cases there

end BVault.Export
