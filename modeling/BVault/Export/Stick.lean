import BVault.Export.Addressed
import BVault.Export.SameLists
import BVault.Transfer.Fresh

/-!
# From the library to the stick

An export is created, served and transferred by code that only meets in the
manifest and the URLs. Taken together: on a stick without the export's files, and
with a network that passes on what the server answers, the transfer completes and
the stick plays. Every track of the export has its row, the row leads to the
bytes of the music store and to three analysis files that lead back, and the
playlists list the tracks that were asked for.
-/

namespace BVault.Export

open BVault.Core BVault.Gateway BVault.Hash BVault.Meta BVault.Store BVault.Transfer Loops Paths
  Percent Pointwise

/-- The parent of a path is the path of its folders. -/
theorem dotless_parent {path : String} {folders : List Name} {name : Name}
    (split : names path = folders ++ [name]) (inner : ∀ f ∈ folders, '.' ∉ f) :
    '.' ∉ (parentOf path).toList := by
  intro dot
  rcases parentOf_cases path with ⟨empty, _⟩ | ⟨last, flat, whole⟩
  · rw [empty] at dot
    revert dot
    decide
  · rw [whole, names_append, names_flat flat] at split
    have front := (List.append_inj' split rfl).1
    obtain ⟨part, here, inside⟩ := mem_splitOn_of_mem dot (by decide : '.' ≠ '/')
    exact inner part (front ▸ here) inside

/-- The characters of the last name are in the path. -/
theorem mem_of_mem_last {path : String} {folders : List Name} {name : Name}
    (split : names path = folders ++ [name]) {c : Char} (mem : c ∈ name) : c ∈ path.toList := by
  rcases parentOf_cases path with ⟨_, flat⟩ | ⟨last, flat, whole⟩
  · rw [names_flat flat] at split
    have alone : [] ++ [path.toList] = folders ++ [name] := split
    have same := (List.append_inj' alone rfl).2
    rw [List.singleton_inj] at same
    rwa [same]
  · rw [whole, names_append, names_flat flat] at split
    have same := (List.append_inj' split rfl).2
    rw [List.singleton_inj] at same
    rw [whole, String.toList_append, same]
    exact List.mem_append_right _ mem

theorem rendered_dots {path : String} (rendered : Rendered path) :
    '.' ∈ path.toList ∧ '.' ∉ (parentOf path).toList := by
  obtain ⟨folders, name, split, inner, file⟩ := rendered
  exact ⟨mem_of_mem_last split file.1,
    dotless_parent split (fun f mem dot => ((inner f mem).2 '.' dot).2 rfl)⟩

/-- No rendered path is a temporary name. -/
theorem rendered_not_tmp {path dest : String} (rendered : Rendered path) : tmpOf dest ≠ path := by
  intro same
  obtain ⟨folders, name, split, inner, file⟩ := rendered
  have hyphen : '-' ∈ path.toList := by
    rw [← same, tmpOf, String.toList_append]
    exact List.mem_append_right _ (by decide)
  obtain ⟨part, here, inside⟩ := mem_splitOn_of_mem hyphen (by decide : '-' ≠ '/')
  have plain : isPlain '-' := by
    rw [show path.toList.splitOn '/' = folders ++ [name] from split] at here
    rcases List.mem_append.mp here with folder | last
    · exact ((inner part folder).2 '-' inside).1
    · obtain rfl := List.mem_singleton.mp last
      exact file.2.2 '-' inside
  revert plain
  decide

section
variable {hash : UInt64} {location : String}

theorem contentsUsb_split (hash location : String) : contentsUsb hash location =
    "Contents" ++ "/" ++ (hash ++ "." ++ audioExtension location) := by
  have folder : "Contents/" = "Contents" ++ "/" := by decide
  unfold contentsUsb audioExtension
  rw [folder]
  simp only [String.append_assoc]

theorem audioExtension_clean (location : String) :
    '.' ∉ (audioExtension location).toList ∧ '/' ∉ (audioExtension location).toList := by
  unfold audioExtension
  cases is : Paths.extension location with
  | none => decide
  | some ext => exact ⟨dot_not_mem_extension is, slash_not_mem_extension is⟩

/-- A hash has neither dots nor slashes. -/
theorem hashHex_clean {c : Char} (other : ¬ c.isAlphanum) : c ∉ (hashHex hash).toList :=
  fun mem => other (isAlphanum_of_mem_hashHex mem)

theorem contents_dots : '.' ∈ (contentsUsb (hashHex hash) location).toList ∧
    '.' ∉ (parentOf (contentsUsb (hashHex hash) location)).toList := by
  have flat : '/' ∉ (hashHex hash ++ "." ++ audioExtension location).toList := by
    simp only [String.toList_append, List.mem_append, not_or]
    exact ⟨⟨hashHex_clean (by decide), by decide⟩, (audioExtension_clean location).2⟩
  have split : names (contentsUsb (hashHex hash) location) =
      ["Contents".toList] ++ [(hashHex hash ++ "." ++ audioExtension location).toList] := by
    rw [contentsUsb_split, names_append, names_flat flat]
    rfl
  refine ⟨mem_of_mem_last split ?_, dotless_parent split (by decide)⟩
  simp only [String.toList_append, List.mem_append]
  exact Or.inl (Or.inr (by decide))

/-- The audio of a track is nowhere the temporary file of another one. -/
theorem contents_not_tmp (hash' location' : String) :
    tmpOf (contentsUsb hash' location') ≠ contentsUsb (hashHex hash) location := by
  intro same
  have dotless : '.' ∉ "bvault-tmp".toList := by decide
  have chars := congrArg String.toList same
  rw [tmpOf, contentsUsb_split, contentsUsb_split] at chars
  simp only [String.toList_append, List.append_assoc, List.append_cancel_left_eq] at chars
  have stem : hash'.toList ++ '.' :: (audioExtension location').toList = (hashHex hash).toList := by
    refine append_dot_inj dotless (audioExtension_clean location).1 ?_
    simpa using chars
  have dot : '.' ∈ (hashHex hash).toList := by
    rw [← stem]
    simp
  exact hashHex_clean (by decide) dot

end

/-- The music store has a file with this content behind a track. -/
def Stored (xxh3_64 : Bytes → UInt64) (env : Environment) (t : String × String) : Prop :=
  ∃ place bytes, env.raw.resolve env.files t.2 = .ok place ∧ env.files place = some bytes ∧
    hashHex (hashBytes xxh3_64 bytes) = t.1

section
variable {env : Environment} {input : ExportInput} {s : Staging} {analyses : List StoredAnalysis}
  {fixed : List (String × Bytes)} {audio : List ManifestEntry} {pdb : Bytes}
  (assembled : Assembled env input (fun _ => none) s analyses fixed audio pdb)
include assembled

/-- An entry is a rendered file or the audio of a track. -/
theorem entry_kinds {e : ManifestEntry} (mem : e ∈ s.entries) :
    (e.source = .staging ∧ Rendered e.usbPath ∧ Under "PIONEER/" e.usbPath) ∨
      ∃ t ∈ input.tracks, e.usbPath = contentsUsb t.1 t.2 ∧ e.source = .raw t.1 := by
  rw [assembled.entries, List.mem_append] at mem
  rcases mem with staged | listed
  · obtain ⟨file, mem, rfl⟩ := List.mem_map.mp staged
    exact Or.inl ⟨rfl, rendered_of_mem assembled mem,
      under_pioneer assembled (List.mem_map_of_mem mem)⟩
  · obtain ⟨r, there, path, source, _⟩ := exists_of_mem assembled.audio_of.flip listed
    obtain ⟨t, track, rfl⟩ := List.mem_map.mp there
    exact Or.inr ⟨t.1, List.fst_mem_of_mem_zipIdx track, path, source⟩

/-- With the hashes of a store that addresses by content, the paths of an export are tidy. -/
theorem entries_tidy (distinct : (input.tracks.map Prod.fst).Nodup)
    (hashes : ∀ t ∈ input.tracks, ∃ hash, t.1 = hashHex hash) : Tidy s.entries := by
  refine tidy_of_dots (usbPaths_nodup assembled distinct) ?_ ?_ ?_
  · intro e mem d mem' same
    rcases entry_kinds assembled mem' with ⟨_, rendered, _⟩ | ⟨t', track', path', _⟩
    · exact rendered_not_tmp rendered same
    · obtain ⟨hash, is⟩ := hashes t' track'
      rcases entry_kinds assembled mem with ⟨_, _, under⟩ | ⟨t, _, path, _⟩
      · have longer : Under "PIONEER/" (tmpOf e.usbPath) := under.trans (under_append _ _)
        rw [path'] at same
        exact ne_of_under longer (under_contentsUsb t'.1 t'.2) (by decide) same
      · rw [path, path', is] at same
        exact contents_not_tmp t.1 t.2 same
  · intro e mem
    rcases entry_kinds assembled mem with ⟨_, rendered, _⟩ | ⟨t, track, path, _⟩
    · exact (rendered_dots rendered).1
    · obtain ⟨hash, is⟩ := hashes t track
      rw [path, is]
      exact contents_dots.1
  · intro e mem
    rcases entry_kinds assembled mem with ⟨_, rendered, _⟩ | ⟨t, track, path, _⟩
    · exact (rendered_dots rendered).2
    · obtain ⟨hash, is⟩ := hashes t track
      rw [path, is]
      exact contents_dots.2

end

section
variable {srv : Server} {user id : Uuid} {input : ExportInput} {s : Staging}
  {analyses : List StoredAnalysis} {fixed : List (String × Bytes)} {audio : List ManifestEntry}
  {pdb : Bytes} (assembled : Assembled srv.env input (fun _ => none) s analyses fixed audio pdb)
  (distinct : (input.tracks.map Prod.fst).Nodup)
  (records : srv.exports id = some ⟨user, rawSources input.tracks⟩)
  (tree : ∀ path, guardRelative path = .ok () →
    srv.disk.content (srv.tree id ++ names path) = s.files path)
include assembled distinct records tree

/-- A rendered file is served as it lies in the tree. -/
theorem serves_rendered {path : String} {bytes : Bytes}
    (mem : (path, bytes) ∈ fixed ++ analyses.flatMap anlzFiles) :
    serveFile srv user id path = .ok (streamStaged (srv.tree id ++ names path) bytes) := by
  obtain ⟨found, listed⟩ := found_file assembled mem
  cases answer_of assembled distinct records tree path with
  | audio t canonical track asked _ is =>
    obtain ⟨_, _, other⟩ := audio_entry assembled track
    have unique := entry_unique assembled distinct listed other asked.symm
    cases congrArg ManifestEntry.source unique
  | rendered bytes' there _ is =>
    rw [found] at there
    cases there
    exact is
  | refused unlisted e is => exact absurd (List.mem_map_of_mem listed) unlisted

/-- The audio of a track is served from the music store. -/
theorem serves_audio {t : String × String} (track : t ∈ input.tracks) {place : String}
    (resolved : srv.env.raw.resolve srv.env.files t.2 = .ok place) :
    serveFile srv user id (contentsUsb t.1 t.2) = .ok (streamRaw srv.env place) := by
  obtain ⟨_, _, listed⟩ := audio_entry assembled track
  cases answer_of assembled distinct records tree (contentsUsb t.1 t.2) with
  | audio t' canonical track' asked resolved' is =>
    obtain rfl : t' = t :=
      List.inj_on_of_nodup_map distinct track' track (contentsUsb_injective asked)
    obtain rfl : place = canonical := Except.ok.inj (resolved.symm.trans resolved')
    exact is
  | rendered bytes there other is =>
    have unique := entry_unique assembled distinct listed other rfl
    cases congrArg ManifestEntry.source unique
  | refused unlisted e is => exact absurd (List.mem_map_of_mem listed) unlisted

end

/-- The bytes that the client gets for a path. -/
def Server.served (srv : Server) (user id : Uuid) (baseUrl exportId path : String) : Bytes :=
  match srv.request user id baseUrl exportId (fileUrl baseUrl exportId path) with
  | .ok reply => reply.body.getD []
  | .error _ => []

/-- Whatever the server answers to the client's requests arrives, and the disk takes it. -/
def Conveyed (srv : Server) (user id : Uuid) (baseUrl exportId : String)
    (run : List (ManifestEntry × World)) : Prop :=
  ∀ ew ∈ run, ∀ reply bytes,
    srv.request user id baseUrl exportId (fileUrl baseUrl exportId ew.1.usbPath) = .ok reply →
      reply.body = some bytes → Works bytes ew.2

/-- What a request asks to build. -/
def requested (req : CreateExport) (found : Answers) : ExportInput where
  tracks := exportTracks found
  playlists := req.playlistIds.filterMap found.playlist
  profileName := req.profileName.getD "bvault"

/-- A row leads to the content in the music store and to three analysis files, and these lead to
the same path. -/
structure TrackPlays (env : Environment) (stick : Target) (track : (String × String) × Nat)
    (row : Bytes) : Prop where
  id : Reader.trackId row = track.2 + 1
  audio : ∃ path place bytes, Reader.trackFilePath row = some ("/" ++ path) ∧
    env.raw.resolve env.files track.1.2 = .ok place ∧ env.files place = some bytes ∧
    stick path = some (.file bytes)
  anlz : ∃ stem, Reader.trackAnalyzePath row = some ("/" ++ (stem ++ ".DAT")) ∧
    ∀ ext ∈ anlzExts, ∃ content, stick (stem ++ ext) = some (.file content) ∧
      Reader.ppthPath content = Reader.trackFilePath row

/-- The database on the stick has the tracks in their order, and the playlists with the ids of
their tracks. -/
structure Plays (env : Environment) (input : ExportInput) (stick : Target) (pdb : Bytes) :
    Prop where
  database : stick "PIONEER/rekordbox/export.pdb" = some (.file pdb)
  tracks : List.Forall₂ (TrackPlays env stick) input.tracks.zipIdx (Reader.tableRows pdb 0)
  playlists : Reader.playlistTree pdb =
    some ((exportedPlaylists input).zipIdx.map (fun (p, i) => (i + 1, p.name, i)))
  members : ∀ p i, (exportedPlaylists input)[i]? = some p →
    ∃ ids, List.Forall₂ (TrackOf input) (exportedHashes input p) ids ∧
      Reader.entriesOf pdb (i + 1) = numbered ids

theorem served_eq {srv : Server} {user id : Uuid} {baseUrl exportId path : String} {reply : Reply}
    {bytes : Bytes}
    (ok : srv.request user id baseUrl exportId (fileUrl baseUrl exportId path) = .ok reply)
    (body : reply.body = some bytes) : srv.served user id baseUrl exportId path = bytes := by
  unfold Server.served
  rw [ok]
  dsimp only
  rw [body, Option.getD_some]

/-- What a successful `create_export` has built, and from what. -/
theorem created_requested {env : Environment} {user : Uuid} {req : CreateExport} {found : Answers}
    {created : Created} (ran : createExport env user req found = .ok created) :
    ∃ s, buildExport env (requested req found) (fun _ => none) = .ok s ∧
      created = ⟨s.manifest, s.files, ⟨user, sourcesOf (exportTracks found) s.entries⟩⟩ := by
  unfold createExport at ran
  split at ran
  · cases ran
  · dsimp only at ran
    split at ran
    · cases ran
    · obtain ⟨s, built, ran⟩ := of_bind ran
      split at ran
      · cases ran
        exact ⟨s, ok_of_mapError built, rfl⟩
      · cases ran

section
variable {srv : Server} {user id : Uuid} {input : ExportInput} {s : Staging}
  {analyses : List StoredAnalysis} {fixed : List (String × Bytes)} {audio : List ManifestEntry}
  {pdb : Bytes} (assembled : Assembled srv.env input (fun _ => none) s analyses fixed audio pdb)
  (distinct : (input.tracks.map Prod.fst).Nodup)
  (records : srv.exports id = some ⟨user, rawSources input.tracks⟩)
  (tree : ∀ path, guardRelative path = .ok () →
    srv.disk.content (srv.tree id ++ names path) = s.files path)
  {xxh3_64 : Bytes → UInt64} {baseUrl exportId : String}
  (addressed : Addressed s.manifest baseUrl exportId)
include assembled distinct records tree addressed

/-- What the client gets for a rendered file is that file. -/
theorem served_rendered {path : String} {bytes : Bytes}
    (mem : (path, bytes) ∈ fixed ++ analyses.flatMap anlzFiles) :
    srv.served user id baseUrl exportId path = bytes := by
  have asked := addressed _ (found_file assembled mem).2
  have ok : srv.request user id baseUrl exportId (fileUrl baseUrl exportId path) =
      .ok (streamStaged (srv.tree id ++ names path) bytes) := by
    unfold Server.request
    rw [asked]
    exact serves_rendered assembled distinct records tree mem
  exact served_eq ok rfl

/-- What the client gets for the audio of a track is what the music store has. -/
theorem served_audio {t : String × String} (track : t ∈ input.tracks) {place : String}
    {bytes : Bytes} (resolved : srv.env.raw.resolve srv.env.files t.2 = .ok place)
    (there : srv.env.files place = some bytes) :
    srv.served user id baseUrl exportId (contentsUsb t.1 t.2) = bytes := by
  obtain ⟨_, _, listed⟩ := audio_entry assembled track
  have asked := addressed _ listed
  have ok : srv.request user id baseUrl exportId
      (fileUrl baseUrl exportId (contentsUsb t.1 t.2)) = .ok (streamRaw srv.env place) := by
    unfold Server.request
    rw [asked]
    exact serves_audio assembled distinct records tree track resolved
  exact served_eq ok there

/-- The client gets every entry, at its size. -/
theorem client_gets (files : ∀ t ∈ input.tracks, IsFile srv.env t.2) {e : ManifestEntry}
    (mem : e ∈ s.entries) : ∃ reply, srv.request user id baseUrl exportId
      (fileUrl baseUrl exportId e.usbPath) = .ok reply ∧
        reply.body = some (srv.served user id baseUrl exportId e.usbPath) ∧
        (srv.served user id baseUrl exportId e.usbPath).length = e.size := by
  obtain ⟨reply, bytes, streams, body⟩ :=
    (streams_iff_listed assembled distinct records tree files e.usbPath).mpr
      (List.mem_map_of_mem mem)
  have size := (size_of_streamed assembled distinct records tree streams body mem rfl).2
  have ok : srv.request user id baseUrl exportId (fileUrl baseUrl exportId e.usbPath) =
      .ok reply := by
    unfold Server.request
    rw [addressed e mem]
    exact streams
  have same := served_eq ok body
  refine ⟨reply, ok, ?_, ?_⟩
  · rw [same]
    exact body
  · rw [same]
    exact size

section
variable (stored : ∀ t ∈ input.tracks, Stored xxh3_64 srv.env t)
include stored

/-- With a network that passes on the answers, every entry is sent in its size, and audio with
its identity. -/
theorem working_of_conveyed {run : List (ManifestEntry × World)}
    (listed : ∀ ew ∈ run, ew.1 ∈ s.entries)
    (conveyed : Conveyed srv user id baseUrl exportId run) :
    Working xxh3_64 (srv.served user id baseUrl exportId) run := by
  have files : ∀ t ∈ input.tracks, IsFile srv.env t.2 := by
    intro t track
    obtain ⟨place, bytes, resolved, there, _⟩ := stored t track
    exact ⟨place, bytes, resolved, there⟩
  refine ⟨?_, ?_, ?_⟩
  · intro ew mem
    obtain ⟨reply, ok, body, _⟩ :=
      client_gets assembled distinct records tree addressed files (listed ew mem)
    exact conveyed ew mem reply _ ok body
  · intro ew mem
    obtain ⟨_, _, _, size⟩ :=
      client_gets assembled distinct records tree addressed files (listed ew mem)
    exact size
  · intro ew mem hash source
    rcases entry_kinds assembled (listed ew mem) with ⟨staged, _⟩ | ⟨t, track, path, raw⟩
    · rw [source] at staged
      cases staged
    · obtain ⟨place, bytes, resolved, there, is⟩ := stored t track
      rw [raw] at source
      rw [path, served_audio assembled distinct records tree addressed track resolved there, is]
      exact Source.raw.inj source

/-- The rows play on a stick with the served files. -/
theorem tracks_play {stick : Target}
    (delivered : ∀ e ∈ s.entries,
      stick e.usbPath = some (.file (srv.served user id baseUrl exportId e.usbPath))) :
    List.Forall₂ (TrackPlays srv.env stick) input.tracks.zipIdx (Reader.tableRows pdb 0) := by
  refine (with_mem (rows_linked assembled)).imp ?_
  rintro ⟨t, i⟩ row ⟨listed, linked⟩
  have track : t ∈ input.tracks := List.fst_mem_of_mem_zipIdx listed
  refine ⟨linked.id, ?_, ?_⟩
  · obtain ⟨path, size, refers, mem⟩ := linked.audio
    obtain ⟨place, bytes, resolved, there, _⟩ := stored t track
    rcases entry_kinds assembled mem with ⟨source, _⟩ | ⟨t', track', usbPath, source⟩
    · cases source
    · obtain rfl : t' = t :=
        List.inj_on_of_nodup_map distinct track' track (Source.raw.inj source).symm
      refine ⟨path, place, bytes, refers, resolved, there, ?_⟩
      rw [delivered _ mem]
      dsimp only at usbPath ⊢
      rw [usbPath, served_audio assembled distinct records tree addressed track resolved there]
  · obtain ⟨stem, refers, files⟩ := linked.anlz
    refine ⟨stem, refers, ?_⟩
    intro ext is
    obtain ⟨content, mem, found, back⟩ := files ext is
    have staged := (tree_iff assembled).mp found
    refine ⟨content, ?_, back⟩
    rw [delivered _ mem]
    dsimp only
    rw [served_rendered assembled distinct records tree addressed staged]

/-- So does the whole database. -/
theorem plays_of_delivered {loaded : Loaded} {calls : List PdbBuilder.Call} {db : Bytes}
    (databases : Databases srv.env input loaded calls pdb db) {stick : Target}
    (delivered : ∀ e ∈ s.entries,
      stick e.usbPath = some (.file (srv.served user id baseUrl exportId e.usbPath))) :
    Plays srv.env input stick pdb where
  database := by
    have mem := List.mem_append_left (analyses.flatMap anlzFiles) assembled.fixed_database
    rw [delivered _ (found_file assembled mem).2]
    dsimp only
    rw [served_rendered assembled distinct records tree addressed mem]
  tracks := tracks_play assembled distinct records tree addressed stored delivered
  playlists := pdb_tree databases
  members := fun p _ there =>
    ⟨_, members_of (idByHash_numbered databases.tracks) p.hashes, pdb_entriesOf databases there⟩

end
end

/-- An export of stored tracks whose extensions a URL carries, transferred onto a stick without its
files: the run completes, the stick plays what was requested, and the rest of it is as before. -/
theorem exported_stick_plays {xxh3_64 : Bytes → UInt64} {srv : Server} {tables : Tables}
    {user id : Uuid} {req : CreateExport} {found : Answers} {created : Created} {sink : FsSink}
    {stick : Target} {status : Status} {answers : Nat → World} {run : List Effect × Result}
    (baseUrl exportId : String) (answered : Answered tables user req found)
    (ran : createExport srv.env user req found = .ok created) (keeps : srv.Keeps id created)
    (stored : ∀ t ∈ exportTracks found, Stored xxh3_64 srv.env t)
    (carried : ∀ t ∈ exportTracks found, Carried (audioExtension t.2))
    (accepted : status.isSuccess = true)
    (conveyed : Conveyed srv user id baseUrl exportId (created.manifest.answered answers))
    (fresh : Vacant stick created.manifest.entries)
    (transferred : reconcileExport xxh3_64 sink stick
      (.response status (some created.manifest)) answers = run) :
    Completed run ∧ (∃ pdb, Plays srv.env (requested req found) (applyAll stick run.1) pdb) ∧
      ∀ p, (∀ e ∈ created.manifest.entries, p ≠ e.usbPath ∧ p ∉ parentDirs e) →
        applyAll stick run.1 p = stick p := by
  obtain ⟨s, built, rfl⟩ := created_requested ran
  obtain ⟨loaded, calls, pdb, db, fixed, audio, databases, assembled, _⟩ := buildExport_parts built
  have distinct : ((exportTracks found).map Prod.fst).Nodup := exportTracks_distinct answered
  have records := keeps.records
  have sources := sourcesOf_entries assembled distinct
  dsimp only [requested] at sources
  rw [sources] at records
  have tree := keeps.tree
  have hashes : ∀ t ∈ exportTracks found, ∃ hash, t.1 = hashHex hash := by
    intro t track
    obtain ⟨_, bytes, _, _, is⟩ := stored t track
    exact ⟨_, is.symm⟩
  have addressed : Addressed s.manifest baseUrl exportId := by
    refine (addressed_iff_tracks built baseUrl exportId).mpr ?_
    intro t track
    obtain ⟨hash, is⟩ := hashes t track
    refine ⟨?_, carried t track⟩
    rw [is]
    exact carried_hashHex hash
  have listed : ∀ ew ∈ s.manifest.answered answers, ew.1 ∈ s.entries := by
    intro ew mem
    have entry := List.mem_map_of_mem (f := Prod.fst) mem
    rwa [answered_entries] at entry
  have working :=
    working_of_conveyed assembled distinct records tree addressed stored listed conveyed
  have tidy : Tidy s.manifest.entries := entries_tidy assembled distinct hashes
  obtain ⟨completed, delivered, rest⟩ := fresh_export accepted working fresh tidy
  dsimp only at transferred
  rw [transferred] at completed delivered rest
  refine ⟨completed, ⟨pdb, ?_⟩, ?_⟩
  · exact plays_of_delivered assembled distinct records tree addressed stored databases delivered
  · intro p away
    exact rest p (fun e mem => (away e mem).1) (fun e mem => (away e mem).2)

/-- One track, in one playlist of one user. -/
def storedTables (hash location : String) : Tables where
  tracks := fun h => if h = hash then some location else none
  userTracks := []
  playlists := [⟨1, "Warm-up", none, 0, 0, 7⟩]
  playlistTracks := {(1, hash)}
  batches := []

def storedAnswers (hash location : String) : Answers where
  union := [(hash, location)]
  playlist := fun id => if id = 1 then some ⟨"Warm-up", [hash]⟩ else none
  analyzed := fun _ => true
  recorded := true

theorem stored_answered (hash location : String) :
    Answered (storedTables hash location) 7 oneRequest (storedAnswers hash location) where
  distinct := by simp [storedAnswers]
  union := by
    ext ⟨hash', place⟩
    rw [mem_resolveHashes]
    simp only [storedAnswers, oneRequest, storedTables, Owns, List.toFinset_cons,
      List.toFinset_nil, insert_empty_eq, Finset.mem_singleton, List.mem_singleton, Prod.mk.injEq]
    constructor
    · rintro ⟨rfl, rfl⟩
      simp
    · rintro ⟨id, _, ⟨_, rfl⟩, _, located⟩
      simpa [eq_comm] using located
  playlist := by
    intro id
    by_cases is : id = 1
    · subst is
      rfl
    · simp [storedAnswers, storedTables, getPlaylist, is, Ne.symm is]

/-- A server with the export of an uploaded song. -/
theorem song_created : ∃ (srv : Server) (created : Created), srv.env = oneEnvironment "song.mp3" ∧
    createExport srv.env 7 oneRequest
      (storedAnswers "0000000000000000" "00/0000000000000000.mp3") = .ok created ∧
    srv.Keeps 9 created := by
  obtain ⟨s, built⟩ := plain_builds
  obtain ⟨_, _, _, _, assembled⟩ := buildExport_assembled built
  obtain ⟨disk, holds⟩ := exists_disk assembled ["tree".toList]
  let created : Created := ⟨s.manifest, s.files,
    ⟨7, sourcesOf [("0000000000000000", "00/0000000000000000.mp3")] s.entries⟩⟩
  refine ⟨⟨oneEnvironment "song.mp3", disk, fun _ => [], fun _ => some created.records⟩, created,
    rfl, ?_, rfl, fun path _ => holds path⟩
  have built : (buildExport (oneEnvironment "song.mp3")
      (oneTrack "0000000000000000" "00/0000000000000000.mp3") fun _ => none).mapError
        ApiError.build = .ok s := congrArg _ built
  exact bind_ok built rfl

/-- A network that passes on what the server answers. -/
def conveying (srv : Server) (m : Manifest) (i : Nat) : World :=
  answer (srv.served 7 9 "http://192.168.0.200.nip.io" "9"
    ((m.entries[i]?.map ManifestEntry.usbPath).getD ""))

theorem conveying_conveyed (srv : Server) (m : Manifest) :
    Conveyed srv 7 9 "http://192.168.0.200.nip.io" "9" (m.answered (conveying srv m)) := by
  intro ew mem reply bytes ok body
  obtain ⟨i, here, rfl⟩ := List.mem_mapIdx.mp mem
  have sends : conveying srv m i = answer bytes := by
    unfold conveying
    rw [List.getElem?_eq_getElem here, Option.map_some, Option.getD_some, served_eq ok body]
  dsimp only
  rw [sends]
  exact answer_works bytes

/-- The uploaded song, exported and transferred onto an empty stick. -/
theorem exported_stick_song : ∃ (srv : Server) (created : Created) (run : List Effect × Result),
    createExport srv.env 7 oneRequest
      (storedAnswers "0000000000000000" "00/0000000000000000.mp3") = .ok created ∧
    reconcileExport (fun _ => 0) ⟨"/media/usb", 4096⟩ (fun _ => none)
      (.response ⟨200, "200 OK"⟩ (some created.manifest)) (conveying srv created.manifest) = run ∧
    Completed run ∧ ∃ pdb, Plays srv.env (oneTrack "0000000000000000" "00/0000000000000000.mp3")
      (applyAll (fun _ => none) run.1) pdb := by
  obtain ⟨srv, created, env, ran, keeps⟩ := song_created
  have stored : ∀ t ∈ exportTracks (storedAnswers "0000000000000000" "00/0000000000000000.mp3"),
      Stored (fun _ => 0) srv.env t := by
    intro t track
    obtain rfl := List.mem_singleton.mp (List.mem_filter.mp track).1
    rw [env]
    exact ⟨"/music/00/0000000000000000.mp3", [1, 2, 3], by decide +kernel, by decide +kernel,
      by decide +kernel⟩
  have carried : ∀ t ∈ exportTracks (storedAnswers "0000000000000000" "00/0000000000000000.mp3"),
      Carried (audioExtension t.2) := by
    intro t track
    obtain rfl := List.mem_singleton.mp (List.mem_filter.mp track).1
    decide
  have fresh : Vacant (fun _ => none) created.manifest.entries :=
    ⟨fun _ _ => rfl, fun _ _ => rfl, fun _ _ _ _ => Or.inl rfl⟩
  have transferred : reconcileExport (fun _ => 0) ⟨"/media/usb", 4096⟩ (fun _ => none)
      (.response ⟨200, "200 OK"⟩ (some created.manifest)) (conveying srv created.manifest) = _ :=
    rfl
  obtain ⟨completed, plays, _⟩ := exported_stick_plays "http://192.168.0.200.nip.io" "9"
    (stored_answered _ _) ran keeps stored carried rfl (conveying_conveyed srv created.manifest)
    fresh transferred
  exact ⟨srv, created, _, ran, rfl, completed, plays⟩

end BVault.Export
