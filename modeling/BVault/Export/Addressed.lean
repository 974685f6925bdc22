import BVault.Export.Served
import BVault.Gateway.Located
import BVault.Transfer.Url

/-!
# Asking for the files of an export

The client asks for every entry of a manifest under its path, written into a
URL as it is. What a build renders has plain paths; the path of a track's audio
has an extension that comes from the file name of an upload. The server gets
the paths of the manifest exactly when a URL carries those extensions.
-/

namespace BVault.Export

open BVault.Core BVault.Gateway BVault.Hash BVault.Meta BVault.Store BVault.Transfer Percent

theorem ordinary_of_isPlain {c : Char} (plain : isPlain c) : Ordinary c := by
  unfold Ordinary
  refine ⟨?_, ?_, ?_⟩ <;>
    · rintro rfl
      revert plain
      decide

/-- A rendered path needs no escaping. -/
theorem carried_of_rendered {path : String} (rendered : Rendered path) : Carried path := by
  obtain ⟨folders, name, split, inner, file⟩ := rendered
  apply carried_of_ordinary
  intro c mem
  by_cases slash : c = '/'
  · subst slash
    decide
  · obtain ⟨part, inside, here⟩ := Paths.mem_splitOn_of_mem mem slash
    rw [show path.toList.splitOn '/' = folders ++ [name] from split] at inside
    rcases List.mem_append.mp inside with folder | last
    · exact ordinary_of_isPlain ((inner part folder).2 c here).1
    · obtain rfl := List.mem_singleton.mp last
      exact ordinary_of_isPlain (file.2.2 c here)

/-- The path of a track's audio is as special as its hash and its extension are. -/
theorem carried_contentsUsb (hash location : String) :
    Carried (contentsUsb hash location) ↔ Carried hash ∧ Carried (audioExtension location) := by
  have folder : ∀ c ∈ "Contents/".toList, Ordinary c := by
    have all : "Contents/".toList.all (fun c => decide (Ordinary c)) = true := by decide
    exact fun c mem => of_decide_eq_true (List.all_eq_true.mp all c mem)
  unfold contentsUsb audioExtension
  rw [String.append_assoc, String.append_assoc, carried_append folder, ← String.append_assoc,
    carried_dot]

theorem contentsUsb_ne_empty (hash location : String) : contentsUsb hash location ≠ "" := by
  intro empty
  have under := under_contentsUsb hash location
  rw [empty] at under
  revert under
  decide

theorem carried_hashHex (hash : UInt64) : Carried (hashHex hash) :=
  carried_of_ordinary (fun _ mem =>
    ordinary_of_isPlain (isPlain_of_isAlphanum (isAlphanum_of_mem_hashHex mem)).1)

/-- The server takes the path of every entry out of the URL that the client asks for. -/
def Addressed (manifest : Manifest) (baseUrl exportId : String) : Prop :=
  ∀ e ∈ manifest.entries, filePath baseUrl exportId (fileUrl baseUrl exportId e.usbPath) =
    some e.usbPath

section
variable {env : Environment} {input : ExportInput} {staging : String → Option Bytes} {s : Staging}

theorem entry_cases (ran : buildExport env input staging = .ok s) {path : String} :
    path ∈ s.entries.map ManifestEntry.usbPath →
      Rendered path ∨ ∃ t ∈ input.tracks, contentsUsb t.1 t.2 = path := by
  obtain ⟨analyses, fixed, audio, pdb, assembled⟩ := buildExport_assembled ran
  rw [usbPaths_eq assembled, audio_paths assembled,
    zipIdx_map input.tracks (fun t => contentsUsb t.1 t.2), List.mem_append]
  rintro (staged | track)
  · obtain ⟨file, mem, rfl⟩ := List.mem_map.mp staged
    exact Or.inl (rendered_of_mem assembled mem)
  · exact Or.inr (List.mem_map.mp track)

theorem audio_listed (ran : buildExport env input staging = .ok s) {t : String × String}
    (track : t ∈ input.tracks) : contentsUsb t.1 t.2 ∈ s.entries.map ManifestEntry.usbPath := by
  obtain ⟨analyses, fixed, audio, pdb, assembled⟩ := buildExport_assembled ran
  rw [usbPaths_eq assembled, audio_paths assembled,
    zipIdx_map input.tracks (fun t => contentsUsb t.1 t.2)]
  exact List.mem_append_right _ (List.mem_map_of_mem track)

/-- What counts in an export are the hashes and the extensions of its tracks. -/
theorem addressed_iff_tracks (ran : buildExport env input staging = .ok s)
    (baseUrl exportId : String) : Addressed s.manifest baseUrl exportId ↔
      ∀ t ∈ input.tracks, Carried t.1 ∧ Carried (audioExtension t.2) := by
  constructor
  · intro addressed t track
    obtain ⟨e, mem, path⟩ := List.mem_map.mp (audio_listed ran track)
    have taken := addressed e mem
    rw [path, filePath_iff (contentsUsb_ne_empty t.1 t.2)] at taken
    exact (carried_contentsUsb t.1 t.2).mp taken
  · intro carried e mem
    rcases entry_cases ran (List.mem_map_of_mem mem) with rendered | ⟨t, track, path⟩
    · exact (filePath_iff (ne_empty_of_rendered rendered)).mpr (carried_of_rendered rendered)
    · rw [← path]
      exact (filePath_iff (contentsUsb_ne_empty t.1 t.2)).mpr
        ((carried_contentsUsb t.1 t.2).mpr (carried t track))

end

section
variable {xxh3_64 : Bytes → UInt64} {raw : RawStore} {stores : Stores} {user : Uuid} {u : Upload}
  {r : IngestResult}

/-- An accepted upload is as special as the extension of its file name. -/
theorem carried_upload (reported : (ingestUpload xxh3_64 raw stores user u).2 = .ok r) :
    Carried r.hash ∧ Carried (audioExtension r.rawLocation) ↔ Carried u.extension := by
  obtain ⟨hash, named, location⟩ := located_of_reported reported
  rw [named, location, audioExtension_relPath (extension_clean u)]
  constructor
  · rintro ⟨_, carried⟩
    split at carried
    · rename_i empty
      rw [empty]
      decide
    · exact carried
  · intro carried
    refine ⟨carried_hashHex hash, ?_⟩
    split
    · decide
    · exact carried

/-- In an export with an accepted upload, the server gets every path of the manifest exactly when
a URL carries the extension of the upload's file name, and of the other tracks the hashes and the
extensions. -/
theorem addressed_iff (reported : (ingestUpload xxh3_64 raw stores user u).2 = .ok r)
    {env : Environment} {input : ExportInput} {staging : String → Option Bytes} {s : Staging}
    (ran : buildExport env input staging = .ok s) (listed : (r.hash, r.rawLocation) ∈ input.tracks)
    (baseUrl exportId : String) : Addressed s.manifest baseUrl exportId ↔
      Carried u.extension ∧ ∀ t ∈ input.tracks, t ≠ (r.hash, r.rawLocation) →
        Carried t.1 ∧ Carried (audioExtension t.2) := by
  rw [addressed_iff_tracks ran, ← carried_upload reported]
  constructor
  · intro all
    exact ⟨all _ listed, fun t track _ => all t track⟩
  · rintro ⟨own, others⟩ t track
    by_cases same : t = (r.hash, r.rawLocation)
    · rw [same]
      exact own
    · exact others t track same

end

/-- The answer to a request for the file at a URL. -/
def Server.request (srv : Server) (user id : Uuid) (baseUrl exportId url : String) :
    Except ApiError Reply :=
  match filePath baseUrl exportId url with
  | some path => serveFile srv user id path
  | none => .error .notFound

/-- With a file behind each track and nothing special in its extension, the client gets every
entry of the manifest, at its length. -/
theorem request_streams {srv : Server} {tables : Tables} {user id : Uuid} {req : CreateExport}
    {found : Answers} {created : Created} (answered : Answered tables user req found)
    (ran : createExport srv.env user req found = .ok created) (keeps : srv.Keeps id created)
    (files : ∀ t ∈ found.union, found.analyzed t.1 = true → IsFile srv.env t.2)
    (carried : ∀ t ∈ found.union, found.analyzed t.1 = true →
      Carried t.1 ∧ Carried (audioExtension t.2))
    (baseUrl exportId : String) {e : ManifestEntry} (mem : e ∈ created.manifest.entries) :
    ∃ reply bytes, srv.request user id baseUrl exportId (fileUrl baseUrl exportId e.usbPath) =
      .ok reply ∧ reply.body = some bytes ∧ bytes.length = e.size := by
  have serves := serves_of_files answered ran keeps files
  obtain ⟨input, s, tracks, built, rfl⟩ := created_parts ran
  have addressed : Addressed s.manifest baseUrl exportId := by
    rw [addressed_iff_tracks built, tracks]
    intro t track
    obtain ⟨there, analyzed⟩ := List.mem_filter.mp track
    exact carried t there analyzed
  obtain ⟨reply, bytes, ok, body⟩ := (serves.listed e.usbPath).mpr (List.mem_map_of_mem mem)
  refine ⟨reply, bytes, ?_, body, (serves.length _ reply bytes ok body e mem rfl).2⟩
  unfold Server.request
  rw [addressed e mem]
  exact ok

/-- The upload of one file. -/
def oneUpload (fileName : String) : Upload where
  fields := [⟨some "file", some fileName, ⟨[[1, 2, 3]], none⟩, none, ⟨true, 1, [1, 2, 3]⟩⟩]
  broken := none
  stored := true
  recorded := true
  now := 100

def oneIngest (fileName : String) : Stores × Except GatewayError IngestResult :=
  ingestUpload (fun _ => 0) RawStore.linkFree ⟨Tables.empty, fun _ => none⟩ 7 (oneUpload fileName)

/-- The store after the upload is exported. -/
def oneEnvironment (fileName : String) : Environment :=
  holding RawStore.linkFree (oneIngest fileName).1.files

theorem plain_builds : ∃ s, buildExport (oneEnvironment "song.mp3")
    (oneTrack "0000000000000000" "00/0000000000000000.mp3") (fun _ => none) = .ok s := by
  have resolved : RawStore.linkFree.resolve (oneIngest "song.mp3").1.files
      "00/0000000000000000.mp3" = .ok "/music/00/0000000000000000.mp3" := by
    decide +kernel
  refine oneTrack_builds rfl resolved ⟨_, rfl, PdbBuilder.modest_of_all ?_ ?_⟩
  · decide +kernel
  · decide +kernel

theorem query_builds : ∃ s, buildExport (oneEnvironment "song.mp3?dl=1")
    (oneTrack "0000000000000000" "00/0000000000000000.mp3?dl=1") (fun _ => none) = .ok s := by
  have resolved : RawStore.linkFree.resolve (oneIngest "song.mp3?dl=1").1.files
      "00/0000000000000000.mp3?dl=1" = .ok "/music/00/0000000000000000.mp3?dl=1" := by
    decide +kernel
  refine oneTrack_builds rfl resolved ⟨_, rfl, PdbBuilder.modest_of_all ?_ ?_⟩
  · decide +kernel
  · decide +kernel

theorem plain_addressed : ∃ s, buildExport (oneEnvironment "song.mp3")
    (oneTrack "0000000000000000" "00/0000000000000000.mp3") (fun _ => none) = .ok s ∧
      Addressed s.manifest "http://192.168.0.200.nip.io" "9" := by
  obtain ⟨s, built⟩ := plain_builds
  have reported : (oneIngest "song.mp3").2 =
      .ok ⟨"0000000000000000", "00/0000000000000000.mp3", some "song", none⟩ := by
    decide +kernel
  refine ⟨s, built, (addressed_iff reported built (by decide) _ _).mpr ⟨by decide, ?_⟩⟩
  intro t track other
  exact absurd (List.mem_singleton.mp track) other

/-- An extension with a query in it: the server is asked for another path. -/
theorem query_not_addressed : ∃ r s, (oneIngest "song.mp3?dl=1").2 = .ok r ∧
    buildExport (oneEnvironment "song.mp3?dl=1") (oneTrack r.hash r.rawLocation) (fun _ => none) =
      .ok s ∧
    ∃ e ∈ s.manifest.entries, e.usbPath = "Contents/0000000000000000.mp3?dl=1" ∧
      filePath "http://192.168.0.200.nip.io" "9"
        (fileUrl "http://192.168.0.200.nip.io" "9" e.usbPath) =
          some "Contents/0000000000000000.mp3" := by
  obtain ⟨s, built⟩ := query_builds
  have reported : (oneIngest "song.mp3?dl=1").2 =
      .ok ⟨"0000000000000000", "00/0000000000000000.mp3?dl=1", some "song", none⟩ := by
    decide +kernel
  obtain ⟨e, mem, path⟩ := List.mem_map.mp (audio_listed built List.mem_cons_self)
  refine ⟨_, s, reported, built, e, mem, path, ?_⟩
  have cut : read "Contents/0000000000000000.mp3?dl=1" = some "Contents/0000000000000000.mp3" :=
    decodeUtf8_iff.mpr (by decide +kernel)
  rw [path, filePath_fileUrl]
  exact cut

end BVault.Export
