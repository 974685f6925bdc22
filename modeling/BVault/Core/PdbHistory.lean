import BVault.Core.Pdb
import BVault.Lib.Loops

/-!
# What a history leaves in the builder

Tracks and playlists are kept in the order of the calls, and each track's ids
stand for its own values in the dictionaries: dictionaries only grow, and what
they gain is the key that was looked up.
-/

namespace BVault.Core

open Loops

/-- A string that is not empty. -/
def nonEmpty (s : String) : Option String := if s.isEmpty then none else some s

/-- An id stands for a key in a dictionary, and 0 for no key. -/
def Names {K : Type} (entries : List (K × Nat)) (key : Option K) (id : Nat) : Prop :=
  match key with
  | some k => (k, id) ∈ entries
  | none => id = 0

theorem Names.mono {K : Type} {entries entries' : List (K × Nat)} {key : Option K} {id : Nat}
    (names : Names entries key id) (grown : entries ⊆ entries') : Names entries' key id := by
  cases key with
  | some k => exact grown names
  | none => exact names

/-- A dictionary after one lookup: it names the key, and has gained nothing else. -/
structure Entered {K : Type} (d d' : Dictionary K) (key : Option K) (id : Nat) : Prop where
  names : Names d'.entries key id
  grown : d.entries ⊆ d'.entries
  gained : ∀ e ∈ d'.entries, e ∈ d.entries ∨ key = some e.1

theorem entered_none {K : Type} (d : Dictionary K) : Entered d d none 0 :=
  ⟨rfl, fun _ mem => mem, fun _ mem => Or.inl mem⟩

namespace PdbBuilder

theorem getOrCreate_spec {K : Type} [DecidableEq K] {d d' : Dictionary K} {key : K} {id : Nat}
    (got : getOrCreate d key = .ok (id, d')) : Entered d d' (some key) id := by
  rw [getOrCreate] at got
  split at got
  · rename_i result interned
    cases got
    obtain ⟨mem, same | grown⟩ := Interner.intern_spec interned
    · rw [same] at mem
      refine ⟨?_, ?_, ?_⟩
      · rw [same]
        exact mem
      · rw [same]
        exact fun _ mem => mem
      · rw [same]
        exact fun _ mem => Or.inl mem
    · refine ⟨mem, ?_, ?_⟩
      · rw [grown]
        exact List.subset_append_left _ _
      · intro e entry
        rw [grown, List.mem_append, List.mem_singleton] at entry
        rcases entry with old | rfl
        · exact Or.inl old
        · exact Or.inr rfl
  · cases got

section
variable {K : Type} {b b' : PdbBuilder} {d : Dictionary K} {id : Nat}

/-- The `get_or_create_*` with an empty check, for a dictionary that `set` replaces. -/
theorem create_spec [DecidableEq K] (set : Dictionary K → PdbBuilder) (key : String → K)
    {name : String} (same : set d = b)
    (created : (if name.isEmpty then .ok (0, b)
      else do
        let (id, d') ← getOrCreate d (key name)
        .ok (id, set d') : Except Fault (Nat × PdbBuilder)) = .ok (id, b')) :
    ∃ d', b' = set d' ∧ Entered d d' ((nonEmpty name).map key) id := by
  rw [nonEmpty]
  split at created
  · rename_i empty
    cases created
    rw [if_pos empty]
    exact ⟨d, same.symm, entered_none d⟩
  · rename_i some_
    obtain ⟨⟨id', d'⟩, got, created⟩ := of_bind created
    cases created
    rw [if_neg some_]
    exact ⟨d', rfl, getOrCreate_spec got⟩

theorem orZero_spec {α : Type} (set : Dictionary K → PdbBuilder) (key : α → Option K)
    {value : Option α} {create : α → Except Fault (Nat × PdbBuilder)} (same : set d = b)
    (each : ∀ a, value = some a → create a = .ok (id, b') →
      ∃ d', b' = set d' ∧ Entered d d' (key a) id)
    (created : b.orZero value create = .ok (id, b')) :
    ∃ d', b' = set d' ∧ Entered d d' (value.bind key) id := by
  cases value with
  | some a => exact each a rfl created
  | none =>
    cases created
    exact ⟨d, same.symm, entered_none d⟩

end

theorem getOrCreateArtist_spec {b b' : PdbBuilder} {name : String} {id : Nat}
    (created : b.getOrCreateArtist name = .ok (id, b')) :
    ∃ d, b' = { b with artists := d } ∧ Entered b.artists d (nonEmpty name) id := by
  have made := create_spec (fun d => { b with artists := d }) (fun name => name) rfl created
  rwa [Option.map_id'] at made

theorem getOrCreateAlbum_spec {b b' : PdbBuilder} {name : String} {artistId id : Nat}
    (created : b.getOrCreateAlbum name artistId = .ok (id, b')) :
    ∃ d, b' = { b with albums := d } ∧
      Entered b.albums d ((nonEmpty name).map (·, artistId)) id :=
  create_spec (fun d => { b with albums := d }) (·, artistId) rfl created

theorem getOrCreateGenre_spec {b b' : PdbBuilder} {name : String} {id : Nat}
    (created : b.getOrCreateGenre name = .ok (id, b')) :
    ∃ d, b' = { b with genres := d } ∧ Entered b.genres d (nonEmpty name) id := by
  have made := create_spec (fun d => { b with genres := d }) (fun name => name) rfl created
  rwa [Option.map_id'] at made

theorem getOrCreateLabel_spec {b b' : PdbBuilder} {name : String} {id : Nat}
    (created : b.getOrCreateLabel name = .ok (id, b')) :
    ∃ d, b' = { b with labels := d } ∧ Entered b.labels d (nonEmpty name) id := by
  have made := create_spec (fun d => { b with labels := d }) (fun name => name) rfl created
  rwa [Option.map_id'] at made

theorem getOrCreateArtwork_spec {b b' : PdbBuilder} {path : String} {id : Nat}
    (created : b.getOrCreateArtwork path = .ok (id, b')) :
    ∃ d, b' = { b with artworks := d } ∧ Entered b.artworks d (nonEmpty path) id := by
  have made := create_spec (fun d => { b with artworks := d }) (fun path => path) rfl created
  rwa [Option.map_id'] at made

theorem getOrCreateKey_spec {b b' : PdbBuilder} {rekordboxId id : Nat} {name : String}
    (created : b.getOrCreateKey rekordboxId name = .ok (id, b')) :
    ∃ d, b' = { b with keys := d } ∧ Entered b.keys d (some rekordboxId) id := by
  obtain ⟨⟨id', d⟩, got, created⟩ := of_bind created
  cases created
  exact ⟨d, rfl, getOrCreate_spec got⟩

theorem getOrCreateKeyOf_spec {b b' : PdbBuilder} {k : Key} {id : Nat}
    (created : b.getOrCreateKeyOf k = .ok (id, b')) :
    (∃ rekordboxId, k.toRekordboxId = some rekordboxId) ∧
      ∃ d, b' = { b with keys := d } ∧ Entered b.keys d k.toRekordboxId id := by
  rw [getOrCreateKeyOf] at created
  split at created
  · rename_i rekordboxId name known _
    rw [known]
    exact ⟨⟨rekordboxId, rfl⟩, getOrCreateKey_spec created⟩
  · cases created

/-- A track as it was added: with ids for its values. -/
structure Added (b b' : PdbBuilder) (analysis : TrackAnalysis) (analyzePath : String)
    (artworkPath : Option String) (track : TrackInfo) : Prop where
  same : track.analysis = analysis
  path : track.analyzePath = analyzePath
  tracks : b'.tracks = b.tracks ++ [track]
  playlists : b'.playlists = b.playlists
  artist : Entered b.artists b'.artists (nonEmpty analysis.artist) track.artistId
  album : Entered b.albums b'.albums
    (analysis.album.bind (fun name => (nonEmpty name).map (·, track.artistId))) track.albumId
  genre : Entered b.genres b'.genres (analysis.genre.bind nonEmpty) track.genreId
  label : Entered b.labels b'.labels (analysis.label.bind nonEmpty) track.labelId
  key : Entered b.keys b'.keys (analysis.key.bind Key.toRekordboxId) track.keyId
  artwork : Entered b.artworks b'.artworks (artworkPath.bind nonEmpty) track.artworkId
  pitch : ∀ k, analysis.key = some k → ∃ rekordboxId, k.toRekordboxId = some rekordboxId

theorem addTrackWithArtwork_spec {b b' : PdbBuilder} {analysis : TrackAnalysis}
    {analyzePath : String} {artworkPath : Option String} {id : Nat}
    (added : b.addTrackWithArtwork analysis analyzePath artworkPath = .ok (id, b')) :
    ∃ track, Added b b' analysis analyzePath artworkPath track := by
  rw [addTrackWithArtwork] at added
  obtain ⟨⟨artistId, b₁⟩, gotArtist, added⟩ := of_bind added
  obtain ⟨⟨albumId, b₂⟩, gotAlbum, added⟩ := of_bind added
  obtain ⟨⟨genreId, b₃⟩, gotGenre, added⟩ := of_bind added
  obtain ⟨⟨labelId, b₄⟩, gotLabel, added⟩ := of_bind added
  obtain ⟨⟨keyId, b₅⟩, gotKey, added⟩ := of_bind added
  obtain ⟨⟨artworkId, b₆⟩, gotArtwork, added⟩ := of_bind added
  obtain ⟨artists, rfl, artist⟩ := getOrCreateArtist_spec gotArtist
  obtain ⟨albums, rfl, album⟩ := orZero_spec _ (fun name => (nonEmpty name).map (·, artistId)) rfl
    (fun _ _ => getOrCreateAlbum_spec) gotAlbum
  obtain ⟨genres, rfl, genre⟩ := orZero_spec _ nonEmpty rfl
    (fun _ _ => getOrCreateGenre_spec) gotGenre
  obtain ⟨labels, rfl, label⟩ := orZero_spec _ nonEmpty rfl
    (fun _ _ => getOrCreateLabel_spec) gotLabel
  have pitch : ∀ k, analysis.key = some k → ∃ rekordboxId, k.toRekordboxId = some rekordboxId := by
    intro k known
    rw [known] at gotKey
    exact (getOrCreateKeyOf_spec gotKey).1
  obtain ⟨keys, rfl, key⟩ := orZero_spec _ Key.toRekordboxId rfl
    (fun _ _ created => (getOrCreateKeyOf_spec created).2) gotKey
  obtain ⟨artworks, rfl, artwork⟩ := orZero_spec _ nonEmpty rfl
    (fun _ _ => getOrCreateArtwork_spec) gotArtwork
  cases added
  exact ⟨_, rfl, rfl, rfl, rfl, artist, album, genre, label, key, artwork, pitch⟩

/-- The track a call adds: its analysis, the path of the analysis file and the artwork. -/
def Call.track? : Call → Option (TrackAnalysis × String × Option String)
  | .addTrack analysis analyzePath => some (analysis, analyzePath, none)
  | .addTrackWithArtwork analysis analyzePath artworkPath =>
    some (analysis, analyzePath, artworkPath)
  | _ => none

/-- The playlist or folder a call adds, behind so many others. -/
def Call.playlist? (others : Nat) : Call → Option PlaylistInfo
  | .addPlaylist id parentId name trackIds =>
    some ⟨id, parentId, name, false, others % 2 ^ 32, trackIds⟩
  | .addFolder id parentId name => some ⟨id, parentId, name, true, others % 2 ^ 32, []⟩
  | _ => none

/-- What a call does: it adds a track with its entries, or a playlist and nothing else. -/
theorem call_cases {b b' : PdbBuilder} {c : Call} (called : b.call c = .ok b') :
    (∃ analysis analyzePath artworkPath track,
      c.track? = some (analysis, analyzePath, artworkPath) ∧
        c.playlist? b.playlists.length = none ∧
        Added b b' analysis analyzePath artworkPath track) ∨
    (∃ playlist, c.track? = none ∧ c.playlist? b.playlists.length = some playlist ∧
      b' = { b with playlists := b.playlists ++ [playlist] }) := by
  cases c with
  | addTrack analysis analyzePath =>
    obtain ⟨⟨id, b''⟩, added, called⟩ := of_bind called
    cases called
    obtain ⟨track, added⟩ := addTrackWithArtwork_spec added
    exact Or.inl ⟨analysis, analyzePath, none, track, rfl, rfl, added⟩
  | addTrackWithArtwork analysis analyzePath artworkPath =>
    obtain ⟨⟨id, b''⟩, added, called⟩ := of_bind called
    cases called
    obtain ⟨track, added⟩ := addTrackWithArtwork_spec added
    exact Or.inl ⟨analysis, analyzePath, artworkPath, track, rfl, rfl, added⟩
  | addPlaylist id parentId name trackIds =>
    cases called
    exact Or.inr ⟨_, rfl, rfl, rfl⟩
  | addFolder id parentId name =>
    cases called
    exact Or.inr ⟨_, rfl, rfl, rfl⟩

/-- The playlists of a history, numbered in the order of the calls. -/
def playlistsOf (calls : List Call) : List PlaylistInfo :=
  calls.foldl (fun playlists call => playlists ++ (call.playlist? playlists.length).toList) []

/-- The ids of a track stand for the values it was added with. -/
structure Refers (b : PdbBuilder) (entry : TrackAnalysis × String × Option String)
    (track : TrackInfo) : Prop where
  same : track.analysis = entry.1
  path : track.analyzePath = entry.2.1
  artist : Names b.artists.entries (nonEmpty entry.1.artist) track.artistId
  album : Names b.albums.entries
    (entry.1.album.bind (fun name => (nonEmpty name).map (·, track.artistId))) track.albumId
  genre : Names b.genres.entries (entry.1.genre.bind nonEmpty) track.genreId
  label : Names b.labels.entries (entry.1.label.bind nonEmpty) track.labelId
  key : Names b.keys.entries (entry.1.key.bind Key.toRekordboxId) track.keyId
  artwork : Names b.artworks.entries (entry.2.2.bind nonEmpty) track.artworkId
  pitch : ∀ k, entry.1.key = some k → ∃ rekordboxId, k.toRekordboxId = some rekordboxId

/-- A builder after a history. -/
structure Faithful (b : PdbBuilder) (done : List Call) : Prop where
  tracks : List.Forall₂ (Refers b) (done.filterMap Call.track?) b.tracks
  playlists : b.playlists = playlistsOf done
  albumArtist : ∀ e ∈ b.albums.entries, e.1.2 = 0 ∨ ∃ name, (name, e.1.2) ∈ b.artists.entries
  keys : ∀ e ∈ b.keys.entries, ∃ k : Key, k.toRekordboxId = some e.1

section
variable {b b' : PdbBuilder} {analysis : TrackAnalysis} {analyzePath : String}
  {artworkPath : Option String} {track : TrackInfo}

theorem Added.refers (added : Added b b' analysis analyzePath artworkPath track) :
    Refers b' (analysis, analyzePath, artworkPath) track where
  same := added.same
  path := added.path
  artist := added.artist.names
  album := added.album.names
  genre := added.genre.names
  label := added.label.names
  key := added.key.names
  artwork := added.artwork.names
  pitch := added.pitch

/-- Ids given out earlier stay valid. -/
theorem Refers.after {entry : TrackAnalysis × String × Option String} {old : TrackInfo}
    (refers : Refers b entry old) (added : Added b b' analysis analyzePath artworkPath track) :
    Refers b' entry old where
  same := refers.same
  path := refers.path
  artist := refers.artist.mono added.artist.grown
  album := refers.album.mono added.album.grown
  genre := refers.genre.mono added.genre.grown
  label := refers.label.mono added.label.grown
  key := refers.key.mono added.key.grown
  artwork := refers.artwork.mono added.artwork.grown
  pitch := refers.pitch

theorem Refers.setPlaylists {entry : TrackAnalysis × String × Option String} {old : TrackInfo}
    (refers : Refers b entry old) (playlists : List PlaylistInfo) :
    Refers { b with playlists := playlists } entry old :=
  ⟨refers.same, refers.path, refers.artist, refers.album, refers.genre, refers.label, refers.key,
    refers.artwork, refers.pitch⟩

/-- The artist of a new album is the track's own. -/
theorem Added.albumArtist (added : Added b b' analysis analyzePath artworkPath track)
    (known : ∀ e ∈ b.albums.entries, e.1.2 = 0 ∨ ∃ name, (name, e.1.2) ∈ b.artists.entries) :
    ∀ e ∈ b'.albums.entries, e.1.2 = 0 ∨ ∃ name, (name, e.1.2) ∈ b'.artists.entries := by
  intro e mem
  rcases added.album.gained e mem with old | new
  · rcases known e old with none_ | ⟨name, artist⟩
    · exact Or.inl none_
    · exact Or.inr ⟨name, added.artist.grown artist⟩
  · have own : e.1.2 = track.artistId := by
      obtain ⟨name, _, made⟩ := Option.bind_eq_some_iff.mp new
      obtain ⟨_, _, pair⟩ := Option.map_eq_some_iff.mp made
      rw [← pair]
    have names := added.artist.names
    rw [own]
    cases artist : nonEmpty analysis.artist with
    | none =>
      rw [artist] at names
      exact Or.inl names
    | some name =>
      rw [artist] at names
      exact Or.inr ⟨name, names⟩

theorem Added.faithful {done : List Call} {call : Call}
    (added : Added b b' analysis analyzePath artworkPath track) (faithful : Faithful b done)
    (is : call.track? = some (analysis, analyzePath, artworkPath))
    (not : call.playlist? b.playlists.length = none) : Faithful b' (done ++ [call]) := by
  constructor
  · rw [added.tracks, List.filterMap_append]
    refine List.rel_append (faithful.tracks.imp fun _ _ old => old.after added) ?_
    rw [List.filterMap_cons_some is]
    exact List.Forall₂.cons added.refers List.Forall₂.nil
  · rw [added.playlists, faithful.playlists, playlistsOf, playlistsOf, List.foldl_append]
    have none_ := not
    rw [faithful.playlists, playlistsOf] at none_
    simp [none_]
  · exact added.albumArtist faithful.albumArtist
  · intro e mem
    rcases added.key.gained e mem with old | new
    · exact faithful.keys e old
    · obtain ⟨k, _, known⟩ := Option.bind_eq_some_iff.mp new
      exact ⟨k, known⟩

end

/-- A playlist joins the others, and nothing else changes. -/
theorem Faithful.addPlaylist {b : PdbBuilder} {done : List Call} {call : Call}
    {playlist : PlaylistInfo} (faithful : Faithful b done) (not : call.track? = none)
    (is : call.playlist? b.playlists.length = some playlist) :
    Faithful { b with playlists := b.playlists ++ [playlist] } (done ++ [call]) := by
  constructor
  · rw [List.filterMap_append, List.filterMap_cons_none not, List.filterMap_nil, List.append_nil]
    exact faithful.tracks.imp fun _ _ old => old.setPlaylists _
  · have before := faithful.playlists
    rw [before, playlistsOf] at is
    simp only
    rw [before, playlistsOf, playlistsOf, List.foldl_append]
    simp [is]
  · exact faithful.albumArtist
  · exact faithful.keys

theorem call_faithful {b b' : PdbBuilder} {done : List Call} {c : Call}
    (faithful : Faithful b done) (called : b.call c = .ok b') : Faithful b' (done ++ [c]) := by
  rcases call_cases called with ⟨_, _, _, _, is, not, added⟩ | ⟨playlist, not, is, rfl⟩
  · exact added.faithful faithful is not
  · exact faithful.addPlaylist not is

theorem run_faithful {calls : List Call} {b : PdbBuilder} (ran : run calls = .ok b) :
    Faithful b calls := by
  refine foldlM_invariant (P := fun done b => Faithful b done) ?_ ?_ ran
  · exact ⟨List.Forall₂.nil, rfl, fun _ mem => absurd mem List.not_mem_nil,
      fun _ mem => absurd mem List.not_mem_nil⟩
  · intro done c b b' faithful _ called
    exact call_faithful faithful called

theorem analyses_of_refers {b : PdbBuilder} {tracks : List TrackInfo}
    {entries : List (TrackAnalysis × String × Option String)}
    (refers : List.Forall₂ (Refers b) entries tracks) :
    tracks.map (fun track => (track.analysis, track.analyzePath)) =
      entries.map (fun entry => (entry.1, entry.2.1)) := by
  induction refers with
  | nil => rfl
  | cons first _ rest => rw [List.map_cons, List.map_cons, rest, first.same, first.path]

end PdbBuilder

end BVault.Core
