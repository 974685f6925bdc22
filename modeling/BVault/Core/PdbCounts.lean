import Mathlib.Data.Finset.Card
import Mathlib.Data.Finset.Dedup
import BVault.Core.PdbHistory
import BVault.Core.ValidateBuilt

/-!
# The row counts of a built file

What a history amounts to is counted on its calls: tracks, distinct names and
keys, playlists and entries. The dictionaries hold exactly the values of the
tracks, so the validator's statistics are these numbers, whenever the tables
have fewer than 2³² rows.
-/

namespace BVault.Core

open Bytes Loops

namespace PdbBuilder

/-- The analyses added by a history. -/
def analysesOf (calls : List Call) : List TrackAnalysis :=
  (calls.filterMap Call.track?).map (fun entry => entry.1)

/-- The number of different values that occur. -/
def distinct {α β : Type} [DecidableEq β] (f : α → Option β) (xs : List α) : Nat :=
  (xs.filterMap f).toFinset.card

/-- An album by its name and its artist's. -/
def albumOf (a : TrackAnalysis) : Option (String × String) :=
  (a.album.bind nonEmpty).map (·, a.artist)

/-- A playlist or a folder. -/
def Call.isPlaylist : Call → Bool
  | .addPlaylist .. => true
  | .addFolder .. => true
  | _ => false

/-- The tracks a call puts into a playlist. -/
def Call.entryCount : Call → Nat
  | .addPlaylist _ _ _ trackIds => trackIds.length
  | _ => 0

/-- The statistics that a history amounts to, in a file of so many pages. -/
def logicalStats (calls : List Call) (totalPages : Nat) : PdbStats where
  totalPages := totalPages
  trackCount := (analysesOf calls).length
  artistCount := distinct (fun a => nonEmpty a.artist) (analysesOf calls)
  albumCount := distinct albumOf (analysesOf calls)
  genreCount := distinct (fun a => a.genre.bind nonEmpty) (analysesOf calls)
  keyCount := distinct TrackAnalysis.key (analysesOf calls)
  playlistCount := calls.countP Call.isPlaylist
  playlistEntryCount := (calls.map Call.entryCount).sum

/-- Every key of a dictionary is a value of some track. -/
structure Known (b : PdbBuilder) : Prop where
  artists : ∀ e ∈ b.artists.entries, ∃ t ∈ b.tracks, nonEmpty t.analysis.artist = some e.1
  albums : ∀ e ∈ b.albums.entries, ∃ t ∈ b.tracks,
    t.analysis.album.bind (fun name => (nonEmpty name).map (·, t.artistId)) = some e.1
  genres : ∀ e ∈ b.genres.entries, ∃ t ∈ b.tracks, t.analysis.genre.bind nonEmpty = some e.1
  keys : ∀ e ∈ b.keys.entries, ∃ t ∈ b.tracks, t.analysis.key.bind Key.toRekordboxId = some e.1

/-- What a dictionary gains is the value of the new track. -/
theorem gained_known {K : Type} {d d' : Dictionary K} {key : Option K} {id : Nat}
    {tracks : List TrackInfo} {track : TrackInfo} (value : TrackInfo → Option K)
    (entered : Entered d d' key id) (own : value track = key)
    (known : ∀ e ∈ d.entries, ∃ t ∈ tracks, value t = some e.1) :
    ∀ e ∈ d'.entries, ∃ t ∈ tracks ++ [track], value t = some e.1 := by
  intro e mem
  rcases entered.gained e mem with old | new
  · obtain ⟨t, before, same⟩ := known e old
    exact ⟨t, List.mem_append_left _ before, same⟩
  · exact ⟨track, List.mem_append_right _ List.mem_cons_self, own.trans new⟩

theorem Added.known {b b' : PdbBuilder} {analysis : TrackAnalysis} {analyzePath : String}
    {artworkPath : Option String} {track : TrackInfo}
    (added : Added b b' analysis analyzePath artworkPath track) (known : Known b) : Known b' := by
  have same := added.same
  have tracks := added.tracks
  constructor
  · rw [tracks]
    exact gained_known (fun t => nonEmpty t.analysis.artist) added.artist
      (by rw [same]) known.artists
  · rw [tracks]
    exact gained_known
      (fun t => t.analysis.album.bind (fun name => (nonEmpty name).map (·, t.artistId)))
      added.album (by rw [same]) known.albums
  · rw [tracks]
    exact gained_known (fun t => t.analysis.genre.bind nonEmpty) added.genre
      (by rw [same]) known.genres
  · rw [tracks]
    exact gained_known (fun t => t.analysis.key.bind Key.toRekordboxId) added.key
      (by rw [same]) known.keys

theorem call_known {b b' : PdbBuilder} {c : Call} (known : Known b)
    (called : b.call c = .ok b') : Known b' := by
  rcases call_cases called with ⟨_, _, _, _, _, _, added⟩ | ⟨playlist, _, _, rfl⟩
  · exact added.known known
  · exact ⟨known.artists, known.albums, known.genres, known.keys⟩

theorem run_known {calls : List Call} {b : PdbBuilder} (ran : run calls = .ok b) : Known b := by
  refine foldlM_invariant (P := fun _ b => Known b) ?_ ?_ ran
  · exact ⟨fun _ mem => absurd mem List.not_mem_nil, fun _ mem => absurd mem List.not_mem_nil,
      fun _ mem => absurd mem List.not_mem_nil, fun _ mem => absurd mem List.not_mem_nil⟩
  · intro _ c b b' known _ called
    exact call_known known called

/-- A dictionary has as many entries as there are different values. -/
theorem size_eq_distinct {K : Type} [DecidableEq K] {d : Dictionary K} {tracks : List TrackInfo}
    (value : TrackInfo → Option K) (id : TrackInfo → Nat)
    (names : ∀ t ∈ tracks, Names d.entries (value t) (id t))
    (known : ∀ e ∈ d.entries, ∃ t ∈ tracks, value t = some e.1) :
    d.entries.length = distinct value tracks := by
  have same : (d.entries.map Prod.fst).toFinset = (tracks.filterMap value).toFinset := by
    ext k
    rw [List.mem_toFinset, List.mem_toFinset, List.mem_filterMap]
    constructor
    · intro mem
      obtain ⟨e, entry, rfl⟩ := List.mem_map.mp mem
      exact known e entry
    · rintro ⟨t, mem, is⟩
      have named := names t mem
      rw [is] at named
      exact List.mem_map.mpr ⟨_, named, rfl⟩
  rw [distinct, ← same, List.toFinset_card_of_nodup d.distinct, List.length_map]

/-- Two ways to tell the items of a list apart that agree count the same. -/
theorem distinct_congr {α β γ : Type} [DecidableEq β] [DecidableEq γ] {f : α → Option β}
    {g : α → Option γ} {xs : List α} (defined : ∀ x ∈ xs, (f x).isSome = (g x).isSome)
    (agree : ∀ x ∈ xs, ∀ y ∈ xs, f x = f y ↔ g x = g y) : distinct f xs = distinct g xs := by
  induction xs with
  | nil => rfl
  | cons x xs ih =>
    have rest := ih (fun y mem => defined y (List.mem_cons_of_mem x mem))
      (fun y mem z mem' => agree y (List.mem_cons_of_mem x mem) z (List.mem_cons_of_mem x mem'))
    rw [distinct, distinct] at rest ⊢
    have both := defined x List.mem_cons_self
    cases first : f x with
    | none =>
      have other : g x = none := by
        rw [first] at both
        exact Option.isSome_eq_false_iff.mp both.symm |> Option.isNone_iff_eq_none.mp
      rw [List.filterMap_cons_none first, List.filterMap_cons_none other, rest]
    | some k =>
      obtain ⟨l, second⟩ : ∃ l, g x = some l := by
        rw [first] at both
        exact Option.isSome_iff_exists.mp both.symm
      have seen : k ∈ (xs.filterMap f).toFinset ↔ l ∈ (xs.filterMap g).toFinset := by
        rw [List.mem_toFinset, List.mem_toFinset, List.mem_filterMap, List.mem_filterMap,
          ← first, ← second]
        refine exists_congr (fun y => and_congr_right (fun mem => ?_))
        exact agree y (List.mem_cons_of_mem x mem) x List.mem_cons_self
      rw [List.filterMap_cons_some first, List.filterMap_cons_some second, List.toFinset_cons,
        List.toFinset_cons, Finset.card_insert_eq_ite, Finset.card_insert_eq_ite, rest]
      by_cases old : k ∈ (xs.filterMap f).toFinset
      · rw [if_pos old, if_pos (seen.mp old)]
      · rw [if_neg old, if_neg (fun mem => old (seen.mpr mem))]

theorem distinct_map {α β γ : Type} [DecidableEq γ] (f : β → Option γ) (g : α → β) (xs : List α) :
    distinct f (xs.map g) = distinct (fun x => f (g x)) xs := by
  rw [distinct, distinct, List.filterMap_map]
  rfl

section
variable {calls : List Call} {b : PdbBuilder} (ran : run calls = .ok b)
include ran

theorem analyses_eq : b.tracks.map TrackInfo.analysis = analysesOf calls := by
  have pairs := congrArg (List.map Prod.fst) (analyses_of_refers (run_faithful ran).tracks)
  rwa [List.map_map, List.map_map] at pairs

/-- Every track's ids stand for its own values. -/
theorem refers_of_mem {t : TrackInfo} (mem : t ∈ b.tracks) : ∃ entry, Refers b entry t := by
  have refers := (run_faithful ran).tracks
  obtain ⟨j, inside, rfl⟩ := List.getElem_of_mem mem
  have length := refers.length_eq
  exact ⟨_, refers.get (by omega) inside⟩

theorem names_artist {t : TrackInfo} (mem : t ∈ b.tracks) :
    Names b.artists.entries (nonEmpty t.analysis.artist) t.artistId := by
  obtain ⟨entry, refers⟩ := refers_of_mem ran mem
  rw [refers.same]
  exact refers.artist

theorem names_album {t : TrackInfo} (mem : t ∈ b.tracks) : Names b.albums.entries
    (t.analysis.album.bind (fun name => (nonEmpty name).map (·, t.artistId))) t.albumId := by
  obtain ⟨entry, refers⟩ := refers_of_mem ran mem
  rw [refers.same]
  exact refers.album

theorem names_genre {t : TrackInfo} (mem : t ∈ b.tracks) :
    Names b.genres.entries (t.analysis.genre.bind nonEmpty) t.genreId := by
  obtain ⟨entry, refers⟩ := refers_of_mem ran mem
  rw [refers.same]
  exact refers.genre

theorem names_key {t : TrackInfo} (mem : t ∈ b.tracks) :
    Names b.keys.entries (t.analysis.key.bind Key.toRekordboxId) t.keyId := by
  obtain ⟨entry, refers⟩ := refers_of_mem ran mem
  rw [refers.same]
  exact refers.key

theorem pitch_known {t : TrackInfo} (mem : t ∈ b.tracks) {k : Key}
    (known : t.analysis.key = some k) : ∃ id, k.toRekordboxId = some id := by
  obtain ⟨entry, refers⟩ := refers_of_mem ran mem
  rw [refers.same] at known
  exact refers.pitch k known

/-- Artist ids tell artists apart, the empty one by 0. -/
theorem artistId_eq_iff {t u : TrackInfo} (ht : t ∈ b.tracks) (hu : u ∈ b.tracks) :
    t.artistId = u.artistId ↔ t.analysis.artist = u.analysis.artist := by
  have first := names_artist ran ht
  have second := names_artist ran hu
  have empty : ∀ {s : String}, nonEmpty s = none → s = "" := by
    intro s none_
    rw [nonEmpty] at none_
    split at none_
    · simpa using ‹s.isEmpty = true›
    · cases none_
  have same : ∀ {s name : String}, nonEmpty s = some name → s = name := by
    intro s name some_
    rw [nonEmpty] at some_
    split at some_
    · cases some_
    · exact Option.some.inj some_
  constructor
  · intro ids
    cases left : nonEmpty t.analysis.artist with
    | none =>
      cases right : nonEmpty u.analysis.artist with
      | none => rw [empty left, empty right]
      | some name =>
        rw [left] at first
        rw [right] at second
        have zero : t.artistId = 0 := first
        have positive := (Interner.id_bounds second).1
        simp only at positive
        omega
    | some name =>
      cases right : nonEmpty u.analysis.artist with
      | none =>
        rw [left] at first
        rw [right] at second
        have zero : u.artistId = 0 := second
        have positive := (Interner.id_bounds first).1
        simp only at positive
        omega
      | some other =>
        rw [left] at first
        rw [right] at second
        have entry := Interner.key_of_id first second ids
        rw [same left, same right]
        exact congrArg Prod.fst entry
  · intro names
    rw [names] at first
    cases right : nonEmpty u.analysis.artist with
    | none =>
      rw [right] at first second
      exact first.trans second.symm
    | some name =>
      rw [right] at first second
      exact congrArg Prod.snd (Interner.id_of_key first second rfl)

theorem artists_size : b.artists.entries.length =
    distinct (fun a => nonEmpty a.artist) (analysesOf calls) := by
  rw [← analyses_eq ran, distinct_map]
  exact size_eq_distinct (fun t => nonEmpty t.analysis.artist) TrackInfo.artistId
    (fun t mem => names_artist ran mem) (run_known ran).artists

theorem genres_size : b.genres.entries.length =
    distinct (fun a => a.genre.bind nonEmpty) (analysesOf calls) := by
  rw [← analyses_eq ran, distinct_map]
  exact size_eq_distinct (fun t => t.analysis.genre.bind nonEmpty) TrackInfo.genreId
    (fun t mem => names_genre ran mem) (run_known ran).genres

theorem albums_size : b.albums.entries.length = distinct albumOf (analysesOf calls) := by
  have byId := size_eq_distinct
    (fun t => t.analysis.album.bind (fun name => (nonEmpty name).map (·, t.artistId)))
    TrackInfo.albumId (fun t mem => names_album ran mem) (run_known ran).albums
  have parts : ∀ t : TrackInfo,
      t.analysis.album.bind (fun name => (nonEmpty name).map (·, t.artistId)) =
        (t.analysis.album.bind nonEmpty).map (·, t.artistId) := by
    intro t
    cases t.analysis.album <;> rfl
  rw [byId, ← analyses_eq ran, distinct_map]
  refine distinct_congr (fun t _ => ?_) (fun t ht u hu => ?_)
  · rw [parts, albumOf, Option.isSome_map, Option.isSome_map]
  · have artists := artistId_eq_iff ran ht hu
    rw [parts, parts, albumOf, albumOf]
    cases t.analysis.album.bind nonEmpty with
    | none =>
      cases u.analysis.album.bind nonEmpty with
      | none => exact ⟨fun _ => rfl, fun _ => rfl⟩
      | some other => simp
    | some name =>
      cases u.analysis.album.bind nonEmpty with
      | none => simp
      | some other =>
        simp only [Option.map_some, Option.some.injEq, Prod.mk.injEq]
        rw [artists]

theorem keys_size : b.keys.entries.length = distinct TrackAnalysis.key (analysesOf calls) := by
  have byId := size_eq_distinct (fun t => t.analysis.key.bind Key.toRekordboxId) TrackInfo.keyId
    (fun t mem => names_key ran mem) (run_known ran).keys
  rw [byId, ← analyses_eq ran, distinct_map]
  refine distinct_congr (fun t ht => ?_) (fun t ht u hu => ?_)
  · cases key : t.analysis.key with
    | none => rfl
    | some k =>
      obtain ⟨id, known⟩ := pitch_known ran ht key
      rw [Option.bind_some, known]
      rfl
  · constructor
    · intro ids
      cases left : t.analysis.key with
      | none =>
        cases right : u.analysis.key with
        | none => rfl
        | some k =>
          obtain ⟨id, known⟩ := pitch_known ran hu right
          rw [left, right, Option.bind_none, Option.bind_some, known] at ids
          cases ids
      | some k =>
        obtain ⟨id, known⟩ := pitch_known ran ht left
        cases right : u.analysis.key with
        | none =>
          rw [left, right, Option.bind_none, Option.bind_some, known] at ids
          cases ids
        | some l =>
          obtain ⟨id', known'⟩ := pitch_known ran hu right
          rw [left, right, Option.bind_some, Option.bind_some, known, known'] at ids
          rw [← Key.fromRekordboxId_toRekordboxId known, Option.some.inj ids,
            Key.fromRekordboxId_toRekordboxId known']
    · intro keys
      rw [keys]

end

theorem playlistsOf_snoc (calls : List Call) (c : Call) : playlistsOf (calls ++ [c]) =
    playlistsOf calls ++ (c.playlist? (playlistsOf calls).length).toList := by
  rw [playlistsOf, List.foldl_append]
  rfl

theorem length_playlistsOf (calls : List Call) :
    (playlistsOf calls).length = calls.countP Call.isPlaylist := by
  induction calls using List.reverseRecOn with
  | nil => rfl
  | append_singleton calls c ih =>
    rw [playlistsOf_snoc, List.length_append, ih, List.countP_append]
    cases c <;> rfl

theorem entries_eq {calls : List Call} {b : PdbBuilder} (same : b.playlists = playlistsOf calls) :
    b.playlistEntries.length = (calls.map Call.entryCount).sum := by
  have general : ∀ playlists : List PlaylistInfo,
      ((playlists.filter (fun p => !p.isFolder)).flatMap (fun p =>
        p.trackIds.zipIdx.map fun listed => (listed.2, listed.1, p.id))).length =
      ((playlists.filter (fun p => !p.isFolder)).map (fun p => p.trackIds.length)).sum := by
    intro playlists
    rw [List.length_flatMap]
    simp only [List.length_map, List.length_zipIdx]
  rw [playlistEntries, general, same]
  clear same general
  induction calls using List.reverseRecOn with
  | nil => rfl
  | append_singleton calls c ih =>
    rw [playlistsOf_snoc, List.filter_append, List.map_append, List.sum_append, ih,
      List.map_append, List.sum_append]
    cases c <;> rfl

end PdbBuilder

/-- The statistics of the tables are those of the calls. -/
theorem countedStats_eq {calls : List PdbBuilder.Call} {b : PdbBuilder}
    (ran : PdbBuilder.run calls = .ok b) (totalPages : Nat) :
    countedStats b totalPages = PdbBuilder.logicalStats calls totalPages := by
  have tracks := congrArg List.length (PdbBuilder.analyses_eq ran)
  have playlists := (PdbBuilder.run_faithful ran).playlists
  rw [List.length_map] at tracks
  simp only [countedStats, PdbBuilder.logicalStats, PdbBuilder.rows, List.length_map, tracks,
    PdbBuilder.artists_size ran, PdbBuilder.albums_size ran, PdbBuilder.genres_size ran,
    PdbBuilder.keys_size ran, PdbBuilder.entries_eq playlists, playlists,
    PdbBuilder.length_playlistsOf]

theorem dictionary_small {K : Type} (d : Dictionary K) : d.entries.length < 2 ^ 32 := by
  have counted := d.counted
  have small := d.small
  omega

/-- Only tracks, playlists and entries can be too many to count. -/
theorem rows_small_iff {b : PdbBuilder} :
    (∀ pageType ∈ PageType.allTypes, (b.rows pageType).length < 2 ^ 32) ↔
      b.tracks.length < 2 ^ 32 ∧ b.playlists.length < 2 ^ 32 ∧
        b.playlistEntries.length < 2 ^ 32 := by
  constructor
  · intro all
    have tracks := all .tracks (by decide)
    have playlists := all .playlistTree (by decide)
    have entries := all .playlistEntries (by decide)
    simp only [PdbBuilder.rows, List.length_map] at tracks playlists entries
    exact ⟨tracks, playlists, entries⟩
  · rintro ⟨tracks, playlists, entries⟩ pageType _
    cases pageType with
    | tracks => simpa only [PdbBuilder.rows, List.length_map] using tracks
    | playlistTree => simpa only [PdbBuilder.rows, List.length_map] using playlists
    | playlistEntries => simpa only [PdbBuilder.rows, List.length_map] using entries
    | genres => simpa only [PdbBuilder.rows, List.length_map] using dictionary_small b.genres
    | artists => simpa only [PdbBuilder.rows, List.length_map] using dictionary_small b.artists
    | albums => simpa only [PdbBuilder.rows, List.length_map] using dictionary_small b.albums
    | keys => simpa only [PdbBuilder.rows, List.length_map] using dictionary_small b.keys
    | artwork => simpa only [PdbBuilder.rows, List.length_map] using dictionary_small b.artworks
    | labels => simpa only [PdbBuilder.rows, List.length_map] using dictionary_small b.labels
    | colors => exact (by decide : (PdbBuilder.new.rows .colors).length < 2 ^ 32)
    | columns => exact (by decide : (PdbBuilder.new.rows .columns).length < 2 ^ 32)
    | unknown17 => exact (by decide : (PdbBuilder.new.rows .unknown17).length < 2 ^ 32)
    | unknown18 => exact (by decide : (PdbBuilder.new.rows .unknown18).length < 2 ^ 32)
    | history => exact (by decide : (PdbBuilder.new.rows .history).length < 2 ^ 32)
    | _ => exact (by decide : ([] : List Bytes).length < 2 ^ 32)

/-- The validator returns the history's own counts. -/
def CountsRight (calls : List PdbBuilder.Call) (file : Bytes) : Prop :=
  ∃ r, validatePdb file = .ok r ∧ r.stats = PdbBuilder.logicalStats calls r.stats.totalPages

/-- A table too long for a u32 stops the validator. -/
theorem overflow_not_countsRight {calls : List PdbBuilder.Call} {b : PdbBuilder} {plan : Plan}
    {header : FileHeader} {file : Bytes} (realizes : Realizes b plan header file)
    (many : ¬ ∀ pageType ∈ PageType.allTypes, (b.rows pageType).length < 2 ^ 32) :
    ¬ CountsRight calls file := by
  rintro ⟨r, returned, _⟩
  have spec := realizes.validatePdb_spec
  rw [if_neg many, returned] at spec
  cases spec

/-- The counts come back exactly when no table is longer than a u32 can count: the validator
adds up rows in a u32. -/
theorem countsRight_iff {calls : List PdbBuilder.Call} {file : Bytes}
    (built : PdbBuilder.buildAfter calls = .ok file) : CountsRight calls file ↔
      (PdbBuilder.analysesOf calls).length < 2 ^ 32 ∧
        calls.countP PdbBuilder.Call.isPlaylist < 2 ^ 32 ∧
        (calls.map PdbBuilder.Call.entryCount).sum < 2 ^ 32 := by
  obtain ⟨b, ran, built⟩ := of_bind built
  obtain ⟨plan, header, realizes⟩ := PdbBuilder.build_realizes built
  have playlists := (PdbBuilder.run_faithful ran).playlists
  have spec := realizes.validatePdb_spec
  have small := rows_small_iff (b := b)
  rw [PdbBuilder.entries_eq playlists, playlists, PdbBuilder.length_playlistsOf,
    ← List.length_map TrackInfo.analysis, PdbBuilder.analyses_eq ran] at small
  rw [← small]
  constructor
  · intro right
    by_contra many
    exact overflow_not_countsRight realizes many right
  · intro few
    rw [if_pos few] at spec
    obtain ⟨r, returned, _, _, stats⟩ := spec
    refine ⟨r, returned, ?_⟩
    rw [stats, countedStats_eq ran]
    rfl

theorem smallHistory_counts : ∃ file,
    PdbBuilder.buildAfter PdbBuilder.smallHistory = .ok file ∧
      CountsRight PdbBuilder.smallHistory file := by
  obtain ⟨file, built⟩ := PdbBuilder.smallHistory_returns
  exact ⟨file, built, (countsRight_iff built).mpr ⟨by decide, by decide, by decide⟩⟩

/-- Two playlists. -/
def twoPlaylists (xs ys : List UInt32) : List PdbBuilder.Call :=
  [.addPlaylist 1 0 "" xs, .addPlaylist 2 0 "" ys]

/-- The builder they leave. -/
def withTwoPlaylists (xs ys : List UInt32) : PdbBuilder :=
  (PdbBuilder.new.addPlaylist 1 0 "" xs).addPlaylist 2 0 "" ys

/-- Only the entries know what is in the playlists. -/
theorem rows_withTwoPlaylists (xs ys : List UInt32) {pageType : PageType}
    (other : pageType ≠ .playlistEntries) :
    (withTwoPlaylists xs ys).rows pageType = (withTwoPlaylists [] []).rows pageType := by
  cases pageType <;> first | rfl | exact absurd rfl other

theorem playlistEntries_withTwoPlaylists (xs ys : List UInt32) :
    (withTwoPlaylists xs ys).playlistEntries =
      xs.zipIdx.map (fun (trackId, idx) => (idx, trackId, (1 : UInt32))) ++
        (ys.zipIdx.map (fun (trackId, idx) => (idx, trackId, (2 : UInt32))) ++ []) := rfl

/-- Two playlists of 2³¹ entries each fit a file. -/
theorem withTwoPlaylists_spacious {xs ys : List UInt32} (first : xs.length ≤ 2 ^ 31)
    (second : ys.length ≤ 2 ^ 31) : PdbBuilder.Spacious (withTwoPlaylists xs ys) := by
  have short : ∀ row ∈ (withTwoPlaylists xs ys).rows .playlistEntries, row.length = 12 := by
    intro row mem
    obtain ⟨entry, _, rfl⟩ := List.mem_map.mp mem
    simp [buildPlaylistEntryRow]
  have count : ((withTwoPlaylists xs ys).rows .playlistEntries).length ≤ 2 ^ 32 := by
    rw [PdbBuilder.rows, List.length_map, playlistEntries_withTwoPlaylists]
    simp only [List.length_append, List.length_map, List.length_zipIdx, List.length_nil]
    omega
  constructor
  · intro pageType
    by_cases same : pageType = .playlistEntries
    · subst same
      intro row mem
      rw [short row mem]
      decide
    · rw [rows_withTwoPlaylists xs ys same]
      cases pageType <;> decide +kernel
  · have each : ∀ pageType ∈ PageType.allTypes,
        PdbBuilder.furtherPages ((withTwoPlaylists xs ys).rows pageType) ≤
          if pageType = .playlistEntries then 2 ^ 31 else 40 := by
      intro pageType _
      by_cases same : pageType = .playlistEntries
      · subst same
        rw [if_pos rfl, PdbBuilder.furtherPages, if_pos (fun row mem => by
          rw [short row mem]
          decide)]
        omega
      · rw [if_neg same, rows_withTwoPlaylists xs ys same]
        cases pageType <;> decide +kernel
    refine lt_of_le_of_lt (Nat.add_le_add_left (List.sum_le_sum each) 1000) ?_
    decide
  · intro entry mem
    rw [playlistEntries_withTwoPlaylists, List.append_nil, List.mem_append, List.mem_map,
      List.mem_map] at mem
    rcases mem with ⟨⟨trackId, idx⟩, listed, rfl⟩ | ⟨⟨trackId, idx⟩, listed, rfl⟩
    all_goals
      obtain ⟨_, bound, _⟩ := List.mem_zipIdx listed
      simp only
      omega

theorem buildAfter_twoPlaylists (xs ys : List UInt32) :
    PdbBuilder.buildAfter (twoPlaylists xs ys) = (withTwoPlaylists xs ys).build := rfl

theorem twoPlaylists_uncounted {xs ys : List UInt32} (first : xs.length = 2 ^ 31)
    (second : ys.length = 2 ^ 31) : ∃ file,
    PdbBuilder.buildAfter (twoPlaylists xs ys) = .ok file ∧
      ¬ CountsRight (twoPlaylists xs ys) file := by
  obtain ⟨file, built⟩ := PdbBuilder.build_returns_spacious
    (withTwoPlaylists_spacious first.le second.le)
  obtain ⟨plan, header, realizes⟩ := PdbBuilder.build_realizes built
  refine ⟨file, (buildAfter_twoPlaylists xs ys).trans built,
    overflow_not_countsRight realizes (fun all => ?_)⟩
  have few := (rows_small_iff.mp all).2.2
  rw [playlistEntries_withTwoPlaylists, List.length_append, List.length_map, List.length_zipIdx,
    List.length_append, List.length_map, List.length_zipIdx, first, second] at few
  simp only [List.length_nil] at few
  omega

/-- 2³² entries are written into a file, and the validator's own count of them overflows. -/
theorem manyEntries_uncounted : ∃ file,
    PdbBuilder.buildAfter
      (twoPlaylists (List.replicate (2 ^ 31) 1) (List.replicate (2 ^ 31) 1)) = .ok file ∧
    ¬ CountsRight (twoPlaylists (List.replicate (2 ^ 31) 1) (List.replicate (2 ^ 31) 1)) file :=
  twoPlaylists_uncounted List.length_replicate List.length_replicate

end BVault.Core
