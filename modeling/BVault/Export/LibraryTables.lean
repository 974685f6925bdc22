import BVault.Export.SameLists
import BVault.Lib.PrimaryKey

/-!
# The tables of the device library

The inserts of `build_export_library` in their order, into tables with the
primary keys of the schema. The first row whose key is taken ends the build.
Nothing in the schema declares what the other id columns refer to.
-/

namespace BVault.Export

open BVault.Core PrimaryKey Loops Pointwise

structure MenuItem where
  menuItemId : Nat
  kind : Nat
  name : String
  deriving DecidableEq, Repr

structure CategoryRow where
  categoryId : Nat
  menuItemId : Nat
  sequenceNo : Nat
  isVisible : Nat
  deriving DecidableEq, Repr

structure SortRow where
  sortId : Nat
  menuItemId : Nat
  sequenceNo : Nat
  isVisible : Nat
  isSelectedAsSubColumn : Nat
  deriving DecidableEq, Repr

structure MyTagRow where
  myTagId : Nat
  sequenceNo : Nat
  name : String
  attr : Nat
  myTagIdParent : Nat
  deriving DecidableEq, Repr

def COLORS : List (Nat × String) :=
  [(1, "Pink"), (2, "Red"), (3, "Orange"), (4, "Yellow"), (5, "Green"), (6, "Aqua"), (7, "Blue"),
    (8, "Purple")]

/-- A label between the marks of an interlinear annotation. -/
def menuLabel (text : String) : String := "\ufffa" ++ text ++ "\ufffb"

def MENU_ITEMS : List MenuItem :=
  [⟨1, 128, menuLabel "GENRE"⟩, ⟨2, 129, menuLabel "ARTIST"⟩, ⟨3, 130, menuLabel "ALBUM"⟩,
    ⟨4, 131, menuLabel "TRACK"⟩, ⟨5, 133, menuLabel "BPM"⟩, ⟨6, 134, menuLabel "RATING"⟩,
    ⟨7, 135, menuLabel "YEAR"⟩, ⟨8, 136, menuLabel "REMIXER"⟩, ⟨9, 137, menuLabel "LABEL"⟩,
    ⟨10, 138, menuLabel "ORIGINAL ARTIST"⟩, ⟨11, 139, menuLabel "KEY"⟩, ⟨12, 141, menuLabel "CUE"⟩,
    ⟨13, 142, menuLabel "COLOR"⟩, ⟨14, 146, menuLabel "TIME"⟩, ⟨15, 147, menuLabel "BITRATE"⟩,
    ⟨16, 148, menuLabel "FILE NAME"⟩, ⟨17, 132, menuLabel "PLAYLIST"⟩,
    ⟨18, 152, menuLabel "HOT CUE BANK"⟩, ⟨19, 149, menuLabel "HISTORY"⟩,
    ⟨20, 145, menuLabel "SEARCH"⟩, ⟨21, 150, menuLabel "COMMENTS"⟩,
    ⟨22, 140, menuLabel "DATE ADDED"⟩, ⟨23, 151, menuLabel "DJ PLAY COUNT"⟩,
    ⟨24, 144, menuLabel "FOLDER"⟩, ⟨25, 161, menuLabel "DEFAULT"⟩, ⟨26, 162, menuLabel "ALPHABET"⟩,
    ⟨27, 170, menuLabel "MATCHING"⟩]

def CATEGORIES : List CategoryRow :=
  [⟨1, 1, 0, 0⟩, ⟨2, 2, 1, 1⟩, ⟨3, 3, 2, 1⟩, ⟨4, 4, 3, 1⟩, ⟨5, 17, 5, 1⟩, ⟨6, 5, 0, 0⟩, ⟨7, 6, 0, 0⟩,
    ⟨8, 7, 0, 0⟩, ⟨9, 8, 0, 0⟩, ⟨10, 9, 0, 0⟩, ⟨11, 10, 0, 0⟩, ⟨12, 11, 4, 1⟩, ⟨15, 13, 0, 0⟩,
    ⟨17, 24, 9, 1⟩, ⟨18, 20, 7, 1⟩, ⟨19, 14, 0, 0⟩, ⟨20, 15, 0, 0⟩, ⟨21, 16, 0, 0⟩, ⟨22, 19, 6, 1⟩,
    ⟨23, 18, 0, 0⟩, ⟨26, 27, 8, 1⟩, ⟨27, 22, 10, 1⟩]

def SORTS : List SortRow :=
  [⟨0, 25, 1, 1, 0⟩, ⟨1, 26, 2, 1, 0⟩, ⟨2, 2, 3, 1, 0⟩, ⟨3, 3, 4, 1, 0⟩, ⟨4, 5, 5, 1, 0⟩,
    ⟨5, 6, 6, 1, 0⟩, ⟨6, 1, 0, 0, 0⟩, ⟨7, 21, 0, 0, 0⟩, ⟨8, 14, 0, 0, 0⟩, ⟨9, 8, 0, 0, 0⟩,
    ⟨10, 9, 0, 0, 0⟩, ⟨11, 10, 0, 0, 0⟩, ⟨12, 11, 7, 1, 0⟩, ⟨13, 15, 0, 0, 0⟩, ⟨15, 13, 0, 0, 0⟩,
    ⟨16, 23, 0, 0, 0⟩, ⟨17, 22, 0, 0, 0⟩]

def MYTAG_ROOTS : List MyTagRow :=
  [⟨1, 0, "Genre", 1, 0⟩, ⟨2, 1, "Components", 1, 0⟩, ⟨3, 2, "Situation", 1, 0⟩,
    ⟨4, 3, "Untitled Column", 1, 0⟩]

structure LibraryTables where
  color : Table (Prod.fst : Nat × String → Nat)
  menuItem : Table MenuItem.menuItemId
  category : Table CategoryRow.categoryId
  sort : Table SortRow.sortId
  myTag : Table MyTagRow.myTagId
  artist : Table (Prod.fst : Nat × String → Nat)
  image : Table (Prod.fst : Nat × String → Nat)
  content : Table ContentRow.contentId
  playlist : Table PlaylistRow.playlistId
  playlistContent : List PlaylistContentRow
  property : List PropertyRow

/-- The error of an insert into `table`, as the database words it. -/
def conflict (table column : String) : String :=
  table ++ ": UNIQUE constraint failed: " ++ table ++ "." ++ column

section
variable {ρ : Type} {key : ρ → Nat}

def insertInto (table column : String) (t : Table key) (rows : List ρ) : Except String (Table key) :=
  match t.insertAll rows with
  | some t => .ok t
  | none => .error (conflict table column)

end

def insertPlaylist (s : Table PlaylistRow.playlistId × List PlaylistContentRow) (pl : PlaylistSpec) :
    Except String (Table PlaylistRow.playlistId × List PlaylistContentRow) := do
  let playlist ← insertInto "playlist" "playlist_id" s.1 [playlistRow pl]
  .ok (playlist, s.2 ++ playlistContentRows pl)

/-- The statements between `BEGIN` and `COMMIT`. -/
def fillLibrary (tracks : List StoredAnalysis) (playlists : List PlaylistSpec)
    (opts : DeviceLibraryOptions) : Except String LibraryTables := do
  let color ← insertInto "color" "color_id" Table.empty COLORS
  let menuItem ← insertInto "menuItem" "menuItem_id" Table.empty MENU_ITEMS
  let category ← insertInto "category" "category_id" Table.empty CATEGORIES
  let sort ← insertInto "sort" "sort_id" Table.empty SORTS
  let myTag ← insertInto "myTag" "myTag_id" Table.empty MYTAG_ROOTS
  let (artistIds, trackArtistId) := trackArtists tracks
  let artist ← insertInto "artist" "artist_id" Table.empty (artistIds.map fun (name, id) => (id, name))
  let image ← insertInto "image" "image_id" Table.empty
    (tracks.filterMap fun t => (artworkImagePath t.id.toNat).map fun path => (t.id.toNat, path))
  let content ← insertInto "content" "content_id" Table.empty
    ((tracks.zip trackArtistId).map fun (t, artistId) => contentRow opts t artistId)
  let (playlist, playlistContent) ← playlists.foldlM insertPlaylist (Table.empty, [])
  .ok
    { color, menuItem, category, sort, myTag, artist, image, content, playlist, playlistContent
      property := [⟨opts.deviceName, DB_VERSION, tracks.length, opts.createdDate, opts.masterDbId⟩] }

/-- The tables with the fixed content and the rows of an export. -/
structure Filled (t : LibraryTables) (rows : DeviceLibrary) : Prop where
  color : t.color.rows = COLORS
  menuItem : t.menuItem.rows = MENU_ITEMS
  category : t.category.rows = CATEGORIES
  sort : t.sort.rows = SORTS
  myTag : t.myTag.rows = MYTAG_ROOTS
  artist : t.artist.rows = rows.artists
  image : t.image.rows = []
  content : t.content.rows = rows.contents
  playlist : t.playlist.rows = rows.playlists
  playlistContent : t.playlistContent = rows.playlistContents
  property : t.property = [rows.property]

/-- What a player looks up is there: the menu items, the artist and the image of a track, the list
and the track of a member, and as many tracks as are counted. -/
structure References (t : LibraryTables) : Prop where
  category : ∀ row ∈ t.category.rows, ∃ item ∈ t.menuItem.rows, item.menuItemId = row.menuItemId
  sort : ∀ row ∈ t.sort.rows, ∃ item ∈ t.menuItem.rows, item.menuItemId = row.menuItemId
  artist : ∀ row ∈ t.content.rows, ∃ artist ∈ t.artist.rows, artist.1 = row.artistId
  image : ∀ row ∈ t.content.rows, ∀ id, row.imageId = some id → ∃ image ∈ t.image.rows, image.1 = id
  playlist : ∀ row ∈ t.playlistContent, ∃ list ∈ t.playlist.rows, list.playlistId = row.playlistId
  member : ∀ row ∈ t.playlistContent, ∃ track ∈ t.content.rows, track.contentId = row.contentId
  number : ∀ row ∈ t.property, row.numberOfContents = t.content.rows.length

/-- Artists are numbered from one on in the order they are first met, and each track has the number
of its artist. -/
structure ArtistsNumbered (tracks : List StoredAnalysis) (s : List (String × Nat) × List Nat) :
    Prop where
  ids : s.1.map Prod.snd = List.range' 1 s.1.length
  tracks : List.Forall₂ (fun t id => (t.artist, id) ∈ s.1) tracks s.2

theorem mem_of_lookup {entries : List (String × Nat)} {name : String} {id : Nat}
    (found : entries.lookup name = some id) : (name, id) ∈ entries := by
  induction entries with
  | nil => cases found
  | cons e entries ih =>
    rw [List.lookup_cons] at found
    split at found
    · rename_i same
      cases found
      rw [eq_of_beq same]
      exact List.mem_cons_self
    · exact List.mem_cons_of_mem e (ih found)

theorem artistIdFor_spec {artists : List (String × Nat)} (name : String)
    (ids : artists.map Prod.snd = List.range' 1 artists.length) :
    artists <+: (artistIdFor artists name).1 ∧
      (name, (artistIdFor artists name).2) ∈ (artistIdFor artists name).1 ∧
      (artistIdFor artists name).1.map Prod.snd =
        List.range' 1 (artistIdFor artists name).1.length := by
  rw [artistIdFor]
  split
  · rename_i id found
    exact ⟨List.prefix_refl artists, mem_of_lookup found, ids⟩
  · refine ⟨List.prefix_append _ _, List.mem_append_right _ List.mem_cons_self, ?_⟩
    rw [List.map_append, ids, List.length_append, List.length_singleton, ← List.range'_append_1]
    simp only [List.map_singleton, List.range'_one, Nat.add_comm]

theorem numbered_trackArtists (tracks : List StoredAnalysis) :
    ArtistsNumbered tracks (trackArtists tracks) := by
  induction tracks using List.reverseRecOn with
  | nil => exact ⟨rfl, .nil⟩
  | append_singleton tracks t ih =>
    have more : trackArtists (tracks ++ [t]) =
        ((artistIdFor (trackArtists tracks).1 t.artist).1,
          (trackArtists tracks).2 ++ [(artistIdFor (trackArtists tracks).1 t.artist).2]) := by
      rw [trackArtists, List.foldl_append]
      rfl
    obtain ⟨grows, here, ids⟩ := artistIdFor_spec t.artist ih.ids
    rw [more]
    refine ⟨ids, List.rel_append (ih.tracks.imp fun _ _ mem => ?_) (.cons here .nil)⟩
    exact grows.subset mem

theorem insertInto_eq_ok_iff {ρ : Type} {key : ρ → Nat} {table column : String} {t t' : Table key}
    {rows : List ρ} : insertInto table column t rows = .ok t' ↔
      ((t.rows ++ rows).map key).Nodup ∧ t'.rows = t.rows ++ rows := by
  rw [← Table.insertAll_eq_some_iff, insertInto]
  cases t.insertAll rows with
  | none => simp only [reduceCtorEq]
  | some next => simp only [Except.ok.injEq, Option.some.injEq]

theorem insertPlaylists_eq_ok_iff {playlists : List PlaylistSpec}
    {s s' : Table PlaylistRow.playlistId × List PlaylistContentRow} :
    playlists.foldlM insertPlaylist s = .ok s' ↔
      ((s.1.rows ++ playlists.map playlistRow).map PlaylistRow.playlistId).Nodup ∧
        s'.1.rows = s.1.rows ++ playlists.map playlistRow ∧
        s'.2 = s.2 ++ playlists.flatMap playlistContentRows := by
  induction playlists generalizing s with
  | nil =>
    rw [List.foldlM_nil, List.map_nil, List.append_nil, List.flatMap_nil, List.append_nil]
    constructor
    · rintro is
      obtain rfl := Except.ok.inj is
      exact ⟨s.1.distinct, rfl, rfl⟩
    · rintro ⟨-, rows, contents⟩
      exact congrArg Except.ok (Prod.ext (Table.ext rows.symm) contents.symm)
  | cons pl playlists ih =>
    rw [List.foldlM_cons, bind_ok_iff]
    constructor
    · rintro ⟨next, inserted, later⟩
      obtain ⟨t, taken, is⟩ := of_bind inserted
      obtain rfl := Except.ok.inj is
      obtain ⟨-, rows⟩ := insertInto_eq_ok_iff.mp taken
      obtain ⟨distinct, rows', contents⟩ := ih.mp later
      rw [rows, List.append_assoc] at distinct rows'
      rw [List.append_assoc] at contents
      exact ⟨distinct, rows', contents⟩
    · rintro ⟨distinct, rows, contents⟩
      rw [List.map_cons, ← List.singleton_append, ← List.append_assoc] at distinct rows
      rw [List.flatMap_cons, ← List.append_assoc] at contents
      have front : ((s.1.rows ++ [playlistRow pl]).map PlaylistRow.playlistId).Nodup := by
        rw [List.map_append] at distinct
        exact (List.nodup_append.mp distinct).1
      have taken : insertInto "playlist" "playlist_id" s.1 [playlistRow pl] =
          .ok ⟨s.1.rows ++ [playlistRow pl], front⟩ := insertInto_eq_ok_iff.mpr ⟨front, rfl⟩
      exact ⟨_, bind_ok taken rfl, ih.mpr ⟨distinct, rows, contents⟩⟩

/-- Inserts into a new table. -/
theorem filled_iff {ρ : Type} {key : ρ → Nat} {table column : String} {t : Table key} {rows : List ρ} :
    insertInto table column Table.empty rows = .ok t ↔ (rows.map key).Nodup ∧ t.rows = rows := by
  rw [insertInto_eq_ok_iff, Table.rows_empty, List.nil_append]

theorem artistIds_nodup (tracks : List StoredAnalysis) :
    (((trackArtists tracks).1.map fun (name, id) => (id, name)).map Prod.fst).Nodup := by
  have ids := (numbered_trackArtists tracks).ids
  rw [List.map_map]
  have same : (trackArtists tracks).1.map (Prod.fst ∘ fun (name, id) => (id, name)) =
      (trackArtists tracks).1.map Prod.snd := List.map_congr_left fun _ _ => rfl
  rw [same, ids]
  exact List.nodup_range'

section
variable {tracks : List StoredAnalysis} {playlists : List PlaylistSpec} {opts : DeviceLibraryOptions}
  {t : LibraryTables}

/-- The inserts go through exactly where no two tracks and no two playlists have the same id, and
leave the fixed content and the rows of the export. -/
theorem fillLibrary_eq_ok_iff :
    fillLibrary tracks playlists opts = .ok t ↔
      (tracks.map fun a => a.id.toNat).Nodup ∧ (playlists.map PlaylistSpec.id).Nodup ∧
        Filled t (exportLibraryRows tracks playlists opts) := by
  have contents : (exportLibraryRows tracks playlists opts).contents.map ContentRow.contentId =
      tracks.map fun a => a.id.toNat := contentIds_eq tracks playlists opts
  have lists : (playlists.map playlistRow).map PlaylistRow.playlistId = playlists.map PlaylistSpec.id := by
    rw [List.map_map]
    rfl
  have images : (tracks.filterMap fun t =>
      (artworkImagePath t.id.toNat).map fun path => (t.id.toNat, path)) = [] :=
    List.filterMap_eq_nil_iff.mpr fun _ _ => rfl
  have artists := artistIds_nodup tracks
  rw [← contents, ← lists]
  constructor
  · intro filled
    obtain ⟨color, colors, filled⟩ := of_bind filled
    obtain ⟨menuItem, menuItems, filled⟩ := of_bind filled
    obtain ⟨category, categories, filled⟩ := of_bind filled
    obtain ⟨sort, sorts, filled⟩ := of_bind filled
    obtain ⟨myTag, myTags, filled⟩ := of_bind filled
    obtain ⟨artist, artists, filled⟩ := of_bind filled
    obtain ⟨image, none, filled⟩ := of_bind filled
    obtain ⟨content, tracks, filled⟩ := of_bind filled
    obtain ⟨⟨playlist, members⟩, listed, filled⟩ := of_bind filled
    obtain rfl := Except.ok.inj filled
    obtain ⟨distinct, contents⟩ := filled_iff.mp tracks
    obtain ⟨apart, playlists, members⟩ := insertPlaylists_eq_ok_iff.mp listed
    refine ⟨distinct, apart, ?_⟩
    exact
      { color := (filled_iff.mp colors).2
        menuItem := (filled_iff.mp menuItems).2
        category := (filled_iff.mp categories).2
        sort := (filled_iff.mp sorts).2
        myTag := (filled_iff.mp myTags).2
        artist := (filled_iff.mp artists).2
        image := (filled_iff.mp none).2.trans images
        content := contents
        playlist := playlists
        playlistContent := members
        property := rfl }
  · rintro ⟨distinct, apart, filled⟩
    have listed : playlists.foldlM insertPlaylist (Table.empty, []) =
        .ok (t.playlist, t.playlistContent) :=
      insertPlaylists_eq_ok_iff.mpr ⟨apart, filled.playlist, filled.playlistContent⟩
    rw [fillLibrary]
    refine bind_ok (filled_iff.mpr ⟨by decide, filled.color⟩) ?_
    refine bind_ok (filled_iff.mpr ⟨by decide, filled.menuItem⟩) ?_
    refine bind_ok (filled_iff.mpr ⟨by decide, filled.category⟩) ?_
    refine bind_ok (filled_iff.mpr ⟨by decide, filled.sort⟩) ?_
    refine bind_ok (filled_iff.mpr ⟨by decide, filled.myTag⟩) ?_
    refine bind_ok (filled_iff.mpr ⟨artists, filled.artist⟩) ?_
    refine bind_ok (filled_iff.mpr ⟨images ▸ List.nodup_nil, filled.image.trans images.symm⟩) ?_
    refine bind_ok (filled_iff.mpr ⟨distinct, filled.content⟩) ?_
    refine bind_ok listed ?_
    obtain ⟨color, menuItem, category, sort, myTag, artist, image, content, playlist, members,
      property⟩ := t
    obtain rfl := filled.property
    rfl

theorem exists_filled (apart : (tracks.map fun a => a.id.toNat).Nodup)
    (lists : (playlists.map PlaylistSpec.id).Nodup) (opts : DeviceLibraryOptions) :
    ∃ t, Filled t (exportLibraryRows tracks playlists opts) := by
  have contents := (contentIds_eq tracks playlists opts).symm ▸ apart
  have names : (((exportLibraryRows tracks playlists opts).playlists).map
      PlaylistRow.playlistId).Nodup := by
    simp only [exportLibraryRows, List.map_map]
    exact lists
  refine ⟨⟨⟨COLORS, by decide⟩, ⟨MENU_ITEMS, by decide⟩, ⟨CATEGORIES, by decide⟩, ⟨SORTS, by decide⟩,
    ⟨MYTAG_ROOTS, by decide⟩, ⟨_, artistIds_nodup tracks⟩, Table.empty, ⟨_, contents⟩, ⟨_, names⟩,
    (exportLibraryRows tracks playlists opts).playlistContents,
    [(exportLibraryRows tracks playlists opts).property]⟩, ?_⟩
  exact ⟨rfl, rfl, rfl, rfl, rfl, rfl, rfl, rfl, rfl, rfl, rfl⟩

/-- Only the members of the playlists can lead nowhere. -/
theorem references_iff (filled : Filled t (exportLibraryRows tracks playlists opts)) :
    References t ↔
      ∀ pl ∈ playlists, ∀ cid ∈ pl.contentIds, cid.toNat ∈ tracks.map fun a => a.id.toNat := by
  have contents := contentIds_eq tracks playlists opts
  have members (row : PlaylistContentRow) :
      row ∈ t.playlistContent ↔ ∃ pl ∈ playlists, row ∈ playlistContentRows pl := by
    rw [filled.playlistContent]
    exact List.mem_flatMap
  have known (id : Nat) : (∃ track ∈ t.content.rows, track.contentId = id) ↔
      id ∈ tracks.map fun a => a.id.toNat := by
    rw [← contents, filled.content, List.mem_map]
  constructor
  · intro references pl mem cid inside
    obtain ⟨seq, at_⟩ := List.mem_iff_getElem?.mp inside
    have row : (⟨pl.id, cid.toNat, seq + 1⟩ : PlaylistContentRow) ∈ playlistContentRows pl :=
      List.mem_map.mpr ⟨(cid, seq), List.mk_mem_zipIdx_iff_getElem?.mpr at_, rfl⟩
    exact (known _).mp (references.member _ ((members _).mpr ⟨pl, mem, row⟩))
  · intro all
    refine ⟨?_, ?_, ?_, ?_, ?_, ?_, ?_⟩
    · rw [filled.category, filled.menuItem]
      decide
    · rw [filled.sort, filled.menuItem]
      decide
    · rw [filled.content, filled.artist]
      intro row mem
      obtain ⟨⟨track, id⟩, pair, rfl⟩ := List.mem_map.mp mem
      have numbered := List.forall₂_zip (numbered_trackArtists tracks).tracks pair
      exact ⟨(id, track.artist), List.mem_map.mpr ⟨_, numbered, rfl⟩, rfl⟩
    · rw [filled.content]
      intro row mem id some
      obtain ⟨⟨track, id'⟩, -, rfl⟩ := List.mem_map.mp mem
      cases some
    · intro row mem
      obtain ⟨pl, listed, inside⟩ := (members row).mp mem
      obtain ⟨e, -, rfl⟩ := List.mem_map.mp inside
      rw [filled.playlist]
      exact ⟨playlistRow pl, List.mem_map_of_mem listed, rfl⟩
    · intro row mem
      obtain ⟨pl, listed, inside⟩ := (members row).mp mem
      obtain ⟨⟨cid, seq⟩, here, rfl⟩ := List.mem_map.mp inside
      exact (known _).mpr (all pl listed cid (List.fst_mem_of_mem_zipIdx here))
    · rw [filled.property, filled.content]
      intro row mem
      obtain rfl := List.mem_singleton.mp mem
      have counted := congrArg List.length contents
      rw [List.length_map, List.length_map] at counted
      exact counted.symm

end

/-- A library whose lookups all succeed comes out exactly if no two tracks and no two playlists
share an id and each member of a playlist is one of the tracks. -/
theorem fillLibrary_sound_iff (tracks : List StoredAnalysis) (playlists : List PlaylistSpec)
    (opts : DeviceLibraryOptions) :
    (∃ t, fillLibrary tracks playlists opts = .ok t ∧ References t) ↔
      (tracks.map fun a => a.id.toNat).Nodup ∧ (playlists.map PlaylistSpec.id).Nodup ∧
        ∀ pl ∈ playlists, ∀ cid ∈ pl.contentIds, cid.toNat ∈ tracks.map fun a => a.id.toNat := by
  constructor
  · rintro ⟨t, ran, references⟩
    obtain ⟨apart, lists, filled⟩ := fillLibrary_eq_ok_iff.mp ran
    exact ⟨apart, lists, (references_iff filled).mp references⟩
  · rintro ⟨apart, lists, members⟩
    obtain ⟨t, filled⟩ := exists_filled apart lists opts
    exact ⟨t, fillLibrary_eq_ok_iff.mpr ⟨apart, lists, filled⟩, (references_iff filled).mpr members⟩

end BVault.Export
