import BVault.Core.PdbRows
import BVault.Lib.Pointwise

/-!
# Dictionaries and the tracks that refer to them

Read back from a built file, the six dictionary tables number their rows
1, 2, 3, … with no key twice, and every id in a track row is 0 or stands for
exactly one row, whose name is the track's own value.
-/

namespace BVault.Core

open Bytes Loops

namespace Reader

/-- The string at an offset in a row. -/
def nameAt (row : Bytes) (off : Nat) : Option String :=
  (decodeString (row.drop off)).map Prod.fst

/-- Bit 2 of the subtype: the name's offset takes two bytes. -/
def isFar (row : Bytes) : Bool := (readLE row 0 2).testBit 2

/-- Genre, label and artwork rows. -/
def namedRow (row : Bytes) : Option (Nat × String) := (nameAt row 4).map (readLE row 0 4, ·)

def keyRow (row : Bytes) : Option (Nat × String) := (nameAt row 8).map (readLE row 0 4, ·)

def artistRow (row : Bytes) : Option (Nat × String) :=
  (nameAt row (if isFar row then readLE row 0x0A 2 else readLE row 0x09 1)).map (readLE row 4 4, ·)

/-- The id of an album with its key, the name and the artist id. -/
def albumRow (row : Bytes) : Option (Nat × String × Nat) :=
  (nameAt row (if isFar row then readLE row 0x16 2 else readLE row 0x15 1)).map
    (fun name => (readLE row 0x0C 4, name, readLE row 0x08 4))

def trackArtwork (row : Bytes) : Nat := readLE row 0x1C 4

def trackKey (row : Bytes) : Nat := readLE row 0x20 4

def trackLabel (row : Bytes) : Nat := readLE row 0x28 4

def trackGenre (row : Bytes) : Nat := readLE row 0x3C 4

def trackAlbum (row : Bytes) : Nat := readLE row 0x40 4

def trackArtist (row : Bytes) : Nat := readLE row 0x44 4

def trackId (row : Bytes) : Nat := readLE row 0x48 4

end Reader

/-- The dictionary tables of a file. -/
structure Dictionaries where
  artists : List (Nat × String)
  albums : List (Nat × String × Nat)
  genres : List (Nat × String)
  labels : List (Nat × String)
  keys : List (Nat × String)
  artworks : List (Nat × String)

def Reader.dictionaries (file : Bytes) : Option Dictionaries := do
  let genres ← (tableRows file 1).mapM namedRow
  let artists ← (tableRows file 2).mapM artistRow
  let albums ← (tableRows file 3).mapM albumRow
  let labels ← (tableRows file 4).mapM namedRow
  let keys ← (tableRows file 5).mapM keyRow
  let artworks ← (tableRows file 13).mapM namedRow
  some { artists, albums, genres, labels, keys, artworks }

/-- A field of a row is read from whatever begins with the row. -/
theorem read_field {fields : List Bytes} {rest field : Bytes} {i off : Nat}
    (here : fields[i]? = some field) (place : ((fields.take i).map List.length).sum = off) :
    slice (fields.flatten ++ rest) off field.length = field := by
  have inside := (List.getElem?_eq_some_iff.mp here).1
  have longer : (fields ++ [rest])[i]? = some field := by
    rw [List.getElem?_append_left inside]
    exact here
  have found := slice_flatten longer
  rwa [List.flatten_append, List.flatten_singleton, List.take_append_of_le_length (by omega),
    place] at found

theorem read_word (fields : List Bytes) (rest : Bytes) (i off : Nat) {w n : Nat}
    (here : fields[i]? = some (leBytes w n)) (place : ((fields.take i).map List.length).sum = off)
    (fits : n < 256 ^ w) : readLE (fields.flatten ++ rest) off w = n := by
  have word : slice (fields.flatten ++ rest) off (leBytes w n).length = leBytes w n :=
    read_field here place
  rw [length_leBytes] at word
  rw [readLE, word, leNat_leBytes_of_lt fits]

/-- The name is the last field of its row. -/
theorem nameAt_fields (front : List Bytes) (rest : Bytes) (off : Nat) {name : String}
    (place : (front.map List.length).sum = off) (fits : (encodeString name).length ≤ PAGE_SIZE) :
    Reader.nameAt ((front ++ [encodeString name]).flatten ++ rest) off = some name := by
  have length : front.flatten.length = off := by rw [List.length_flatten, place]
  rw [PAGE_SIZE] at fits
  rw [Reader.nameAt, List.flatten_append, List.flatten_singleton, List.append_assoc,
    List.drop_left' length, decodeString_encodeString (by omega)]
  rfl

section
variable {id artistId : Nat} {name : String} {seen : Bytes}

theorem namedRow_found (small : id < 2 ^ 32) (found : Found (buildNamedRow id name) seen) :
    Reader.namedRow seen = some (id, name) := by
  obtain ⟨⟨rest, rfl⟩, fits⟩ := found
  have parts : buildNamedRow id name = ([leBytes 4 id] ++ [encodeString name]).flatten := by
    simp [buildNamedRow]
  have short : (encodeString name).length ≤ PAGE_SIZE := by
    rw [buildNamedRow, List.length_append] at fits
    omega
  rw [parts, Reader.namedRow, nameAt_fields _ rest 4 rfl short, read_word _ rest 0 0 rfl rfl small]
  rfl

theorem keyRow_found (small : id < 2 ^ 32) (found : Found (buildKeyRow id name) seen) :
    Reader.keyRow seen = some (id, name) := by
  obtain ⟨⟨rest, rfl⟩, fits⟩ := found
  have parts : buildKeyRow id name =
      ([leBytes 4 id, leBytes 4 id] ++ [encodeString name]).flatten := by
    simp [buildKeyRow]
  have short : (encodeString name).length ≤ PAGE_SIZE := by
    rw [buildKeyRow, List.length_append] at fits
    omega
  rw [parts, Reader.keyRow, nameAt_fields _ rest 8 rfl short, read_word _ rest 0 0 rfl rfl small]
  rfl

/-- How artist and album rows are laid out: a subtype, fixed words, and a one- or two-byte offset
to the name that ends the row. -/
def offsetRow (near far : Nat) (words : List Bytes) (start : Nat) (name : String) : Bytes :=
  (if (encodeString name).length ≤ 200 then
    leBytes 2 near :: words ++ [[0x03], leBytes 1 start, encodeString name]
  else
    leBytes 2 far :: words ++ [[0x03], [0], leBytes 2 (start + 2), encodeString name]).flatten

theorem buildArtistRow_eq (id : Nat) (name : String) : buildArtistRow id name =
    offsetRow SUBTYPE_NEAR SUBTYPE_FAR [leBytes 2 0, leBytes 4 id] 10 name := rfl

theorem buildAlbumRow_eq (id artistId : Nat) (name : String) : buildAlbumRow id artistId name =
    offsetRow 0x0080 0x0084
      [leBytes 2 0, leBytes 4 0, leBytes 4 artistId, leBytes 4 id, leBytes 4 0] 22 name := rfl

section
variable {near far start : Nat} {words : List Bytes}
  (found : Found (offsetRow near far words start name) seen)
include found

/-- The fixed words stand at the same place before either kind of offset. -/
theorem offsetRow_word (i off : Nat) {w n : Nat} (here : words[i]? = some (leBytes w n))
    (place : 2 + ((words.take i).map List.length).sum = off) (fits : n < 256 ^ w) :
    readLE seen off w = n := by
  obtain ⟨⟨rest, rfl⟩, _⟩ := found
  have inside := (List.getElem?_eq_some_iff.mp here).1
  have behind : ∀ (subtype : Nat) (tail : List Bytes),
      readLE ((leBytes 2 subtype :: words ++ tail).flatten ++ rest) off w = n := by
    intro subtype tail
    refine read_word _ rest (i + 1) off ?_ ?_ fits
    · rw [List.cons_append, List.getElem?_cons_succ, List.getElem?_append_left inside]
      exact here
    · rw [List.cons_append, List.take_succ_cons, List.take_append_of_le_length (by omega),
        List.map_cons, List.sum_cons, length_leBytes]
      exact place
  rw [offsetRow]
  split
  · exact behind _ _
  · exact behind _ _

theorem offsetRow_name (nearSubtype : near < 2 ^ 16 ∧ near.testBit 2 = false)
    (farSubtype : far < 2 ^ 16 ∧ far.testBit 2 = true)
    (place : 4 + (words.map List.length).sum = start) (small : start + 2 < 2 ^ 8) :
    Reader.nameAt seen
      (if Reader.isFar seen then readLE seen start 2 else readLE seen (start - 1) 1) =
        some name := by
  obtain ⟨⟨rest, rfl⟩, fits⟩ := found
  by_cases short : (encodeString name).length ≤ 200
  · have parts : offsetRow near far words start name =
        ((leBytes 2 near :: words ++ [[0x03], leBytes 1 start]) ++
          [encodeString name]).flatten := by
      simp [offsetRow, if_pos short]
    have subtype : Reader.isFar (offsetRow near far words start name ++ rest) = false := by
      rw [parts, Reader.isFar, read_word _ rest 0 0 rfl rfl nearSubtype.1]
      exact nearSubtype.2
    have offset : readLE (offsetRow near far words start name ++ rest) (start - 1) 1 = start := by
      rw [parts]
      refine read_word _ rest (words.length + 2) _ (by simp) ?_ (by omega)
      simp
      omega
    rw [subtype, if_neg Bool.false_ne_true, offset, parts]
    refine nameAt_fields _ rest start ?_ (le_trans short (by decide))
    simp
    omega
  · have parts : offsetRow near far words start name =
        ((leBytes 2 far :: words ++ [[0x03], [0], leBytes 2 (start + 2)]) ++
          [encodeString name]).flatten := by
      simp [offsetRow, if_neg short]
    have subtype : Reader.isFar (offsetRow near far words start name ++ rest) = true := by
      rw [parts, Reader.isFar, read_word _ rest 0 0 rfl rfl farSubtype.1]
      exact farSubtype.2
    have offset : readLE (offsetRow near far words start name ++ rest) start 2 = start + 2 := by
      rw [parts]
      refine read_word _ rest (words.length + 3) _ (by simp) ?_ (by omega)
      simp
      omega
    have room : (encodeString name).length ≤ PAGE_SIZE := by
      rw [parts, List.flatten_append, List.flatten_singleton, List.length_append] at fits
      omega
    rw [subtype, if_pos rfl, offset, parts]
    refine nameAt_fields _ rest (start + 2) ?_ room
    simp
    omega

end

theorem artistRow_found (small : id < 2 ^ 32) (found : Found (buildArtistRow id name) seen) :
    Reader.artistRow seen = some (id, name) := by
  rw [buildArtistRow_eq] at found
  have shown := offsetRow_name found (by decide) (by decide) rfl (by decide)
  have number := offsetRow_word found 1 4 rfl rfl small
  rw [Reader.artistRow, shown, number]
  rfl

theorem albumRow_found (small : id < 2 ^ 32) (smaller : artistId < 2 ^ 32)
    (found : Found (buildAlbumRow id artistId name) seen) :
    Reader.albumRow seen = some (id, name, artistId) := by
  rw [buildAlbumRow_eq] at found
  have shown := offsetRow_name found (by decide) (by decide) rfl (by decide)
  have number := offsetRow_word found 3 0x0C rfl rfl small
  have artist := offsetRow_word found 2 0x08 rfl rfl smaller
  rw [Reader.albumRow, shown, number, artist]
  rfl

end

section
variable {track : TrackInfo} {seen : Bytes} (front : buildTrackRow track <+: seen)
include front

theorem track_word (i off : Nat) {w n : Nat} (here : (trackFields track)[i]? = some (leBytes w n))
    (place : (((trackFields track).take i).map List.length).sum = off) (small : n < 256 ^ w) :
    readLE seen off w = n := by
  obtain ⟨rest, rfl⟩ := front
  rw [buildTrackRow]
  simp only [List.append_assoc]
  exact read_word _ _ i off here place small

theorem track_artist (small : track.artistId < 2 ^ 32) :
    Reader.trackArtist seen = track.artistId :=
  track_word front 19 0x44 rfl (by simp [trackFields]) small

theorem track_album (small : track.albumId < 2 ^ 32) :
    Reader.trackAlbum seen = track.albumId :=
  track_word front 18 0x40 rfl (by simp [trackFields]) small

theorem track_genre (small : track.genreId < 2 ^ 32) :
    Reader.trackGenre seen = track.genreId :=
  track_word front 17 0x3C rfl (by simp [trackFields]) small

theorem track_label (small : track.labelId < 2 ^ 32) :
    Reader.trackLabel seen = track.labelId :=
  track_word front 12 0x28 rfl (by simp [trackFields]) small

theorem track_key (small : track.keyId < 2 ^ 32) :
    Reader.trackKey seen = track.keyId :=
  track_word front 10 0x20 rfl (by simp [trackFields]) small

theorem track_id : Reader.trackId seen = track.analysis.id.toNat :=
  track_word front 20 0x48 rfl (by simp [trackFields]) track.analysis.id.toNat_lt

theorem track_artwork (small : track.artworkId < 2 ^ 32) :
    Reader.trackArtwork seen = track.artworkId :=
  track_word front 9 0x1C rfl (by simp [trackFields]) small

end

/-- A dictionary table: the ids are 1, 2, 3, … and no two rows have the same key. -/
def IsDictionary {V : Type} (table : List (Nat × V)) : Prop :=
  table.map Prod.fst = List.range' 1 table.length ∧ (table.map Prod.snd).Nodup

/-- An id is 0 where there is no value, and otherwise that of exactly one row, which has the
value. -/
def Resolves {V : Type} (table : List (Nat × V)) (id : Nat) (value : Option V) : Prop :=
  match value with
  | some v => id ≠ 0 ∧ table.filter (fun e => e.1 = id) = [(id, v)]
  | none => id = 0

section
variable {K V : Type} (d : Dictionary K) (value : K → V)

/-- The table of a dictionary as a reader decodes it. -/
def tableOf : List (Nat × V) := d.entries.map (fun e => (e.2, value e.1))

theorem isDictionary_tableOf
    (injective : ∀ e ∈ d.entries, ∀ f ∈ d.entries, value e.1 = value f.1 → e.1 = f.1) :
    IsDictionary (tableOf d value) := by
  constructor
  · rw [tableOf, List.map_map, List.length_map]
    exact d.numbered
  · rw [tableOf, List.map_map]
    refine List.Nodup.map_on ?_ (List.Nodup.of_map _ d.distinct)
    intro e he f hf same
    exact d.id_of_key he hf (injective e he f hf same)

variable {d value}

theorem resolves_tableOf {key : Option K} {id : Nat} (names : Names d.entries key id) :
    Resolves (tableOf d value) id (key.map value) := by
  cases key with
  | none => exact names
  | some k =>
    have positive := (Interner.id_bounds names).1
    refine ⟨by simp only at positive; omega, ?_⟩
    rw [tableOf, List.filter_map]
    have only := Interner.filter_id names
    simp only [Function.comp_def]
    rw [only]
    rfl

/-- A table that shows the keys themselves. -/
theorem isDictionary_keys (d : Dictionary K) : IsDictionary (tableOf d (fun k => k)) :=
  isDictionary_tableOf d (fun k => k) (fun _ _ _ _ same => same)

theorem resolves_keys {key : Option K} {id : Nat} (names : Names d.entries key id) :
    Resolves (tableOf d (fun k => k)) id key := by
  have resolves : Resolves (tableOf d (fun k => k)) id (key.map (fun k => k)) :=
    resolves_tableOf names
  rwa [Option.map_id'] at resolves

theorem names_small {key : Option K} {id : Nat} (names : Names d.entries key id) :
    id < 2 ^ 32 := by
  cases key with
  | none =>
    have zero : id = 0 := names
    omega
  | some k => exact (Interner.id_bounds names).2

end

theorem mapM_of_found {α β : Type} {xs : List α} {row : α → Bytes} {seen : List Bytes}
    {parse : Bytes → Option β} {value : α → β} (found : List.Forall₂ Found (xs.map row) seen)
    (each : ∀ x ∈ xs, ∀ s, Found (row x) s → parse s = some (value x)) :
    seen.mapM parse = some (xs.map value) := by
  induction xs generalizing seen with
  | nil =>
    cases found
    rfl
  | cons x xs ih =>
    rw [List.map_cons] at found
    cases found with
    | cons first rest =>
      rw [List.mapM_cons, each x List.mem_cons_self _ first,
        ih rest (fun y mem => each y (List.mem_cons_of_mem x mem))]
      rfl

/-- The dictionary tables number their rows, and albums name existing artists. -/
structure Dictionaries.Consistent (ds : Dictionaries) : Prop where
  artists : IsDictionary ds.artists
  albums : IsDictionary ds.albums
  genres : IsDictionary ds.genres
  labels : IsDictionary ds.labels
  keys : IsDictionary ds.keys
  artworks : IsDictionary ds.artworks
  albumArtist : ∀ album ∈ ds.albums, album.2.2 = 0 ∨ album.2.2 ∈ ds.artists.map Prod.fst

/-- A track row is that of a track, and its ids stand for the track's own values. An album is
known by its name and the artist id of the track. -/
structure TrackResolves (ds : Dictionaries) (entry : TrackAnalysis × String × Option String)
    (row : Bytes) : Prop where
  id : Reader.trackId row = entry.1.id.toNat
  artist : Resolves ds.artists (Reader.trackArtist row) (nonEmpty entry.1.artist)
  album : Resolves ds.albums (Reader.trackAlbum row)
    (entry.1.album.bind (fun name => (nonEmpty name).map (·, Reader.trackArtist row)))
  genre : Resolves ds.genres (Reader.trackGenre row) (entry.1.genre.bind nonEmpty)
  label : Resolves ds.labels (Reader.trackLabel row) (entry.1.label.bind nonEmpty)
  key : Resolves ds.keys (Reader.trackKey row) (entry.1.key.bind Key.name)
  artwork : Resolves ds.artworks (Reader.trackArtwork row) (entry.2.2.bind nonEmpty)

/-- The name a key row gets for a rekordbox id. -/
def keyName (rekordboxId : Nat) : String := (Key.fromRekordboxId rekordboxId).name.getD ""

/-- The dictionaries of a builder as a reader of its file decodes them. -/
def dictionariesOf (b : PdbBuilder) : Dictionaries where
  artists := tableOf b.artists (fun name => name)
  albums := tableOf b.albums (fun key => key)
  genres := tableOf b.genres (fun name => name)
  labels := tableOf b.labels (fun name => name)
  keys := tableOf b.keys keyName
  artworks := tableOf b.artworks (fun path => path)

theorem keyName_eq {k : Key} {rekordboxId : Nat} (known : k.toRekordboxId = some rekordboxId) :
    some (keyName rekordboxId) = k.name := by
  obtain ⟨name, named⟩ := Key.name_of_toRekordboxId known
  rw [keyName, Key.fromRekordboxId_toRekordboxId known, named]
  rfl

section
variable {b : PdbBuilder} {calls : List PdbBuilder.Call} {file : Bytes}
  (faithful : PdbBuilder.Faithful b calls)
  (holds : ∀ (i : Nat) (pageType : PageType), PageType.allTypes[i]? = some pageType →
    HoldsTable file i (b.rows pageType))
include faithful

theorem album_artist_small {name : String} {artistId id : Nat}
    (mem : ((name, artistId), id) ∈ b.albums.entries) : artistId < 2 ^ 32 := by
  rcases faithful.albumArtist _ mem with none_ | ⟨_, artist⟩
  · have zero : artistId = 0 := none_
    omega
  · exact (Interner.id_bounds artist).2

theorem dictionaries_consistent : (dictionariesOf b).Consistent where
  artists := isDictionary_keys b.artists
  albums := isDictionary_keys b.albums
  genres := isDictionary_keys b.genres
  labels := isDictionary_keys b.labels
  keys := by
    refine isDictionary_tableOf b.keys keyName ?_
    intro e he f hf same
    obtain ⟨k, known⟩ := faithful.keys e he
    obtain ⟨l, known'⟩ := faithful.keys f hf
    refine Key.name_injective known known' ?_
    rw [← keyName_eq known, ← keyName_eq known', same]
  artworks := isDictionary_keys b.artworks
  albumArtist := by
    intro album mem
    obtain ⟨e, he, rfl⟩ := List.mem_map.mp mem
    rcases faithful.albumArtist e he with none_ | ⟨name, artist⟩
    · exact Or.inl none_
    · refine Or.inr (List.mem_map.mpr ⟨(e.1.2, name), ?_, rfl⟩)
      exact List.mem_map.mpr ⟨_, artist, rfl⟩

include holds

/-- All six tables are decoded, row for row. -/
theorem dictionaries_read : Reader.dictionaries file = some (dictionariesOf b) := by
  have genres : (Reader.tableRows file 1).mapM Reader.namedRow =
      some (tableOf b.genres (fun name => name)) :=
    mapM_of_found (holds 1 .genres rfl).found
      (fun _ mem _ found => namedRow_found (Interner.id_bounds mem).2 found)
  have artists : (Reader.tableRows file 2).mapM Reader.artistRow =
      some (tableOf b.artists (fun name => name)) :=
    mapM_of_found (holds 2 .artists rfl).found
      (fun _ mem _ found => artistRow_found (Interner.id_bounds mem).2 found)
  have albums : (Reader.tableRows file 3).mapM Reader.albumRow =
      some (tableOf b.albums (fun key => key)) :=
    mapM_of_found (holds 3 .albums rfl).found
      (fun _ mem _ found => albumRow_found (Interner.id_bounds mem).2
        (album_artist_small faithful mem) found)
  have labels : (Reader.tableRows file 4).mapM Reader.namedRow =
      some (tableOf b.labels (fun name => name)) :=
    mapM_of_found (holds 4 .labels rfl).found
      (fun _ mem _ found => namedRow_found (Interner.id_bounds mem).2 found)
  have keys : (Reader.tableRows file 5).mapM Reader.keyRow = some (tableOf b.keys keyName) :=
    mapM_of_found (holds 5 .keys rfl).found
      (fun _ mem _ found => keyRow_found (Interner.id_bounds mem).2 found)
  have artworks : (Reader.tableRows file 13).mapM Reader.namedRow =
      some (tableOf b.artworks (fun path => path)) :=
    mapM_of_found (holds 13 .artwork rfl).found
      (fun _ mem _ found => namedRow_found (Interner.id_bounds mem).2 found)
  rw [Reader.dictionaries, genres, artists, albums, labels, keys, artworks]
  rfl

/-- Every track row resolves. -/
theorem tracks_resolve : List.Forall₂ (TrackResolves (dictionariesOf b))
    (calls.filterMap PdbBuilder.Call.track?) (Reader.tableRows file 0) := by
  have rows := (holds 0 .tracks rfl).found
  rw [PdbBuilder.rows, List.forall₂_map_left_iff] at rows
  refine Pointwise.chain faithful.tracks rows ?_
  intro entry track seen refers found
  have front := found.1
  have artist := track_artist front (names_small refers.artist)
  refine ⟨?_, ?_, ?_, ?_, ?_, ?_, ?_⟩
  · rw [track_id front, refers.same]
  · rw [artist]
    exact resolves_keys refers.artist
  · rw [track_album front (names_small refers.album), artist]
    exact resolves_keys refers.album
  · rw [track_genre front (names_small refers.genre)]
    exact resolves_keys refers.genre
  · rw [track_label front (names_small refers.label)]
    exact resolves_keys refers.label
  · have name : (entry.1.key.bind Key.toRekordboxId).map keyName = entry.1.key.bind Key.name := by
      cases known : entry.1.key with
      | none => rfl
      | some k =>
        obtain ⟨rekordboxId, number⟩ := refers.pitch k known
        simp only [Option.bind_some, number, Option.map_some]
        exact keyName_eq number
    rw [track_key front (names_small refers.key), ← name]
    exact resolves_tableOf refers.key
  · rw [track_artwork front (names_small refers.artwork)]
    exact resolves_keys refers.artwork

end

/-- Whatever was added, the dictionary tables of a built file are consistent, and each track row
refers to exactly the rows of its own values. -/
theorem build_dictionaries {calls : List PdbBuilder.Call} {file : Bytes}
    (built : PdbBuilder.buildAfter calls = .ok file) :
    ∃ ds, Reader.dictionaries file = some ds ∧ ds.Consistent ∧
      List.Forall₂ (TrackResolves ds) (calls.filterMap PdbBuilder.Call.track?)
        (Reader.tableRows file 0) := by
  obtain ⟨b, ran, built⟩ := of_bind built
  obtain ⟨plan, header, realizes⟩ := PdbBuilder.build_realizes built
  have faithful := PdbBuilder.run_faithful ran
  have holds : ∀ (i : Nat) (pageType : PageType), PageType.allTypes[i]? = some pageType →
      HoldsTable file i (b.rows pageType) := fun _ _ => realizes.holdsTable
  exact ⟨dictionariesOf b, dictionaries_read faithful holds, dictionaries_consistent faithful,
    tracks_resolve faithful holds⟩

theorem smallHistory_dictionaries : ∃ file ds,
    PdbBuilder.buildAfter PdbBuilder.smallHistory = .ok file ∧
      Reader.dictionaries file = some ds ∧ ds.Consistent ∧
      List.Forall₂ (TrackResolves ds) (PdbBuilder.smallHistory.filterMap PdbBuilder.Call.track?)
        (Reader.tableRows file 0) := by
  obtain ⟨file, built⟩ := PdbBuilder.smallHistory_returns
  obtain ⟨ds, read, consistent, resolve⟩ := build_dictionaries built
  exact ⟨file, ds, built, read, consistent, resolve⟩

end BVault.Core
