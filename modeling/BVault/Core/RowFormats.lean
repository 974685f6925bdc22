import BVault.Core.PdbPlaylists

/-!
# Row formats

The rows of the dictionary and playlist tables, each read by its own layout:
what is read is what the row was built from, in the near and in the far variant
and whatever stands behind the row on its page. So no two rows of a table are
encoded alike.
-/

namespace BVault.Core

open Bytes

namespace Reader

/-- Parent, position, id, folder flag and name of a playlist or folder. -/
def playlistNode (row : Bytes) : Option (Nat × Nat × Nat × Bool × String) :=
  (playlistTreeRow row).map (fun (id, name, sortOrder) =>
    (readLE row 0 4, sortOrder, id, readLE row 16 4 != 0, name))

end Reader

/-- Rows that fit a page are read back, on a page as well as alone, and say which value they
were built from. -/
structure ReadsBack {V W : Type} (build : V → Bytes) (read : Bytes → Option W) (value : V → W) :
    Prop where
  reads : ∀ v seen, Found (build v) seen → read seen = some (value v)
  distinct : ∀ v w, (build v).length ≤ PAGE_SIZE → (build w).length ≤ PAGE_SIZE →
    value v ≠ value w → build v ≠ build w

theorem found_self {row : Bytes} (fits : row.length ≤ PAGE_SIZE) : Found row row :=
  ⟨List.prefix_refl row, fits⟩

theorem readsBack {V W : Type} {build : V → Bytes} {read : Bytes → Option W} {value : V → W}
    (reads : ∀ v seen, Found (build v) seen → read seen = some (value v)) :
    ReadsBack build read value where
  reads := reads
  distinct := by
    intro v w fits fits' differ same
    have first := reads v _ (found_self fits)
    have second := reads w _ (found_self fits')
    rw [same, second] at first
    exact differ (Option.some.inj first).symm

section
variable {near far start : Nat} {words : List Bytes} {name : String} {seen : Bytes}

/-- Rows are near up to an encoded name of 200 bytes, and far beyond. -/
theorem isFar_offsetRow (nearSubtype : near < 2 ^ 16 ∧ near.testBit 2 = false)
    (farSubtype : far < 2 ^ 16 ∧ far.testBit 2 = true)
    (front : offsetRow near far words start name <+: seen) :
    Reader.isFar seen = true ↔ 200 < (encodeString name).length := by
  obtain ⟨rest, rfl⟩ := front
  rw [Reader.isFar, offsetRow]
  split
  · rename_i short
    rw [read_word _ rest 0 0 rfl rfl nearSubtype.1, nearSubtype.2]
    simp [short]
  · rename_i long
    rw [read_word _ rest 0 0 rfl rfl farSubtype.1, farSubtype.2]
    simp [Nat.lt_of_not_le long]

end

theorem isFar_artistRow (id : Nat) (name : String) :
    Reader.isFar (buildArtistRow id name) = true ↔ 200 < (encodeString name).length := by
  rw [buildArtistRow_eq]
  exact isFar_offsetRow (by decide) (by decide) (List.prefix_refl _)

theorem isFar_albumRow (id artistId : Nat) (name : String) :
    Reader.isFar (buildAlbumRow id artistId name) = true ↔ 200 < (encodeString name).length := by
  rw [buildAlbumRow_eq]
  exact isFar_offsetRow (by decide) (by decide) (List.prefix_refl _)

theorem playlistNode_found {p : PlaylistInfo} {seen : Bytes} (small : p.sortOrder < 2 ^ 32)
    (found : Found (buildPlaylistTreeRow p) seen) :
    Reader.playlistNode seen =
      some (p.parentId.toNat, p.sortOrder, p.id.toNat, p.isFolder, p.name) := by
  have shown := playlistTreeRow_found small found
  obtain ⟨⟨rest, rfl⟩, _⟩ := found
  have parts : buildPlaylistTreeRow p =
      [leBytes 4 p.parentId.toNat, leBytes 4 0, leBytes 4 p.sortOrder, leBytes 4 p.id.toNat,
        leBytes 4 (if p.isFolder then 1 else 0), encodeString p.name].flatten := by
    simp [buildPlaylistTreeRow]
  have parent : readLE (buildPlaylistTreeRow p ++ rest) 0 4 = p.parentId.toNat := by
    rw [parts]
    exact read_word _ rest 0 0 rfl rfl p.parentId.toNat_lt
  have folder : readLE (buildPlaylistTreeRow p ++ rest) 16 4 = if p.isFolder then 1 else 0 := by
    rw [parts]
    refine read_word _ rest 4 16 rfl rfl ?_
    split <;> decide
  rw [Reader.playlistNode, shown, Option.map_some, parent, folder]
  cases p.isFolder <;> rfl

/-- A playlist whose position is a `u32`. -/
abbrev PlacedPlaylist := {p : PlaylistInfo // p.sortOrder < 2 ^ 32}

/-- The row formats of the dictionary and playlist tables, over the values of the source's
types. -/
structure RowsReadBack : Prop where
  artist : ReadsBack (fun v : UInt32 × String => buildArtistRow v.1.toNat v.2) Reader.artistRow
    (fun v => (v.1.toNat, v.2))
  artistFar : ∀ (id : UInt32) (name : String),
    Reader.isFar (buildArtistRow id.toNat name) = true ↔ 200 < (encodeString name).length
  album : ReadsBack
    (fun v : UInt32 × UInt32 × String => buildAlbumRow v.1.toNat v.2.1.toNat v.2.2)
    Reader.albumRow (fun v => (v.1.toNat, v.2.2, v.2.1.toNat))
  albumFar : ∀ (id artistId : UInt32) (name : String),
    Reader.isFar (buildAlbumRow id.toNat artistId.toNat name) = true ↔
      200 < (encodeString name).length
  genre : ReadsBack (fun v : UInt32 × String => buildGenreRow v.1.toNat v.2) Reader.namedRow
    (fun v => (v.1.toNat, v.2))
  label : ReadsBack (fun v : UInt32 × String => buildLabelRow v.1.toNat v.2) Reader.namedRow
    (fun v => (v.1.toNat, v.2))
  artwork : ReadsBack (fun v : UInt32 × String => buildArtworkRow v.1.toNat v.2) Reader.namedRow
    (fun v => (v.1.toNat, v.2))
  key : ReadsBack (fun v : UInt32 × String => buildKeyRow v.1.toNat v.2) Reader.keyRow
    (fun v => (v.1.toNat, v.2))
  playlistTree : ReadsBack (fun p : PlacedPlaylist => buildPlaylistTreeRow p.1)
    Reader.playlistNode
    (fun p => (p.1.parentId.toNat, p.1.sortOrder, p.1.id.toNat, p.1.isFolder, p.1.name))
  playlistEntry : ReadsBack
    (fun v : UInt32 × UInt32 × UInt32 =>
      buildPlaylistEntryRow v.1.toNat v.2.1.toNat v.2.2.toNat)
    (fun row => some (Reader.playlistEntryRow row))
    (fun v => (v.1.toNat, v.2.1.toNat, v.2.2.toNat))

theorem named_readsBack :
    ReadsBack (fun v : UInt32 × String => buildNamedRow v.1.toNat v.2) Reader.namedRow
      (fun v => (v.1.toNat, v.2)) :=
  readsBack (fun v _ found => namedRow_found v.1.toNat_lt found)

/-- For all names and ids: a row that fits a page gives back what it was built from. -/
theorem rows_readBack : RowsReadBack where
  artist := readsBack (fun v _ found => artistRow_found v.1.toNat_lt found)
  artistFar := fun id name => isFar_artistRow id.toNat name
  album := readsBack (fun v _ found => albumRow_found v.1.toNat_lt v.2.1.toNat_lt found)
  albumFar := fun id artistId name => isFar_albumRow id.toNat artistId.toNat name
  genre := named_readsBack
  label := named_readsBack
  artwork := named_readsBack
  key := readsBack (fun v _ found => keyRow_found v.1.toNat_lt found)
  playlistTree := readsBack (fun p _ found => playlistNode_found p.2 found)
  playlistEntry := readsBack (fun v _ found => congrArg some
    (playlistEntryRow_found v.1.toNat_lt v.2.1.toNat_lt v.2.2.toNat_lt found))

/-- A name of 2 × 99 + 4 bytes is far. -/
example : Reader.artistRow (buildArtistRow 7 (String.ofList (List.replicate 99 'é'))) =
    some (7, String.ofList (List.replicate 99 'é')) := by
  decide +kernel

end BVault.Core
