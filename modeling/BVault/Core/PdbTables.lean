import BVault.Core.PdbPages

/-!
# Tables

The rows each of the 20 tables is to hold, and what the two passes of `build`
make of a table: the sequence numbers of its data pages, its index page and the
page its chain ends in.
-/

namespace BVault.Core

open Bytes Loops

namespace PdbBuilder

/-- The rows of a table: tracks and playlists as they were added, dictionaries by ascending id,
playlist entries playlist by playlist. -/
def rows (b : PdbBuilder) : PageType → List Bytes
  | .tracks => b.tracks.map buildTrackRow
  | .genres => b.genres.entries.map (fun (name, id) => buildGenreRow id name)
  | .artists => b.artists.entries.map (fun (name, id) => buildArtistRow id name)
  | .albums => b.albums.entries.map
      (fun ((name, artistId), id) => buildAlbumRow id artistId name)
  | .labels => b.labels.entries.map (fun (name, id) => buildLabelRow id name)
  | .keys => b.keys.entries.map
      (fun (rekordboxId, id) => buildKeyRow id ((Key.fromRekordboxId rekordboxId).name.getD ""))
  | .colors => colors.map (fun (id, name) => buildColorRow id name)
  | .playlistTree => b.playlists.map buildPlaylistTreeRow
  | .playlistEntries => b.playlistEntries.map
      (fun (idx, trackId, playlistId) =>
        buildPlaylistEntryRow (idx + 1) trackId.toNat playlistId.toNat)
  | .artwork => b.artworks.entries.map (fun (path, id) => buildArtworkRow id path)
  | .columns => columnsData
  | .unknown17 => unknown17Dataset.map wordsRow
  | .unknown18 => unknown18Data.map wordsRow
  | .history => [historyRow]
  | _ => []

theorem length_trackFields (track : TrackInfo) :
    (trackFields track).flatten.length = FIXED_SIZE := by
  simp [trackFields, FIXED_SIZE]

theorem four_le_buildArtistRow (id : Nat) (name : String) :
    4 ≤ (buildArtistRow id name).length := by
  simp only [buildArtistRow]
  split <;> simp <;> omega

theorem four_le_buildAlbumRow (id artistId : Nat) (name : String) :
    4 ≤ (buildAlbumRow id artistId name).length := by
  simp only [buildAlbumRow]
  split <;> simp <;> omega

/-- A table's rows all begin with a word of four bytes at least. -/
theorem four_le_row (b : PdbBuilder) (pageType : PageType) {row : Bytes}
    (mem : row ∈ b.rows pageType) : 4 ≤ row.length := by
  cases pageType with
  | tracks =>
    obtain ⟨track, _, rfl⟩ := List.mem_map.mp mem
    have fields := length_trackFields track
    rw [buildTrackRow, List.length_append, List.length_append, fields, FIXED_SIZE]
    omega
  | genres =>
    obtain ⟨_, _, rfl⟩ := List.mem_map.mp mem
    simp [buildGenreRow, buildNamedRow]
  | artists =>
    obtain ⟨⟨name, id⟩, _, rfl⟩ := List.mem_map.mp mem
    exact four_le_buildArtistRow id name
  | albums =>
    obtain ⟨⟨⟨name, artistId⟩, id⟩, _, rfl⟩ := List.mem_map.mp mem
    exact four_le_buildAlbumRow id artistId name
  | labels =>
    obtain ⟨_, _, rfl⟩ := List.mem_map.mp mem
    simp [buildLabelRow, buildNamedRow]
  | keys =>
    obtain ⟨_, _, rfl⟩ := List.mem_map.mp mem
    simp [buildKeyRow]
  | colors =>
    obtain ⟨_, _, rfl⟩ := List.mem_map.mp mem
    simp [buildColorRow]
  | playlistTree =>
    obtain ⟨_, _, rfl⟩ := List.mem_map.mp mem
    simp [buildPlaylistTreeRow]
  | playlistEntries =>
    obtain ⟨_, _, rfl⟩ := List.mem_map.mp mem
    simp [buildPlaylistEntryRow]
  | artwork =>
    obtain ⟨_, _, rfl⟩ := List.mem_map.mp mem
    simp [buildArtworkRow, buildNamedRow]
  | columns =>
    have all : ∀ row ∈ columnsData, 4 ≤ row.length := by decide
    exact all row mem
  | unknown17 =>
    obtain ⟨_, _, rfl⟩ := List.mem_map.mp mem
    simp [wordsRow]
  | unknown18 =>
    obtain ⟨_, _, rfl⟩ := List.mem_map.mp mem
    simp [wordsRow]
  | history =>
    rw [List.mem_singleton.mp mem]
    decide
  | _ => cases mem

/-- Sorting a dictionary by id changes nothing. -/
theorem sortById_entries {K : Type} (d : Dictionary K) :
    Interner.sortById d.entries = d.entries :=
  d.sortById_of_perm (List.Perm.refl _)

theorem keyRow_returns (entry : Nat × Nat) :
    keyRow entry = .ok (buildKeyRow entry.2 ((Key.fromRekordboxId entry.1).name.getD "")) := by
  obtain ⟨name, named⟩ := Key.name_fromRekordboxId entry.1
  rw [keyRow, named]
  rfl

theorem entryRow_returns {entry : Nat × UInt32 × UInt32} (few : entry.1 + 1 < 2 ^ 32) :
    entryRow entry =
      .ok (buildPlaylistEntryRow (entry.1 + 1) entry.2.1.toNat entry.2.2.toNat) := by
  rw [entryRow, Nat.mod_eq_of_lt (by omega)]
  exact bind_ok (addU32_ok few) rfl

/-- The positions in the playlists fit their entries. -/
def Positioned (b : PdbBuilder) : Prop := ∀ entry ∈ b.playlistEntries, entry.1 + 1 < 2 ^ 32

/-- All positions before an entry are entries of its playlist. -/
theorem playlistEntries_before {b : PdbBuilder} {entry : Nat × UInt32 × UInt32}
    (mem : entry ∈ b.playlistEntries) {idx : Nat} (before : idx ≤ entry.1) :
    ∃ trackId, (idx, trackId, entry.2.2) ∈ b.playlistEntries := by
  obtain ⟨p, playlist, inside⟩ := List.mem_flatMap.mp mem
  obtain ⟨⟨trackId, last⟩, listed, rfl⟩ := List.mem_map.mp inside
  have bound := (List.mem_zipIdx' listed).1
  have here : idx < p.trackIds.length := lt_of_le_of_lt before bound
  refine ⟨p.trackIds[idx], List.mem_flatMap.mpr ⟨p, playlist, ?_⟩⟩
  exact List.mem_map.mpr ⟨(p.trackIds[idx], idx),
    List.mk_mem_zipIdx_iff_getElem?.mpr (List.getElem?_eq_getElem here), rfl⟩

/-- A playlist too long for its positions makes one of its entries fail. -/
theorem positioned_of_built {b : PdbBuilder} {first : Nat} {result : List Bytes × Bool × Nat}
    (built : b.buildDataPages .playlistEntries first = .ok result) : b.Positioned := by
  intro entry mem
  by_contra far
  obtain ⟨trackId, there⟩ := playlistEntries_before mem (by omega : 2 ^ 32 - 1 ≤ entry.1)
  rw [buildDataPages, buildPlaylistEntryDataPages] at built
  obtain ⟨rows, made, _⟩ := of_bind built
  obtain ⟨row, returned⟩ := mapM_each made there
  obtain ⟨position, added, _⟩ := of_bind returned
  have fits := (addU32_spec added).2
  simp at fits

/-- The tables with a content of their own, whatever was added. -/
def fixedContent : PageType → Bool
  | .colors => true
  | .columns => true
  | .unknown17 => true
  | .unknown18 => true
  | .history => true
  | _ => false

/-- Every table's loop is that over its rows, without a turn of the page for fixed contents. -/
theorem buildDataPages_eq {b : PdbBuilder} (pageType : PageType)
    (positioned : pageType = .playlistEntries → b.Positioned) (first : Nat) :
    b.buildDataPages pageType first =
      if fixedContent pageType then buildFixedPage pageType (b.rows pageType) first
      else buildRowPages pageType (b.rows pageType) first := by
  cases pageType with
  | genres => rw [buildDataPages, buildGenreDataPages, sortById_entries]; rfl
  | artists => rw [buildDataPages, buildArtistDataPages, sortById_entries]; rfl
  | albums => rw [buildDataPages, buildAlbumDataPages, sortById_entries]; rfl
  | labels => rw [buildDataPages, buildLabelDataPages, sortById_entries]; rfl
  | keys =>
    rw [buildDataPages, buildKeyDataPages, sortById_entries,
      mapM_returns (fun entry _ => keyRow_returns entry)]
    rfl
  | playlistEntries =>
    rw [buildDataPages, buildPlaylistEntryDataPages,
      mapM_returns (fun entry mem => entryRow_returns (positioned rfl entry mem))]
    rfl
  | artwork => rw [buildDataPages, buildArtworkDataPages, sortById_entries]; rfl
  | _ => rfl

theorem rows_fixed (b : PdbBuilder) {pageType : PageType} (fixed : fixedContent pageType = true) :
    b.rows pageType ≠ [] := by
  cases pageType with
  | colors => simp [rows, colors]
  | columns => exact List.cons_ne_nil _ _
  | unknown17 => exact List.cons_ne_nil _ _
  | unknown18 => exact List.cons_ne_nil _ _
  | history => exact List.cons_ne_nil _ _
  | _ => cases fixed

/-- The data pages of a table hold its rows. -/
theorem buildDataPages_spec {b : PdbBuilder} {pageType : PageType} {first nextIdx : Nat}
    {pages : List Bytes} {hasData : Bool}
    (built : b.buildDataPages pageType first = .ok (pages, hasData, nextIdx)) :
    ∃ chunks, chunks.flatten = b.rows pageType ∧
      Built pageType first chunks pages hasData nextIdx := by
  have long : ∀ row ∈ b.rows pageType, 4 ≤ row.length := fun row => b.four_le_row pageType
  have positioned : pageType = .playlistEntries → b.Positioned := by
    rintro rfl
    exact positioned_of_built built
  rw [buildDataPages_eq pageType positioned] at built
  split at built
  · rename_i fixed
    exact ⟨[b.rows pageType], List.flatten_singleton,
      buildFixedPage_spec long (b.rows_fixed fixed) built⟩
  · exact buildRowPages_spec long built

theorem patchSequence_spec {pages pages' : List Bytes} {sequence sequence' : Nat}
    (flags : ∀ page ∈ pages, page.getD 0x1B 0 ≠ 0)
    (patched : patchSequence pages sequence = .ok (pages', sequence')) :
    sequence' = sequence + pages.length ∧ (pages ≠ [] → sequence' < 2 ^ 32) ∧
      pages' = pages.mapIdx (fun i page => patch page 0x10 (leBytes 4 (sequence + i))) := by
  induction pages generalizing pages' sequence with
  | nil =>
    cases patched
    exact ⟨rfl, fun nonempty => absurd rfl nonempty, rfl⟩
  | cons page pages ih =>
    rw [patchSequence, if_pos (flags page List.mem_cons_self)] at patched
    obtain ⟨next, added, patched⟩ := of_bind patched
    obtain ⟨rfl, fits⟩ := addU32_spec added
    obtain ⟨⟨rest, last⟩, tail, patched⟩ := of_bind patched
    cases patched
    obtain ⟨count, small, same⟩ := ih (fun q mem => flags q (List.mem_cons_of_mem page mem)) tail
    refine ⟨?_, ?_, ?_⟩
    · rw [count, List.length_cons]
      omega
    · intro _
      cases pages with
      | nil => rwa [count]
      | cons q pages => exact small (List.cons_ne_nil q pages)
    · have shift : ∀ i, sequence + 1 + i = sequence + (i + 1) := by
        intro i
        omega
      rw [same, List.mapIdx_cons]
      simp only [shift, Nat.add_zero]

theorem patchSequence_zeroPage (sequence : Nat) :
    patchSequence [zeroPage] sequence = .ok ([zeroPage], sequence) := by
  rw [patchSequence, if_neg (not_not_intro zeroPage_flags)]
  rfl

end PdbBuilder

/-- An index page as a reader of the page chain sees it. -/
structure IndexPage (page : Bytes) (index : Nat) : Prop where
  size : page.length = PAGE_SIZE
  own : readLE page 0x04 4 = index
  next : readLE page 0x0C 4 = index + 1
  flags : page.getD 0x1B 0 = PAGE_FLAGS_INDEX
  uncounted : readLE page 0x18 3 = 0

theorem mem_fillWords {start stop word : Nat} {q : Nat × Bytes}
    (mem : q ∈ fillWords start stop word) (order : start ≤ stop) :
    start ≤ q.1 ∧ q.1 + q.2.length ≤ stop + 3 := by
  obtain ⟨i, inside, rfl⟩ := List.mem_map.mp mem
  rw [List.mem_range] at inside
  simp only [length_leBytes]
  omega

namespace IndexPageBuilder

variable (p : IndexPageBuilder) (dataPageIndex numRowOffsets : Nat) (hasData : Bool)

/-- The fields before the index entries. -/
def fields : List (Nat × Bytes) := (p.writes dataPageIndex hasData numRowOffsets).take 13

def entries : List (Nat × Bytes) := (p.writes dataPageIndex hasData numRowOffsets).drop 13

theorem entries_behind {q : Nat × Bytes}
    (mem : q ∈ p.entries dataPageIndex numRowOffsets hasData) :
    0x3C ≤ q.1 ∧ q.1 + q.2.length ≤ PAGE_SIZE := by
  have filled : ∀ start, 0x3C ≤ start → start ≤ PAGE_SIZE - 20 →
      q ∈ fillWords start (PAGE_SIZE - 20) 0x1FFFFFF8 →
      0x3C ≤ q.1 ∧ q.1 + q.2.length ≤ PAGE_SIZE := by
    intro start low high mem
    obtain ⟨above, below⟩ := mem_fillWords mem high
    rw [PAGE_SIZE] at below ⊢
    omega
  obtain ⟨count, parts⟩ : ∃ count, p.entries dataPageIndex numRowOffsets hasData =
      if p.pageType.indexed then
        (0x3C, leBytes 4 count) :: fillWords 0x40 (PAGE_SIZE - 20) 0x1FFFFFF8
      else fillWords 0x3C (PAGE_SIZE - 20) 0x1FFFFFF8 := ⟨_, rfl⟩
  rw [parts] at mem
  split at mem
  · rcases List.mem_cons.mp mem with rfl | mem
    · simp [PAGE_SIZE]
    · exact filled 0x40 (by decide) (by decide) mem
  · exact filled 0x3C (by decide) (by decide) mem

theorem writes_split : p.writes dataPageIndex hasData numRowOffsets =
    p.fields dataPageIndex numRowOffsets hasData ++
      p.entries dataPageIndex numRowOffsets hasData :=
  (List.take_append_drop 13 _).symm

theorem fields_before {q : Nat × Bytes}
    (mem : q ∈ p.fields dataPageIndex numRowOffsets hasData) : q.1 + q.2.length ≤ 0x3C := by
  have all : ∀ q ∈ p.fields dataPageIndex numRowOffsets hasData, q.1 + q.2.length ≤ 0x3C := by
    simp [fields, writes]
  exact all q mem

theorem within_page : Within zeroPage.length (p.fields dataPageIndex numRowOffsets hasData ++
    p.entries dataPageIndex numRowOffsets hasData) := by
  intro q mem
  rw [length_zeroPage]
  rcases List.mem_append.mp mem with field | entry
  · have := p.fields_before dataPageIndex numRowOffsets hasData field
    rw [PAGE_SIZE]
    omega
  · exact (p.entries_behind dataPageIndex numRowOffsets hasData entry).2

theorem read_field (off : Nat) (bs : Bytes)
    (mem : (off, bs) ∈ p.fields dataPageIndex numRowOffsets hasData) :
    slice (p.finalize dataPageIndex hasData numRowOffsets) off bs.length = bs ∧
      (p.finalize dataPageIndex hasData numRowOffsets).length = PAGE_SIZE := by
  have ascending : Ascending (p.fields dataPageIndex numRowOffsets hasData) := by
    simp [Ascending, fields, writes]
  have within := p.within_page dataPageIndex numRowOffsets hasData
  rw [finalize, writes_split]
  refine ⟨slice_patchAll_ascending within ascending mem ?_, ?_⟩
  · intro q entry
    have behind := (p.entries_behind dataPageIndex numRowOffsets hasData entry).1
    have before : off + bs.length ≤ 0x3C :=
      p.fields_before dataPageIndex numRowOffsets hasData mem
    exact Or.inl (by omega)
  · rw [length_patchAll within, length_zeroPage]

/-- No field is written to the bytes of the row counts. -/
theorem read_uncounted :
    readLE (p.finalize dataPageIndex hasData numRowOffsets) 0x18 3 = 0 := by
  have apart : ∀ q ∈ p.fields dataPageIndex numRowOffsets hasData,
      0x18 + 3 ≤ q.1 ∨ q.1 + q.2.length ≤ 0x18 := by
    simp [fields, writes]
  rw [readLE, finalize, writes_split, slice_patchAll_of_disjoint
    (p.within_page dataPageIndex numRowOffsets hasData)]
  · decide
  · intro q mem
    rcases List.mem_append.mp mem with field | entry
    · exact apart q field
    · have behind := (p.entries_behind dataPageIndex numRowOffsets hasData entry).1
      exact Or.inl (by omega)

theorem indexPage (small : p.pageIndex + 1 < 2 ^ 32) :
    IndexPage (p.finalize dataPageIndex hasData numRowOffsets) p.pageIndex := by
  obtain ⟨flags, size⟩ := p.read_field dataPageIndex numRowOffsets hasData 27 [PAGE_FLAGS_INDEX]
    (by simp [fields, writes])
  obtain ⟨own, _⟩ := p.read_field dataPageIndex numRowOffsets hasData 4 (leBytes 4 p.pageIndex)
    (by simp [fields, writes])
  obtain ⟨next, _⟩ := p.read_field dataPageIndex numRowOffsets hasData 12
    (leBytes 4 (p.pageIndex + 1)) (by simp [fields, writes])
  rw [length_leBytes] at own next
  exact ⟨size, readLE_of_slice own (by omega), readLE_of_slice next small, getD_of_slice flags,
    p.read_uncounted dataPageIndex numRowOffsets hasData⟩

end IndexPageBuilder

/-- Where `get` finds pages by their numbers, it finds a table: its index page, then its data
pages with the given chunks of rows, or a zero page if there is none. -/
structure TableAt (get : Nat → Option Bytes) (pageType : PageType) (first sequence last : Nat)
    (chunks : List (List Bytes)) : Prop where
  index : ∃ page, get first = some page ∧ IndexPage page first
  empty : chunks = [] → get (first + 1) = some zeroPage
  data : ∀ (j : Nat) (rows : List Bytes), chunks[j]? = some rows → ∃ page,
    get (first + 1 + j) = some page ∧
      DataPage page pageType (first + 1 + j)
        (if j + 1 < chunks.length then first + 1 + j + 1 else last) rows ∧
      readLE page 0x10 4 = sequence + j

/-- Only the pages from the first one on matter. -/
theorem TableAt.mono {get get' : Nat → Option Bytes} {pageType : PageType}
    {first sequence last : Nat} {chunks : List (List Bytes)}
    (table : TableAt get pageType first sequence last chunks)
    (same : ∀ k page, first ≤ k → get k = some page → get' k = some page) :
    TableAt get' pageType first sequence last chunks := by
  obtain ⟨page, there, index⟩ := table.index
  refine ⟨⟨page, same _ _ (le_refl _) there, index⟩, ?_, ?_⟩
  · intro none_
    exact same _ _ (by omega) (table.empty none_)
  · intro j rows here
    obtain ⟨page, there, data⟩ := table.data j rows here
    exact ⟨page, same _ _ (by omega) there, data⟩

/-- A table without rows has no data page: none is ever left empty. -/
theorem TableAt.flatten_eq_nil {get : Nat → Option Bytes} {pageType : PageType}
    {first sequence last : Nat} {chunks : List (List Bytes)}
    (table : TableAt get pageType first sequence last chunks) :
    chunks = [] ↔ chunks.flatten = [] := by
  constructor
  · rintro rfl
    rfl
  · intro none_
    by_contra some_
    have inside : 0 < chunks.length := List.length_pos_iff.mpr some_
    obtain ⟨_, _, data, _⟩ := table.data 0 _ (List.getElem?_eq_getElem inside)
    exact data.nonempty (List.flatten_eq_nil_iff.mp none_ _ (List.getElem_mem inside))

theorem getElem?_index {before : List Bytes} {index : Bytes} {pages : List Bytes} {first : Nat}
    (length : before.length = first) : (before ++ index :: pages)[first]? = some index := by
  rw [List.getElem?_append_right (by omega), length, Nat.sub_self, List.getElem?_cons_zero]

theorem getElem?_behind {before : List Bytes} {index : Bytes} {pages : List Bytes} {first : Nat}
    (length : before.length = first) (j : Nat) :
    (before ++ index :: pages)[first + 1 + j]? = pages[j]? := by
  rw [List.getElem?_append_right (by omega)]
  have behind : first + 1 + j - before.length = j + 1 := by omega
  rw [behind, List.getElem?_cons_succ]

theorem tableAt_of_empty {before : List Bytes} {index : Bytes} {pageType : PageType}
    {first sequence last : Nat} (length : before.length = first) (indexed : IndexPage index first) :
    TableAt (fun k => (before ++ [index, zeroPage])[k]?) pageType first sequence last [] where
  index := ⟨index, getElem?_index length, indexed⟩
  empty := fun _ => (getElem?_behind length 0).trans List.getElem?_cons_zero
  data := fun _ _ here => by cases here

theorem tableAt_of_data {before pages : List Bytes} {index : Bytes} {pageType : PageType}
    {first sequence last : Nat} {chunks : List (List Bytes)} (length : before.length = first)
    (indexed : IndexPage index first) (nonempty : chunks ≠ [])
    (data : ∀ (j : Nat) (rows : List Bytes), chunks[j]? = some rows → ∃ page,
      pages[j]? = some page ∧ DataPage page pageType (first + 1 + j)
        (if j + 1 < chunks.length then first + 1 + j + 1 else last) rows ∧
        readLE page 0x10 4 = sequence + j) :
    TableAt (fun k => (before ++ index :: pages)[k]?) pageType first sequence last chunks where
  index := ⟨index, getElem?_index length, indexed⟩
  empty := fun none_ => absurd none_ nonempty
  data := by
    intro j rows here
    obtain ⟨page, there, facts⟩ := data j rows here
    exact ⟨page, (getElem?_behind length j).trans there, facts⟩

namespace PdbBuilder

/-- What building a table returns. -/
structure TableLaid (pageType : PageType) (first sequence : Nat) (chunks : List (List Bytes))
    (result : TableBuildResult) (nextIdx : Nat) : Prop where
  indexPageIdx : result.indexPageIdx = first
  lastDataPage : result.lastDataPageIdx = first + chunks.length
  newSequence : result.newSequence = sequence + chunks.length
  sequenceSmall : result.newSequence < 2 ^ 32
  next : nextIdx = first + Plan.width chunks
  nextSmall : nextIdx < 2 ^ 32
  count : (result.indexPage :: result.dataPages).length = Plan.width chunks
  laid : ∀ before : List Bytes, before.length = first →
    TableAt (fun k => (before ++ result.indexPage :: result.dataPages)[k]?) pageType first sequence
      0xFFFFFFFF chunks

/-- The data pages with their sequence numbers. -/
theorem Chunked.sequenced {pageType : PageType} {first last sequence sequence' : Nat}
    {pages pages' : List Bytes} {chunks : List (List Bytes)}
    (chunked : Chunked pageType first last pages chunks) (nonempty : chunks ≠ [])
    (patched : patchSequence pages sequence = .ok (pages', sequence')) :
    sequence' = sequence + chunks.length ∧ sequence' < 2 ^ 32 ∧ pages'.length = chunks.length ∧
      ∀ (j : Nat) (rows : List Bytes), chunks[j]? = some rows → ∃ page, pages'[j]? = some page ∧
        DataPage page pageType (first + j) (if j + 1 < chunks.length then first + j + 1 else last)
          rows ∧ readLE page 0x10 4 = sequence + j := by
  have length := chunked.length
  have found : ∀ (j : Nat) (rows : List Bytes), chunks[j]? = some rows →
      ∃ page, pages[j]? = some page := by
    intro j rows here
    have inside := (List.getElem?_eq_some_iff.mp here).1
    exact ⟨_, List.getElem?_eq_getElem (by omega)⟩
  have flags : ∀ page ∈ pages, page.getD 0x1B 0 ≠ 0 := by
    intro page mem
    obtain ⟨j, inside, rfl⟩ := List.mem_iff_getElem.mp mem
    exact (chunked.page j _ chunks[j] (List.getElem?_eq_getElem inside)
      (List.getElem?_eq_getElem (by omega))).flag_ne_zero
  obtain ⟨count, small, same⟩ := patchSequence_spec flags patched
  have nonempty' : pages ≠ [] := by
    intro none_
    rw [none_] at length
    exact nonempty (List.eq_nil_of_length_eq_zero length.symm)
  refine ⟨by rw [count, length], small nonempty', by rw [same, List.length_mapIdx, length], ?_⟩
  intro j rows here
  obtain ⟨page, there⟩ := found j rows here
  have data := chunked.page j page rows there here
  have inside := (List.getElem?_eq_some_iff.mp here).1
  have bound := small nonempty'
  refine ⟨patch page 0x10 (leBytes 4 (sequence + j)), ?_, data.setSequence _,
    data.read_word (Or.inr rfl) (by omega)⟩
  rw [same, List.getElem?_mapIdx, there]
  rfl

/-- The parts a table is built from. -/
theorem buildTableWithSequence_parts {b : PdbBuilder} {pageType : PageType}
    {first sequence nextIdx : Nat} {result : TableBuildResult}
    (built : b.buildTableWithSequence pageType first sequence = .ok (result, nextIdx)) :
    ∃ pages hasData, b.buildDataPages pageType (first + 1) = .ok (pages, hasData, nextIdx) ∧
      patchSequence pages sequence = .ok (result.dataPages, result.newSequence) ∧
      IndexPage result.indexPage first ∧ result.indexPageIdx = first ∧
      result.lastDataPageIdx = if hasData ∧ result.dataPages ≠ [] then
        first + result.dataPages.length else first := by
  rw [buildTableWithSequence] at built
  obtain ⟨dataPageIdx, added, built⟩ := of_bind built
  obtain ⟨rfl, small⟩ := addU32_spec added
  obtain ⟨⟨pages, hasData, nextIdx'⟩, looped, built⟩ := of_bind built
  obtain ⟨⟨dataPages, sequence'⟩, patched, built⟩ := of_bind built
  obtain ⟨made, rfl⟩ := Prod.mk.inj (Except.ok.inj built)
  rw [← made]
  refine ⟨pages, hasData, looped, patched, ?_, rfl, ?_⟩
  · dsimp only
    exact (IndexPageBuilder.mk first pageType).indexPage _ _ _ small
  · dsimp only
    split
    · omega
    · rfl

theorem buildTableWithSequence_spec {b : PdbBuilder} {pageType : PageType}
    {first sequence nextIdx : Nat} {result : TableBuildResult}
    (built : b.buildTableWithSequence pageType first sequence = .ok (result, nextIdx))
    (small : sequence < 2 ^ 32) :
    ∃ chunks, chunks.flatten = b.rows pageType ∧
      TableLaid pageType first sequence chunks result nextIdx := by
  obtain ⟨pages, hasData, looped, patched, indexed, indexPageIdx, lastDataPage⟩ :=
    buildTableWithSequence_parts built
  obtain ⟨chunks, same, loop⟩ := buildDataPages_spec looped
  have next : nextIdx = first + Plan.width chunks := by
    rw [loop.next, Plan.width]
    omega
  refine ⟨chunks, same, ?_⟩
  by_cases none_ : chunks = []
  · subst none_
    rw [loop.empty rfl, patchSequence_zeroPage] at patched
    obtain ⟨dataPages, newSequence⟩ := Prod.mk.inj (Except.ok.inj patched)
    have noData : hasData = false := loop.data
    rw [noData, if_neg (by simp)] at lastDataPage
    refine ⟨indexPageIdx, lastDataPage, newSequence.symm, ?_, next, loop.small, ?_, ?_⟩
    · rwa [← newSequence]
    · rw [← dataPages]
      rfl
    · intro before length
      rw [← dataPages]
      exact tableAt_of_empty length indexed
  · have some_ : hasData = true := by
      rw [loop.data]
      simpa using none_
    obtain ⟨newSequence, sequenceSmall, length, data⟩ :=
      (loop.full none_).sequenced none_ patched
    have positive : 0 < chunks.length := List.length_pos_iff.mpr none_
    have nonempty : result.dataPages ≠ [] := List.length_pos_iff.mp (by omega)
    rw [if_pos ⟨some_, nonempty⟩, length] at lastDataPage
    refine ⟨indexPageIdx, lastDataPage, newSequence, sequenceSmall, next, loop.small, ?_, ?_⟩
    · rw [List.length_cons, length, Plan.width]
      omega
    · intro before count
      exact tableAt_of_data count indexed none_ data

end PdbBuilder

end BVault.Core
