import BVault.Core.PageSpace
import BVault.Core.PdbLayout
import BVault.Core.PdbReturns

/-!
# The builder without overflow checks

The release profile compiles `u32` additions without overflow checks: they wrap
there, and so do the ids that a dictionary hands out. The passes of `build` once
more for such builds, over whatever a builder can then hold. Where the build
with checks returns a file, this one returns the same; elsewhere it goes on with
wrapped page numbers, and only a row that fits no page makes it fail.
-/

namespace BVault.Core

open Bytes Loops

/-- What `build` reads of a builder. The ids of a dictionary are any numbers, and entries of
one id stand in any order. -/
structure PdbContent where
  tracks : List TrackInfo
  artists : List (String × Nat)
  albums : List ((String × Nat) × Nat)
  genres : List (String × Nat)
  labels : List (String × Nat)
  keys : List (Nat × Nat)
  playlists : List PlaylistInfo
  artworks : List (String × Nat)

/-- A builder's content, its dictionaries by ascending id. -/
def PdbBuilder.content (b : PdbBuilder) : PdbContent where
  tracks := b.tracks
  artists := b.artists.entries
  albums := b.albums.entries
  genres := b.genres.entries
  labels := b.labels.entries
  keys := b.keys.entries
  playlists := b.playlists
  artworks := b.artworks.entries

/-- `a + b` on `u32` without an overflow check. -/
def wrapU32 (a b : Nat) : Nat := (a + b) % 2 ^ 32

namespace PdbContent

open PdbBuilder

/-- The entries of all playlists that are no folders: position, track and playlist. -/
def playlistEntries (c : PdbContent) : List (Nat × UInt32 × UInt32) :=
  (c.playlists.filter (fun p => !p.isFolder)).flatMap (fun p =>
    p.trackIds.zipIdx.map (fun (trackId, idx) => (idx, trackId, p.id)))

/-- The row of an entry. The number `idx as u32 + 1` of the 2³²th entry of a playlist is 0. -/
def entryRow (entry : Nat × UInt32 × UInt32) : Bytes :=
  buildPlaylistEntryRow (wrapU32 (entry.1 % 2 ^ 32) 1) entry.2.1.toNat entry.2.2.toNat

/-- The rows that the loop of a table goes over. -/
def rows (c : PdbContent) : PageType → List Bytes
  | .tracks => c.tracks.map buildTrackRow
  | .genres => c.genres.map (fun (name, id) => buildGenreRow id name)
  | .artists => c.artists.map (fun (name, id) => buildArtistRow id name)
  | .albums => c.albums.map (fun ((name, artistId), id) => buildAlbumRow id artistId name)
  | .labels => c.labels.map (fun (name, id) => buildLabelRow id name)
  | .keys => c.keys.map
      (fun (rekordboxId, id) => buildKeyRow id ((Key.fromRekordboxId rekordboxId).name.getD ""))
  | .colors => colors.map (fun (id, name) => buildColorRow id name)
  | .playlistTree => c.playlists.map buildPlaylistTreeRow
  | .playlistEntries => c.playlistEntries.map entryRow
  | .artwork => c.artworks.map (fun (path, id) => buildArtworkRow id path)
  | .columns => columnsData
  | .unknown17 => unknown17Dataset.map wordsRow
  | .unknown18 => unknown18Data.map wordsRow
  | .history => [historyRow]
  | _ => []

def buildEmptyDataPages (nextIdx : Nat) : DataPages := .ok ([zeroPage], false, wrapU32 nextIdx 1)

/-- A row that would overflow starts a new page. -/
def turnPage (pageType : PageType) (s : Paging) (row : Bytes) : Paging :=
  if s.currentPage.wouldOverflow row.length then
    { pages := s.pages ++ [s.currentPage.finalize s.nextIdx]
      currentPage := PageBuilder.new s.nextIdx pageType
      nextIdx := wrapU32 s.nextIdx 1 }
  else s

def pageRow (pageType : PageType) (s : Paging) (row : Bytes) : Except Fault Paging := do
  let currentPage ← (turnPage pageType s row).currentPage.writeRow row
  .ok { turnPage pageType s row with currentPage := currentPage }

def buildRowPages (pageType : PageType) (rows : List Bytes) (nextIdx : Nat) : DataPages :=
  if rows = [] then buildEmptyDataPages nextIdx
  else do
    let s ← rows.foldlM (pageRow pageType)
      { pages := [], currentPage := PageBuilder.new nextIdx pageType,
        nextIdx := wrapU32 nextIdx 1 }
    .ok (s.pages ++ [s.currentPage.finalize 0xFFFFFFFF], true, s.nextIdx)

def buildFixedPage (pageType : PageType) (rows : List Bytes) (nextIdx : Nat) : DataPages := do
  let page ← rows.foldlM PageBuilder.writeRow (PageBuilder.new nextIdx pageType)
  .ok ([page.finalize 0xFFFFFFFF], true, wrapU32 nextIdx 1)

/-- The `build_*_data_pages` of a table. -/
def buildDataPages (c : PdbContent) (pageType : PageType) (nextIdx : Nat) : DataPages :=
  if fixedContent pageType then buildFixedPage pageType (c.rows pageType) nextIdx
  else buildRowPages pageType (c.rows pageType) nextIdx

/-- Patch the non-empty pages with the sequence counter. -/
def patchSequence : List Bytes → Nat → List Bytes × Nat
  | [], sequence => ([], sequence)
  | page :: pages, sequence =>
    if page.getD 0x1B 0 ≠ 0 then
      (patch page 0x10 (leBytes 4 sequence) :: (patchSequence pages (wrapU32 sequence 1)).1,
        (patchSequence pages (wrapU32 sequence 1)).2)
    else (page :: (patchSequence pages sequence).1, (patchSequence pages sequence).2)

/-- `data_page_idx + data_pages.len() as u32 - 1`. -/
def lastIndex (dataPageIdx count : Nat) : Nat :=
  (wrapU32 dataPageIdx (count % 2 ^ 32) + (2 ^ 32 - 1)) % 2 ^ 32

/-- Build a single table with sequence tracking, and the next free page index. -/
def buildTableWithSequence (c : PdbContent) (pageType : PageType) (nextIdx sequence : Nat) :
    Except Fault (TableBuildResult × Nat) := do
  let indexPageIdx := nextIdx
  let dataPageIdx := wrapU32 nextIdx 1
  let (dataPages, hasData, nextIdx) ← c.buildDataPages pageType dataPageIdx
  let patched := patchSequence dataPages sequence
  let numRowOffsets :=
    if hasData ∧ patched.1 ≠ [] then ((patched.1.getLastD []).getD 0x18 0).toNat else 0
  let indexPage :=
    (IndexPageBuilder.mk indexPageIdx pageType).finalize dataPageIdx hasData numRowOffsets
  let lastDataPage :=
    if hasData ∧ patched.1 ≠ [] then lastIndex dataPageIdx patched.1.length else indexPageIdx
  .ok ({ indexPage, dataPages := patched.1, indexPageIdx, lastDataPageIdx := lastDataPage,
         newSequence := patched.2 }, nextIdx)

def assembleTable (c : PdbContent) (s : Assembly) (pageType : PageType) :
    Except Fault Assembly := do
  let (result, nextPageIndex) ← c.buildTableWithSequence pageType s.nextPageIndex s.sequence
  .ok
    { allPages := s.allPages ++ result.indexPage :: result.dataPages
      nextPageIndex := nextPageIndex
      sequence := result.newSequence
      tableInfos := s.tableInfos ++
        [⟨pageType, result.indexPageIdx, result.lastDataPageIdx⟩] }

/-- A table with data ends in a phantom page of its own, an empty one in its reserved page. -/
def pointTable (s : Pointers) (info : TableInfo) : Pointers :=
  if info.indexPageIdx < info.lastDataPage then
    { header := s.header.addTable
        (TablePointer.new info.pageType s.phantom info.indexPageIdx info.lastDataPage)
      phantom := wrapU32 s.phantom 1
      patchTargets := s.patchTargets ++ [(info.lastDataPage, s.phantom)] }
  else
    { s with
      header := s.header.addTable
        (TablePointer.new info.pageType (wrapU32 info.lastDataPage 1) info.indexPageIdx
          info.lastDataPage) }

/-- Build the complete PDB file. -/
def build (c : PdbContent) : Except Fault Bytes := do
  let s ← PageType.allTypes.foldlM c.assembleTable
    { allPages := [zeroPage], nextPageIndex := 1, sequence := 2, tableInfos := [] }
  let pointers := s.tableInfos.foldl pointTable
    { header := FileHeader.new, phantom := s.nextPageIndex, patchTargets := [] }
  let allPages ← pointers.patchTargets.foldlM patchTarget s.allPages
  let header :=
    { pointers.header with
      nextUnusedPage := pointers.phantom
      sequence := s.sequence
      trackCount := c.tracks.length % 2 ^ 32 }
  .ok (allPages.set 0 header.toPage).flatten

/-- A page that is no data page without rows. -/
structure SoundPage (page : Bytes) : Prop where
  size : page.length = PAGE_SIZE
  rows : page.getD 0x1B 0 = PAGE_FLAGS_DATA ∨ page.getD 0x1B 0 = PAGE_FLAGS_DATA_TRACK →
    0 < rowCountField page

/-- A page whose flags are not those of a data page. -/
theorem soundPage_of_flags {page : Bytes} {flags : UInt8} (size : page.length = PAGE_SIZE)
    (here : page.getD 0x1B 0 = flags) (other : flags ≠ PAGE_FLAGS_DATA)
    (another : flags ≠ PAGE_FLAGS_DATA_TRACK) : SoundPage page := by
  refine ⟨size, ?_⟩
  rw [here]
  rintro (data | track)
  · exact absurd data other
  · exact absurd track another

theorem soundPage_zero : SoundPage zeroPage :=
  soundPage_of_flags length_zeroPage zeroPage_flags (by decide) (by decide)

theorem soundPage_index (p : IndexPageBuilder) (dataPageIndex numRowOffsets : Nat)
    (hasData : Bool) : SoundPage (p.finalize dataPageIndex hasData numRowOffsets) := by
  obtain ⟨flags, size⟩ := p.read_field dataPageIndex numRowOffsets hasData 27 [PAGE_FLAGS_INDEX]
    (by simp [IndexPageBuilder.fields, IndexPageBuilder.writes])
  exact soundPage_of_flags size (getD_of_slice flags) (by decide) (by decide)

theorem soundPage_header {h : FileHeader} (few : h.tables.length ≤ 20) : SoundPage h.toPage :=
  soundPage_of_flags (FileHeader.length_toPage few) (FileHeader.flag few) (by decide) (by decide)

theorem soundPage_data {p : PageBuilder} (spaced : p.Spaced) (some_ : 0 < p.rowCount)
    (next : Nat) : SoundPage (p.finalize next) := by
  refine ⟨spaced.length_finalize next, fun _ => ?_⟩
  have counts := spaced.counts_eq next
  have small := spaced.packed_eq.2
  rw [rowCountField, counts]
  omega

/-- The words at 0x0C and 0x10 can be overwritten. -/
theorem SoundPage.patch {page : Bytes} (sound : SoundPage page) {off n : Nat}
    (word : off = 0x0C ∨ off = 0x10) : SoundPage (patch page off (leBytes 4 n)) := by
  have size := sound.size
  have inside : off + (leBytes 4 n).length ≤ page.length := by
    rw [length_leBytes, size, PAGE_SIZE]
    omega
  have same : ∀ a m, 0x14 ≤ a → slice (Bytes.patch page off (leBytes 4 n)) a m = slice page a m := by
    intro a m behind
    refine slice_patch_of_disjoint inside ?_
    rw [length_leBytes]
    omega
  have flags : (Bytes.patch page off (leBytes 4 n)).getD 0x1B 0 = page.getD 0x1B 0 := by
    have here := slice_getElem? (Bytes.patch page off (leBytes 4 n)) 0x1B 1 0
    rw [same 0x1B 1 (by decide), slice_getElem? page 0x1B 1 0] at here
    rw [List.getD_eq_getElem?_getD, List.getD_eq_getElem?_getD]
    exact congrArg (·.getD 0) here.symm
  refine ⟨(length_patch inside).trans size, ?_⟩
  rw [flags, rowCountField, readLE, same 0x18 3 (by decide)]
  exact sound.rows

/-- The row loop after some rows: the closed pages have rows, and so has the current one behind
the first row. -/
structure Looped (first : Nat) (done : List Bytes) (s : Paging) : Prop where
  pages : ∀ page ∈ s.pages, SoundPage page
  spaced : s.currentPage.Spaced
  fresh : s.currentPage.rowCount = 0 → s.currentPage.fill = Fill.fresh
  begun : done ≠ [] → 0 < s.currentPage.rowCount
  next : s.nextIdx = (first + s.pages.length + 1) % 2 ^ 32
  small : ∀ row ∈ done, row.length ≤ MAX_ROW

theorem looped_start (pageType : PageType) (first : Nat) : Looped first []
    { pages := [], currentPage := PageBuilder.new first pageType, nextIdx := wrapU32 first 1 } where
  pages := fun _ mem => absurd mem List.not_mem_nil
  spaced := PageBuilder.spaced_new first pageType
  fresh := fun _ => rfl
  begun := fun some_ => absurd rfl some_
  next := rfl
  small := fun _ mem => absurd mem List.not_mem_nil

theorem small_snoc {done : List Bytes} {row : Bytes} (small : ∀ r ∈ done, r.length ≤ MAX_ROW)
    (last : row.length ≤ MAX_ROW) : ∀ r ∈ done ++ [row], r.length ≤ MAX_ROW := by
  intro r mem
  rcases List.mem_append.mp mem with earlier | here
  · exact small r earlier
  · rw [List.mem_singleton.mp here]
    exact last

section
variable {first : Nat} {done : List Bytes} {s : Paging} {row : Bytes}

/-- The row went on the current page, whichever that was. -/
theorem Looped.append (looped : Looped first done s) (last : row.length ≤ MAX_ROW)
    {page : PageBuilder} (written : s.currentPage.writeRow row = .ok page) :
    Looped first (done ++ [row]) { s with currentPage := page } := by
  have count : page.rowCount = s.currentPage.rowCount + 1 :=
    (congrArg Fill.rowCount (PageBuilder.fill_writeRow written)).trans (Fill.add_rowCount _ row)
  refine ⟨looped.pages, PageBuilder.spaced_writeRow looped.spaced written, ?_, ?_, looped.next,
    small_snoc looped.small last⟩
  · intro none_
    simp only [count] at none_
    omega
  · intro _
    simp only [count]
    omega

/-- The current page is closed, and the next one begins. -/
theorem Looped.turn (looped : Looped first done s) (some_ : 0 < s.currentPage.rowCount)
    (pageType : PageType) : Looped first []
      { pages := s.pages ++ [s.currentPage.finalize s.nextIdx]
        currentPage := PageBuilder.new s.nextIdx pageType
        nextIdx := wrapU32 s.nextIdx 1 } := by
  refine ⟨?_, PageBuilder.spaced_new _ _, fun _ => rfl, fun some_ => absurd rfl some_, ?_,
    fun _ mem => absurd mem List.not_mem_nil⟩
  · intro page mem
    rcases List.mem_append.mp mem with earlier | closed
    · exact looped.pages page earlier
    · rw [List.mem_singleton.mp closed]
      exact soundPage_data looped.spaced some_ s.nextIdx
  · have next := looped.next
    simp only [wrapU32, List.length_append, List.length_singleton]
    omega

/-- A row fails exactly when it is beyond the limit. -/
theorem pageRow_result (pageType : PageType) (looped : Looped first done s) (row : Bytes) :
    (∃ s', pageRow pageType s row = .ok s' ∧ Looped first (done ++ [row]) s') ∨
      MAX_ROW < row.length ∧
        pageRow pageType s row = .error (.pageOverflow row.length MAX_ROW) := by
  by_cases spills : s.currentPage.wouldOverflow row.length = true
  · have turned : turnPage pageType s row =
        { pages := s.pages ++ [s.currentPage.finalize s.nextIdx]
          currentPage := PageBuilder.new s.nextIdx pageType
          nextIdx := wrapU32 s.nextIdx 1 } := if_pos spills
    rw [pageRow, turned]
    rcases Nat.lt_or_ge MAX_ROW row.length with long | small
    · have failed := PageBuilder.writeRow_fails
        (p := PageBuilder.new s.nextIdx pageType) ((Fill.fresh_spills row).mpr long)
      rw [PageBuilder.availableSpace_new] at failed
      refine .inr ⟨long, ?_⟩
      simp only [bind, Except.bind, failed]
    · have fits : (PageBuilder.new s.nextIdx pageType).wouldOverflow row.length = false := by
        rw [PageBuilder.wouldOverflow_fill, PageBuilder.fill_new, Bool.eq_false_iff]
        intro over_
        have long := (Fill.fresh_spills row).mp over_
        omega
      -- an empty page that the row spills over would mean that the row is too long
      have some_ : 0 < s.currentPage.rowCount := by
        by_contra none_
        rw [PageBuilder.wouldOverflow_fill, looped.fresh (by omega)] at spills
        have long := (Fill.fresh_spills row).mp spills
        omega
      obtain ⟨page, written⟩ := PageBuilder.writeRow_returns fits
      have after := (looped.turn some_ pageType).append small written
      refine .inl ⟨⟨s.pages ++ [s.currentPage.finalize s.nextIdx], page, wrapU32 s.nextIdx 1⟩,
        bind_ok written rfl, ?_⟩
      exact ⟨after.pages, after.spaced, after.fresh, fun _ => after.begun (by simp), after.next,
        small_snoc looped.small small⟩
  · have same : turnPage pageType s row = s := if_neg spills
    rw [pageRow, same]
    have small : row.length ≤ MAX_ROW := by
      by_contra long
      have over_ : s.currentPage.fill.spills row = true :=
        Fill.spills_of_long looped.spaced.heap (not_le.mp long)
      exact spills (by rwa [PageBuilder.wouldOverflow_fill])
    obtain ⟨page, written⟩ := PageBuilder.writeRow_returns (Bool.eq_false_iff.mpr spills)
    exact .inl ⟨{ s with currentPage := page }, bind_ok written rfl, looped.append small written⟩

end

/-- What the loop of a table returns: pages with rows, or one zero page, and the index behind
them, wrapped. -/
structure Returned (rows : List Bytes) (first : Nat) (pages : List Bytes) (nextIdx : Nat) :
    Prop where
  some_ : pages ≠ []
  next : nextIdx = (first + pages.length) % 2 ^ 32
  sound : ∀ page ∈ pages, SoundPage page
  small : ∀ row ∈ rows, row.length ≤ MAX_ROW

theorem buildRowPages_result (pageType : PageType) (rows : List Bytes) (first : Nat) :
    (∃ pages hasData nextIdx, buildRowPages pageType rows first = .ok (pages, hasData, nextIdx) ∧
      Returned rows first pages nextIdx) ∨
      Refuses rows (buildRowPages pageType rows first) := by
  rw [buildRowPages]
  split
  · rename_i none_
    subst none_
    refine .inl ⟨_, _, _, rfl, by simp, rfl, ?_, fun _ mem => absurd mem List.not_mem_nil⟩
    intro page mem
    rw [List.mem_singleton.mp mem]
    exact soundPage_zero
  · rename_i some_
    have loop := foldlM_cases (f := pageRow pageType) (P := fun done s => Looped first done s)
      (Q := fun row fault => MAX_ROW < row.length ∧ fault = .pageOverflow row.length MAX_ROW)
      rows (looped_start pageType first) (by
        intro done row s looped _
        rcases pageRow_result pageType looped row with returned | ⟨long, failed⟩
        · exact .inl returned
        · exact .inr ⟨_, failed, long, rfl⟩)
    rcases loop with ⟨s, ran, looped⟩ | ⟨row, mem, fault, failed, long, rfl⟩
    · refine .inl ⟨_, _, _, bind_ok ran rfl, by simp, ?_, ?_, looped.small⟩
      · rw [looped.next, List.length_append, List.length_singleton, Nat.add_assoc]
      · intro page mem
        rcases List.mem_append.mp mem with earlier | closed
        · exact looped.pages page earlier
        · rw [List.mem_singleton.mp closed]
          exact soundPage_data looped.spaced (looped.begun some_) _
    · exact .inr (Refuses.bind ⟨row, mem, long, failed⟩ _)

/-- The tables with a fixed content hold it whatever was added. -/
theorem rows_fixed (c : PdbContent) (b : PdbBuilder) {pageType : PageType}
    (fixed : fixedContent pageType = true) : c.rows pageType = b.rows pageType := by
  cases pageType with
  | colors => rfl
  | columns => rfl
  | unknown17 => rfl
  | unknown18 => rfl
  | history => rfl
  | _ => cases fixed

theorem buildFixedPage_result (c : PdbContent) {pageType : PageType}
    (fixed : fixedContent pageType = true) (first : Nat) :
    ∃ pages hasData nextIdx,
      buildFixedPage pageType (c.rows pageType) first = .ok (pages, hasData, nextIdx) ∧
      Returned (c.rows pageType) first pages nextIdx := by
  obtain ⟨one, small⟩ := PdbBuilder.new.fixed_fits fixed
  have some_ := PdbBuilder.new.rows_fixed fixed
  rw [← c.rows_fixed PdbBuilder.new fixed] at one small some_
  obtain ⟨page, ran⟩ := writeRows_return first pageType one
  have filled := foldlM_invariant (f := PageBuilder.writeRow)
    (P := fun done p => p.Spaced ∧ (done ≠ [] → 0 < p.rowCount))
    ⟨PageBuilder.spaced_new first pageType, fun some_ => absurd rfl some_⟩ (by
      rintro done row p p' ⟨spaced, _⟩ _ written
      refine ⟨PageBuilder.spaced_writeRow spaced written, fun _ => ?_⟩
      have count : p'.rowCount = p.rowCount + 1 :=
        (congrArg Fill.rowCount (PageBuilder.fill_writeRow written)).trans (Fill.add_rowCount _ row)
      omega) ran
  refine ⟨_, _, _, bind_ok ran rfl, by simp, rfl, ?_, small⟩
  intro closed mem
  rw [List.mem_singleton.mp mem]
  exact soundPage_data filled.1 (filled.2 some_) _

theorem buildDataPages_result (c : PdbContent) (pageType : PageType) (first : Nat) :
    (∃ pages hasData nextIdx, c.buildDataPages pageType first = .ok (pages, hasData, nextIdx) ∧
      Returned (c.rows pageType) first pages nextIdx) ∨
      Refuses (c.rows pageType) (c.buildDataPages pageType first) := by
  rw [buildDataPages]
  split
  · exact .inl (buildFixedPage_result c ‹_› first)
  · exact buildRowPages_result pageType (c.rows pageType) first

theorem patchSequence_length (pages : List Bytes) (sequence : Nat) :
    (patchSequence pages sequence).1.length = pages.length := by
  induction pages generalizing sequence with
  | nil => rfl
  | cons page pages ih =>
    rw [patchSequence]
    split
    · exact congrArg (· + 1) (ih (wrapU32 sequence 1))
    · exact congrArg (· + 1) (ih sequence)

theorem patchSequence_sound {pages : List Bytes} (sequence : Nat)
    (sound : ∀ page ∈ pages, SoundPage page) :
    ∀ page ∈ (patchSequence pages sequence).1, SoundPage page := by
  induction pages generalizing sequence with
  | nil => exact fun _ mem => absurd mem List.not_mem_nil
  | cons page pages ih =>
    have here := sound page List.mem_cons_self
    have rest := fun p mem => sound p (List.mem_cons_of_mem page mem)
    rw [patchSequence]
    intro p mem
    split at mem
    · rcases List.mem_cons.mp mem with rfl | later
      · exact here.patch (Or.inr rfl)
      · exact ih (wrapU32 sequence 1) rest p later
    · rcases List.mem_cons.mp mem with rfl | later
      · exact here
      · exact ih sequence rest p later

/-- The loop over the tables: its pages are sound, its counter and the last pages of its tables
are numbers of pages, wrapped. -/
structure Laid (done : List PageType) (s : Assembly) : Prop where
  pages : ∀ page ∈ s.allPages, SoundPage page
  next : s.nextPageIndex = s.allPages.length % 2 ^ 32
  infos : ∀ info ∈ s.tableInfos, info.lastDataPage < s.allPages.length
  count : s.tableInfos.length = done.length
  positive : 0 < s.allPages.length

theorem laid_start : Laid []
    { allPages := [zeroPage], nextPageIndex := 1, sequence := 2, tableInfos := [] } where
  pages := by
    intro page mem
    rw [List.mem_singleton.mp mem]
    exact soundPage_zero
  next := rfl
  infos := fun _ mem => absurd mem List.not_mem_nil
  count := rfl
  positive := Nat.one_pos

/-- What a table comes to behind a number of pages: sound pages, the wrapped index behind them,
and a last page among them. -/
structure TableReturned (rows : List Bytes) (before : Nat) (result : TableBuildResult)
    (nextIdx : Nat) : Prop where
  index : SoundPage result.indexPage
  pages : ∀ page ∈ result.dataPages, SoundPage page
  next : nextIdx = (before + 1 + result.dataPages.length) % 2 ^ 32
  last : result.lastDataPageIdx < before + 1 + result.dataPages.length
  small : ∀ row ∈ rows, row.length ≤ MAX_ROW

theorem lastIndex_lt {before count : Nat} (some_ : 0 < count) :
    lastIndex (wrapU32 (before % 2 ^ 32) 1) count < before + 1 + count := by
  simp only [lastIndex, wrapU32]
  omega

theorem buildTableWithSequence_result (c : PdbContent) (pageType : PageType)
    (before sequence : Nat) :
    (∃ result nextIdx,
      c.buildTableWithSequence pageType (before % 2 ^ 32) sequence = .ok (result, nextIdx) ∧
      TableReturned (c.rows pageType) before result nextIdx) ∨
      Refuses (c.rows pageType)
        (c.buildTableWithSequence pageType (before % 2 ^ 32) sequence) := by
  rcases c.buildDataPages_result pageType (wrapU32 (before % 2 ^ 32) 1) with
    ⟨pages, hasData, nextIdx, looped, returned⟩ | refuses
  · have length := patchSequence_length pages sequence
    have patched := patchSequence_sound sequence returned.sound
    have some_ : 0 < pages.length := List.length_pos_iff.mpr returned.some_
    refine .inl ⟨_, nextIdx, bind_ok looped rfl, ?_⟩
    constructor
    · dsimp only
      exact soundPage_index _ _ _ _
    · exact patched
    · rw [returned.next]
      simp only [length, wrapU32]
      omega
    · simp only [length]
      split
      · exact lastIndex_lt some_
      · have wrapped := Nat.mod_le before (2 ^ 32)
        omega
    · exact returned.small
  · exact .inr (refuses.bind _)

theorem assembleTable_result (c : PdbContent) {done : List PageType} {s : Assembly}
    (laid : Laid done s) (pageType : PageType) :
    (∃ s', c.assembleTable s pageType = .ok s' ∧ Laid (done ++ [pageType]) s' ∧
      ∀ row ∈ c.rows pageType, row.length ≤ MAX_ROW) ∨
      Refuses (c.rows pageType) (c.assembleTable s pageType) := by
  rw [assembleTable, laid.next]
  rcases c.buildTableWithSequence_result pageType s.allPages.length s.sequence with
    ⟨result, nextIdx, built, table⟩ | refuses
  · have length : (s.allPages ++ result.indexPage :: result.dataPages).length =
        s.allPages.length + 1 + result.dataPages.length := by
      rw [List.length_append, List.length_cons]
      omega
    have positive := laid.positive
    refine .inl ⟨_, bind_ok built rfl, ⟨?_, ?_, ?_, ?_, ?_⟩, table.small⟩
    · intro page mem
      rcases List.mem_append.mp mem with earlier | new
      · exact laid.pages page earlier
      · rcases List.mem_cons.mp new with rfl | data
        · exact table.index
        · exact table.pages page data
    · rw [length]
      exact table.next
    · intro info mem
      rw [length]
      rcases List.mem_append.mp mem with earlier | last
      · have before := laid.infos info earlier
        omega
      · rw [List.mem_singleton.mp last]
        exact table.last
    · rw [List.length_append, laid.count, List.length_append]
      rfl
    · rw [length]
      omega
  · exact .inr (refuses.bind _)

/-- The tables are pointed to one by one, and the pages to patch are last pages of tables. -/
theorem pointTables_result (infos : List TableInfo) (s : Pointers) :
    (infos.foldl pointTable s).header.tables.length = s.header.tables.length + infos.length ∧
      ∀ target ∈ (infos.foldl pointTable s).patchTargets, target ∈ s.patchTargets ∨
        ∃ info ∈ infos, target.1 = info.lastDataPage := by
  induction infos generalizing s with
  | nil => exact ⟨rfl, fun _ mem => .inl mem⟩
  | cons info infos ih =>
    obtain ⟨count, targets⟩ := ih (pointTable s info)
    rw [List.foldl_cons]
    have one : (pointTable s info).header.tables.length = s.header.tables.length + 1 := by
      rw [pointTable]
      split <;> exact List.length_append
    refine ⟨by rw [count, one, List.length_cons]; omega, ?_⟩
    intro target mem
    rcases targets target mem with before | ⟨later, there, same⟩
    · rw [pointTable] at before
      split at before
      · rcases List.mem_append.mp before with old | new
        · exact .inl old
        · exact .inr ⟨info, List.mem_cons_self, congrArg Prod.fst (List.mem_singleton.mp new)⟩
      · exact .inl before
    · exact .inr ⟨later, List.mem_cons_of_mem info there, same⟩

/-- Patches inside the file return, and leave the pages sound. -/
theorem patchTargets_result {pages : List Bytes} (sound : ∀ page ∈ pages, SoundPage page)
    (targets : List (Nat × Nat)) (inside : ∀ target ∈ targets, target.1 < pages.length) :
    ∃ pages', targets.foldlM patchTarget pages = .ok pages' ∧ pages'.length = pages.length ∧
      ∀ page ∈ pages', SoundPage page := by
  refine foldlM_returns (f := patchTarget)
    (P := fun _ pages' => pages'.length = pages.length ∧ ∀ page ∈ pages', SoundPage page)
    targets ⟨rfl, sound⟩ ?_
  rintro done target pages' ⟨length, sound'⟩ here
  have there : target.1 < pages'.length := by
    rw [length]
    exact inside target (mem_of_consumed here)
  rw [patchTarget, List.getElem?_eq_getElem there]
  refine ⟨_, rfl, (List.length_set).trans length, ?_⟩
  intro page mem
  rcases List.mem_or_eq_of_mem_set mem with old | rfl
  · exact sound' page old
  · exact (sound' _ (List.getElem_mem there)).patch (Or.inl rfl)

/-- A build without overflow checks returns a file whose data pages have rows, or one of its
rows fits no page. -/
theorem build_result (c : PdbContent) :
    ((∀ pageType, ∀ row ∈ c.rows pageType, row.length ≤ MAX_ROW) ∧
      ∃ file, c.build = .ok file ∧ ∀ k < file.length / PAGE_SIZE,
        Reader.isDataPage file k = true → 0 < rowCountField (page file k)) ∨
      ∃ pageType, Refuses (c.rows pageType) c.build := by
  have loop := foldlM_cases (f := c.assembleTable)
    (P := fun done s => Laid done s ∧
      ∀ pageType ∈ done, ∀ row ∈ c.rows pageType, row.length ≤ MAX_ROW)
    (Q := fun pageType fault => ∃ row ∈ c.rows pageType, MAX_ROW < row.length ∧
      fault = .pageOverflow row.length MAX_ROW)
    PageType.allTypes ⟨laid_start, fun _ mem => absurd mem List.not_mem_nil⟩ (by
      rintro done pageType s ⟨laid, small⟩ _
      rcases c.assembleTable_result laid pageType with
        ⟨s', stepped, laid', here⟩ | ⟨row, mem, long, failed⟩
      · refine .inl ⟨s', stepped, laid', ?_⟩
        intro other mem
        rcases List.mem_append.mp mem with earlier | last
        · exact small other earlier
        · rw [List.mem_singleton.mp last]
          exact here
      · exact .inr ⟨_, failed, row, mem, long, rfl⟩)
  rcases loop with ⟨s, ran, laid, small⟩ | ⟨pageType, _, fault, failed, row, mem, long, rfl⟩
  · obtain ⟨tables, targets⟩ := pointTables_result s.tableInfos
      { header := FileHeader.new, phantom := s.nextPageIndex, patchTargets := [] }
    obtain ⟨allPages, patching, length, sound⟩ := patchTargets_result laid.pages _ (by
      intro target mem
      rcases targets target mem with none_ | ⟨info, there, same⟩
      · exact absurd none_ List.not_mem_nil
      · rw [same]
        exact laid.infos info there)
    refine .inl ⟨fun pageType => small pageType pageType.mem_allTypes, ?_⟩
    have built : ∃ header : FileHeader, header.tables.length ≤ 20 ∧
        c.build = .ok (allPages.set 0 header.toPage).flatten := by
      refine ⟨_, ?_, bind_ok ran (bind_ok patching rfl)⟩
      have all : PageType.allTypes.length = 20 := rfl
      have none_ : FileHeader.new.tables.length = 0 := rfl
      have count := laid.count
      simp only [tables]
      omega
    obtain ⟨header, few, built⟩ := built
    have pages : ∀ p ∈ allPages.set 0 header.toPage, SoundPage p := by
      intro p mem
      rcases List.mem_or_eq_of_mem_set mem with old | rfl
      · exact sound p old
      · exact soundPage_header few
    have sizes := fun p mem => (pages p mem).size
    refine ⟨_, built, ?_⟩
    intro k inside data
    rw [length_pages sizes, Nat.mul_div_cancel _ (by decide)] at inside
    have found := slice_pages sizes (List.getElem?_eq_getElem inside)
    have sound := pages _ (List.getElem_mem inside)
    rw [← found] at sound
    refine sound.rows ?_
    rw [Reader.isDataPage, decide_eq_true_iff] at data
    exact data
  · refine .inr ⟨pageType, row, mem, long, ?_⟩
    rw [build, failed]
    rfl

theorem wrapU32_of_added {a b n : Nat} (added : addU32 a b = .ok n) : wrapU32 a b = n := by
  obtain ⟨rfl, fits⟩ := addU32_spec added
  exact Nat.mod_eq_of_lt fits

theorem turnPage_of_checked {pageType : PageType} {s s' : Paging} {row : Bytes}
    (turn : PdbBuilder.turnPage pageType s row = .ok s') : turnPage pageType s row = s' := by
  rw [PdbBuilder.turnPage] at turn
  rw [turnPage]
  split at turn
  · obtain ⟨after, added, turn⟩ := of_bind turn
    cases turn
    rw [if_pos ‹_›, wrapU32_of_added added]
  · cases turn
    rw [if_neg ‹_›]

theorem pageRow_of_checked {pageType : PageType} {s s' : Paging} {row : Bytes}
    (ran : PdbBuilder.pageRow pageType s row = .ok s') : pageRow pageType s row = .ok s' := by
  obtain ⟨turned, turn, ran⟩ := of_bind ran
  rw [pageRow, turnPage_of_checked turn]
  exact ran

theorem buildRowPages_of_checked {pageType : PageType} {rows : List Bytes} {first : Nat}
    {result : List Bytes × Bool × Nat}
    (built : PdbBuilder.buildRowPages pageType rows first = .ok result) :
    buildRowPages pageType rows first = .ok result := by
  rw [PdbBuilder.buildRowPages] at built
  rw [buildRowPages]
  split at built
  · obtain ⟨after, added, built⟩ := of_bind built
    rw [if_pos ‹_›, buildEmptyDataPages, wrapU32_of_added added]
    exact built
  · obtain ⟨after, added, built⟩ := of_bind built
    obtain ⟨s, ran, built⟩ := of_bind built
    rw [if_neg ‹_›, wrapU32_of_added added]
    exact bind_ok (foldlM_of_ok (fun _ _ _ => pageRow_of_checked) ran) built

theorem buildFixedPage_of_checked {pageType : PageType} {rows : List Bytes} {first : Nat}
    {result : List Bytes × Bool × Nat}
    (built : PdbBuilder.buildFixedPage pageType rows first = .ok result) :
    buildFixedPage pageType rows first = .ok result := by
  obtain ⟨after, added, built⟩ := of_bind built
  rw [buildFixedPage, wrapU32_of_added added]
  exact built

/-- Where the positions fit, the rows are those of the build with checks. -/
theorem rows_content (b : PdbBuilder) {pageType : PageType}
    (positioned : pageType = .playlistEntries → b.Positioned) :
    b.content.rows pageType = b.rows pageType := by
  cases pageType with
  | playlistEntries =>
    refine List.map_congr_left (fun entry mem => ?_)
    have few := positioned rfl entry mem
    rw [entryRow, wrapU32, Nat.mod_eq_of_lt (by omega : entry.1 < 2 ^ 32), Nat.mod_eq_of_lt few]
  | _ => rfl

theorem buildDataPages_of_checked {b : PdbBuilder} {pageType : PageType} {first : Nat}
    {result : List Bytes × Bool × Nat} (built : b.buildDataPages pageType first = .ok result) :
    b.content.buildDataPages pageType first = .ok result := by
  have positioned : pageType = .playlistEntries → b.Positioned := by
    rintro rfl
    exact positioned_of_built built
  rw [buildDataPages_eq pageType positioned] at built
  rw [buildDataPages, rows_content b positioned]
  split at built
  · rw [if_pos ‹_›]
    exact buildFixedPage_of_checked built
  · rw [if_neg ‹_›]
    exact buildRowPages_of_checked built

theorem patchSequence_of_checked {pages pages' : List Bytes} {sequence sequence' : Nat}
    (patched : PdbBuilder.patchSequence pages sequence = .ok (pages', sequence')) :
    patchSequence pages sequence = (pages', sequence') := by
  induction pages generalizing sequence pages' sequence' with
  | nil =>
    cases patched
    rfl
  | cons page pages ih =>
    rw [PdbBuilder.patchSequence] at patched
    rw [patchSequence]
    split at patched
    · obtain ⟨next, added, patched⟩ := of_bind patched
      obtain ⟨⟨rest, last⟩, tail, patched⟩ := of_bind patched
      cases patched
      rw [if_pos ‹_›, wrapU32_of_added added, ih tail]
    · obtain ⟨⟨rest, last⟩, tail, patched⟩ := of_bind patched
      cases patched
      rw [if_neg ‹_›, ih tail]

theorem buildTableWithSequence_of_checked {b : PdbBuilder} {pageType : PageType}
    {first sequence : Nat} {result : TableBuildResult × Nat}
    (built : b.buildTableWithSequence pageType first sequence = .ok result) :
    b.content.buildTableWithSequence pageType first sequence = .ok result := by
  obtain ⟨data, added, built⟩ := of_bind built
  obtain ⟨⟨pages, hasData, nextIdx⟩, looped, built⟩ := of_bind built
  obtain ⟨⟨pages', sequence'⟩, patched, built⟩ := of_bind built
  obtain ⟨chunks, _, loop⟩ := buildDataPages_spec looped
  obtain rfl := (addU32_spec added).1
  have same := patchSequence_of_checked patched
  have count := (patchSequence_length pages sequence).symm
  rw [same] at count
  have small := loop.small
  have next := loop.next
  have behind : pages'.length ≤ max 1 chunks.length := by
    rw [← count]
    by_cases none_ : chunks = []
    · rw [loop.empty none_]
      exact le_max_left 1 _
    · rw [(loop.full none_).length]
      exact le_max_right 1 _
  have last : hasData = true ∧ pages' ≠ [] →
      lastIndex (first + 1) pages'.length = first + 1 + pages'.length - 1 := by
    rintro ⟨_, some_⟩
    have positive := List.length_pos_iff.mpr some_
    simp only [lastIndex, wrapU32]
    omega
  refine bind_ok (a := (pages, hasData, nextIdx)) ?_ ?_
  · rw [wrapU32_of_added added]
    exact buildDataPages_of_checked looped
  · cases built
    have index := wrapU32_of_added added
    dsimp only
    rw [same, index]
    refine congrArg Except.ok (Prod.ext ?_ rfl)
    dsimp only
    by_cases data : hasData = true ∧ pages' ≠ []
    · rw [if_pos data, if_pos data, if_pos data, last data]
    · rw [if_neg data, if_neg data, if_neg data]

theorem pointTables_of_checked {infos : List TableInfo} {s s' : Pointers}
    (ran : infos.foldlM PdbBuilder.pointTable s = .ok s') : infos.foldl pointTable s = s' := by
  induction infos generalizing s with
  | nil =>
    cases ran
    rfl
  | cons info infos ih =>
    obtain ⟨next, stepped, ran⟩ := of_bind ran
    have same : pointTable s info = next := by
      rw [PdbBuilder.pointTable] at stepped
      rw [pointTable]
      split at stepped
      · obtain ⟨phantom, added, stepped⟩ := of_bind stepped
        cases stepped
        rw [if_pos ‹_›, wrapU32_of_added added]
      · obtain ⟨candidate, added, stepped⟩ := of_bind stepped
        cases stepped
        rw [if_neg ‹_›, wrapU32_of_added added]
    rw [List.foldl_cons, same]
    exact ih ran

/-- What a build with overflow checks returns is what one without them returns. -/
theorem build_of_checked {b : PdbBuilder} {file : Bytes} (built : b.build = .ok file) :
    b.content.build = .ok file := by
  obtain ⟨s, assembly, built⟩ := of_bind built
  obtain ⟨pointers, pointing, built⟩ := of_bind built
  refine bind_ok (foldlM_of_ok ?_ assembly) ?_
  · intro s pageType s' stepped
    obtain ⟨result, table, stepped⟩ := of_bind stepped
    exact bind_ok (buildTableWithSequence_of_checked table) stepped
  · have same := pointTables_of_checked pointing
    simp only [same]
    exact built

end PdbContent

end BVault.Core
