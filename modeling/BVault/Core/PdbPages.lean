import BVault.Core.PageRows
import BVault.Core.Pdb
import BVault.Core.Plan
import BVault.Lib.Loops

/-!
# Data pages of a table

What the loops over a table's rows leave behind: data pages that hold the rows
in order, page after page, each with its own index and the next one's, or one
zero page where there is no row.
-/

namespace BVault.Core

open Bytes Loops

theorem addU32_spec {a b c : Nat} (added : addU32 a b = .ok c) : c = a + b ∧ a + b < 2 ^ 32 := by
  rw [addU32] at added
  split at added
  · cases added
    exact ⟨rfl, ‹_›⟩
  · cases added

theorem addU32_ok {a b : Nat} (fits : a + b < 2 ^ 32) : addU32 a b = .ok (a + b) := if_pos fits

/-- A number in a page that fits its four bytes. -/
theorem readLE_of_slice {page : Bytes} {off n : Nat} (here : slice page off 4 = leBytes 4 n)
    (fits : n < 2 ^ 32) : readLE page off 4 = n := by
  rw [readLE, here, leNat_leBytes_of_lt fits]

/-- A data page of a table as a reader sees it. -/
structure DataPage (page : Bytes) (pageType : PageType) (index next : Nat) (rows : List Bytes) :
    Prop where
  size : page.length = PAGE_SIZE
  index : readLE page 0x04 4 = index
  type : readLE page 0x08 4 = pageType.toNat
  next : readLE page 0x0C 4 = next
  flags : slice page 0x1B 1 =
    [if pageType.indexed then PAGE_FLAGS_DATA_TRACK else PAGE_FLAGS_DATA]
  holds : HoldsRows page rows
  nonempty : rows ≠ []

/-- The rows only depend on what is behind the header's first words. -/
theorem HoldsRows.congr {page page' : Bytes} {rows : List Bytes} (holds : HoldsRows page rows)
    (same : ∀ a n, 0x18 ≤ a → slice page' a n = slice page a n) : HoldsRows page' rows := by
  have index := holds.index
  simp only [HEAP_START, PAGE_SIZE] at index
  have counts : readLE page' 0x18 3 = readLE page 0x18 3 := by
    rw [readLE, readLE, same 0x18 3 (le_refl _)]
  have offsets : ∀ r < rows.length, rowOffset page' r = rowOffset page r := by
    intro r inside
    have low : 0x18 ≤ PageBuilder.groupStart (r / 16) + (15 - r % 16) * 2 := by
      simp only [PageBuilder.groupStart, PAGE_SIZE, ROW_GROUP_SIZE]
      omega
    rw [rowOffset, rowOffset, readLE, readLE, same _ _ low]
  have rowBound : ∀ (r : Nat) (row : Bytes), rows[r]? = some row → r < rows.length :=
    fun r row found => (List.getElem?_eq_some_iff.mp found).1
  constructor
  · rw [rowCountField, counts]
    exact holds.count
  · rw [rowOffsetCountField, counts]
    exact holds.offsets
  · intro r inside
    have low : 0x18 ≤ PageBuilder.groupStart (r / 16) := by
      simp only [PageBuilder.groupStart, PAGE_SIZE, ROW_GROUP_SIZE]
      omega
    rw [← holds.present r inside]
    simp only [rowPresent, readLE]
    rw [same _ _ (by omega), same _ _ (by omega)]
  · intro r inside
    rw [offsets r inside]
    exact holds.aligned r inside
  · intro r row found
    rw [offsets r (rowBound r row found), same _ _ (by simp only [HEAP_START]; omega)]
    exact holds.stored r row found
  · intro r s row found before inside
    rw [offsets r (rowBound r row found), offsets s inside]
    exact holds.apart r s row found before inside
  · intro r row found
    rw [offsets r (rowBound r row found)]
    exact holds.inside r row found
  · exact holds.index

section
variable {page : Bytes} {pageType : PageType} {index next : Nat} {rows : List Bytes}

/-- The words at 0x0C and 0x10 can be overwritten, the rest of the page stays. -/
theorem DataPage.read_patch (data : DataPage page pageType index next rows) {off n a m : Nat}
    (word : off = 0x0C ∨ off = 0x10) (apart : a + m ≤ off ∨ off + 4 ≤ a) :
    slice (patch page off (leBytes 4 n)) a m = slice page a m := by
  have size := data.size
  refine slice_patch_of_disjoint ?_ (by rwa [length_leBytes])
  rw [length_leBytes, size, PAGE_SIZE]
  omega

theorem DataPage.read_word (data : DataPage page pageType index next rows) {off n : Nat}
    (word : off = 0x0C ∨ off = 0x10) (fits : n < 2 ^ 32) :
    readLE (patch page off (leBytes 4 n)) off 4 = n := by
  have size := data.size
  have here : off + (leBytes 4 n).length ≤ page.length := by
    rw [length_leBytes, size, PAGE_SIZE]
    omega
  have self := slice_patch_self here
  rw [length_leBytes] at self
  exact readLE_of_slice self fits

theorem DataPage.length_word (data : DataPage page pageType index next rows) {off n : Nat}
    (word : off = 0x0C ∨ off = 0x10) : (patch page off (leBytes 4 n)).length = PAGE_SIZE := by
  have size := data.size
  rw [length_patch, size]
  rw [length_leBytes, size, PAGE_SIZE]
  omega

theorem DataPage.setSequence (data : DataPage page pageType index next rows) (n : Nat) :
    DataPage (patch page 0x10 (leBytes 4 n)) pageType index next rows where
  size := data.length_word (Or.inr rfl)
  index := by
    rw [readLE, data.read_patch (Or.inr rfl) (by omega)]
    exact data.index
  type := by
    rw [readLE, data.read_patch (Or.inr rfl) (by omega)]
    exact data.type
  next := by
    rw [readLE, data.read_patch (Or.inr rfl) (by omega)]
    exact data.next
  flags := by
    rw [data.read_patch (Or.inr rfl) (by omega)]
    exact data.flags
  holds := data.holds.congr (fun a n behind => data.read_patch (Or.inr rfl) (by omega))
  nonempty := data.nonempty

theorem DataPage.setNext (data : DataPage page pageType index next rows) {n : Nat}
    (fits : n < 2 ^ 32) : DataPage (patch page 0x0C (leBytes 4 n)) pageType index n rows where
  size := data.length_word (Or.inl rfl)
  index := by
    rw [readLE, data.read_patch (Or.inl rfl) (by omega)]
    exact data.index
  type := by
    rw [readLE, data.read_patch (Or.inl rfl) (by omega)]
    exact data.type
  next := data.read_word (Or.inl rfl) fits
  flags := by
    rw [data.read_patch (Or.inl rfl) (by omega)]
    exact data.flags
  holds := data.holds.congr (fun a n behind => data.read_patch (Or.inl rfl) (by omega))
  nonempty := data.nonempty

theorem getD_of_slice {off : Nat} {x : UInt8} (here : slice page off 1 = [x]) :
    page.getD off 0 = x := by
  have first := slice_getElem? page off 1 0
  rw [here, if_pos Nat.one_pos, Nat.add_zero] at first
  rw [List.getD_eq_getElem?_getD, ← first]
  rfl

theorem DataPage.flag (data : DataPage page pageType index next rows) :
    page.getD 0x1B 0 = if pageType.indexed then PAGE_FLAGS_DATA_TRACK else PAGE_FLAGS_DATA :=
  getD_of_slice data.flags

theorem DataPage.flag_ne_zero (data : DataPage page pageType index next rows) :
    page.getD 0x1B 0 ≠ 0 := by
  rw [data.flag]
  split <;> decide

end

theorem PageType.toNat_lt (pageType : PageType) : pageType.toNat < 2 ^ 32 := by
  cases pageType <;> decide

theorem PageType.mem_allTypes (pageType : PageType) : pageType ∈ PageType.allTypes := by
  cases pageType <;> decide

theorem toNat_of_allTypes {i : Nat} {pageType : PageType}
    (here : PageType.allTypes[i]? = some pageType) : pageType.toNat = i ∧ i < 20 := by
  have table : ∀ i < 20, PageType.allTypes[i]?.map PageType.toNat = some i := by decide
  have inside : i < 20 := (List.getElem?_eq_some_iff.mp here).1
  have known := table i inside
  rw [here] at known
  exact ⟨Option.some.inj known, inside⟩

namespace PageBuilder

theorem writeRow_page {p p' : PageBuilder} {row : Bytes} (written : p.writeRow row = .ok p') :
    p'.pageIndex = p.pageIndex ∧ p'.pageType = p.pageType := by
  obtain ⟨_, stored, parts, rfl⟩ := writeRow_spec written
  have same := (padHeap_spec stored).1
  constructor
  · rw [same, parts]
  · rw [same, parts]

/-- A finalized page with rows is a data page. -/
theorem Filled.dataPage {p : PageBuilder} {rows : List Bytes} (filled : p.Filled rows)
    {next : Nat} (index : p.pageIndex < 2 ^ 32) (fits : next < 2 ^ 32) (nonempty : rows ≠ []) :
    DataPage (p.finalize next) p.pageType p.pageIndex next rows where
  size := filled.length_finalize next
  index := by
    refine readLE_of_slice ?_ index
    exact filled.read_header next 0x04 (leBytes 4 p.pageIndex) (by simp [headerWrites])
  type := by
    refine readLE_of_slice ?_ p.pageType.toNat_lt
    exact filled.read_header next 0x08 (leBytes 4 p.pageType.toNat) (by simp [headerWrites])
  next := by
    refine readLE_of_slice ?_ fits
    exact filled.read_header next 0x0C (leBytes 4 next) (by simp [headerWrites])
  flags := filled.read_header next 0x1B [_] (by simp [headerWrites])
  holds := filled.holdsRows next
  nonempty := nonempty

end PageBuilder

namespace PdbBuilder

/-- The pages hold the chunks, page after page from an index on; the last page's next page
is given. -/
structure Chunked (pageType : PageType) (first last : Nat) (pages : List Bytes)
    (chunks : List (List Bytes)) : Prop where
  length : pages.length = chunks.length
  page : ∀ (i : Nat) (page : Bytes) (rows : List Bytes), pages[i]? = some page →
    chunks[i]? = some rows → DataPage page pageType (first + i)
      (if i + 1 < chunks.length then first + i + 1 else last) rows

/-- A next page behind the ones so far. -/
theorem Chunked.snoc {pageType : PageType} {first last : Nat} {pages : List Bytes}
    {chunks : List (List Bytes)} {page : Bytes} {rows : List Bytes}
    (chunked : Chunked pageType first (first + chunks.length) pages chunks)
    (data : DataPage page pageType (first + chunks.length) last rows) :
    Chunked pageType first last (pages ++ [page]) (chunks ++ [rows]) := by
  constructor
  · rw [List.length_append, List.length_append, chunked.length, List.length_singleton,
      List.length_singleton]
  · intro i page' rows' there here
    rw [List.length_append, List.length_singleton]
    rcases getElem?_snoc_both chunked.length there here with
      ⟨inside, there, here⟩ | ⟨same, rfl, rfl⟩
    · have old := chunked.page i page' rows' there here
      rw [if_pos (by omega)]
      split at old
      · exact old
      · have last : i + 1 = chunks.length := by omega
        rw [← last, ← Nat.add_assoc] at old
        exact old
    · rw [if_neg (by omega), same]
      exact data

/-- What a table's loop returns for its rows, laid out from a page index on. -/
structure Built (pageType : PageType) (first : Nat) (chunks : List (List Bytes))
    (pages : List Bytes) (hasData : Bool) (nextIdx : Nat) : Prop where
  data : hasData = !chunks.isEmpty
  next : nextIdx = first + max 1 chunks.length
  small : nextIdx < 2 ^ 32
  empty : chunks = [] → pages = [zeroPage]
  full : chunks ≠ [] → Chunked pageType first 0xFFFFFFFF pages chunks

theorem buildEmptyDataPages_spec {pageType : PageType} {first nextIdx : Nat} {pages : List Bytes}
    {hasData : Bool} (built : buildEmptyDataPages first = .ok (pages, hasData, nextIdx)) :
    Built pageType first [] pages hasData nextIdx := by
  obtain ⟨after, added, built⟩ := of_bind built
  obtain ⟨rfl, small⟩ := addU32_spec added
  cases built
  exact ⟨rfl, rfl, small, fun _ => rfl, fun nonempty => absurd rfl nonempty⟩

/-- The loop's state after some rows: full pages, and a current page with the rest. -/
structure Paged (pageType : PageType) (first : Nat) (done : List Bytes) (s : Paging)
    (full : List (List Bytes)) (rest : List Bytes) : Prop where
  rows : full.flatten ++ rest = done
  pages : Chunked pageType first (first + full.length) s.pages full
  filled : s.currentPage.Filled rest
  index : s.currentPage.pageIndex = first + full.length
  type : s.currentPage.pageType = pageType
  next : s.nextIdx = first + full.length + 1
  small : s.nextIdx < 2 ^ 32
  fresh : rest = [] → s.currentPage = PageBuilder.new (first + full.length) pageType

section
variable {pageType : PageType} {first last : Nat} {done rest : List Bytes} {s s' : Paging}
  {full : List (List Bytes)} {row : Bytes}

theorem paged_start (small : first + 1 < 2 ^ 32) : Paged pageType first []
    { pages := [], currentPage := PageBuilder.new first pageType, nextIdx := first + 1 }
    [] [] where
  rows := rfl
  pages := ⟨rfl, by simp⟩
  filled := PageBuilder.filled_new _ _
  index := rfl
  type := rfl
  next := rfl
  small := small
  fresh := fun _ => rfl

/-- The row goes on the current page. -/
theorem Paged.append (paged : Paged pageType first done s full rest) (long : 4 ≤ row.length)
    {page : PageBuilder} (written : s.currentPage.writeRow row = .ok page) :
    Paged pageType first (done ++ [row]) { s with currentPage := page } full (rest ++ [row]) := by
  obtain ⟨index, type⟩ := PageBuilder.writeRow_page written
  constructor
  · rw [← List.append_assoc, paged.rows]
  · exact paged.pages
  · exact PageBuilder.filled_writeRow paged.filled written long
  · exact index.trans paged.index
  · exact type.trans paged.type
  · exact paged.next
  · exact paged.small
  · intro none_
    simp at none_

/-- The current page is closed. -/
theorem Paged.close (paged : Paged pageType first done s full rest) (nonempty : rest ≠ [])
    (fits : last < 2 ^ 32) :
    Chunked pageType first last (s.pages ++ [s.currentPage.finalize last]) (full ++ [rest]) := by
  have next := paged.next
  have small := paged.small
  have index := paged.index
  have closed := paged.filled.dataPage (by omega) fits nonempty
  rw [index, paged.type] at closed
  exact paged.pages.snoc closed

/-- The current page is closed and the next one begins empty. -/
theorem Paged.turn (paged : Paged pageType first done s full rest) (nonempty : rest ≠ [])
    (fits : s.nextIdx + 1 < 2 ^ 32) :
    Paged pageType first done
      { pages := s.pages ++ [s.currentPage.finalize s.nextIdx]
        currentPage := PageBuilder.new s.nextIdx pageType
        nextIdx := s.nextIdx + 1 } (full ++ [rest]) [] := by
  have count : s.nextIdx = first + (full ++ [rest]).length := by
    have next := paged.next
    rw [List.length_append, List.length_singleton]
    omega
  constructor
  · rw [List.append_nil, List.flatten_append, List.flatten_singleton]
    exact paged.rows
  · have closed := paged.close nonempty paged.small
    rw [← count]
    exact closed
  · exact PageBuilder.filled_new _ _
  · exact count
  · rfl
  · exact congrArg (· + 1) count
  · exact fits
  · intro _
    rw [← count]

/-- A row that overflows an empty page fits no page. -/
theorem Paged.rest_nonempty (paged : Paged pageType first done s full rest)
    (spills : s.currentPage.wouldOverflow row.length = true) {page : PageBuilder}
    (written : (PageBuilder.new s.nextIdx pageType).writeRow row = .ok page) : rest ≠ [] := by
  intro empty
  have room := (PageBuilder.writeRow_spec written).1
  have same : (PageBuilder.new (first + full.length) pageType).wouldOverflow row.length =
      (PageBuilder.new s.nextIdx pageType).wouldOverflow row.length := rfl
  rw [paged.fresh empty, same, room] at spills
  cases spills

theorem pageRow_spec (paged : Paged pageType first done s full rest) (long : 4 ≤ row.length)
    (stepped : pageRow pageType s row = .ok s') :
    ∃ full rest, Paged pageType first (done ++ [row]) s' full (rest ++ [row]) := by
  rw [pageRow] at stepped
  obtain ⟨turned, turn, stepped⟩ := of_bind stepped
  obtain ⟨page, written, stepped⟩ := of_bind stepped
  cases stepped
  rw [turnPage] at turn
  split at turn
  · rename_i spills
    obtain ⟨after, added, turn⟩ := of_bind turn
    obtain ⟨rfl, fits⟩ := addU32_spec added
    cases turn
    have nonempty := paged.rest_nonempty spills written
    exact ⟨_, _, (paged.turn nonempty fits).append long written⟩
  · cases turn
    exact ⟨_, _, paged.append long written⟩

end

/-- The row loop keeps every row, in order. -/
theorem buildRowPages_spec {pageType : PageType} {rows : List Bytes} {first nextIdx : Nat}
    {pages : List Bytes} {hasData : Bool} (long : ∀ row ∈ rows, 4 ≤ row.length)
    (built : buildRowPages pageType rows first = .ok (pages, hasData, nextIdx)) :
    ∃ chunks, chunks.flatten = rows ∧ Built pageType first chunks pages hasData nextIdx := by
  rw [buildRowPages] at built
  split at built
  · rename_i none_
    exact ⟨[], none_.symm, buildEmptyDataPages_spec built⟩
  · rename_i some_
    obtain ⟨after, added, built⟩ := of_bind built
    obtain ⟨rfl, small⟩ := addU32_spec added
    obtain ⟨s, ran, built⟩ := of_bind built
    cases built
    obtain ⟨full, rest, paged, nonempty⟩ : ∃ full rest, Paged pageType first rows s full rest ∧
        (rest = [] → rows = []) := by
      refine foldlM_invariant (P := fun done s => ∃ full rest,
        Paged pageType first done s full rest ∧ (rest = [] → done = []))
        ⟨[], [], paged_start small, fun _ => rfl⟩ ?_ ran
      rintro done row s s' ⟨full, rest, paged, _⟩ here stepped
      obtain ⟨full, rest, paged⟩ := pageRow_spec paged (long row (mem_of_consumed here)) stepped
      exact ⟨full, rest ++ [row], paged, fun none_ => by simp at none_⟩
    have nonempty : rest ≠ [] := fun none_ => some_ (nonempty none_)
    have next := paged.next
    have small := paged.small
    refine ⟨full ++ [rest], ?_, ?_⟩
    · rw [List.flatten_append, List.flatten_singleton, paged.rows]
    · constructor
      · simp
      · rw [List.length_append, List.length_singleton]
        omega
      · exact small
      · intro none_
        simp at none_
      · intro _
        exact paged.close nonempty (by decide)

/-- A table with a fixed content has one page. -/
theorem buildFixedPage_spec {pageType : PageType} {rows : List Bytes} {first nextIdx : Nat}
    {pages : List Bytes} {hasData : Bool} (long : ∀ row ∈ rows, 4 ≤ row.length)
    (nonempty : rows ≠ [])
    (built : buildFixedPage pageType rows first = .ok (pages, hasData, nextIdx)) :
    Built pageType first [rows] pages hasData nextIdx := by
  rw [buildFixedPage] at built
  obtain ⟨after, added, built⟩ := of_bind built
  obtain ⟨rfl, small⟩ := addU32_spec added
  obtain ⟨page, ran, built⟩ := of_bind built
  cases built
  obtain ⟨filled, index, type⟩ : page.Filled rows ∧ page.pageIndex = first ∧
      page.pageType = pageType := by
    refine foldlM_invariant (P := fun done (page : PageBuilder) => page.Filled done ∧
      page.pageIndex = first ∧ page.pageType = pageType)
      ⟨PageBuilder.filled_new _ _, rfl, rfl⟩ ?_ ran
    rintro done row page page' ⟨filled, index, type⟩ here written
    obtain ⟨index', type'⟩ := PageBuilder.writeRow_page written
    have long := long row (mem_of_consumed here)
    exact ⟨PageBuilder.filled_writeRow filled written long, index'.trans index, type'.trans type⟩
  have small' : page.pageIndex < 2 ^ 32 := by omega
  have closed : DataPage (page.finalize 0xFFFFFFFF) page.pageType page.pageIndex 0xFFFFFFFF rows :=
    filled.dataPage small' (by decide) nonempty
  rw [index, type] at closed
  refine ⟨rfl, rfl, small, ?_, ?_⟩
  · intro none_
    cases none_
  · intro _
    exact @Chunked.snoc pageType first 0xFFFFFFFF [] [] _ rows ⟨rfl, by simp⟩ closed

end PdbBuilder

end BVault.Core
