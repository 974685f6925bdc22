import Mathlib.Data.List.Iterate
import BVault.Core.PdbReturns

/-!
# The layout of a built file

Read through its header and page fields alone, a built file is laid out as a
player expects it: the tables' page intervals partition the file in type order,
every page names itself, every page chain runs through its table and ends in a
page of its own, and the data pages are numbered through.
-/

namespace BVault.Core

open Bytes Loops

namespace Reader

/-- A word of the header page. -/
def headerWord (file : Bytes) (off : Nat) : Nat := readLE (page file 0) off 4

def pageSize (file : Bytes) : Nat := headerWord file 0x04

def tableCount (file : Bytes) : Nat := headerWord file 0x08

def nextUnusedPage (file : Bytes) : Nat := headerWord file 0x0C

def sequence (file : Bytes) : Nat := headerWord file 0x14

/-- The words of the table pointers, in the order (type, empty candidate, first, last). -/
def pointerWord (file : Bytes) (i word : Nat) : Nat := headerWord file (0x1C + 16 * i + 4 * word)

def tableType (file : Bytes) (i : Nat) : Nat := pointerWord file i 0

def emptyCandidate (file : Bytes) (i : Nat) : Nat := pointerWord file i 1

def firstPage (file : Bytes) (i : Nat) : Nat := pointerWord file i 2

def lastPage (file : Bytes) (i : Nat) : Nat := pointerWord file i 3

/-- The last page of the interval of a table: an empty table reserves one page. -/
def endPage (file : Bytes) (i : Nat) : Nat :=
  if firstPage file i < lastPage file i then lastPage file i else firstPage file i + 1

def ownIndex (file : Bytes) (k : Nat) : Nat := readLE (page file k) 0x04 4

def nextPage (file : Bytes) (k : Nat) : Nat := readLE (page file k) 0x0C 4

def pageSequence (file : Bytes) (k : Nat) : Nat := readLE (page file k) 0x10 4

def pageFlags (file : Bytes) (k : Nat) : UInt8 := (page file k).getD 0x1B 0

def isDataPage (file : Bytes) (k : Nat) : Bool :=
  pageFlags file k = PAGE_FLAGS_DATA ∨ pageFlags file k = PAGE_FLAGS_DATA_TRACK

/-- The data pages of a file of so many pages, in file order. -/
def dataPages (file : Bytes) (count : Nat) : List Nat :=
  (List.range count).filter (isDataPage file)

end Reader

open Reader in
/-- What a player relies on before it looks at a row. -/
structure WellLaidOut (b : PdbBuilder) (file : Bytes) (count : Nat) : Prop where
  size : file.length = count * PAGE_SIZE
  pageSize : pageSize file = PAGE_SIZE
  tableCount : tableCount file = 20
  types : ∀ i < 20, tableType file i = i
  data : ∀ (i : Nat) (pageType : PageType), PageType.allTypes[i]? = some pageType →
    (firstPage file i < lastPage file i ↔ b.rows pageType ≠ [])
  -- the intervals partition the pages behind the header
  order : ∀ i < 20, firstPage file i ≤ lastPage file i
  start : firstPage file 0 = 1
  contiguous : ∀ i < 19, firstPage file (i + 1) = endPage file i + 1
  finish : endPage file 19 + 1 = count
  own : ∀ k, 1 ≤ k → k < count → page file k = zeroPage ∨ ownIndex file k = k
  chain : ∀ i < 20,
    List.iterate (nextPage file) (firstPage file i) (lastPage file i - firstPage file i + 2) =
      List.range' (firstPage file i) (lastPage file i - firstPage file i + 1) ++
        [emptyCandidate file i]
  phantom : ∀ i < 20, firstPage file i < lastPage file i → count ≤ emptyCandidate file i
  reserved : ∀ i < 20, firstPage file i = lastPage file i →
    emptyCandidate file i = firstPage file i + 1 ∧ page file (emptyCandidate file i) = zeroPage
  distinct : ∀ i < 20, ∀ j < 20, emptyCandidate file i = emptyCandidate file j → i = j
  unused : ∀ i < 20, emptyCandidate file i < nextUnusedPage file
  sequences : (dataPages file count).map (pageSequence file) =
    List.range' 2 (dataPages file count).length
  sequence : sequence file = 2 + (dataPages file count).length

namespace FileHeader

variable {h : FileHeader} (few : h.tables.length ≤ 20)
include few

theorem read_word {off n : Nat} (mem : (off, leBytes 4 n) ∈ h.writes) (fits : n < 2 ^ 32) :
    readLE h.toPage off 4 = n := by
  have word := read_write few mem
  rw [length_leBytes] at word
  exact readLE_of_slice word fits

/-- The words of a table pointer stand behind each other. -/
theorem read_pointer {i : Nat} {t : TablePointer} (there : h.tables[i]? = some t) {word n : Nat}
    (inside : word < 4) (is : slice t.toBytes (4 * word) 4 = leBytes 4 n) (fits : n < 2 ^ 32) :
    readLE h.toPage (0x1C + 16 * i + 4 * word) 4 = n := by
  obtain ⟨bound, found⟩ := List.getElem?_eq_some_iff.mp there
  have mem : (0x1C + 16 * i, t.toBytes) ∈ h.writes := by
    refine List.mem_append_right _ (List.mem_mapIdx.mpr ⟨i, bound, ?_⟩)
    rw [found]
  have pointer := read_write few mem
  have length : t.toBytes.length = 16 := by simp [TablePointer.toBytes]
  rw [length] at pointer
  refine readLE_of_slice ?_ fits
  rw [← slice_slice (n := 16) (by omega), pointer]
  exact is

/-- Between the fields and the pointers nothing is written. -/
theorem slice_gap {off n : Nat} (low : 0x18 ≤ off) (high : off + n ≤ 0x1C) :
    slice h.toPage off n = slice zeroPage off n := by
  rw [toPage, slice_patchAll_of_disjoint (within_writes few)]
  intro q mem
  rcases List.mem_append.mp mem with field | pointer
  · simp only [List.mem_cons, List.not_mem_nil, or_false] at field
    right
    rcases field with rfl | rfl | rfl | rfl | rfl <;> simp only [length_leBytes] <;> omega
  · obtain ⟨i, inside, rfl⟩ := List.mem_mapIdx.mp pointer
    left
    omega

/-- The header page is no data page. -/
theorem flag : h.toPage.getD 0x1B 0 = 0 := by
  refine getD_of_slice ?_
  rw [slice_gap few (by decide) (by decide)]
  decide

end FileHeader

namespace Realizes

variable {b : PdbBuilder} {plan : Plan} {header : FileHeader} {file : Bytes}
  (realizes : Realizes b plan header file)
include realizes

theorem types : plan.length = 20 := by
  have lengths := congrArg List.length realizes.rows
  rwa [List.length_map, List.length_map] at lengths

/-- Every table has its type and its chunks, which are its rows. -/
theorem table {i : Nat} (inside : i < 20) : ∃ pageType chunks,
    PageType.allTypes[i]? = some pageType ∧ plan[i]? = some chunks ∧
      chunks.flatten = b.rows pageType := by
  have types : i < plan.length := by
    rw [realizes.types]
    exact inside
  have there := List.getElem?_eq_getElem types
  have here := List.getElem?_eq_getElem (show i < PageType.allTypes.length from inside)
  refine ⟨_, _, here, there, ?_⟩
  have both := congrArg (fun rows => rows[i]?) realizes.rows
  simp only [List.getElem?_map, there, here, Option.map_some] at both
  exact Option.some.inj both

theorem headerWord_eq {off n : Nat} (mem : (off, leBytes 4 n) ∈ header.writes)
    (fits : n < 2 ^ 32) : Reader.headerWord file off = n := by
  rw [Reader.headerWord, realizes.headerPage]
  exact FileHeader.read_word (le_of_eq realizes.length) mem fits

theorem pageSize_eq : Reader.pageSize file = PAGE_SIZE := by
  have word := realizes.pageSize
  refine realizes.headerWord_eq ?_ (by decide)
  rw [← word]
  simp [FileHeader.writes]

theorem tableCount_eq : Reader.tableCount file = 20 := by
  have word := realizes.numTables
  refine realizes.headerWord_eq ?_ (by decide)
  rw [← word]
  simp [FileHeader.writes]

theorem nextUnusedPage_eq :
    Reader.nextUnusedPage file = plan.pageCount + Plan.dataTables plan := by
  refine realizes.headerWord_eq ?_ realizes.small
  rw [← realizes.nextUnused]
  simp [FileHeader.writes]

theorem sequence_eq : Reader.sequence file = plan.firstSequence plan.length := by
  refine realizes.headerWord_eq ?_ realizes.sequenceSmall
  rw [← realizes.sequence]
  simp [FileHeader.writes]

section
variable {i : Nat} {pageType : PageType} {chunks : List (List Bytes)}
  (here : PageType.allTypes[i]? = some pageType) (there : plan[i]? = some chunks)
include here there

theorem pointerWord_eq {word n : Nat} (inside : word < 4)
    (is : slice (TablePointer.new pageType (plan.candidate i chunks) (plan.firstPage i)
      (plan.firstPage i + chunks.length)).toBytes (4 * word) 4 = leBytes 4 n)
    (fits : n < 2 ^ 32) : Reader.pointerWord file i word = n := by
  rw [Reader.pointerWord, Reader.headerWord, realizes.headerPage]
  exact FileHeader.read_pointer (le_of_eq realizes.length) (realizes.pointer i _ _ here there)
    inside is fits

theorem tableType_eq : Reader.tableType file i = i := by
  obtain ⟨number, inside⟩ := toNat_of_allTypes here
  refine realizes.pointerWord_eq here there (by decide) ?_ (by omega)
  rw [← number]
  rfl

theorem emptyCandidate_eq : Reader.emptyCandidate file i = plan.candidate i chunks := by
  have below := Plan.candidate_below there
  have small := realizes.small
  exact realizes.pointerWord_eq here there (by decide) rfl (by omega)

theorem firstPage_eq : Reader.firstPage file i = plan.firstPage i := by
  have inside := Plan.firstPage_inside there
  have small := realizes.small
  exact realizes.pointerWord_eq here there (by decide) rfl (by omega)

theorem lastPage_eq : Reader.lastPage file i = plan.firstPage i + chunks.length := by
  have inside := Plan.firstPage_inside there
  have small := realizes.small
  rw [Plan.width] at inside
  exact realizes.pointerWord_eq here there (by decide) rfl (by omega)

theorem endPage_eq : Reader.endPage file i + 1 = plan.firstPage i + Plan.width chunks := by
  rw [Reader.endPage, realizes.firstPage_eq here there, realizes.lastPage_eq here there,
    Plan.width]
  split <;> omega

/-- Within a table the next page is the next one. -/
theorem nextPage_inside {k : Nat} (low : plan.firstPage i ≤ k)
    (high : k < plan.firstPage i + chunks.length) : Reader.nextPage file k = k + 1 := by
  have table := realizes.tables i pageType chunks here there
  rcases Nat.eq_or_lt_of_le low with rfl | behind
  · obtain ⟨page, found, index⟩ := table.index
    cases found
    exact index.next
  · obtain ⟨j, rfl⟩ := Nat.exists_eq_add_of_lt behind
    have inside : j < chunks.length := by omega
    obtain ⟨page, found, data, _⟩ := table.data j _ (List.getElem?_eq_getElem inside)
    cases found
    have next := data.next
    rw [if_pos (by omega)] at next
    have same : plan.firstPage i + j + 1 = plan.firstPage i + 1 + j := by omega
    rw [same]
    exact next

/-- The last page of a table leads to the table's own chain end. -/
theorem nextPage_last :
    Reader.nextPage file (plan.firstPage i + chunks.length) = plan.candidate i chunks := by
  have table := realizes.tables i pageType chunks here there
  rcases Nat.eq_zero_or_pos chunks.length with none_ | some_
  · obtain rfl := List.eq_nil_of_length_eq_zero none_
    obtain ⟨page, found, index⟩ := table.index
    cases found
    rw [(Plan.candidate_empty there rfl).1]
    exact index.next
  · have inside : chunks.length - 1 < chunks.length := by omega
    obtain ⟨page, found, data, _⟩ := table.data _ _ (List.getElem?_eq_getElem inside)
    cases found
    have next := data.next
    rw [if_neg (by omega)] at next
    have same : plan.firstPage i + chunks.length = plan.firstPage i + 1 + (chunks.length - 1) := by
      omega
    rw [same]
    exact next

end

end Realizes

/-- Following successors visits a range. -/
theorem iterate_range {f : Nat → Nat} {a n : Nat} (next : ∀ k, a ≤ k → k < a + n → f k = k + 1)
    {last : Nat} (ends : f (a + n) = last) :
    List.iterate f a (n + 2) = List.range' a (n + 1) ++ [last] := by
  induction n generalizing a with
  | zero =>
    rw [Nat.add_zero] at ends
    simp [List.iterate, ends]
  | succ n ih =>
    have first := next a (le_refl _) (by omega)
    have rest := ih (a := a + 1) (fun k low high => next k (by omega) (by omega))
      (by rw [← ends]; congr 1; omega)
    rw [List.iterate, first, rest, ← List.cons_append, ← List.range'_succ]

namespace Realizes

variable {b : PdbBuilder} {plan : Plan} {header : FileHeader} {file : Bytes}
  (realizes : Realizes b plan header file)
include realizes

theorem header_not_data : Reader.isDataPage file 0 = false := by
  have flag := FileHeader.flag (le_of_eq realizes.length)
  rw [← realizes.headerPage] at flag
  rw [Reader.isDataPage, Reader.pageFlags, flag]
  decide

section
variable {i : Nat} {pageType : PageType} {chunks : List (List Bytes)}
  (here : PageType.allTypes[i]? = some pageType) (there : plan[i]? = some chunks)
include here there

theorem index_not_data : Reader.isDataPage file (plan.firstPage i) = false := by
  obtain ⟨page, found, index⟩ := (realizes.tables i pageType chunks here there).index
  cases found
  rw [Reader.isDataPage, Reader.pageFlags, index.flags]
  decide

theorem data_is_data {j : Nat} (inside : j < chunks.length) :
    Reader.isDataPage file (plan.firstPage i + 1 + j) = true ∧
      Reader.pageSequence file (plan.firstPage i + 1 + j) = plan.firstSequence i + j := by
  obtain ⟨page, found, data, number⟩ :=
    (realizes.tables i pageType chunks here there).data _ _ (List.getElem?_eq_getElem inside)
  cases found
  refine ⟨?_, number⟩
  rw [Reader.isDataPage, Reader.pageFlags, data.flag]
  cases pageType.indexed <;> decide

/-- Of a table's pages, exactly those behind its index page are data pages. -/
theorem filter_table :
    (List.range' (plan.firstPage i) (Plan.width chunks)).filter (Reader.isDataPage file) =
      List.range' (plan.firstPage i + 1) chunks.length := by
  have index := realizes.index_not_data here there
  have width : Plan.width chunks = max 1 chunks.length + 1 := Nat.add_comm _ _
  rw [width, List.range'_succ, List.filter_cons_of_neg (by simp [index])]
  rcases Nat.eq_zero_or_pos chunks.length with none_ | some_
  · obtain rfl := List.eq_nil_of_length_eq_zero none_
    have zero := (realizes.tables i pageType [] here there).empty rfl
    have reserved : Reader.isDataPage file (plan.firstPage i + 1) = false := by
      rw [Reader.isDataPage, Reader.pageFlags, Option.some.inj zero, zeroPage_flags]
      decide
    simp [reserved]
  · rw [Nat.max_eq_right some_, List.filter_eq_self]
    intro k mem
    rw [List.mem_range'_1] at mem
    have data := realizes.data_is_data here there (j := k - (plan.firstPage i + 1)) (by omega)
    rw [Nat.add_sub_cancel' mem.1] at data
    exact data.1

theorem sequence_table :
    (List.range' (plan.firstPage i + 1) chunks.length).map (Reader.pageSequence file) =
      List.range' (plan.firstSequence i) chunks.length := by
  refine List.ext_getElem (by simp) ?_
  intro j inside _
  rw [List.length_map, List.length_range'] at inside
  simp only [List.getElem_map, List.getElem_range', Nat.one_mul]
  exact (realizes.data_is_data here there inside).2

end

/-- The data pages of the first tables are numbered from 2 on without a gap. -/
theorem numbered {i : Nat} (inside : i ≤ 20) :
    (Reader.dataPages file (plan.firstPage i)).map (Reader.pageSequence file) =
      List.range' 2 (Reader.dataPages file (plan.firstPage i)).length ∧
    plan.firstSequence i = 2 + (Reader.dataPages file (plan.firstPage i)).length := by
  induction i with
  | zero =>
    have none_ : Reader.dataPages file (plan.firstPage 0) = [] := by
      rw [Plan.firstPage_zero, Reader.dataPages]
      simp [realizes.header_not_data]
    rw [none_]
    exact ⟨rfl, rfl⟩
  | succ i ih =>
    obtain ⟨before, first⟩ := ih (by omega)
    obtain ⟨pageType, chunks, here, there, _⟩ := realizes.table (by omega : i < 20)
    have split : Reader.dataPages file (plan.firstPage (i + 1)) =
        Reader.dataPages file (plan.firstPage i) ++
          List.range' (plan.firstPage i + 1) chunks.length := by
      have joined := List.range'_append_1 (s := 0) (m := plan.firstPage i) (n := Plan.width chunks)
      rw [Nat.zero_add] at joined
      rw [← realizes.filter_table here there, Reader.dataPages, Reader.dataPages,
        Plan.firstPage_succ there, ← List.filter_append, List.range_eq_range', List.range_eq_range',
        joined]
    rw [split, List.map_append, before, realizes.sequence_table here there, List.length_append,
      List.length_range', Plan.firstSequence_succ there, first, List.range'_append_1]
    exact ⟨rfl, Nat.add_assoc _ _ _⟩

theorem flatten_eq_nil {i : Nat} {chunks : List (List Bytes)} {pageType : PageType}
    (here : PageType.allTypes[i]? = some pageType) (there : plan[i]? = some chunks)
    (rows : chunks.flatten = b.rows pageType) : chunks = [] ↔ b.rows pageType = [] := by
  rw [← rows]
  exact (realizes.tables i pageType chunks here there).flatten_eq_nil

theorem wellLaidOut : WellLaidOut b file plan.pageCount where
  size := realizes.size
  pageSize := realizes.pageSize_eq
  tableCount := realizes.tableCount_eq
  types := by
    intro i inside
    obtain ⟨pageType, chunks, here, there, _⟩ := realizes.table inside
    exact realizes.tableType_eq here there
  data := by
    intro i pageType known
    obtain ⟨type, chunks, here, there, rows⟩ := realizes.table (toNat_of_allTypes known).2
    rw [known] at here
    cases here
    rw [realizes.firstPage_eq known there, realizes.lastPage_eq known there, Ne,
      ← realizes.flatten_eq_nil known there rows, ← List.length_eq_zero_iff]
    omega
  order := by
    intro i inside
    obtain ⟨pageType, chunks, here, there, _⟩ := realizes.table inside
    rw [realizes.firstPage_eq here there, realizes.lastPage_eq here there]
    exact Nat.le_add_right _ _
  start := by
    obtain ⟨pageType, chunks, here, there, _⟩ := realizes.table (by decide : 0 < 20)
    exact realizes.firstPage_eq here there
  contiguous := by
    intro i inside
    obtain ⟨_, _, here, there, _⟩ := realizes.table (by omega : i < 20)
    obtain ⟨_, _, here', there', _⟩ := realizes.table (by omega : i + 1 < 20)
    rw [realizes.firstPage_eq here' there', realizes.endPage_eq here there,
      Plan.firstPage_succ there]
  finish := by
    obtain ⟨_, _, here, there, _⟩ := realizes.table (by decide : 19 < 20)
    have types := realizes.types
    rw [realizes.endPage_eq here there, ← Plan.firstPage_succ there, ← Plan.firstPage_length, types]
  own := by
    intro k positive inside
    obtain ⟨i, chunks, there, low, high⟩ := plan.exists_table positive inside
    have bound : i < 20 := by
      rw [← realizes.types]
      exact (List.getElem?_eq_some_iff.mp there).1
    obtain ⟨pageType, others, here, there', _⟩ := realizes.table bound
    rw [there] at there'
    cases there'
    obtain ⟨page, found, _, own⟩ := (realizes.tables i pageType chunks here there).page low high
    cases found
    exact own
  chain := by
    intro i inside
    obtain ⟨pageType, chunks, here, there, _⟩ := realizes.table inside
    rw [realizes.firstPage_eq here there, realizes.lastPage_eq here there,
      realizes.emptyCandidate_eq here there, Nat.add_sub_cancel_left]
    exact iterate_range (fun k => realizes.nextPage_inside here there)
      (realizes.nextPage_last here there)
  phantom := by
    intro i inside more
    obtain ⟨pageType, chunks, here, there, _⟩ := realizes.table inside
    rw [realizes.firstPage_eq here there, realizes.lastPage_eq here there] at more
    have data : chunks.isEmpty = false := by
      cases chunks with
      | nil => simp at more
      | cons rows chunks => rfl
    rw [realizes.emptyCandidate_eq here there, Plan.candidate_data data]
    exact Nat.le_add_right _ _
  reserved := by
    intro i inside same
    obtain ⟨pageType, chunks, here, there, _⟩ := realizes.table inside
    rw [realizes.firstPage_eq here there, realizes.lastPage_eq here there] at same
    obtain rfl : chunks = [] := List.eq_nil_of_length_eq_zero (by omega)
    have reserved := (Plan.candidate_empty there rfl).1
    rw [realizes.emptyCandidate_eq here there, realizes.firstPage_eq here there, reserved]
    exact ⟨rfl, Option.some.inj ((realizes.tables i pageType [] here there).empty rfl)⟩
  distinct := by
    intro i inside j inside' same
    obtain ⟨_, _, here, there, _⟩ := realizes.table inside
    obtain ⟨_, _, here', there', _⟩ := realizes.table inside'
    rw [realizes.emptyCandidate_eq here there, realizes.emptyCandidate_eq here' there'] at same
    by_contra apart
    exact Plan.candidate_ne there there' apart same
  unused := by
    intro i inside
    obtain ⟨_, _, here, there, _⟩ := realizes.table inside
    rw [realizes.emptyCandidate_eq here there, realizes.nextUnusedPage_eq]
    exact Plan.candidate_below there
  sequences := by
    have types := realizes.types
    rw [← Plan.firstPage_length, types]
    exact (realizes.numbered (le_refl 20)).1
  sequence := by
    have types := realizes.types
    rw [realizes.sequence_eq, ← Plan.firstPage_length, types]
    exact (realizes.numbered (le_refl 20)).2

end Realizes

/-- Whatever was added, a build that succeeds writes a well laid out file. -/
theorem build_wellLaidOut {calls : List PdbBuilder.Call} {file : Bytes}
    (built : PdbBuilder.buildAfter calls = .ok file) :
    ∃ b count, PdbBuilder.run calls = .ok b ∧ WellLaidOut b file count := by
  obtain ⟨b, ran, built⟩ := of_bind built
  obtain ⟨plan, header, realizes⟩ := PdbBuilder.build_realizes built
  exact ⟨b, plan.pageCount, ran, realizes.wellLaidOut⟩

theorem smallHistory_wellLaidOut : ∃ file b count,
    PdbBuilder.buildAfter PdbBuilder.smallHistory = .ok file ∧
      PdbBuilder.run PdbBuilder.smallHistory = .ok b ∧ WellLaidOut b file count := by
  obtain ⟨file, built⟩ := PdbBuilder.smallHistory_returns
  obtain ⟨b, count, ran, laid⟩ := build_wellLaidOut built
  exact ⟨file, b, count, built, ran, laid⟩

end BVault.Core
