import BVault.Core.PdbWrapping

/-!
# What makes a build fail

A row that is longer than an empty page makes the whole build fail. With
overflow checks nothing else does as long as `u32` counts the pages and the
positions in the playlists, and without them nothing else at all. What is built
has no data page without rows, and on the way no subtraction from the page size,
or of the heap's start, goes below zero.
-/

namespace BVault.Core

open Bytes Loops

/-- The subtractions of `page.rs` on a page: from the page size in `would_overflow`,
`available_space` and `write_row_index`, of the heap's start, and of the rows in earlier groups. -/
structure NoUnderflow (p : PageBuilder) : Prop where
  wouldOverflow : ((p.rowCount + 1) / ROWS_PER_GROUP + 1) * ROW_GROUP_SIZE ≤ PAGE_SIZE
  availableSpace : (p.rowCount / ROWS_PER_GROUP + 1) * ROW_GROUP_SIZE ≤ PAGE_SIZE
  heap : HEAP_START ≤ p.heapPos
  groups : ∀ group < p.numGroups,
    (group + 1) * ROW_GROUP_SIZE ≤ PAGE_SIZE ∧ group * ROWS_PER_GROUP ≤ p.rowOffsets.length

/-- Also between writing a row to the heap and padding behind it. -/
def NeverUnderflows (p : PageBuilder) : Prop :=
  NoUnderflow p ∧ ∀ (row : Bytes) (offset : Nat) (q : PageBuilder),
    p.writeHeap row = .ok (offset, q) → NoUnderflow (q.addRow offset)

namespace PageBuilder

theorem Spaced.numGroups_le {p : PageBuilder} (spaced : p.Spaced) :
    p.numGroups ≤ p.rowCount / ROWS_PER_GROUP + 1 := by
  have offsets := spaced.offsets
  rw [numGroups]
  split
  · exact Nat.succ_le_succ (Nat.zero_le _)
  · simp only [ROWS_PER_GROUP]
    omega

theorem Reached.noUnderflow {p : PageBuilder} (reached : p.Reached) : NoUnderflow p := by
  have spaced := reached.spaced
  have room := reached.indexStart_le
  have offsets := spaced.offsets
  have few := spaced.numGroups_le
  refine ⟨room, ?_, spaced.heap, ?_⟩
  · simp only [PAGE_SIZE, ROWS_PER_GROUP, ROW_GROUP_SIZE] at *
    omega
  · intro group inside
    simp only [PAGE_SIZE, ROWS_PER_GROUP, ROW_GROUP_SIZE] at *
    omega

theorem Reached.writeRow {p p' : PageBuilder} {row : Bytes} (reached : p.Reached)
    (written : p.writeRow row = .ok p') : p'.Reached := by
  obtain ⟨pageIndex, pageType, rows, ran⟩ := reached
  refine ⟨pageIndex, pageType, rows ++ [row], ?_⟩
  rw [List.foldlM_append]
  exact bind_ok ran (bind_ok written rfl)

theorem Reached.neverUnderflows {p : PageBuilder} (reached : p.Reached) : NeverUnderflows p := by
  refine ⟨reached.noUnderflow, ?_⟩
  intro row offset q stored
  have written : p.writeRow row = .ok (q.addRow offset).padHeap := by
    rw [PageBuilder.writeRow, stored]
  have after := (reached.writeRow written).noUnderflow
  have same := (padHeap_spec (q.addRow offset)).1
  have heap := reached.spaced.heap
  rw [same] at after
  refine ⟨after.wouldOverflow, after.availableSpace, ?_, after.groups⟩
  rw [writeHeap] at stored
  split at stored
  · cases stored
  · cases stored
    exact Nat.le_trans heap (Nat.le_add_right _ _)

end PageBuilder

namespace PdbBuilder

/-- The pages that the loops of `build` work on: the current page after some rows, the page
that is current once it was turned for the next row, and the page of a fixed content. -/
inductive OnPage (b : PdbBuilder) : PageBuilder → Prop where
  | current (pageType : PageType) (first nextIdx : Nat) (done : List Bytes) (s : Paging) :
      done <+: b.rows pageType →
      done.foldlM (pageRow pageType)
        { pages := [], currentPage := PageBuilder.new first pageType, nextIdx := nextIdx } =
          .ok s → OnPage b s.currentPage
  | turned (pageType : PageType) (first nextIdx : Nat) (done : List Bytes) (row : Bytes)
      (s s' : Paging) : done ++ [row] <+: b.rows pageType →
      done.foldlM (pageRow pageType)
        { pages := [], currentPage := PageBuilder.new first pageType, nextIdx := nextIdx } =
          .ok s → turnPage pageType s row = .ok s' → OnPage b s'.currentPage
  | fixed (pageType : PageType) (first : Nat) (done : List Bytes) (p : PageBuilder) :
      done <+: b.rows pageType →
      done.foldlM PageBuilder.writeRow (PageBuilder.new first pageType) = .ok p → OnPage b p

theorem turnPage_reached {pageType : PageType} {s s' : Paging} {row : Bytes}
    (reached : s.currentPage.Reached) (turned : turnPage pageType s row = .ok s') :
    s'.currentPage.Reached := by
  rw [turnPage] at turned
  split at turned
  · obtain ⟨after, _, turned⟩ := of_bind turned
    cases turned
    exact PageBuilder.reached_new s.nextIdx pageType
  · cases turned
    exact reached

theorem pageRows_reached {pageType : PageType} {s s' : Paging} {rows : List Bytes}
    (reached : s.currentPage.Reached) (ran : rows.foldlM (pageRow pageType) s = .ok s') :
    s'.currentPage.Reached := by
  refine foldlM_invariant (P := fun _ s => s.currentPage.Reached) reached ?_ ran
  intro _ row s s' reached _ stepped
  obtain ⟨turned, turn, stepped⟩ := of_bind stepped
  obtain ⟨page, written, stepped⟩ := of_bind stepped
  cases stepped
  exact (turnPage_reached reached turn).writeRow written

theorem OnPage.reached {b : PdbBuilder} {p : PageBuilder} (page : b.OnPage p) : p.Reached := by
  cases page with
  | current pageType first nextIdx done s inside ran =>
    exact pageRows_reached (PageBuilder.reached_new first pageType) ran
  | turned pageType first nextIdx done row s s' inside ran turned =>
    exact turnPage_reached (pageRows_reached (PageBuilder.reached_new first pageType) ran) turned
  | fixed pageType first done p inside ran => exact ⟨first, pageType, done, ran⟩

end PdbBuilder

/-- A data page of a built file has rows. -/
theorem Realizes.dataPage_rows {b : PdbBuilder} {plan : Plan} {header : FileHeader} {file : Bytes}
    (realizes : Realizes b plan header file) {k : Nat} (inside : k < plan.pageCount)
    (data : Reader.isDataPage file k = true) : 0 < rowCountField (page file k) := by
  rcases Nat.eq_zero_or_pos k with rfl | positive
  · rw [realizes.header_not_data] at data
    cases data
  obtain ⟨i, chunks, there, low, high⟩ := plan.exists_table positive inside
  have known : i < 20 := by
    have table := (List.getElem?_eq_some_iff.mp there).1
    rwa [realizes.types] at table
  obtain ⟨pageType, chunks', here, there', _⟩ := realizes.table known
  rw [there] at there'
  cases there'
  rw [Plan.width] at high
  rcases Nat.eq_or_lt_of_le low with rfl | behind
  · rw [realizes.index_not_data here there] at data
    cases data
  · have place : k = plan.firstPage i + 1 + (k - (plan.firstPage i + 1)) := by omega
    have table := realizes.tables i pageType chunks here there
    by_cases none_ : chunks = []
    · have zero := Option.some.inj (table.empty none_)
      have alone : k = plan.firstPage i + 1 := by
        rw [none_, List.length_nil] at high
        omega
      rw [Reader.isDataPage, Reader.pageFlags, alone, zero, zeroPage_flags] at data
      cases data
    · have held : k - (plan.firstPage i + 1) < chunks.length := by
        have some_ := List.length_pos_iff.mpr none_
        omega
      obtain ⟨found, same, content, _⟩ := table.data _ _ (List.getElem?_eq_getElem held)
      rw [← place] at same
      rw [Option.some.inj same, content.holds.count]
      exact List.length_pos_iff.mpr content.nonempty

namespace PdbBuilder

/-- A row that fits no page. -/
def LongRow (b : PdbBuilder) : Prop := ∃ pageType, ∃ row ∈ b.rows pageType, 4020 < row.length

/-- When and how a builder fails with overflow checks, and what it leaves behind otherwise. -/
structure FailsOnLongRows (b : PdbBuilder) : Prop where
  fails : b.Countable → ((∃ fault, b.build = .error fault) ↔ b.LongRow)
  error : b.Countable → b.LongRow → ∃ pageType, ∃ row ∈ b.rows pageType, 4020 < row.length ∧
    b.build = .error (.pageOverflow row.length 4020)
  succeeds : (∃ file, b.build = .ok file) ↔ b.Countable ∧ ¬ b.LongRow
  dataPages : ∀ file, b.build = .ok file → ∀ k < file.length / PAGE_SIZE,
    Reader.isDataPage file k = true → 0 < rowCountField (page file k)
  noUnderflow : ∀ p, b.OnPage p → NeverUnderflows p

theorem build_succeeds_iff (b : PdbBuilder) :
    (∃ file, b.build = .ok file) ↔ b.Countable ∧ ¬ b.LongRow := by
  constructor
  · rintro ⟨file, built⟩
    obtain ⟨countable, small⟩ := build_packed built
    refine ⟨countable, ?_⟩
    rintro ⟨pageType, row, mem, long⟩
    exact absurd (small pageType row mem) (Nat.not_le.mpr long)
  · rintro ⟨countable, short⟩
    rcases build_result countable with returned | ⟨pageType, row, mem, long, _⟩
    · exact returned
    · exact absurd ⟨pageType, row, mem, long⟩ short

theorem checked_fails_on_long_rows (b : PdbBuilder) : b.FailsOnLongRows := by
  have succeeds := b.build_succeeds_iff
  have refused : b.Countable → b.LongRow → ∃ pageType, ∃ row ∈ b.rows pageType,
      4020 < row.length ∧ b.build = .error (.pageOverflow row.length 4020) := by
    intro countable long
    rcases build_result countable with returned | refuses
    · exact absurd long (succeeds.mp returned).2
    · exact refuses
  refine ⟨?_, refused, succeeds, ?_, fun p page => page.reached.neverUnderflows⟩
  · intro countable
    constructor
    · rintro ⟨fault, failed⟩
      by_contra short
      obtain ⟨file, built⟩ := succeeds.mpr ⟨countable, short⟩
      rw [failed] at built
      cases built
    · intro long
      obtain ⟨_, _, _, _, failed⟩ := refused countable long
      exact ⟨_, failed⟩
  · intro file built k inside data
    obtain ⟨plan, header, realizes⟩ := build_realizes built
    have count : file.length / PAGE_SIZE = plan.pageCount := by
      rw [realizes.size]
      exact Nat.mul_div_cancel plan.pageCount (by decide)
    rw [count] at inside
    exact realizes.dataPage_rows inside data

end PdbBuilder

namespace PdbContent

open PdbBuilder (Paging)

/-- The pages that the loops work on without overflow checks. -/
inductive OnPage (c : PdbContent) : PageBuilder → Prop where
  | current (pageType : PageType) (first nextIdx : Nat) (done : List Bytes) (s : Paging) :
      done <+: c.rows pageType →
      done.foldlM (pageRow pageType)
        { pages := [], currentPage := PageBuilder.new first pageType, nextIdx := nextIdx } =
          .ok s → OnPage c s.currentPage
  | turned (pageType : PageType) (first nextIdx : Nat) (done : List Bytes) (row : Bytes)
      (s : Paging) : done ++ [row] <+: c.rows pageType →
      done.foldlM (pageRow pageType)
        { pages := [], currentPage := PageBuilder.new first pageType, nextIdx := nextIdx } =
          .ok s → OnPage c (turnPage pageType s row).currentPage
  | fixed (pageType : PageType) (first : Nat) (done : List Bytes) (p : PageBuilder) :
      done <+: c.rows pageType →
      done.foldlM PageBuilder.writeRow (PageBuilder.new first pageType) = .ok p → OnPage c p

theorem turnPage_reached {s : Paging} (reached : s.currentPage.Reached) (pageType : PageType)
    (row : Bytes) : (turnPage pageType s row).currentPage.Reached := by
  rw [turnPage]
  split
  · exact PageBuilder.reached_new s.nextIdx pageType
  · exact reached

theorem pageRows_reached {pageType : PageType} {s s' : Paging} {rows : List Bytes}
    (reached : s.currentPage.Reached) (ran : rows.foldlM (pageRow pageType) s = .ok s') :
    s'.currentPage.Reached := by
  refine foldlM_invariant (P := fun _ s => s.currentPage.Reached) reached ?_ ran
  intro _ row s s' reached _ stepped
  obtain ⟨page, written, stepped⟩ := of_bind stepped
  cases stepped
  exact (turnPage_reached reached pageType row).writeRow written

theorem OnPage.reached {c : PdbContent} {p : PageBuilder} (page : c.OnPage p) : p.Reached := by
  cases page with
  | current pageType first nextIdx done s inside ran =>
    exact pageRows_reached (PageBuilder.reached_new first pageType) ran
  | turned pageType first nextIdx done row s inside ran =>
    exact turnPage_reached (pageRows_reached (PageBuilder.reached_new first pageType) ran) pageType
      row
  | fixed pageType first done p inside ran => exact ⟨first, pageType, done, ran⟩

/-- A row that fits no page. -/
def LongRow (c : PdbContent) : Prop := ∃ pageType, ∃ row ∈ c.rows pageType, 4020 < row.length

/-- When and how a build fails without overflow checks, and what it leaves behind otherwise. -/
structure FailsOnLongRows (c : PdbContent) : Prop where
  fails : (∃ fault, c.build = .error fault) ↔ c.LongRow
  error : c.LongRow → ∃ pageType, ∃ row ∈ c.rows pageType, 4020 < row.length ∧
    c.build = .error (.pageOverflow row.length 4020)
  dataPages : ∀ file, c.build = .ok file → ∀ k < file.length / PAGE_SIZE,
    Reader.isDataPage file k = true → 0 < rowCountField (page file k)
  noUnderflow : ∀ p, c.OnPage p → NeverUnderflows p

theorem unchecked_fails_on_long_rows (c : PdbContent) : c.FailsOnLongRows := by
  rcases c.build_result with ⟨small, file, built, data⟩ | ⟨pageType, row, mem, long, failed⟩
  · have short : ¬ c.LongRow := by
      rintro ⟨pageType, row, mem, long⟩
      exact absurd (small pageType row mem) (Nat.not_le.mpr long)
    refine ⟨⟨?_, fun long => absurd long short⟩, fun long => absurd long short, ?_,
      fun p page => page.reached.neverUnderflows⟩
    · rintro ⟨fault, failed⟩
      rw [built] at failed
      cases failed
    · intro other returned
      rw [built] at returned
      obtain rfl := Except.ok.inj returned
      exact data
  · have some_ : c.LongRow := ⟨pageType, row, mem, long⟩
    refine ⟨⟨fun _ => some_, fun _ => ⟨_, failed⟩⟩, fun _ => ⟨pageType, row, mem, long, failed⟩, ?_,
      fun p page => page.reached.neverUnderflows⟩
    intro file built
    rw [built] at failed
    cases failed

end PdbContent

namespace PdbBuilder

/-- Whatever was added to a builder: where `u32` is enough, the build fails exactly if some
encoded row is longer than 4020 bytes, and says so; no data page is left without rows and no
subtraction on a page goes below zero. Without overflow checks the same holds of whatever a
builder can hold, also where `u32` is not enough. -/
theorem build_fails_on_long_rows :
    (∀ b : PdbBuilder, b.FailsOnLongRows) ∧ ∀ c : PdbContent, c.FailsOnLongRows :=
  ⟨checked_fails_on_long_rows, PdbContent.unchecked_fails_on_long_rows⟩

/-- One playlist of 2³² tracks. -/
def endlessPlaylist : List Call := [.addPlaylist 1 0 "" (List.replicate (2 ^ 32) 0)]

/-- No row is long, and with overflow checks the last position of the playlist fits no entry. -/
theorem endlessPlaylist_fails : ¬ ∀ (calls : List Call) (b : PdbBuilder), run calls = .ok b →
    ¬ b.LongRow → ∃ file, b.build = .ok file := by
  intro always
  have ran : run endlessPlaylist =
      .ok (PdbBuilder.new.addPlaylist 1 0 "" (List.replicate (2 ^ 32) 0)) := rfl
  obtain ⟨file, built⟩ := always _ _ ran (by
    rintro ⟨pageType, row, mem, long⟩
    by_cases entries : pageType = .playlistEntries
    · subst entries
      obtain ⟨entry, _, rfl⟩ := List.mem_map.mp mem
      simp [buildPlaylistEntryRow] at long
    · have same : (PdbBuilder.new.addPlaylist 1 0 "" (List.replicate (2 ^ 32) 0)).rows pageType =
          (PdbBuilder.new.addPlaylist 1 0 "" []).rows pageType := by
        cases pageType <;> first | rfl | exact absurd rfl entries
      have short : ∀ pageType ∈ PageType.allTypes,
          ∀ row ∈ (PdbBuilder.new.addPlaylist 1 0 "" []).rows pageType, row.length ≤ 4020 := by
        decide +kernel
      rw [same] at mem
      exact absurd (short pageType pageType.mem_allTypes row mem) (Nat.not_le.mpr long))
  have last : (2 ^ 32 - 1, (0 : UInt32), (1 : UInt32)) ∈
      (PdbBuilder.new.addPlaylist 1 0 "" (List.replicate (2 ^ 32) 0)).playlistEntries := by
    refine List.mem_flatMap.mpr ⟨_, List.mem_singleton_self _, ?_⟩
    refine List.mem_map.mpr ⟨(0, 2 ^ 32 - 1), ?_, rfl⟩
    rw [List.mk_mem_zipIdx_iff_getElem?, List.getElem?_replicate, if_pos (by omega)]
  have fits := (build_packed built).1.positioned _ last
  simp at fits

end PdbBuilder

end BVault.Core
