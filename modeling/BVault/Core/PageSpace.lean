import BVault.Core.PdbReturns

/-!
# The two space accountants of a page

`available_space` counts the row groups that one more row will need, and
`would_overflow` one group more where that row completes a group. So the free
size a page advertises is 36 bytes more than it takes whenever the next row is
the last one of its group.
-/

namespace BVault.Core

open Bytes

/-- The `free_size` in the header of a page. -/
def freeSizeField (page : Bytes) : Nat := readLE page 0x1C 2

/-- The row groups that hold this many rows. -/
def groupsFor (rows : Nat) : Nat := (rows + 15) / 16

namespace PageBuilder

/-- A page after some calls of `write_row`; one that fails changes nothing. -/
def Reached (p : PageBuilder) : Prop :=
  ∃ pageIndex pageType, ∃ rows : List Bytes, rows.foldlM writeRow (new pageIndex pageType) = .ok p

theorem spaced_new (pageIndex : Nat) (pageType : PageType) : (new pageIndex pageType).Spaced :=
  (filled_new pageIndex pageType).spaced

theorem Reached.spaced {p : PageBuilder} (reached : p.Reached) : p.Spaced := by
  obtain ⟨pageIndex, pageType, rows, ran⟩ := reached
  exact Loops.foldlM_invariant (P := fun _ p => p.Spaced) (spaced_new pageIndex pageType)
    (fun _ _ _ _ spaced _ written => spaced_writeRow spaced written) ran

/-- No subtraction from the page size underflows, not even for the row after the next one. -/
theorem Reached.indexStart_le {p : PageBuilder} (reached : p.Reached) :
    ((p.rowCount + 1) / ROWS_PER_GROUP + 1) * ROW_GROUP_SIZE ≤ PAGE_SIZE := by
  have room := reached.spaced.room
  have heap := reached.spaced.heap
  simp only [PAGE_SIZE, HEAP_START, ROWS_PER_GROUP, ROW_GROUP_SIZE] at *
  omega

/-- The accountants agree about a row: it is written exactly when it fits beside the row index
that the page will then have, which is when it is within the space that the header advertises. -/
structure Accounted (p : PageBuilder) (row : Bytes) : Prop where
  succeeds : (∃ p', p.writeRow row = .ok p') ↔
    p.heapPos + row.length ≤ PAGE_SIZE - ROW_GROUP_SIZE * groupsFor (p.rowCount + 1)
  available : p.heapPos + row.length ≤ PAGE_SIZE - ROW_GROUP_SIZE * groupsFor (p.rowCount + 1) ↔
    row.length ≤ p.availableSpace
  advertised : ∀ nextPage, freeSizeField (p.finalize nextPage) = p.availableSpace

theorem writeRow_returns_iff {p : PageBuilder} {row : Bytes} :
    (∃ p', p.writeRow row = .ok p') ↔ p.heapPos + row.length ≤ indexStart (p.rowCount + 1) := by
  rw [← wouldOverflow_eq_false]
  constructor
  · rintro ⟨p', written⟩
    exact (writeRow_spec written).1
  · exact writeRow_returns

/-- The header advertises what `available_space` counts. -/
theorem Spaced.freeSize {p : PageBuilder} (spaced : p.Spaced) (nextPage : Nat) :
    freeSizeField (p.finalize nextPage) = p.availableSpace := by
  have word := spaced.read_header nextPage 0x1C (leBytes 2 p.availableSpace) (by simp [headerWrites])
  have small : p.availableSpace < 256 ^ 2 := by
    simp only [availableSpace, indexStart, PAGE_SIZE]
    omega
  rw [length_leBytes] at word
  rw [freeSizeField, readLE, word, leNat_leBytes_of_lt small]

/-- For every page that was reached and every row: the accountants agree exactly when the row
does not complete a row group, or fits with 36 bytes to spare, or does not fit at all. -/
theorem accounted_iff (p : PageBuilder) (reached : p.Reached) (row : Bytes) :
    p.Accounted row ↔
      (p.rowCount + 1) % ROWS_PER_GROUP ≠ 0 ∨
        p.heapPos + row.length + ROW_GROUP_SIZE ≤ indexStart p.rowCount ∨
        indexStart p.rowCount < p.heapPos + row.length := by
  have spaced := reached.spaced
  have room := spaced.room
  have heap := spaced.heap
  have below := reached.indexStart_le
  have takes := @writeRow_returns_iff p row
  simp only [indexStart, PAGE_SIZE, HEAP_START, ROWS_PER_GROUP, ROW_GROUP_SIZE] at *
  constructor
  · rintro ⟨succeeds, -, -⟩
    rw [takes] at succeeds
    simp only [groupsFor, PAGE_SIZE, ROW_GROUP_SIZE] at succeeds
    omega
  · intro apart
    refine ⟨?_, ?_, spaced.freeSize⟩
    · rw [takes]
      simp only [groupsFor, PAGE_SIZE, ROW_GROUP_SIZE]
      omega
    · simp only [availableSpace, indexStart, groupsFor, PAGE_SIZE, ROWS_PER_GROUP, ROW_GROUP_SIZE]
      omega

theorem reached_new (pageIndex : Nat) (pageType : PageType) : (new pageIndex pageType).Reached :=
  ⟨pageIndex, pageType, [], rfl⟩

theorem accounted_on_new_page : (new 1 .artists).Accounted [1, 2, 3, 4] :=
  (accounted_iff (new 1 .artists) (reached_new 1 .artists) [1, 2, 3, 4]).mpr (.inl (by decide))

/-- Behind fifteen rows of four bytes, a row of 3960 bytes is within the advertised space and refused. -/
theorem page_closed_early :
    ¬ ∀ (p : PageBuilder) (row : Bytes), p.Reached → p.Accounted row := by
  intro always
  have fifteen : ∃ p, (List.replicate 15 [0, 0, 0, 0]).foldlM writeRow (new 1 .artists) = .ok p ∧
      p.heapPos = 100 ∧ p.rowCount = 15 := ⟨_, rfl, rfl, rfl⟩
  obtain ⟨p, ran, heap, count⟩ := fifteen
  have agreed := (always p (List.replicate 3960 0) ⟨1, .artists, _, ran⟩).succeeds
  rw [writeRow_returns_iff, heap, count, List.length_replicate] at agreed
  revert agreed
  decide

end PageBuilder

end BVault.Core
