import BVault.Core.PdbBuild
import BVault.Lib.NextFit

/-!
# How rows fill pages

The row loops pack next-fit: a row that spills over the current page starts the
next one. So the rows alone decide how many pages a table takes up, and a loop
stops early only at a row that an empty page has no room for.
-/

namespace BVault.Core

open Bytes Loops

/-- The bytes an empty page has for a row: the heap without one row group. -/
def MAX_ROW : Nat := PAGE_SIZE - ROW_GROUP_SIZE - HEAP_START

/-- How full a page is. -/
@[ext] structure Fill where
  heapPos : Nat
  rowCount : Nat

namespace Fill

def fresh : Fill := ⟨HEAP_START, 0⟩

def spills (f : Fill) (row : Bytes) : Bool :=
  PageBuilder.indexStart (f.rowCount + 1) < f.heapPos + row.length

/-- One more row, and the padding behind it where there is room. -/
def add (f : Fill) (row : Bytes) : Fill :=
  let heapPos := f.heapPos + row.length
  let padding := (4 - (heapPos - HEAP_START) % 4) % 4
  if 0 < padding ∧ heapPos + padding ≤ PageBuilder.indexStart (f.rowCount + 2) then
    ⟨heapPos + padding, f.rowCount + 1⟩
  else ⟨heapPos, f.rowCount + 1⟩

/-- The pages behind the first one, and how full the last one is. -/
def pack (rows : List Bytes) : Nat × Fill := NextFit.pack fresh spills add rows

@[simp] theorem add_rowCount (f : Fill) (row : Bytes) : (f.add row).rowCount = f.rowCount + 1 := by
  simp only [add]
  split <;> rfl

theorem add_heapPos (f : Fill) (row : Bytes) :
    f.heapPos + row.length ≤ (f.add row).heapPos ∧
      (f.add row).heapPos ≤ f.heapPos + row.length + 3 := by
  simp only [add]
  split <;> simp only <;> omega

theorem heap_le_pack (rows : List Bytes) : HEAP_START ≤ (pack rows).2.heapPos := by
  apply NextFit.pack_invariant (P := fun f : Fill => HEAP_START ≤ f.heapPos)
  · exact Nat.le_refl _
  · intro f row _ heap
    have grown := (f.add_heapPos row).1
    omega

/-- A fresh page takes exactly the rows up to the limit. -/
theorem fresh_spills (row : Bytes) : fresh.spills row = true ↔ MAX_ROW < row.length := by
  rw [spills, decide_eq_true_iff]
  simp only [fresh, PageBuilder.indexStart, MAX_ROW, PAGE_SIZE, HEAP_START, ROWS_PER_GROUP,
    ROW_GROUP_SIZE]
  omega

/-- A row beyond the limit spills over every page. -/
theorem spills_of_long {f : Fill} {row : Bytes} (heap : HEAP_START ≤ f.heapPos)
    (long : MAX_ROW < row.length) : f.spills row = true := by
  rw [spills, decide_eq_true_iff]
  simp only [PageBuilder.indexStart, MAX_ROW, PAGE_SIZE, HEAP_START, ROWS_PER_GROUP,
    ROW_GROUP_SIZE] at *
  omega

end Fill

/-- The data pages a table takes up: one at least. -/
def pagesFor (rows : List Bytes) : Nat := 1 + (Fill.pack rows).1

theorem pagesFor_mono {done rows : List Bytes} (front : done <+: rows) :
    pagesFor done ≤ pagesFor rows :=
  Nat.add_le_add_left (NextFit.pack_mono _ _ _ front) 1

namespace PageBuilder

def fill (p : PageBuilder) : Fill := ⟨p.heapPos, p.rowCount⟩

theorem wouldOverflow_fill (p : PageBuilder) (row : Bytes) :
    p.wouldOverflow row.length = p.fill.spills row := rfl

theorem fill_new (pageIndex : Nat) (pageType : PageType) :
    (new pageIndex pageType).fill = Fill.fresh := rfl

theorem availableSpace_new (pageIndex : Nat) (pageType : PageType) :
    (new pageIndex pageType).availableSpace = MAX_ROW := by
  simp [availableSpace, indexStart, new, MAX_ROW, PAGE_SIZE, HEAP_START, ROWS_PER_GROUP,
    ROW_GROUP_SIZE]

theorem fill_writeRow {p p' : PageBuilder} {row : Bytes} (written : p.writeRow row = .ok p') :
    p'.fill = p.fill.add row := by
  obtain ⟨_, stored, parts, rfl⟩ := writeRow_spec written
  subst parts
  have same : ∀ q : PageBuilder, (¬ q.wouldOverflow q.padding = true) ↔
      q.heapPos + q.padding ≤ indexStart (q.rowCount + 1) := by
    intro q
    rw [wouldOverflow, decide_eq_true_iff, not_lt]
  rw [padHeap, Fill.add]
  simp only [same]
  split <;> rename_i room
  · exact (if_pos room).symm
  · exact (if_neg room).symm

theorem writeRow_returns {p : PageBuilder} {row : Bytes}
    (fits : p.wouldOverflow row.length = false) : ∃ p', p.writeRow row = .ok p' := by
  have written : ∃ result, p.writeHeap row = .ok result := by
    rw [writeHeap, if_neg (by simp [fits])]
    exact ⟨_, rfl⟩
  obtain ⟨⟨offset, q⟩, written⟩ := written
  exact ⟨(q.addRow offset).padHeap, by rw [writeRow, written]⟩

theorem writeRow_fails {p : PageBuilder} {row : Bytes} (spills : p.wouldOverflow row.length = true) :
    p.writeRow row = .error (.pageOverflow row.length p.availableSpace) := by
  rw [writeRow, writeHeap, if_pos spills]

end PageBuilder

/-- One of the rows fits no page, and the error says so. -/
def Refuses {β : Type} (rows : List Bytes) (x : Except Fault β) : Prop :=
  ∃ row ∈ rows, MAX_ROW < row.length ∧ x = .error (.pageOverflow row.length MAX_ROW)

theorem Refuses.bind {β γ : Type} {rows : List Bytes} {x : Except Fault β}
    (refuses : Refuses rows x) (f : β → Except Fault γ) : Refuses rows (x >>= f) := by
  obtain ⟨row, mem, long, failed⟩ := refuses
  refine ⟨row, mem, long, ?_⟩
  rw [failed]
  rfl

/-- A computation that returned and one that is refused differ. -/
theorem Refuses.of_bind {β γ : Type} {rows : List Bytes} {x : Except Fault β} {y : β}
    {f : β → Except Fault γ} (first : x = .ok y) (refuses : Refuses rows (f y)) :
    Refuses rows (x >>= f) := by
  rw [first]
  exact refuses

namespace PdbBuilder

/-- The loop over the rows, after some of them. -/
structure Packed (first : Nat) (done : List Bytes) (s : Paging) : Prop where
  fill : s.currentPage.fill = (Fill.pack done).2
  next : s.nextIdx = first + pagesFor done

section
variable {pageType : PageType} {first : Nat} {done : List Bytes} {s s' : Paging} {row : Bytes}

theorem packed_start (pageType : PageType) (first : Nat) : Packed first []
    { pages := [], currentPage := PageBuilder.new first pageType, nextIdx := first + 1 } :=
  ⟨rfl, rfl⟩

/-- A row that returns is within the limit, and the page is as full as the packing says. -/
theorem pageRow_packed (packed : Packed first done s) (ran : pageRow pageType s row = .ok s') :
    Packed first (done ++ [row]) s' ∧ row.length ≤ MAX_ROW := by
  have fill := packed.fill
  have next := packed.next
  have pack : Fill.pack (done ++ [row]) = NextFit.place Fill.fresh Fill.spills Fill.add
      (Fill.pack done) row := NextFit.pack_snoc _ _ _ done row
  obtain ⟨turned, turn, ran⟩ := of_bind ran
  obtain ⟨page, written, ran⟩ := of_bind ran
  cases ran
  have room := (PageBuilder.writeRow_spec written).1
  have filled := PageBuilder.fill_writeRow written
  rw [PageBuilder.wouldOverflow_fill] at room
  rw [turnPage, PageBuilder.wouldOverflow_fill, fill] at turn
  split at turn
  · rename_i spilled
    obtain ⟨after, added, turn⟩ := of_bind turn
    obtain ⟨rfl, _⟩ := addU32_spec added
    cases turn
    refine ⟨⟨?_, ?_⟩, ?_⟩
    · rw [pack, NextFit.place, if_pos spilled]
      exact filled
    · rw [pagesFor, pack, NextFit.place, if_pos spilled]
      simp only [pagesFor] at next ⊢
      omega
    · by_contra long
      rw [PageBuilder.fill_new, (Fill.fresh_spills row).mpr (by omega)] at room
      cases room
  · rename_i fits
    cases turn
    refine ⟨⟨?_, ?_⟩, ?_⟩
    · rw [pack, NextFit.place, if_neg fits, ← fill]
      exact filled
    · rw [pagesFor, pack, NextFit.place, if_neg fits]
      exact next
    · by_contra long
      exact fits (Fill.spills_of_long (Fill.heap_le_pack done) (by omega))

/-- While page indices last, a row fails exactly when it is beyond the limit. -/
theorem pageRow_result (pageType : PageType) (packed : Packed first done s)
    (few : first + pagesFor (done ++ [row]) < 2 ^ 32) :
    (∃ s', pageRow pageType s row = .ok s') ∨
      MAX_ROW < row.length ∧
        pageRow pageType s row = .error (.pageOverflow row.length MAX_ROW) := by
  have pack : Fill.pack (done ++ [row]) = NextFit.place Fill.fresh Fill.spills Fill.add
      (Fill.pack done) row := NextFit.pack_snoc _ _ _ done row
  have next := packed.next
  rw [pageRow, turnPage, PageBuilder.wouldOverflow_fill, packed.fill]
  split
  · rename_i spilled
    rw [pagesFor, pack, NextFit.place, if_pos spilled] at few
    rw [pagesFor] at next
    have added : addU32 s.nextIdx 1 = .ok (s.nextIdx + 1) := addU32_ok (by simp only at few; omega)
    rw [added]
    rcases Nat.lt_or_ge MAX_ROW row.length with long | small
    · have over_ : (PageBuilder.new s.nextIdx pageType).wouldOverflow row.length = true :=
        (Fill.fresh_spills row).mpr long
      have failed := PageBuilder.writeRow_fails over_
      refine .inr ⟨long, ?_⟩
      rw [PageBuilder.availableSpace_new] at failed
      simp only [bind, Except.bind, failed]
    · have fits : (PageBuilder.new s.nextIdx pageType).wouldOverflow row.length = false := by
        rw [PageBuilder.wouldOverflow_fill, PageBuilder.fill_new, Bool.eq_false_iff]
        intro spilled
        have long := (Fill.fresh_spills row).mp spilled
        omega
      obtain ⟨page, written⟩ := PageBuilder.writeRow_returns fits
      exact .inl ⟨_, bind_ok rfl (bind_ok written rfl)⟩
  · rename_i fits
    have room : s.currentPage.wouldOverflow row.length = false := by
      rw [PageBuilder.wouldOverflow_fill, packed.fill]
      simpa using fits
    obtain ⟨page, written⟩ := PageBuilder.writeRow_returns room
    exact .inl ⟨_, bind_ok rfl (bind_ok written rfl)⟩

end

theorem buildRowPages_packed {pageType : PageType} {rows : List Bytes} {first nextIdx : Nat}
    {pages : List Bytes} {hasData : Bool}
    (built : buildRowPages pageType rows first = .ok (pages, hasData, nextIdx)) :
    nextIdx = first + pagesFor rows ∧ ∀ row ∈ rows, row.length ≤ MAX_ROW := by
  rw [buildRowPages] at built
  split at built
  · rename_i none_
    subst none_
    obtain ⟨after, added, built⟩ := of_bind built
    obtain ⟨rfl, _⟩ := addU32_spec added
    cases built
    exact ⟨rfl, fun _ mem => absurd mem List.not_mem_nil⟩
  · obtain ⟨after, added, built⟩ := of_bind built
    obtain ⟨rfl, _⟩ := addU32_spec added
    obtain ⟨s, ran, built⟩ := of_bind built
    cases built
    obtain ⟨packed, small⟩ := foldlM_invariant (f := pageRow pageType)
      (P := fun done s => Packed first done s ∧ ∀ row ∈ done, row.length ≤ MAX_ROW)
      ⟨packed_start pageType first, fun _ mem => absurd mem List.not_mem_nil⟩ (by
        rintro done row s s' ⟨packed, small⟩ _ stepped
        obtain ⟨packed', within⟩ := pageRow_packed packed stepped
        refine ⟨packed', ?_⟩
        intro other mem
        rcases List.mem_append.mp mem with earlier | last
        · exact small other earlier
        · rw [List.mem_singleton.mp last]
          exact within) ran
    exact ⟨packed.next, small⟩

theorem buildRowPages_result (pageType : PageType) {rows : List Bytes} {first : Nat}
    (few : first + pagesFor rows < 2 ^ 32) :
    (∃ pages hasData nextIdx, buildRowPages pageType rows first = .ok (pages, hasData, nextIdx)) ∨
      Refuses rows (buildRowPages pageType rows first) := by
  have one : 1 ≤ pagesFor rows := Nat.le_add_right 1 _
  rw [buildRowPages]
  split
  · exact .inl ⟨_, _, _, bind_ok (addU32_ok (by omega)) rfl⟩
  · have added : addU32 first 1 = .ok (first + 1) := addU32_ok (by omega)
    have loop := foldlM_cases (f := pageRow pageType)
      (P := fun done s => Packed first done s)
      (Q := fun row fault => MAX_ROW < row.length ∧ fault = .pageOverflow row.length MAX_ROW)
      rows (packed_start pageType first) (by
        intro done row s packed here
        have within := pagesFor_mono here
        have few' : first + pagesFor (done ++ [row]) < 2 ^ 32 := by omega
        rcases pageRow_result pageType packed few' with ⟨s', stepped⟩ | ⟨long, failed⟩
        · exact .inl ⟨s', stepped, (pageRow_packed packed stepped).1⟩
        · exact .inr ⟨_, failed, long, rfl⟩)
    rcases loop with ⟨s, ran, _⟩ | ⟨row, mem, fault, failed, long, rfl⟩
    · exact .inl ⟨_, _, _, bind_ok added (bind_ok ran rfl)⟩
    · refine .inr (Refuses.of_bind added ?_)
      refine Refuses.bind ?_ _
      exact ⟨row, mem, long, failed⟩

end PdbBuilder

end BVault.Core
