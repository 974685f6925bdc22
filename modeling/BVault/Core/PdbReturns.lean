import Mathlib.Algebra.Order.BigOperators.Group.List
import Mathlib.Algebra.Order.Group.Nat
import BVault.Core.PdbPacking

/-!
# When a build returns

A build returns exactly when every row fits an empty page and `u32` counts the
pages and the positions in the playlists. Where `u32` is enough, the error is
that of a row which fits no page.
-/

namespace BVault.Core

open Bytes Loops

namespace PdbBuilder

/-- Rows that are packed without a turn of the page are written. -/
theorem writeRows_return (index : Nat) (pageType : PageType) {rows : List Bytes}
    (one : pagesFor rows = 1) :
    ∃ page, rows.foldlM PageBuilder.writeRow (PageBuilder.new index pageType) = .ok page := by
  obtain ⟨page, ran, _⟩ := foldlM_returns (f := PageBuilder.writeRow)
    (P := fun done p => p.fill = (Fill.pack done).2) (s := PageBuilder.new index pageType) rows
    rfl (by
      intro done row p fill here
      have few := pagesFor_mono here
      have pack : Fill.pack (done ++ [row]) = NextFit.place Fill.fresh Fill.spills Fill.add
          (Fill.pack done) row := NextFit.pack_snoc _ _ _ done row
      rw [one, pagesFor, pack, NextFit.place] at few
      rw [pack, NextFit.place]
      split
      · rename_i spilled
        rw [if_pos spilled] at few
        simp only at few
        omega
      · rename_i fits
        rw [← fill] at fits ⊢
        rw [← PageBuilder.wouldOverflow_fill, Bool.not_eq_true] at fits
        obtain ⟨p', written⟩ := PageBuilder.writeRow_returns fits
        exact ⟨p', written, PageBuilder.fill_writeRow written⟩)
  exact ⟨page, ran⟩

/-- The tables with a fixed content fit one page. -/
theorem fixed_fits (b : PdbBuilder) {pageType : PageType} (fixed : fixedContent pageType = true) :
    pagesFor (b.rows pageType) = 1 ∧ ∀ row ∈ b.rows pageType, row.length ≤ MAX_ROW := by
  have all : ∀ pageType ∈ PageType.allTypes, fixedContent pageType = true →
      pagesFor (PdbBuilder.new.rows pageType) = 1 ∧
        ∀ row ∈ PdbBuilder.new.rows pageType, row.length ≤ MAX_ROW := by decide +kernel
  have facts := all pageType pageType.mem_allTypes fixed
  cases pageType with
  | colors => exact facts
  | columns => exact facts
  | unknown17 => exact facts
  | unknown18 => exact facts
  | history => exact facts
  | _ => cases fixed

section
variable {b : PdbBuilder} {pageType : PageType} {first sequence nextIdx : Nat}

theorem buildDataPages_packed {pages : List Bytes} {hasData : Bool}
    (built : b.buildDataPages pageType first = .ok (pages, hasData, nextIdx)) :
    nextIdx = first + pagesFor (b.rows pageType) ∧
      ∀ row ∈ b.rows pageType, row.length ≤ MAX_ROW := by
  have positioned : pageType = .playlistEntries → b.Positioned := by
    rintro rfl
    exact positioned_of_built built
  rw [buildDataPages_eq pageType positioned] at built
  split at built
  · rename_i fixed
    obtain ⟨one, small⟩ := b.fixed_fits fixed
    obtain ⟨after, added, built⟩ := of_bind built
    obtain ⟨rfl, _⟩ := addU32_spec added
    obtain ⟨page, _, built⟩ := of_bind built
    cases built
    exact ⟨by rw [one], small⟩
  · exact buildRowPages_packed built

theorem buildDataPages_result (positioned : b.Positioned)
    (few : first + pagesFor (b.rows pageType) < 2 ^ 32) :
    (∃ pages hasData nextIdx, b.buildDataPages pageType first = .ok (pages, hasData, nextIdx)) ∨
      Refuses (b.rows pageType) (b.buildDataPages pageType first) := by
  rw [buildDataPages_eq pageType (fun _ => positioned)]
  split
  · rename_i fixed
    have one := (b.fixed_fits fixed).1
    obtain ⟨page, ran⟩ := writeRows_return first pageType one
    exact .inl ⟨_, _, _, bind_ok (addU32_ok (by omega)) (bind_ok ran rfl)⟩
  · exact buildRowPages_result pageType few

theorem patchSequence_returns {pages : List Bytes} (few : sequence + pages.length < 2 ^ 32) :
    ∃ pages' sequence', patchSequence pages sequence = .ok (pages', sequence') ∧
      sequence' ≤ sequence + pages.length := by
  induction pages generalizing sequence with
  | nil => exact ⟨[], sequence, rfl, le_refl _⟩
  | cons page pages ih =>
    rw [List.length_cons] at few ⊢
    rw [patchSequence]
    split
    · have room : sequence + 1 + pages.length < 2 ^ 32 := by omega
      obtain ⟨pages', sequence', patched, bound⟩ := ih room
      exact ⟨_, _, bind_ok (addU32_ok (by omega)) (bind_ok patched rfl), by omega⟩
    · obtain ⟨pages', sequence', patched, bound⟩ := ih (by omega : sequence + pages.length < 2 ^ 32)
      exact ⟨_, _, bind_ok patched rfl, by omega⟩

theorem buildTableWithSequence_packed {result : TableBuildResult}
    (built : b.buildTableWithSequence pageType first sequence = .ok (result, nextIdx)) :
    nextIdx = first + (1 + pagesFor (b.rows pageType)) ∧
      ∀ row ∈ b.rows pageType, row.length ≤ MAX_ROW := by
  obtain ⟨pages, hasData, looped, _⟩ := buildTableWithSequence_parts built
  obtain ⟨next, small⟩ := buildDataPages_packed looped
  exact ⟨by omega, small⟩

theorem buildTableWithSequence_result (positioned : b.Positioned)
    (few : first + (1 + pagesFor (b.rows pageType)) < 2 ^ 32)
    (fewer : sequence + pagesFor (b.rows pageType) < 2 ^ 32) :
    (∃ result nextIdx, b.buildTableWithSequence pageType first sequence = .ok (result, nextIdx) ∧
      result.newSequence ≤ sequence + pagesFor (b.rows pageType)) ∨
      Refuses (b.rows pageType) (b.buildTableWithSequence pageType first sequence) := by
  have added : addU32 first 1 = .ok (first + 1) := addU32_ok (by omega)
  have room : first + 1 + pagesFor (b.rows pageType) < 2 ^ 32 := by omega
  rcases buildDataPages_result positioned room with ⟨pages, hasData, nextIdx, looped⟩ | refuses
  · obtain ⟨chunks, _, loop⟩ := buildDataPages_spec looped
    have next := (buildDataPages_packed looped).1
    have count := loop.next
    have length : pages.length = max 1 chunks.length := by
      by_cases none_ : chunks = []
      · rw [loop.empty none_, none_]
        rfl
      · have positive : 0 < chunks.length := List.length_pos_iff.mpr none_
        rw [(loop.full none_).length]
        omega
    obtain ⟨pages', sequence', patched, bound⟩ :=
      patchSequence_returns (by omega : sequence + pages.length < 2 ^ 32)
    left
    refine ⟨_, _, bind_ok added (bind_ok looped (bind_ok patched rfl)), ?_⟩
    simp only
    omega
  · exact .inr (Refuses.of_bind added (refuses.bind _))

end

/-- The pages of these tables, each behind an index page. -/
def tablePages (b : PdbBuilder) (types : List PageType) : Nat :=
  (types.map (fun pageType => 1 + pagesFor (b.rows pageType))).sum

theorem tablePages_snoc (b : PdbBuilder) (types : List PageType) (pageType : PageType) :
    b.tablePages (types ++ [pageType]) =
      b.tablePages types + (1 + pagesFor (b.rows pageType)) := by
  simp [tablePages]

theorem tablePages_mono (b : PdbBuilder) {types all : List PageType} (front : types <+: all) :
    b.tablePages types ≤ b.tablePages all := by
  obtain ⟨more, rfl⟩ := front
  simp [tablePages]

/-- The tables with rows. -/
def fullTables (b : PdbBuilder) : Nat :=
  PageType.allTypes.countP (fun pageType => !(b.rows pageType).isEmpty)

/-- `u32` counts the pages, with those that the chains end in, and the positions. -/
structure Countable (b : PdbBuilder) : Prop where
  pages : 1 + b.tablePages PageType.allTypes + b.fullTables < 2 ^ 32
  positioned : b.Positioned

section
variable {b : PdbBuilder}

theorem assembleTable_packed {s s' : Assembly} {pageType : PageType}
    (stepped : b.assembleTable s pageType = .ok s') :
    s'.nextPageIndex = s.nextPageIndex + (1 + pagesFor (b.rows pageType)) ∧
      ∀ row ∈ b.rows pageType, row.length ≤ MAX_ROW := by
  obtain ⟨⟨result, nextIdx⟩, built, stepped⟩ := of_bind stepped
  cases stepped
  exact buildTableWithSequence_packed built

/-- There are no more sequence numbers than pages. -/
theorem assembleTable_result (positioned : b.Positioned) {s : Assembly} {pageType : PageType}
    (few : s.nextPageIndex + (1 + pagesFor (b.rows pageType)) < 2 ^ 32)
    (fewer : s.sequence ≤ s.nextPageIndex + 1) :
    (∃ s', b.assembleTable s pageType = .ok s' ∧ s'.sequence ≤ s'.nextPageIndex + 1) ∨
      Refuses (b.rows pageType) (b.assembleTable s pageType) := by
  have fewer' : s.sequence + pagesFor (b.rows pageType) < 2 ^ 32 := by omega
  rcases buildTableWithSequence_result positioned few fewer' with
    ⟨result, nextIdx, built, bound⟩ | refuses
  · have next := (buildTableWithSequence_packed built).1
    have step : ∃ s', b.assembleTable s pageType = .ok s' ∧ s'.nextPageIndex = nextIdx ∧
        s'.sequence = result.newSequence := ⟨_, bind_ok built rfl, rfl, rfl⟩
    obtain ⟨s', stepped, index, sequence⟩ := step
    exact .inl ⟨s', stepped, by omega⟩
  · exact .inr (refuses.bind _)

theorem assembleTables_packed {s : Assembly} (ran : PageType.allTypes.foldlM b.assembleTable
      { nextPageIndex := 1, allPages := [zeroPage], tableInfos := [], sequence := 2 } = .ok s) :
    s.nextPageIndex = 1 + b.tablePages PageType.allTypes ∧
      ∀ pageType ∈ PageType.allTypes, ∀ row ∈ b.rows pageType, row.length ≤ MAX_ROW := by
  refine foldlM_invariant (P := fun done s => s.nextPageIndex = 1 + b.tablePages done ∧
    ∀ pageType ∈ done, ∀ row ∈ b.rows pageType, row.length ≤ MAX_ROW)
    ⟨rfl, fun _ mem => absurd mem List.not_mem_nil⟩ ?_ ran
  rintro done pageType s s' ⟨next, small⟩ _ stepped
  obtain ⟨next', small'⟩ := assembleTable_packed stepped
  constructor
  · rw [tablePages_snoc]
    omega
  · intro other mem
    rcases List.mem_append.mp mem with earlier | last
    · exact small other earlier
    · rw [List.mem_singleton.mp last]
      exact small'

theorem assembleTables_result (countable : b.Countable) :
    (∃ s, PageType.allTypes.foldlM b.assembleTable
      { nextPageIndex := 1, allPages := [zeroPage], tableInfos := [], sequence := 2 } = .ok s) ∨
    ∃ pageType, Refuses (b.rows pageType) (PageType.allTypes.foldlM b.assembleTable
      { nextPageIndex := 1, allPages := [zeroPage], tableInfos := [], sequence := 2 }) := by
  have pages := countable.pages
  have loop := foldlM_cases (f := b.assembleTable)
    (P := fun done s => s.nextPageIndex = 1 + b.tablePages done ∧
      s.sequence ≤ s.nextPageIndex + 1)
    (Q := fun pageType fault => ∃ row ∈ b.rows pageType, MAX_ROW < row.length ∧
      fault = .pageOverflow row.length MAX_ROW)
    (s := { nextPageIndex := 1, allPages := [zeroPage], tableInfos := [], sequence := 2 })
    PageType.allTypes ⟨rfl, le_refl _⟩ (by
      rintro done pageType s ⟨next, sequence⟩ here
      have within := b.tablePages_mono here
      rw [tablePages_snoc] at within
      have few : s.nextPageIndex + (1 + pagesFor (b.rows pageType)) < 2 ^ 32 := by omega
      rcases assembleTable_result countable.positioned few sequence with
        ⟨s', stepped, bound⟩ | ⟨row, mem, long, failed⟩
      · have next' := (assembleTable_packed stepped).1
        refine .inl ⟨s', stepped, ?_, bound⟩
        rw [tablePages_snoc]
        omega
      · exact .inr ⟨_, failed, row, mem, long, rfl⟩)
  rcases loop with ⟨s, ran, _⟩ | ⟨pageType, _, fault, failed, row, mem, long, rfl⟩
  · exact .inl ⟨s, ran⟩
  · exact .inr ⟨pageType, row, mem, long, failed⟩

end

/-- The tables with data are those with rows. -/
theorem Assembled.dataTables {b : PdbBuilder} {s : Assembly} {plan : Plan}
    (assembled : Assembled b PageType.allTypes s plan) : Plan.dataTables plan = b.fullTables := by
  have same : ∀ chunks ∈ plan, (!chunks.isEmpty) = !chunks.flatten.isEmpty := by
    intro chunks mem
    obtain ⟨i, inside, rfl⟩ := List.mem_iff_getElem.mp mem
    have inside' : i < PageType.allTypes.length := by
      rw [← assembled.types]
      exact inside
    have table := assembled.tables i _ _ (List.getElem?_eq_getElem inside')
      (List.getElem?_eq_getElem inside)
    rw [Bool.eq_iff_iff]
    simp only [Bool.not_eq_true', List.isEmpty_eq_false_iff]
    exact not_congr table.flatten_eq_nil
  have rows := assembled.rows
  calc
    Plan.dataTables plan = plan.countP (fun chunks => !chunks.flatten.isEmpty) :=
      List.countP_congr (fun chunks mem => by rw [same chunks mem])
    _ = (plan.map List.flatten).countP (fun rows => !rows.isEmpty) := by
      rw [List.countP_map]
      rfl
    _ = b.fullTables := by
      rw [rows, List.countP_map]
      rfl

theorem pointTables_return {b : PdbBuilder} {s : Assembly} {plan : Plan}
    (assembled : Assembled b PageType.allTypes s plan)
    (few : plan.pageCount + Plan.dataTables plan < 2 ^ 32) :
    ∃ pointers, s.tableInfos.foldlM pointTable
      { header := FileHeader.new, phantom := s.nextPageIndex, patchTargets := [] } =
        .ok pointers := by
  have small := assembled.nextSmall
  rw [assembled.next] at small ⊢
  obtain ⟨pointers, ran, _⟩ := foldlM_returns (f := pointTable)
    (P := fun done pointers => Pointed PageType.allTypes plan done.length pointers)
    (s := { header := FileHeader.new, phantom := plan.pageCount, patchTargets := [] })
    s.tableInfos (pointed_start PageType.allTypes small) (by
      intro done info s₁ pointed consumed
      obtain ⟨pageType, chunks, here, there, rfl⟩ :=
        assembled.infoAt (getElem?_of_consumed consumed)
      have before := (List.getElem?_eq_some_iff.mp there).1
      have phantom := pointed.phantom
      have placed := Plan.firstPage_inside there
      rw [Plan.width] at placed
      have returned : ∃ s₂, pointTable s₁
          ⟨pageType, plan.firstPage done.length, plan.firstPage done.length + chunks.length⟩ =
            .ok s₂ := by
        rw [pointTable]
        split
        · rename_i data
          have some_ : chunks.isEmpty = false := by
            cases chunks with
            | nil => exact absurd data (Nat.lt_irrefl _)
            | cons => rfl
          have fewer := Plan.dataTables_take_lt there some_ before
          rw [List.take_length] at fewer
          exact ⟨_, bind_ok (addU32_ok (by omega)) rfl⟩
        · exact ⟨_, bind_ok (addU32_ok (by simp only; omega)) rfl⟩
      obtain ⟨s₂, stepped⟩ := returned
      rw [List.length_append, List.length_singleton]
      exact ⟨s₂, stepped, pointTable_spec pointed here there stepped⟩)
  exact ⟨pointers, ran⟩

theorem patchTargets_return {b : PdbBuilder} {s : Assembly} {plan : Plan} {pointers : Pointers}
    (assembled : Assembled b PageType.allTypes s plan)
    (pointed : Pointed PageType.allTypes plan plan.length pointers) :
    ∃ allPages, pointers.patchTargets.foldlM patchTarget s.allPages = .ok allPages := by
  obtain ⟨allPages, patching, _⟩ := foldlM_returns (f := patchTarget)
    (P := fun _ pages => pages.length = plan.pageCount) (s := s.allPages)
    pointers.patchTargets assembled.length (by
      intro done target pages length consumed
      obtain ⟨i, _, chunks, there, _, rfl⟩ :=
        (pointed.targets target).mp (mem_of_consumed consumed)
      have inside := Plan.firstPage_inside there
      rw [Plan.width] at inside
      rw [patchTarget, List.getElem?_eq_getElem (by simp only; omega)]
      exact ⟨_, rfl, by rw [List.length_set, length]⟩)
  exact ⟨allPages, patching⟩

/-- Where `u32` is enough, a build returns unless a row fits no page. -/
theorem build_result {b : PdbBuilder} (countable : b.Countable) :
    (∃ file, b.build = .ok file) ∨ ∃ pageType, Refuses (b.rows pageType) b.build := by
  rcases assembleTables_result countable with ⟨s, assembly⟩ | ⟨pageType, refuses⟩
  · obtain ⟨plan, assembled⟩ := assembleTables_spec assembly
    have pages := countable.pages
    rw [← (assembleTables_packed assembly).1, assembled.next, ← assembled.dataTables] at pages
    obtain ⟨pointers, pointing⟩ := pointTables_return assembled pages
    obtain ⟨allPages, patching⟩ :=
      patchTargets_return assembled (pointTables_spec assembled pointing)
    exact .inl ⟨_, bind_ok assembly (bind_ok pointing (bind_ok patching rfl))⟩
  · exact .inr ⟨pageType, refuses.bind _⟩

/-- A build that returned had rows within the limit only, and enough of `u32`. -/
theorem build_packed {b : PdbBuilder} {file : Bytes} (built : b.build = .ok file) :
    b.Countable ∧ ∀ pageType, ∀ row ∈ b.rows pageType, row.length ≤ MAX_ROW := by
  obtain ⟨s, assembly, built⟩ := of_bind built
  obtain ⟨pointers, pointing, _⟩ := of_bind built
  obtain ⟨next, small⟩ := assembleTables_packed assembly
  obtain ⟨plan, assembled⟩ := assembleTables_spec assembly
  have pointed := pointTables_spec assembled pointing
  have phantom := pointed.phantom
  have fits := pointed.small
  rw [List.take_length, assembled.dataTables, ← assembled.next, next] at phantom
  refine ⟨⟨by omega, ?_⟩, fun pageType => small pageType pageType.mem_allTypes⟩
  obtain ⟨t, t', stepped⟩ := foldlM_each assembly (PageType.mem_allTypes .playlistEntries)
  obtain ⟨⟨result, nextIdx⟩, built, _⟩ := of_bind stepped
  obtain ⟨pages, hasData, looped, _⟩ := buildTableWithSequence_parts built
  exact positioned_of_built looped

/-- A bound on the pages behind a table's first one: rows of at most 100 bytes go two to a page
at least. -/
def furtherPages (rows : List Bytes) : Nat :=
  if ∀ row ∈ rows, row.length ≤ 100 then rows.length / 2 else rows.length

theorem furtherPages_le (rows : List Bytes) : furtherPages rows ≤ rows.length := by
  rw [furtherPages]
  split
  · omega
  · exact le_refl _

/-- A short row only turns a page that has two rows. -/
theorem pagesFor_le (rows : List Bytes) : pagesFor rows ≤ 1 + furtherPages rows := by
  rw [pagesFor, furtherPages]
  split
  · rename_i short
    have step : ∀ f : Fill, ∀ row ∈ rows, f.heapPos ≤ HEAP_START + 103 * f.rowCount →
        (f.add row).heapPos ≤ HEAP_START + 103 * (f.add row).rowCount := by
      intro f row mem heap
      have grown := (f.add_heapPos row).2
      have count := f.add_rowCount row
      have small := short row mem
      omega
    have two : ∀ f : Fill, ∀ row ∈ rows, f.heapPos ≤ HEAP_START + 103 * f.rowCount →
        f.spills row = true → 2 ≤ f.rowCount := by
      intro f row mem heap spilled
      have small := short row mem
      rw [Fill.spills, decide_eq_true_iff] at spilled
      simp only [PageBuilder.indexStart, PAGE_SIZE, HEAP_START, ROWS_PER_GROUP,
        ROW_GROUP_SIZE] at *
      omega
    have full := NextFit.pack_full Fill.fresh Fill.spills Fill.add
      (P := fun f : Fill => f.heapPos ≤ HEAP_START + 103 * f.rowCount) (le_refl _) step rfl
      Fill.add_rowCount two
    rw [Fill.pack]
    omega
  · exact Nat.add_le_add_left (NextFit.pack_le_length _ _ _ rows) 1

/-- Rows that fit a page and pages that fit the counters. -/
structure Modest (b : PdbBuilder) : Prop where
  small : ∀ pageType, ∀ row ∈ b.rows pageType, row.length ≤ MAX_ROW
  few : 1000 + (PageType.allTypes.map (fun pageType => (b.rows pageType).length)).sum < 2 ^ 32

/-- Rows that fit a page, pages that fit the counters, and positions that fit an entry. -/
structure Spacious (b : PdbBuilder) : Prop where
  small : ∀ pageType, ∀ row ∈ b.rows pageType, row.length ≤ MAX_ROW
  few : 1000 + (PageType.allTypes.map (fun pageType => furtherPages (b.rows pageType))).sum <
    2 ^ 32
  positions : ∀ entry ∈ b.playlistEntries, entry.1 + 1 < 2 ^ 32

/-- A position in a playlist is below the number of entries. -/
theorem position_lt {b : PdbBuilder} {entry : Nat × UInt32 × UInt32}
    (mem : entry ∈ b.playlistEntries) : entry.1 < b.playlistEntries.length := by
  obtain ⟨p, playlist, inside⟩ := List.mem_flatMap.mp mem
  obtain ⟨⟨trackId, idx⟩, listed, rfl⟩ := List.mem_map.mp inside
  obtain ⟨_, bound, _⟩ := List.mem_zipIdx listed
  rw [Nat.zero_add] at bound
  refine lt_of_lt_of_le bound ?_
  have part : (p.trackIds.zipIdx.map fun listed => (listed.2, listed.1, p.id)).Sublist
      b.playlistEntries := by
    rw [playlistEntries, List.flatMap_def]
    exact List.sublist_flatten_of_mem (List.mem_map.mpr ⟨p, playlist, rfl⟩)
  have length := part.length_le
  rwa [List.length_map, List.length_zipIdx] at length

/-- A builder that is at hand is checked by counting. -/
theorem modest_of_all {b : PdbBuilder}
    (small : PageType.allTypes.all (fun pageType =>
      (b.rows pageType).all (fun row => row.length ≤ MAX_ROW)) = true)
    (few : 1000 + (PageType.allTypes.map (fun pageType => (b.rows pageType).length)).sum < 2 ^ 32) :
    Modest b := by
  refine ⟨?_, few⟩
  intro pageType row mem
  have rows := List.all_eq_true.mp (List.all_eq_true.mp small pageType pageType.mem_allTypes)
  exact of_decide_eq_true (rows row mem)

theorem Modest.few_rows {b : PdbBuilder} (modest : Modest b) (pageType : PageType) :
    1000 + (b.rows pageType).length < 2 ^ 32 := by
  have few := modest.few
  have part := List.le_sum_of_mem (List.mem_map_of_mem
    (f := fun pageType => (b.rows pageType).length) pageType.mem_allTypes)
  omega

theorem Modest.spacious {b : PdbBuilder} (modest : Modest b) : Spacious b where
  small := modest.small
  few := by
    have few := modest.few
    have less : (PageType.allTypes.map (fun pageType => furtherPages (b.rows pageType))).sum ≤
        (PageType.allTypes.map (fun pageType => (b.rows pageType).length)).sum :=
      List.sum_le_sum (fun pageType _ => furtherPages_le (b.rows pageType))
    omega
  positions := by
    intro entry mem
    have rows := modest.few_rows .playlistEntries
    have bound := position_lt mem
    rw [PdbBuilder.rows, List.length_map] at rows
    omega

theorem Spacious.countable {b : PdbBuilder} (spacious : Spacious b) : b.Countable where
  pages := by
    have few := spacious.few
    have full : b.fullTables ≤ PageType.allTypes.length := List.countP_le_length
    have pages : b.tablePages PageType.allTypes ≤
        (PageType.allTypes.map (fun pageType => 2 + furtherPages (b.rows pageType))).sum := by
      apply List.sum_le_sum
      intro pageType _
      have bound := pagesFor_le (b.rows pageType)
      omega
    have types : PageType.allTypes.length = 20 := rfl
    rw [List.sum_map_add, List.map_const', List.sum_replicate, types] at pages
    have twice : 20 • 2 = 40 := rfl
    omega
  positioned := spacious.positions

/-- Every builder with rows that fit a page, on few enough pages, can be built. -/
theorem build_returns_spacious {b : PdbBuilder} (spacious : Spacious b) :
    ∃ file, b.build = .ok file := by
  rcases build_result spacious.countable with returned | ⟨pageType, row, mem, long, _⟩
  · exact returned
  · have small := spacious.small pageType row mem
    omega

/-- Every builder with rows that fit a page, and not too many, can be built. -/
theorem build_returns {b : PdbBuilder} (modest : Modest b) : ∃ file, b.build = .ok file :=
  build_returns_spacious modest.spacious

theorem buildAfter_returns {calls : List Call} {b : PdbBuilder} (ran : run calls = .ok b)
    (modest : Modest b) : ∃ file, buildAfter calls = .ok file := by
  obtain ⟨file, built⟩ := build_returns modest
  exact ⟨file, bind_ok ran built⟩

/-- A track with all it can have. -/
def fullTrack : TrackAnalysis where
  id := 7
  filePath := "Contents/Artist/Title.mp3"
  title := "Title"
  artist := "Artist"
  album := some "Album"
  genre := some "House"
  label := some "Label"
  durationSecs := 180.0
  sampleRate := 44100
  bitDepth := 16
  bitrate := 320
  bpm := 128.0
  key := some ⟨9, false⟩
  fileSize := 5000000
  year := some 2024
  comment := none
  trackNumber := some 1

/-- Two tracks of one artist, the second one without most values, and a playlist in a folder. -/
def smallHistory : List Call :=
  [.addTrackWithArtwork fullTrack "PIONEER/A.DAT" (some "PIONEER/Artwork/a.jpg"),
    .addTrack { fullTrack with id := 8, album := none, genre := none, label := some "", key := none }
      "PIONEER/B.DAT",
    .addFolder 1 0 "Sets",
    .addPlaylist 2 1 "Warm-up" [8, 7]]

theorem smallHistory_modest : ∃ b, run smallHistory = .ok b ∧ Modest b := by
  refine ⟨_, rfl, modest_of_all ?_ ?_⟩
  · decide +kernel
  · decide +kernel

theorem smallHistory_returns : ∃ file, buildAfter smallHistory = .ok file := by
  obtain ⟨b, ran, modest⟩ := smallHistory_modest
  exact buildAfter_returns ran modest

end PdbBuilder

end BVault.Core
