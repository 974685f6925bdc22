import BVault.Core.Validate

/-!
# The validator on a built file

The chain of a table with data ends in a page beyond the file, that of an empty
table runs over its reserved page into the header page and ends beyond the file
as well: the rows are counted right, as far as `u32` goes. But the header's next
unused page lies behind those chain ends, which the validator takes for an error.
-/

namespace BVault.Core

open Bytes Loops

namespace FileHeader

/-- The header page carries no row counts. -/
theorem uncounted {h : FileHeader} (few : h.tables.length ≤ 20) : readLE h.toPage 24 3 = 0 := by
  rw [readLE, slice_gap few (by decide) (by decide)]
  decide

end FileHeader

/-- The header slice is the first page. -/
theorem headerWord_read (file : Bytes) (off : Nat) :
    readLE (file.take PAGE_SIZE) off 4 = Reader.headerWord file off := by
  rw [Reader.headerWord, page, slice, Nat.zero_mul, List.drop_zero]

namespace Realizes

variable {b : PdbBuilder} {plan : Plan} {header : FileHeader} {file : Bytes}
  (realizes : Realizes b plan header file)
include realizes

theorem pages_small : plan.pageCount < 2 ^ 32 := by
  have small := realizes.small
  omega

/-- The colours are always there. -/
theorem some_data : 0 < Plan.dataTables plan := by
  obtain ⟨pageType, chunks, here, there, rows⟩ := realizes.table (by decide : 6 < 20)
  obtain rfl : pageType = .colors := (Option.some.inj here).symm
  refine List.countP_pos_iff.mpr ⟨chunks, List.mem_of_getElem? there, ?_⟩
  cases chunks with
  | nil =>
    have none_ : PdbBuilder.new.rows .colors = [] := rows.symm
    exact absurd none_ (by decide)
  | cons rows chunks => rfl

/-- No page of the file is the number that stands for none. -/
theorem page_number {k : Nat} (inside : k < plan.pageCount) :
    k < plan.pageCount ∧ k ≠ 0xFFFFFFFF := by
  have small := realizes.small
  have data := realizes.some_data
  omega

section
variable {i : Nat} {pageType : PageType} {chunks : List (List Bytes)}
  (here : PageType.allTypes[i]? = some pageType) (there : plan[i]? = some chunks)
include here there

/-- The data pages from the `j`-th on lead to the table's chain end. -/
theorem leads_data {j : Nat} (inside : j ≤ chunks.length) (positive : 0 < j) :
    Leads file (Reader.nextPage file (plan.firstPage i + (j - 1)))
      (List.range' (plan.firstPage i + j) (chunks.length + 1 - j)) (plan.candidate i chunks) := by
  induction inside using Nat.decreasingInduction with
  | self =>
    have single : chunks.length + 1 - chunks.length = 1 := by omega
    have next := realizes.nextPage_inside here there (k := plan.firstPage i + (chunks.length - 1))
      (by omega) (by omega)
    rw [single, next]
    exact ⟨by omega, realizes.nextPage_last here there⟩
  | of_succ j below ih =>
    have width : chunks.length + 1 - j = chunks.length + 1 - (j + 1) + 1 := by omega
    have next := realizes.nextPage_inside here there (k := plan.firstPage i + (j - 1))
      (by omega) (by omega)
    rw [width, List.range'_succ, next]
    exact ⟨by omega, ih (by omega)⟩

/-- The pages of a chain, the index page first. -/
theorem leads_table (data : chunks ≠ []) :
    Leads file (plan.firstPage i) (List.range' (plan.firstPage i) (chunks.length + 1))
      (plan.candidate i chunks) := by
  have rest := realizes.leads_data here there (j := 1) (List.length_pos_iff.mpr data) (by decide)
  rw [Nat.sub_self, Nat.add_zero, Nat.add_sub_cancel] at rest
  rw [List.range'_succ]
  exact ⟨rfl, rest⟩

end

/-- The chain of an empty table leaves its table: behind the reserved page comes the header. -/
theorem leads_empty {i : Nat} {pageType : PageType} (here : PageType.allTypes[i]? = some pageType)
    (there : plan[i]? = some []) :
    Leads file (plan.firstPage i) [plan.firstPage i, plan.firstPage i + 1, 0]
      (Reader.nextUnusedPage file) := by
  have last := realizes.nextPage_last here there
  rw [List.length_nil, Nat.add_zero, (Plan.candidate_empty there rfl).1] at last
  have zero : page file (plan.firstPage i + 1) = zeroPage :=
    Option.some.inj ((realizes.tables i pageType [] here there).empty rfl)
  refine ⟨rfl, last, ?_, rfl⟩
  rw [zero]
  decide +kernel

section
variable {i : Nat} {pageType : PageType} {chunks : List (List Bytes)}
  (here : PageType.allTypes[i]? = some pageType) (there : plan[i]? = some chunks)
include here there

theorem numRows_index : numRows (page file (plan.firstPage i)) = 0 := by
  obtain ⟨page, found, index⟩ := (realizes.tables i pageType chunks here there).index
  cases found
  exact numRows_uncounted index.uncounted

theorem numRows_data :
    (List.range' (plan.firstPage i + 1) chunks.length).map (fun k => numRows (page file k)) =
      chunks.map List.length := by
  refine List.ext_getElem (by simp) ?_
  intro j inside _
  rw [List.length_map, List.length_range'] at inside
  obtain ⟨page, found, data, _⟩ :=
    (realizes.tables i pageType chunks here there).data j _ (List.getElem?_eq_getElem inside)
  cases found
  simp only [List.getElem_map, List.getElem_range', Nat.one_mul]
  exact data.holds.numRows

/-- The rows of every table are counted right, or are too many for `u32`. -/
theorem countTableRows_eq : countTableRows file (plan.firstPage i) plan.pageCount =
    if chunks.flatten.length < 2 ^ 32 then .ok chunks.flatten.length
    else .error .integerOverflow := by
  have last := Plan.firstPage_inside there
  rw [Plan.width] at last
  have positive := Plan.firstPage_mono plan (Nat.zero_le i)
  rw [Plan.firstPage_zero] at positive
  by_cases data : chunks = []
  · subst data
    rw [List.length_nil, Nat.max_zero] at last
    have outside : plan.pageCount ≤ Reader.nextUnusedPage file := by
      rw [realizes.nextUnusedPage_eq]
      exact Nat.le_add_right _ _
    have zero : page file (plan.firstPage i + 1) = zeroPage :=
      Option.some.inj ((realizes.tables i pageType [] here there).empty rfl)
    have none_ : numRows (page file 0) = 0 := by
      rw [realizes.headerPage]
      exact numRows_uncounted (FileHeader.uncounted (le_of_eq realizes.length))
    have walk := countRowsFrom_leads outside 0 [] (realizes.leads_empty here there)
      (by simp; omega) (by
        intro k mem
        refine realizes.page_number ?_
        simp only [List.mem_cons, List.not_mem_nil, or_false] at mem
        omega) (fun _ _ => List.not_mem_nil) (by decide)
    simp only [List.map_cons, List.map_nil, realizes.numRows_index here there, zero,
      numRows_zeroPage, none_] at walk
    exact walk
  · have full : chunks.isEmpty = false := by
      cases chunks with
      | nil => exact absurd rfl data
      | cons rows chunks => rfl
    have outside : plan.pageCount ≤ plan.candidate i chunks := by
      rw [Plan.candidate_data full]
      exact Nat.le_add_right _ _
    have walk := countRowsFrom_leads outside 0 [] (realizes.leads_table here there data)
      List.nodup_range' (by
        intro k mem
        refine realizes.page_number ?_
        rw [List.mem_range'_1] at mem
        omega) (fun _ _ => List.not_mem_nil) (by decide)
    rw [List.range'_succ, List.map_cons, realizes.numRows_index here there,
      realizes.numRows_data here there, List.sum_cons, Nat.zero_add, Nat.zero_add,
      ← List.length_flatten] at walk
    exact walk

end

/-- The pointer of a table passes, and its rows are counted. -/
theorem checkTable_eq {i : Nat} {pageType : PageType}
    (here : PageType.allTypes[i]? = some pageType) (r : ValidationResult) :
    checkTable file plan.pageCount r i =
      if (b.rows pageType).length < 2 ^ 32 then .ok (r.setCount i (b.rows pageType).length)
      else .error .integerOverflow := by
  obtain ⟨type, chunks, here', there, rows⟩ := realizes.table (toNat_of_allTypes here).2
  rw [here] at here'
  cases here'
  have inside := Plan.firstPage_inside there
  rw [Plan.width] at inside
  have positive := Plan.firstPage_mono plan (Nat.zero_le i)
  rw [Plan.firstPage_zero] at positive
  have type : readLE (file.take PAGE_SIZE) (28 + i * 16) 4 = i := by
    rw [headerWord_read, Nat.mul_comm]
    exact realizes.tableType_eq here there
  have first : readLE (file.take PAGE_SIZE) (28 + i * 16 + 8) 4 = plan.firstPage i := by
    rw [headerWord_read, Nat.mul_comm]
    exact realizes.firstPage_eq here there
  have last : readLE (file.take PAGE_SIZE) (28 + i * 16 + 12) 4 =
      plan.firstPage i + chunks.length := by
    rw [headerWord_read, Nat.mul_comm]
    exact realizes.lastPage_eq here there
  rw [checkTable]
  simp only [type, first, last]
  rw [if_neg (by omega), if_neg (by omega), if_pos (by omega),
    realizes.countTableRows_eq here there, rows]
  split
  · rfl
  · rfl

/-- The tables from the `i`-th on are counted, unless one of them has too many rows. -/
theorem checkTables_eq {n i : Nat} (all : i + n = 20) (r : ValidationResult) :
    checkTables file plan.pageCount n i r =
      if ∀ pageType ∈ PageType.allTypes.drop i, (b.rows pageType).length < 2 ^ 32 then
        .ok ((PageType.allTypes.drop i).foldl
          (fun r pageType => r.setCount pageType.toNat (b.rows pageType).length) r)
      else .error .integerOverflow := by
  induction n generalizing i r with
  | zero =>
    have none_ : PageType.allTypes.drop i = [] := List.drop_eq_nil_of_le (le_of_eq all.symm)
    rw [none_, if_pos (fun _ mem => absurd mem List.not_mem_nil)]
    rfl
  | succ n ih =>
    have inside : i < PageType.allTypes.length := by
      show i < 20
      omega
    have here := List.getElem?_eq_getElem inside
    have number := (toNat_of_allTypes here).1
    have room : ¬ PAGE_SIZE < 28 + i * 16 + 16 := by
      rw [PAGE_SIZE]
      omega
    rw [checkTables, if_neg room, realizes.checkTable_eq here, List.drop_eq_getElem_cons inside]
    simp only [List.forall_mem_cons, List.foldl_cons, number]
    by_cases small : (b.rows PageType.allTypes[i]).length < 2 ^ 32
    · rw [if_pos small]
      refine (ih (by omega) _).trans ?_
      simp only [small, true_and]
    · rw [if_neg small, if_neg (fun both => small both.1)]
      rfl

end Realizes

/-- The one error of the validator on a built file. -/
def nextUnusedError (nextUnusedPage actualPages : Nat) : String :=
  "Header next_unused_page (" ++ toString nextUnusedPage ++
    ") exceeds actual page count (" ++ toString actualPages ++ ")"

/-- The statistics of a built file, as the builder has them. -/
def countedStats (b : PdbBuilder) (totalPages : Nat) : PdbStats where
  totalPages := totalPages
  trackCount := (b.rows .tracks).length
  artistCount := (b.rows .artists).length
  albumCount := (b.rows .albums).length
  genreCount := (b.rows .genres).length
  keyCount := (b.rows .keys).length
  playlistCount := (b.rows .playlistTree).length
  playlistEntryCount := (b.rows .playlistEntries).length

/-- What the validator returns on a built file, whenever it returns. -/
theorem Realizes.validatePdb_spec {b : PdbBuilder} {plan : Plan} {header : FileHeader}
    {file : Bytes} (realizes : Realizes b plan header file) :
    if ∀ pageType ∈ PageType.allTypes, (b.rows pageType).length < 2 ^ 32 then
      ∃ r, validatePdb file = .ok r ∧ r.valid = false ∧
        r.errors = [nextUnusedError (Reader.nextUnusedPage file) (file.length / PAGE_SIZE)] ∧
        r.stats = countedStats b (Reader.nextUnusedPage file)
    else validatePdb file = .error .integerOverflow := by
  have small := realizes.pages_small
  have more := realizes.some_data
  have positive := Plan.firstPage_mono plan (Nat.zero_le plan.length)
  rw [Plan.firstPage_zero, Plan.firstPage_length] at positive
  have whole : file.length / PAGE_SIZE = plan.pageCount := by
    rw [realizes.size, Nat.mul_div_cancel _ (by decide)]
  have long : ¬ file.length < PAGE_SIZE := by
    rw [realizes.size, PAGE_SIZE]
    omega
  have aligned : ¬ file.length % PAGE_SIZE ≠ 0 := by
    rw [realizes.size, Nat.mul_mod_left]
    exact not_not_intro rfl
  have pageSize : readLE (file.take PAGE_SIZE) 4 4 = PAGE_SIZE :=
    (headerWord_read file 4).trans realizes.pageSize_eq
  have tables : readLE (file.take PAGE_SIZE) 8 4 = 20 :=
    (headerWord_read file 8).trans realizes.tableCount_eq
  have unused : readLE (file.take PAGE_SIZE) 12 4 = plan.pageCount + Plan.dataTables plan :=
    (headerWord_read file 12).trans realizes.nextUnusedPage_eq
  rw [validatePdb, if_neg long, if_neg aligned, realizes.nextUnusedPage_eq]
  simp only [whole, Nat.mod_eq_of_lt small, pageSize, tables, unused, ne_eq, not_true_eq_false, if_false,
    Nat.lt_irrefl, if_pos (Nat.lt_add_of_pos_right more)]
  rw [realizes.checkTables_eq (by decide)]
  rw [List.drop_zero]
  split
  · refine ⟨_, rfl, ?_⟩
    obtain ⟨valid, stats, errors⟩ := checkPages_keep file (List.range' 1 (plan.pageCount - 1))
      (PageType.allTypes.foldl (fun r pageType => r.setCount pageType.toNat (b.rows pageType).length)
        (ValidationResult.addError { ValidationResult.new with
          stats := { ValidationResult.new.stats with
            totalPages := plan.pageCount + Plan.dataTables plan } }
          (nextUnusedError (plan.pageCount + Plan.dataTables plan) plan.pageCount)))
    exact ⟨valid, errors, stats⟩
  · rfl

theorem rejected_of_realizes {b : PdbBuilder} {plan : Plan} {header : FileHeader} {file : Bytes}
    (realizes : Realizes b plan header file) {r : ValidationResult}
    (returned : validatePdb file = .ok r) : r.valid = false ∧
      r.errors = [nextUnusedError (Reader.nextUnusedPage file) (file.length / PAGE_SIZE)] := by
  have spec := realizes.validatePdb_spec
  split at spec
  · obtain ⟨r', same, valid, errors, _⟩ := spec
    obtain rfl : r' = r := Except.ok.inj (same.symm.trans returned)
    exact ⟨valid, errors⟩
  · rw [returned] at spec
    cases spec

theorem not_accepts {calls : List PdbBuilder.Call} {file : Bytes}
    (built : PdbBuilder.buildAfter calls = .ok file) : ¬ Accepts file := by
  obtain ⟨b, _, built⟩ := of_bind built
  obtain ⟨plan, header, realizes⟩ := PdbBuilder.build_realizes built
  rintro ⟨r, returned, valid, _⟩
  have invalid := (rejected_of_realizes realizes returned).1
  rw [valid] at invalid
  cases invalid

/-- The validator accepts no file of the builder: whenever it returns, it says that the header's
next unused page exceeds the page count. -/
theorem built_file_rejected {calls : List PdbBuilder.Call} {file : Bytes}
    (built : PdbBuilder.buildAfter calls = .ok file) :
    ¬ Accepts file ∧ ∀ r, validatePdb file = .ok r → r.valid = false ∧
      r.errors = [nextUnusedError (Reader.nextUnusedPage file) (file.length / PAGE_SIZE)] := by
  refine ⟨not_accepts built, fun r returned => ?_⟩
  obtain ⟨b, _, built⟩ := of_bind built
  obtain ⟨plan, header, realizes⟩ := PdbBuilder.build_realizes built
  exact rejected_of_realizes realizes returned

theorem smallHistory_rejected : ∃ file,
    PdbBuilder.buildAfter PdbBuilder.smallHistory = .ok file ∧ ¬ Accepts file := by
  obtain ⟨file, built⟩ := PdbBuilder.smallHistory_returns
  exact ⟨file, built, (built_file_rejected built).1⟩

theorem emptyHistory_returns : ∃ file, PdbBuilder.buildAfter [] = .ok file := by
  refine PdbBuilder.buildAfter_returns rfl (PdbBuilder.modest_of_all ?_ ?_)
  · decide +kernel
  · decide +kernel

/-- Not even a builder without tracks writes what the validator accepts. -/
theorem emptyHistory_breaks_agreement :
    ¬ ∀ file, PdbBuilder.buildAfter [] = .ok file → Accepts file := by
  obtain ⟨file, built⟩ := emptyHistory_returns
  intro accepted
  exact not_accepts built (accepted file built)

end BVault.Core
