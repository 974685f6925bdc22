import BVault.Core.PdbLayout

/-!
# PDB validation

`validate.rs` on any bytes: the header checks, the table pointers with a walk
along each page chain, and the check of every page. What it adds up are `u32`
numbers, and an addition that does not fit is a panic.
-/

namespace BVault.Core

open Bytes

/-- Statistics about a PDB file. -/
structure PdbStats where
  totalPages : Nat
  trackCount : Nat
  artistCount : Nat
  albumCount : Nat
  genreCount : Nat
  keyCount : Nat
  playlistCount : Nat
  playlistEntryCount : Nat
  deriving DecidableEq, Repr

/-- Result of validating a PDB file. -/
structure ValidationResult where
  valid : Bool
  stats : PdbStats
  errors : List String
  warnings : List String
  deriving DecidableEq, Repr

namespace ValidationResult

def new : ValidationResult := ⟨true, ⟨0, 0, 0, 0, 0, 0, 0, 0⟩, [], []⟩

def addError (r : ValidationResult) (msg : String) : ValidationResult :=
  { r with valid := false, errors := r.errors ++ [msg] }

def addWarning (r : ValidationResult) (msg : String) : ValidationResult :=
  { r with warnings := r.warnings ++ [msg] }

/-- The statistics of a table type; the other types are not counted. -/
def setCount (r : ValidationResult) (tableType rowCount : Nat) : ValidationResult :=
  match tableType with
  | 0 => { r with stats := { r.stats with trackCount := rowCount } }
  | 1 => { r with stats := { r.stats with genreCount := rowCount } }
  | 2 => { r with stats := { r.stats with artistCount := rowCount } }
  | 3 => { r with stats := { r.stats with albumCount := rowCount } }
  | 5 => { r with stats := { r.stats with keyCount := rowCount } }
  | 7 => { r with stats := { r.stats with playlistCount := rowCount } }
  | 8 => { r with stats := { r.stats with playlistEntryCount := rowCount } }
  | _ => r

end ValidationResult

/-- Bits 13 to 23 of the packed row counts. -/
def numRows (page : Bytes) : Nat := (readLE page 24 3 >>> 13) &&& 0x7FF

theorem unvisited_shrinks {maxPages currentPage : Nat} {visited : List Nat}
    (inside : currentPage < maxPages) (new : currentPage ∉ visited) :
    ((List.range maxPages).filter (· ∉ currentPage :: visited)).length <
      ((List.range maxPages).filter (· ∉ visited)).length := by
  have fewer : (List.range maxPages).filter (· ∉ currentPage :: visited) =
      ((List.range maxPages).filter (· ∉ visited)).filter (· ≠ currentPage) := by
    rw [List.filter_filter]
    refine List.filter_congr (fun k _ => ?_)
    simp [List.mem_cons, not_or]
  rw [fewer]
  refine List.length_filter_lt_length_iff_exists.mpr ⟨currentPage, ?_, by simp⟩
  exact List.mem_filter.mpr ⟨List.mem_range.mpr inside, decide_eq_true new⟩

/-- The walk along a page chain; it ends as no page is visited twice. -/
def countRowsFrom (data : Bytes) (maxPages total currentPage : Nat) (visited : List Nat) :
    Except Fault Nat :=
  if _h : (currentPage < maxPages ∧ currentPage ≠ 0xFFFFFFFF) ∧ currentPage ∉ visited then do
    let total ← addU32 total (numRows (page data currentPage))
    countRowsFrom data maxPages total (readLE (page data currentPage) 12 4)
      (currentPage :: visited)
  else .ok total
termination_by ((List.range maxPages).filter (· ∉ visited)).length
decreasing_by exact unvisited_shrinks _h.1.1 _h.2

/-- Count rows across all pages of a table by following the page chain. -/
def countTableRows (data : Bytes) (firstPage maxPages : Nat) : Except Fault Nat :=
  countRowsFrom data maxPages 0 firstPage []

/-- Upper-case hexadecimal with two digits. -/
def hexByte (b : UInt8) : String :=
  let digits := (Nat.toDigits 16 b.toNat).map Char.toUpper
  String.ofList (List.replicate (2 - digits.length) '0' ++ digits)

/-- Validate a single data page: the error's text, if there is one. -/
def validateDataPage (page : Bytes) (expectedIdx : Nat) : Option String :=
  let storedIdx := readLE page 4 4
  let flags := page.getD 27 0
  let usedSize := readLE page 30 2
  let maxHeap := PAGE_SIZE - HEAP_START
  if storedIdx ≠ expectedIdx then
    some ("Validation error: page_index mismatch: stored " ++ toString storedIdx ++
      " vs position " ++ toString expectedIdx)
  else if flags ≠ 0x34 ∧ flags ≠ 0x00 ∧ flags ≠ 0x24 ∧ flags ≠ 0x64 then
    some ("Validation error: unexpected page_flags: 0x" ++ hexByte flags)
  else if maxHeap < usedSize then
    some ("Validation error: used_size " ++ toString usedSize ++ " exceeds max heap " ++
      toString maxHeap)
  else none

/-- The body of the loop over the table pointers. -/
def checkTable (data : Bytes) (actualPages : Nat) (r : ValidationResult) (i : Nat) :
    Except Fault ValidationResult :=
  let header := data.take PAGE_SIZE
  let ptrOffset := 28 + i * 16
  let tableType := readLE header ptrOffset 4
  let firstPage := readLE header (ptrOffset + 8) 4
  let lastPage := readLE header (ptrOffset + 12) 4
  if firstPage ≠ 0 ∧ actualPages ≤ firstPage then
    .ok (r.addError ("Table " ++ toString i ++ " (type " ++ toString tableType ++
      ") first_page " ++ toString firstPage ++ " exceeds page count " ++ toString actualPages))
  else if lastPage ≠ 0xFFFFFFFF ∧ actualPages ≤ lastPage then
    .ok (r.addError ("Table " ++ toString i ++ " (type " ++ toString tableType ++
      ") last_page " ++ toString lastPage ++ " exceeds page count " ++ toString actualPages))
  else if 0 < firstPage ∧ firstPage < actualPages then do
    let rowCount ← countTableRows data firstPage actualPages
    .ok (r.setCount tableType rowCount)
  else .ok r

/-- The loop over so many table pointers from the `i`-th on. -/
def checkTables (data : Bytes) (actualPages : Nat) :
    Nat → Nat → ValidationResult → Except Fault ValidationResult
  | 0, _, r => .ok r
  | count + 1, i, r =>
    if PAGE_SIZE < 28 + i * 16 + 16 then
      .ok (r.addError ("Table pointer " ++ toString i ++ " at offset " ++
        toString (28 + i * 16) ++ " extends beyond header page"))
    else do
      let r ← checkTable data actualPages r i
      checkTables data actualPages count (i + 1) r

/-- The body of the loop over the pages. -/
def checkPage (data : Bytes) (r : ValidationResult) (pageIdx : Nat) : ValidationResult :=
  match validateDataPage (page data pageIdx) pageIdx with
  | some e => r.addWarning ("Page " ++ toString pageIdx ++ ": " ++ e)
  | none => r

/-- Validate a PDB file and return detailed results. -/
def validatePdb (data : Bytes) : Except Fault ValidationResult :=
  if data.length < PAGE_SIZE then
    .ok (ValidationResult.new.addError ("File too small: " ++ toString data.length ++
      " bytes (minimum " ++ toString PAGE_SIZE ++ " bytes for header page)"))
  else if data.length % PAGE_SIZE ≠ 0 then
    .ok (ValidationResult.new.addError ("File size " ++ toString data.length ++
      " is not a multiple of page size " ++ toString PAGE_SIZE))
  else
    let actualPages := data.length / PAGE_SIZE % 2 ^ 32
    let header := data.take PAGE_SIZE
    let pageSize := readLE header 4 4
    if pageSize ≠ PAGE_SIZE then
      .ok (ValidationResult.new.addError ("Invalid page_size in header: " ++ toString pageSize ++
        " (expected " ++ toString PAGE_SIZE ++ ")"))
    else do
      let numTables := readLE header 8 4
      let r :=
        if 20 < numTables then
          ValidationResult.new.addWarning ("Unusually high table count: " ++ toString numTables ++
            " (expected < 20)")
        else ValidationResult.new
      let nextUnusedPage := readLE header 12 4
      let r := { r with stats := { r.stats with totalPages := nextUnusedPage } }
      let r :=
        if actualPages < nextUnusedPage then
          r.addError ("Header next_unused_page (" ++ toString nextUnusedPage ++
            ") exceeds actual page count (" ++ toString actualPages ++ ")")
        else r
      let r ← checkTables data actualPages numTables 0 r
      .ok ((List.range' 1 (actualPages - 1)).foldl (checkPage data) r)

/-- What the validator calls well-formed. -/
def Accepts (data : Bytes) : Prop :=
  ∃ r, validatePdb data = .ok r ∧ r.valid = true ∧ r.errors = []

/-- A page of the file is there whole. -/
theorem page_inside {file : Bytes} {pages k : Nat} (whole : pages * PAGE_SIZE ≤ file.length)
    (inside : k < pages) : k * PAGE_SIZE + PAGE_SIZE ≤ file.length := by
  have next : (k + 1) * PAGE_SIZE ≤ pages * PAGE_SIZE := Nat.mul_le_mul_right PAGE_SIZE inside
  rw [Nat.succ_mul] at next
  omega

theorem length_page {file : Bytes} {pages k : Nat} (whole : pages * PAGE_SIZE ≤ file.length)
    (inside : k < pages) : (page file k).length = PAGE_SIZE := by
  have within := page_inside whole inside
  rw [page, slice, List.length_take, List.length_drop]
  omega

/-- The pages met from a page on, up to the page number that is met last. -/
def Leads (data : Bytes) : Nat → List Nat → Nat → Prop
  | start, [], last => start = last
  | start, k :: ks, last => start = k ∧ Leads data (readLE (page data k) 12 4) ks last

/-- The walk adds up the row counts of the pages of a chain that ends outside the file. -/
theorem countRowsFrom_leads {data : Bytes} {maxPages last : Nat} (outside : maxPages ≤ last)
    {ks : List Nat} {start : Nat} (total : Nat) (visited : List Nat)
    (leads : Leads data start ks last) (distinct : ks.Nodup)
    (inside : ∀ k ∈ ks, k < maxPages ∧ k ≠ 0xFFFFFFFF) (new : ∀ k ∈ ks, k ∉ visited)
    (fits : total < 2 ^ 32) :
    countRowsFrom data maxPages total start visited =
      if total + (ks.map (fun k => numRows (page data k))).sum < 2 ^ 32 then
        .ok (total + (ks.map (fun k => numRows (page data k))).sum)
      else .error .integerOverflow := by
  induction ks generalizing start total visited with
  | nil =>
    have ended : start = last := leads
    rw [countRowsFrom, dif_neg (by omega), List.map_nil, List.sum_nil, Nat.add_zero, if_pos fits]
  | cons k ks ih =>
    obtain ⟨rfl, rest⟩ := leads
    obtain ⟨fresh, distinct⟩ := List.nodup_cons.mp distinct
    rw [countRowsFrom, dif_pos ⟨inside start List.mem_cons_self, new start List.mem_cons_self⟩]
    rw [List.map_cons, List.sum_cons, ← Nat.add_assoc]
    by_cases room : total + numRows (page data start) < 2 ^ 32
    · rw [addU32_ok room]
      refine ih _ _ rest distinct (fun m mem => inside m (List.mem_cons_of_mem _ mem)) ?_ room
      intro m mem seen
      rcases List.mem_cons.mp seen with rfl | seen
      · exact fresh mem
      · exact new m (List.mem_cons_of_mem _ mem) seen
    · rw [addU32, if_neg room, if_neg (by omega)]
      rfl

theorem HoldsRows.numRows {page : Bytes} {rows : List Bytes} (holds : HoldsRows page rows) :
    numRows page = rows.length := by
  have offsets := holds.offsets
  have index := holds.index
  simp only [HEAP_START, PAGE_SIZE] at index
  rw [rowOffsetCountField] at offsets
  have shifted : readLE page 24 3 >>> 13 = rows.length := by
    rw [Nat.shiftRight_eq_div_pow]
    omega
  have mask : rows.length &&& 0x7FF = rows.length % 2 ^ 11 :=
    Nat.and_two_pow_sub_one_eq_mod rows.length 11
  rw [BVault.Core.numRows, shifted, mask, Nat.mod_eq_of_lt (by omega)]

theorem numRows_uncounted {page : Bytes} (zero : readLE page 24 3 = 0) : numRows page = 0 := by
  rw [numRows, zero]
  rfl

theorem numRows_zeroPage : numRows zeroPage = 0 := by
  decide +kernel

theorem checkPage_keeps (data : Bytes) (r : ValidationResult) (pageIdx : Nat) :
    (checkPage data r pageIdx).valid = r.valid ∧ (checkPage data r pageIdx).stats = r.stats ∧
      (checkPage data r pageIdx).errors = r.errors := by
  rw [checkPage]
  split
  · exact ⟨rfl, rfl, rfl⟩
  · exact ⟨rfl, rfl, rfl⟩

/-- The pages only add warnings. -/
theorem checkPages_keep (data : Bytes) (pages : List Nat) (r : ValidationResult) :
    (pages.foldl (checkPage data) r).valid = r.valid ∧
      (pages.foldl (checkPage data) r).stats = r.stats ∧
      (pages.foldl (checkPage data) r).errors = r.errors := by
  induction pages generalizing r with
  | nil => exact ⟨rfl, rfl, rfl⟩
  | cons k pages ih =>
    obtain ⟨valid, stats, errors⟩ := ih (checkPage data r k)
    obtain ⟨valid', stats', errors'⟩ := checkPage_keeps data r k
    exact ⟨valid.trans valid', stats.trans stats', errors.trans errors'⟩

end BVault.Core
