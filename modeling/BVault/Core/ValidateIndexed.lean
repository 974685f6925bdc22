import BVault.Core.Validate
import BVault.Lib.Loops

/-!
# Validation with checked indices

The validator once more, with every slice and every index of `validate.rs` an
access that faults outside its range. On any bytes none of them does, so it
agrees with the validator that reads zeros there.
-/

namespace BVault.Core

open Bytes

/-- `&bs[off..off + n]`. -/
def sliceAt (bs : Bytes) (off n : Nat) : Except Fault Bytes :=
  if off + n ≤ bs.length then .ok (slice bs off n) else .error .indexOutOfBounds

/-- A little-endian number of `w` bytes, each indexed. -/
def wordAt (bs : Bytes) (off w : Nat) : Except Fault Nat :=
  if off + w ≤ bs.length then .ok (readLE bs off w) else .error .indexOutOfBounds

/-- `bs[i]`. -/
def byteAt (bs : Bytes) (i : Nat) : Except Fault UInt8 :=
  if i < bs.length then .ok (bs.getD i 0) else .error .indexOutOfBounds

theorem sliceAt_ok {bs : Bytes} {off n : Nat} (inside : off + n ≤ bs.length) :
    sliceAt bs off n = .ok (slice bs off n) := if_pos inside

theorem wordAt_ok {bs : Bytes} {off w : Nat} (inside : off + w ≤ bs.length) :
    wordAt bs off w = .ok (readLE bs off w) := if_pos inside

theorem byteAt_ok {bs : Bytes} {i : Nat} (inside : i < bs.length) :
    byteAt bs i = .ok (bs.getD i 0) := if_pos inside

namespace Indexed

/-- The loop of `count_table_rows`. -/
def countRowsFrom (data : Bytes) (maxPages total currentPage : Nat) (visited : List Nat) :
    Except Fault Nat :=
  if _h : (currentPage < maxPages ∧ currentPage ≠ 0xFFFFFFFF) ∧ currentPage ∉ visited then do
    let page ← sliceAt data (currentPage * PAGE_SIZE) PAGE_SIZE
    let packed ← wordAt page 24 3
    let total ← addU32 total ((packed >>> 13) &&& 0x7FF)
    let nextPage ← wordAt page 12 4
    countRowsFrom data maxPages total nextPage (currentPage :: visited)
  else .ok total
termination_by ((List.range maxPages).filter (· ∉ visited)).length
decreasing_by exact unvisited_shrinks _h.1.1 _h.2

def countTableRows (data : Bytes) (firstPage maxPages : Nat) : Except Fault Nat :=
  countRowsFrom data maxPages 0 firstPage []

def validateDataPage (page : Bytes) (expectedIdx : Nat) : Except Fault (Option String) := do
  let storedIdx ← wordAt page 4 4
  if storedIdx ≠ expectedIdx then
    .ok (some ("Validation error: page_index mismatch: stored " ++ toString storedIdx ++
      " vs position " ++ toString expectedIdx))
  else do
    let flags ← byteAt page 27
    if flags ≠ 0x34 ∧ flags ≠ 0x00 ∧ flags ≠ 0x24 ∧ flags ≠ 0x64 then
      .ok (some ("Validation error: unexpected page_flags: 0x" ++ hexByte flags))
    else do
      let usedSize ← wordAt page 30 2
      let maxHeap := PAGE_SIZE - HEAP_START
      if maxHeap < usedSize then
        .ok (some ("Validation error: used_size " ++ toString usedSize ++ " exceeds max heap " ++
          toString maxHeap))
      else .ok none

def checkTable (data : Bytes) (actualPages : Nat) (r : ValidationResult) (i : Nat) :
    Except Fault ValidationResult := do
  let header ← sliceAt data 0 PAGE_SIZE
  let ptrOffset := 28 + i * 16
  let tableType ← wordAt header ptrOffset 4
  let firstPage ← wordAt header (ptrOffset + 8) 4
  let lastPage ← wordAt header (ptrOffset + 12) 4
  if firstPage ≠ 0 ∧ actualPages ≤ firstPage then
    .ok (r.addError ("Table " ++ toString i ++ " (type " ++ toString tableType ++
      ") first_page " ++ toString firstPage ++ " exceeds page count " ++ toString actualPages))
  else if lastPage ≠ 0xFFFFFFFF ∧ actualPages ≤ lastPage then
    .ok (r.addError ("Table " ++ toString i ++ " (type " ++ toString tableType ++
      ") last_page " ++ toString lastPage ++ " exceeds page count " ++ toString actualPages))
  else if 0 < firstPage ∧ firstPage < actualPages then do
    let rowCount ← countTableRows data firstPage actualPages
    .ok (r.setCount tableType rowCount)
  else .ok r

def checkTables (data : Bytes) (actualPages : Nat) :
    Nat → Nat → ValidationResult → Except Fault ValidationResult
  | 0, _, r => .ok r
  | count + 1, i, r =>
    if PAGE_SIZE < 28 + i * 16 + 16 then
      .ok (r.addError ("Table pointer " ++ toString i ++ " at offset " ++
        toString (28 + i * 16) ++ " extends beyond header page"))
    else do
      let r ← checkTable data actualPages r i
      checkTables data actualPages count (i + 1) r

def checkPage (data : Bytes) (r : ValidationResult) (pageIdx : Nat) :
    Except Fault ValidationResult := do
  let page ← sliceAt data (pageIdx * PAGE_SIZE) PAGE_SIZE
  match ← validateDataPage page pageIdx with
  | some e => .ok (r.addWarning ("Page " ++ toString pageIdx ++ ": " ++ e))
  | none => .ok r

def validatePdb (data : Bytes) : Except Fault ValidationResult :=
  if data.length < PAGE_SIZE then
    .ok (ValidationResult.new.addError ("File too small: " ++ toString data.length ++
      " bytes (minimum " ++ toString PAGE_SIZE ++ " bytes for header page)"))
  else if data.length % PAGE_SIZE ≠ 0 then
    .ok (ValidationResult.new.addError ("File size " ++ toString data.length ++
      " is not a multiple of page size " ++ toString PAGE_SIZE))
  else do
    let actualPages := data.length / PAGE_SIZE % 2 ^ 32
    let header ← sliceAt data 0 PAGE_SIZE
    let pageSize ← wordAt header 4 4
    if pageSize ≠ PAGE_SIZE then
      .ok (ValidationResult.new.addError ("Invalid page_size in header: " ++ toString pageSize ++
        " (expected " ++ toString PAGE_SIZE ++ ")"))
    else do
      let numTables ← wordAt header 8 4
      let r :=
        if 20 < numTables then
          ValidationResult.new.addWarning ("Unusually high table count: " ++ toString numTables ++
            " (expected < 20)")
        else ValidationResult.new
      let nextUnusedPage ← wordAt header 12 4
      let r := { r with stats := { r.stats with totalPages := nextUnusedPage } }
      let r :=
        if actualPages < nextUnusedPage then
          r.addError ("Header next_unused_page (" ++ toString nextUnusedPage ++
            ") exceeds actual page count (" ++ toString actualPages ++ ")")
        else r
      let r ← checkTables data actualPages numTables 0 r
      (List.range' 1 (actualPages - 1)).foldlM (checkPage data) r

section
variable {data : Bytes} {pages : Nat}

theorem countRowsFrom_eq (whole : pages * PAGE_SIZE ≤ data.length) (total currentPage : Nat)
    (visited : List Nat) :
    countRowsFrom data pages total currentPage visited =
      Core.countRowsFrom data pages total currentPage visited := by
  fun_induction Core.countRowsFrom data pages total currentPage visited with
  | case1 total currentPage visited here ih =>
    have size := length_page whole here.1.1
    have current : sliceAt data (currentPage * PAGE_SIZE) PAGE_SIZE = .ok (page data currentPage) :=
      sliceAt_ok (page_inside whole here.1.1)
    have packed : wordAt (page data currentPage) 24 3 = .ok (readLE (page data currentPage) 24 3) :=
      wordAt_ok (by rw [size]; decide)
    have next : wordAt (page data currentPage) 12 4 = .ok (readLE (page data currentPage) 12 4) :=
      wordAt_ok (by rw [size]; decide)
    rw [countRowsFrom, dif_pos here, current, Loops.ok_bind, packed, Loops.ok_bind]
    show (addU32 total (numRows (page data currentPage)) >>= _) = _
    refine congrArg (addU32 total (numRows (page data currentPage)) >>= ·) (funext ?_)
    intro total
    rw [next, Loops.ok_bind, ih]
  | case2 total currentPage visited here => rw [countRowsFrom, dif_neg here]

theorem validateDataPage_eq {page : Bytes} (size : page.length = PAGE_SIZE) (expectedIdx : Nat) :
    validateDataPage page expectedIdx = .ok (Core.validateDataPage page expectedIdx) := by
  have index : wordAt page 4 4 = .ok (readLE page 4 4) := wordAt_ok (by rw [size]; decide)
  have flags : byteAt page 27 = .ok (page.getD 27 0) := byteAt_ok (by rw [size]; decide)
  have used : wordAt page 30 2 = .ok (readLE page 30 2) := wordAt_ok (by rw [size]; decide)
  rw [validateDataPage, Core.validateDataPage, index, flags, used]
  simp only [Loops.ok_bind]
  split_ifs <;> rfl

/-- The header page of a long enough file is in range. -/
theorem sliceAt_header (long : PAGE_SIZE ≤ data.length) :
    sliceAt data 0 PAGE_SIZE = .ok (data.take PAGE_SIZE) :=
  sliceAt_ok (by rwa [Nat.zero_add])

theorem wordAt_header (long : PAGE_SIZE ≤ data.length) {off : Nat} (inside : off + 4 ≤ PAGE_SIZE) :
    wordAt (data.take PAGE_SIZE) off 4 = .ok (readLE (data.take PAGE_SIZE) off 4) := by
  apply wordAt_ok
  rw [List.length_take, Nat.min_eq_left long]
  exact inside

theorem checkTable_eq (whole : pages * PAGE_SIZE ≤ data.length) (some_ : PAGE_SIZE ≤ data.length)
    {i : Nat} (inHeader : 28 + i * 16 + 16 ≤ PAGE_SIZE) (r : ValidationResult) :
    checkTable data pages r i = Core.checkTable data pages r i := by
  have type : 28 + i * 16 + 4 ≤ PAGE_SIZE := by omega
  have first : 28 + i * 16 + 8 + 4 ≤ PAGE_SIZE := by omega
  have last : 28 + i * 16 + 12 + 4 ≤ PAGE_SIZE := by omega
  rw [checkTable, Core.checkTable, sliceAt_header some_, Loops.ok_bind]
  simp only [wordAt_header some_ type, wordAt_header some_ first, wordAt_header some_ last,
    Loops.ok_bind, countTableRows, countRowsFrom_eq whole, Core.countTableRows]

theorem checkTables_eq (whole : pages * PAGE_SIZE ≤ data.length) (some_ : PAGE_SIZE ≤ data.length)
    (count i : Nat) (r : ValidationResult) :
    checkTables data pages count i r = Core.checkTables data pages count i r := by
  induction count generalizing i r with
  | zero => rfl
  | succ count ih =>
    rw [checkTables, Core.checkTables]
    split
    · rfl
    · rename_i inHeader
      rw [checkTable_eq whole some_ (by omega)]
      exact congrArg (Core.checkTable data pages r i >>= ·) (funext (fun r => ih (i + 1) r))

theorem checkPage_eq (whole : pages * PAGE_SIZE ≤ data.length) {k : Nat} (inside : k < pages)
    (r : ValidationResult) : checkPage data r k = .ok (Core.checkPage data r k) := by
  have current : sliceAt data (k * PAGE_SIZE) PAGE_SIZE = .ok (page data k) :=
    sliceAt_ok (page_inside whole inside)
  rw [checkPage, Core.checkPage, current, Loops.ok_bind,
    validateDataPage_eq (length_page whole inside), Loops.ok_bind]
  cases Core.validateDataPage (page data k) k with
  | none => rfl
  | some e => rfl

theorem checkPages_eq (whole : pages * PAGE_SIZE ≤ data.length) {ks : List Nat}
    (inside : ∀ k ∈ ks, k < pages) (r : ValidationResult) :
    ks.foldlM (checkPage data) r = .ok (ks.foldl (Core.checkPage data) r) := by
  induction ks generalizing r with
  | nil => rfl
  | cons k ks ih =>
    rw [List.foldlM_cons, checkPage_eq whole (inside k List.mem_cons_self), Loops.ok_bind]
    exact ih (fun j mem => inside j (List.mem_cons_of_mem k mem)) (Core.checkPage data r k)

end

/-- On any bytes every access is in range. -/
theorem validatePdb_eq (data : Bytes) : validatePdb data = Core.validatePdb data := by
  rw [validatePdb, Core.validatePdb]
  split
  · rfl
  split
  · rfl
  rename_i long _
  have some_ : PAGE_SIZE ≤ data.length := Nat.le_of_not_lt long
  have whole : data.length / PAGE_SIZE % 2 ^ 32 * PAGE_SIZE ≤ data.length :=
    Nat.le_trans (Nat.mul_le_mul_right PAGE_SIZE (Nat.mod_le _ _)) (Nat.div_mul_le_self _ _)
  have inside : ∀ k ∈ List.range' 1 (data.length / PAGE_SIZE % 2 ^ 32 - 1),
      k < data.length / PAGE_SIZE % 2 ^ 32 := by
    intro k mem
    rw [List.mem_range'_1] at mem
    omega
  have word {off : Nat} (inside : off + 4 ≤ PAGE_SIZE) := wordAt_header some_ inside
  simp only [sliceAt_header some_, @word 4 (by decide), @word 8 (by decide), @word 12 (by decide),
    Loops.ok_bind, checkTables_eq whole some_, checkPages_eq whole inside]

end Indexed

end BVault.Core
