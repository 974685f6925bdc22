import BVault.Core.ValidateIndexed

/-!
# The row counts of the validator

The walk along a page chain meets every page once, up to the first one that is
repeated or outside the file, and adds up what the pages hold. The sum is a `u32`
and so is the page count, so the validator counts right exactly where both fit.
-/

namespace BVault.Core

open Bytes

/-- The distinct pages met from a page on, up to the first one that is repeated or outside. -/
def pagesFrom (data : Bytes) (pages current : Nat) (visited : List Nat) : List Nat :=
  if _h : current < pages ∧ current ∉ visited then
    current :: pagesFrom data pages (readLE (page data current) 12 4) (current :: visited)
  else []
termination_by ((List.range pages).filter (· ∉ visited)).length
decreasing_by exact unvisited_shrinks _h.1 _h.2

def reachedPages (data : Bytes) (pages firstPage : Nat) : List Nat :=
  pagesFrom data pages firstPage []

/-- The packed row counts of some pages together. -/
def rowSum (data : Bytes) (ks : List Nat) : Nat := (ks.map (fun k => numRows (page data k))).sum

/-- An entry of the table of pointers behind the header. -/
structure PagePointer where
  tableType : Nat
  firstPage : Nat
  lastPage : Nat
  deriving DecidableEq, Repr

def pagePointer (data : Bytes) (i : Nat) : PagePointer where
  tableType := readLE (data.take PAGE_SIZE) (28 + i * 16) 4
  firstPage := readLE (data.take PAGE_SIZE) (28 + i * 16 + 8) 4
  lastPage := readLE (data.take PAGE_SIZE) (28 + i * 16 + 12) 4

/-- The file is long enough, cut into pages, and says so. -/
structure HeaderOk (data : Bytes) : Prop where
  long : PAGE_SIZE ≤ data.length
  aligned : data.length % PAGE_SIZE = 0
  pageSize : readLE (data.take PAGE_SIZE) 4 4 = PAGE_SIZE

/-- Pointer `i` is within the header page. -/
def InHeader (i : Nat) : Prop := 28 + i * 16 + 16 ≤ PAGE_SIZE

/-- The file has a table with this number. -/
structure IsTable (data : Bytes) (i : Nat) : Prop where
  header : HeaderOk data
  counted : i < readLE (data.take PAGE_SIZE) 8 4
  inHeader : InHeader i

/-- The pages that a pointer names are among the first `pages` ones. -/
def PagePointer.Within (p : PagePointer) (pages : Nat) : Prop :=
  p.firstPage ≠ 0 ∧ p.firstPage < pages ∧ (p.lastPage = 0xFFFFFFFF ∨ p.lastPage < pages)

instance (p : PagePointer) (pages : Nat) : Decidable (p.Within pages) :=
  inferInstanceAs (Decidable (_ ∧ _ ∧ _))

/-- `(data.len() / PAGE_SIZE) as u32`. -/
def actualPages (data : Bytes) : Nat := data.length / PAGE_SIZE % 2 ^ 32

/-- The row count that the validator gets for a table, if it counts the table's rows. -/
def rowCountOf (data : Bytes) (i : Nat) : Except Fault (Option Nat) :=
  if (pagePointer data i).Within (actualPages data) then
    (Indexed.countTableRows data (pagePointer data i).firstPage (actualPages data)).map some
  else .ok none

/-- The statistics of a table type, if there are any. -/
def PdbStats.rowCount (stats : PdbStats) (tableType : Nat) : Option Nat :=
  match tableType with
  | 0 => some stats.trackCount
  | 1 => some stats.genreCount
  | 2 => some stats.artistCount
  | 3 => some stats.albumCount
  | 5 => some stats.keyCount
  | 7 => some stats.playlistCount
  | 8 => some stats.playlistEntryCount
  | _ => none

/-- The walk adds up the rows of the distinct pages. -/
theorem countRowsFrom_pagesFrom (data : Bytes) {pages : Nat} (word : pages < 2 ^ 32)
    {total : Nat} (current : Nat) (visited : List Nat) (fits : total < 2 ^ 32) :
    countRowsFrom data pages total current visited =
      if total + rowSum data (pagesFrom data pages current visited) < 2 ^ 32 then
        .ok (total + rowSum data (pagesFrom data pages current visited))
      else .error .integerOverflow := by
  fun_induction pagesFrom data pages current visited generalizing total with
  | case1 current visited here ih =>
    have inside : (current < pages ∧ current ≠ 0xFFFFFFFF) ∧ current ∉ visited :=
      ⟨⟨here.1, by omega⟩, here.2⟩
    rw [countRowsFrom, dif_pos inside, rowSum, List.map_cons, List.sum_cons, ← Nat.add_assoc,
      ← rowSum]
    by_cases room : total + numRows (page data current) < 2 ^ 32
    · rw [addU32_ok room, Loops.ok_bind]
      exact ih room
    · rw [addU32, if_neg room, if_neg (by omega)]
      rfl
  | case2 current visited here =>
    have outside : ¬ ((current < pages ∧ current ≠ 0xFFFFFFFF) ∧ current ∉ visited) :=
      fun inside => here ⟨inside.1.1, inside.2⟩
    rw [countRowsFrom, dif_neg outside, rowSum, List.map_nil, List.sum_nil, Nat.add_zero,
      if_pos fits]

/-- In a file that is taken to be shorter, the walk is cut at the first page behind its end. -/
theorem pagesFrom_shorter (data : Bytes) {short pages : Nat} (less : short ≤ pages)
    (current : Nat) (visited : List Nat) :
    pagesFrom data short current visited =
      (pagesFrom data pages current visited).takeWhile (· < short) := by
  fun_induction pagesFrom data pages current visited with
  | case1 current visited here ih =>
    by_cases inside : current < short
    · rw [pagesFrom, dif_pos ⟨inside, here.2⟩, ih, List.takeWhile_cons_of_pos (by simpa using inside)]
    · rw [pagesFrom, dif_neg (fun both => inside both.1), List.takeWhile_cons_of_neg
        (by simpa using inside)]
  | case2 current visited here =>
    rw [pagesFrom, dif_neg (fun both => here ⟨Nat.lt_of_lt_of_le both.1 less, both.2⟩)]
    rfl

theorem mem_pagesFrom {data : Bytes} {pages current : Nat} {visited : List Nat} {k : Nat}
    (mem : k ∈ pagesFrom data pages current visited) : k < pages ∧ k ∉ visited := by
  fun_induction pagesFrom data pages current visited with
  | case1 current visited here ih =>
    rcases List.mem_cons.mp mem with rfl | later
    · exact here
    · obtain ⟨inside, new⟩ := ih later
      exact ⟨inside, fun seen => new (List.mem_cons_of_mem _ seen)⟩
  | case2 => cases mem

/-- Each page is met once. -/
theorem pagesFrom_nodup (data : Bytes) (pages current : Nat) (visited : List Nat) :
    (pagesFrom data pages current visited).Nodup := by
  fun_induction pagesFrom data pages current visited with
  | case1 current visited here ih =>
    exact List.nodup_cons.mpr ⟨fun again => (mem_pagesFrom again).2 List.mem_cons_self, ih⟩
  | case2 => exact List.nodup_nil

theorem actualPages_lt (data : Bytes) : actualPages data < 2 ^ 32 := Nat.mod_lt _ (by decide)

theorem actualPages_le (data : Bytes) : actualPages data ≤ data.length / PAGE_SIZE :=
  Nat.mod_le _ _

theorem actualPages_whole (data : Bytes) : actualPages data * PAGE_SIZE ≤ data.length :=
  Nat.le_trans (Nat.mul_le_mul_right PAGE_SIZE (actualPages_le data)) (Nat.div_mul_le_self _ _)

theorem countTableRows_eq (data : Bytes) (first : Nat) :
    Core.countTableRows data first (actualPages data) =
      if rowSum data (reachedPages data (actualPages data) first) < 2 ^ 32 then
        .ok (rowSum data (reachedPages data (actualPages data) first))
      else .error .integerOverflow := by
  have walked := countRowsFrom_pagesFrom data (actualPages_lt data) first [] (by decide : 0 < 2 ^ 32)
  simp only [Nat.zero_add] at walked
  exact walked

theorem rowCountOf_within {data : Bytes} {i : Nat}
    (within : (pagePointer data i).Within (actualPages data)) :
    rowCountOf data i =
      (Core.countTableRows data (pagePointer data i).firstPage (actualPages data)).map some := by
  rw [rowCountOf, if_pos within, Indexed.countTableRows,
    Indexed.countRowsFrom_eq (actualPages_whole data)]
  rfl

/-- A table has a row count exactly if its pages are there and the sum of their rows is a word. -/
theorem rowCountOf_some_iff {data : Bytes} {i c : Nat} :
    rowCountOf data i = .ok (some c) ↔ (pagePointer data i).Within (actualPages data) ∧
      c < 2 ^ 32 ∧
      c = rowSum data (reachedPages data (actualPages data) (pagePointer data i).firstPage) := by
  by_cases within : (pagePointer data i).Within (actualPages data)
  · rw [rowCountOf_within within, countTableRows_eq]
    split
    · rename_i fits
      constructor
      · intro is
        obtain rfl := Option.some.inj (Except.ok.inj is)
        exact ⟨within, fits, rfl⟩
      · rintro ⟨-, -, rfl⟩
        rfl
    · rename_i large
      constructor
      · intro is
        cases is
      · rintro ⟨-, fits, rfl⟩
        exact absurd fits large
  · rw [rowCountOf, if_neg within]
    constructor
    · intro is
      cases is
    · rintro ⟨inside, -⟩
      exact absurd inside within

/-- The body of the loop over the tables, by what becomes of the row count. -/
inductive TableChecked (data : Bytes) (r : ValidationResult) (i : Nat) : Prop where
  | skipped (r' : ValidationResult) (none : rowCountOf data i = .ok none)
      (checked : Core.checkTable data (actualPages data) r i = .ok r') (kept : r'.stats = r.stats)
  | counted (c : Nat) (some_ : rowCountOf data i = .ok (some c))
      (checked : Core.checkTable data (actualPages data) r i =
        .ok (r.setCount (pagePointer data i).tableType c))
  | faulted (fault : Fault) (error : rowCountOf data i = .error fault)
      (checked : Core.checkTable data (actualPages data) r i = .error fault)

theorem tableChecked (data : Bytes) (r : ValidationResult) (i : Nat) : TableChecked data r i := by
  by_cases within : (pagePointer data i).Within (actualPages data)
  · have body : Core.checkTable data (actualPages data) r i =
        (Core.countTableRows data (pagePointer data i).firstPage (actualPages data)).map
          (r.setCount (pagePointer data i).tableType) := by
      obtain ⟨positive, inside, last⟩ := within
      have first : ¬ ((pagePointer data i).firstPage ≠ 0 ∧
          actualPages data ≤ (pagePointer data i).firstPage) := by omega
      have second : ¬ ((pagePointer data i).lastPage ≠ 0xFFFFFFFF ∧
          actualPages data ≤ (pagePointer data i).lastPage) := by omega
      simp only [pagePointer] at first second positive inside
      rw [Core.checkTable, if_neg first, if_neg second,
        if_pos ⟨Nat.pos_of_ne_zero positive, inside⟩]
      rfl
    have count := rowCountOf_within within
    cases rows : Core.countTableRows data (pagePointer data i).firstPage (actualPages data) with
    | ok c =>
      rw [rows] at body count
      exact .counted c count body
    | error fault =>
      rw [rows] at body count
      exact .faulted fault count body
  · have none : rowCountOf data i = .ok none := if_neg within
    simp only [PagePointer.Within, pagePointer] at within
    have body : ∃ r', Core.checkTable data (actualPages data) r i = .ok r' ∧ r'.stats = r.stats := by
      rw [Core.checkTable]
      split_ifs
      · exact ⟨_, rfl, rfl⟩
      · exact ⟨_, rfl, rfl⟩
      · omega
      · exact ⟨_, rfl, rfl⟩
    obtain ⟨r', checked, kept⟩ := body
    exact .skipped r' none checked kept

theorem rowCount_setCount (r : ValidationResult) (tableType other c : Nat) :
    (r.setCount tableType c).stats.rowCount other =
      if other = tableType then (r.stats.rowCount other).map (fun _ => c)
      else r.stats.rowCount other := by
  unfold ValidationResult.setCount
  split_ifs with same
  · subst same
    split <;> simp [PdbStats.rowCount]
  · -- the statistics of two types share no field
    unfold PdbStats.rowCount
    split
    all_goals first
      | rfl
      | split <;> first | rfl | exact absurd rfl same

/-- The statistics of a type after the tables from `lo` to `hi`: the last of its row counts, or
what they were before. -/
inductive Latest (data : Bytes) (tableType lo hi old new : Nat) : Prop where
  | counted (i : Nat) (from_ : lo ≤ i) (below : i < hi) (inHeader : InHeader i)
      (is : (pagePointer data i).tableType = tableType)
      (count : rowCountOf data i = .ok (some new))
      (last : ∀ j, i < j → j < hi → InHeader j → (pagePointer data j).tableType = tableType →
        rowCountOf data j = .ok none)
  | unchanged (kept : new = old)
      (uncounted : ∀ j, lo ≤ j → j < hi → InHeader j →
        (pagePointer data j).tableType = tableType → rowCountOf data j = .ok none)

theorem Latest.earlier {data : Bytes} {tableType lo hi old mid new : Nat}
    (rest : Latest data tableType (lo + 1) hi mid new)
    (first : (rowCountOf data lo = .ok none ∨ (pagePointer data lo).tableType ≠ tableType) ∧
        mid = old ∨
      (pagePointer data lo).tableType = tableType ∧ rowCountOf data lo = .ok (some mid) ∧
        lo < hi ∧ InHeader lo) :
    Latest data tableType lo hi old new := by
  cases rest with
  | counted i from_ below inHeader is count last =>
    exact .counted i (by omega) below inHeader is count last
  | unchanged kept uncounted =>
    subst kept
    rcases first with ⟨skipped, rfl⟩ | ⟨is, count, below, inHeader⟩
    · refine .unchanged rfl ?_
      intro j from_ below inHeader is
      rcases Nat.eq_or_lt_of_le from_ with rfl | later
      · exact skipped.resolve_right (fun other => other is)
      · exact uncounted j later below inHeader is
    · exact .counted lo (Nat.le_refl lo) below inHeader is count
        (fun j after => uncounted j after)

/-- The loop over the tables returns if every row count does, and each type then has the last of
its row counts. -/
theorem checkTables_returns {data : Bytes} (count i : Nat) (r : ValidationResult)
    (counts : ∀ j, i ≤ j → j < i + count → InHeader j → ∃ c, rowCountOf data j = .ok c) :
    ∃ r', Core.checkTables data (actualPages data) count i r = .ok r' ∧
      ∀ tableType old, r.stats.rowCount tableType = some old →
        ∃ new, r'.stats.rowCount tableType = some new ∧
          Latest data tableType i (i + count) old new := by
  induction count generalizing i r with
  | zero =>
    refine ⟨r, rfl, ?_⟩
    intro tableType old is
    exact ⟨old, is, .unchanged rfl (fun j _ _ => by omega)⟩
  | succ count ih =>
    rw [Core.checkTables]
    split
    · -- no later pointer is within the header page either
      rename_i past
      refine ⟨_, rfl, ?_⟩
      intro tableType old is
      refine ⟨old, is, .unchanged rfl ?_⟩
      intro j from_ _ inHeader
      simp only [InHeader] at inHeader
      omega
    · rename_i inHeader
      have within : InHeader i := by
        simp only [InHeader]
        omega
      have rest : ∀ j, i + 1 ≤ j → j < i + 1 + count → InHeader j →
          ∃ c, rowCountOf data j = .ok c :=
        fun j after below => counts j (by omega) (by omega)
      have range : i + (count + 1) = i + 1 + count := by omega
      rw [range]
      cases tableChecked data r i with
      | skipped r₁ none checked kept =>
        obtain ⟨r', returned, latest⟩ := ih (i + 1) r₁ rest
        refine ⟨r', by rw [checked]; exact returned, ?_⟩
        intro tableType old is
        obtain ⟨new, found, here⟩ := latest tableType old (kept ▸ is)
        exact ⟨new, found, here.earlier (.inl ⟨.inl none, rfl⟩)⟩
      | counted c some_ checked =>
        obtain ⟨r', returned, latest⟩ := ih (i + 1) (r.setCount (pagePointer data i).tableType c) rest
        refine ⟨r', by rw [checked]; exact returned, ?_⟩
        intro tableType old is
        have set := rowCount_setCount r (pagePointer data i).tableType tableType c
        by_cases own : tableType = (pagePointer data i).tableType
        · rw [if_pos own, is] at set
          obtain ⟨new, found, here⟩ := latest tableType c set
          exact ⟨new, found, here.earlier (.inr ⟨own.symm, some_, by omega, within⟩)⟩
        · rw [if_neg own, is] at set
          obtain ⟨new, found, here⟩ := latest tableType old set
          exact ⟨new, found, here.earlier (.inl ⟨.inr (fun same => own same.symm), rfl⟩)⟩
      | faulted fault error checked =>
        obtain ⟨c, ok⟩ := counts i (Nat.le_refl i) (by omega) within
        rw [error] at ok
        cases ok

theorem fault_of_rowCountOf {data : Bytes} {i : Nat} {fault : Fault}
    (error : rowCountOf data i = .error fault) : fault = .integerOverflow := by
  by_cases within : (pagePointer data i).Within (actualPages data)
  · rw [rowCountOf_within within, countTableRows_eq] at error
    split at error
    · cases error
    · exact (Except.error.inj error).symm
  · rw [rowCountOf, if_neg within] at error
    cases error

/-- The only fault of the loop is a sum of rows that does not fit. -/
theorem fault_of_checkTables {data : Bytes} {count i : Nat} {r : ValidationResult} {fault : Fault}
    (error : Core.checkTables data (actualPages data) count i r = .error fault) :
    fault = .integerOverflow := by
  induction count generalizing i r with
  | zero => cases error
  | succ count ih =>
    rw [Core.checkTables] at error
    split at error
    · cases error
    · cases tableChecked data r i with
      | skipped r₁ none checked kept =>
        rw [checked] at error
        exact ih error
      | counted c some_ checked =>
        rw [checked] at error
        exact ih error
      | faulted fault' row checked =>
        rw [checked] at error
        obtain rfl := Except.error.inj error
        exact fault_of_rowCountOf row

/-- The statistics of a type are the last row count among its tables, or zero without one. -/
def Recorded (data : Bytes) (tableType c : Nat) : Prop :=
  (∃ i, IsTable data i ∧ (pagePointer data i).tableType = tableType ∧
      rowCountOf data i = .ok (some c) ∧
      ∀ j, i < j → IsTable data j → (pagePointer data j).tableType = tableType →
        rowCountOf data j = .ok none) ∨
    c = 0 ∧ ∀ i, IsTable data i → (pagePointer data i).tableType = tableType →
      rowCountOf data i = .ok none

/-- The validator returns, and each table whose pages are in the file has the rows of its distinct
pages as row count. -/
structure CountsRows (data : Bytes) : Prop where
  returns : ∃ r, Indexed.validatePdb data = .ok r ∧
    ∀ tableType c, r.stats.rowCount tableType = some c → Recorded data tableType c
  counts : ∀ i, IsTable data i → (pagePointer data i).Within (data.length / PAGE_SIZE) →
    let ks := reachedPages data (data.length / PAGE_SIZE) (pagePointer data i).firstPage
    ks.Nodup ∧ rowCountOf data i = .ok (some (rowSum data ks))

/-- The rows of every table fit a word; and where the page count does not, the pages of the table
and all that have rows come before the ones that the cut page count leaves out. -/
def CountsFit (data : Bytes) : Prop :=
  ∀ i, IsTable data i → (pagePointer data i).Within (data.length / PAGE_SIZE) →
    let ks := reachedPages data (data.length / PAGE_SIZE) (pagePointer data i).firstPage
    rowSum data ks < 2 ^ 32 ∧ (pagePointer data i).Within (actualPages data) ∧
      rowSum data (ks.dropWhile (· < actualPages data)) = 0

theorem rowCount_isSome (stats stats' : PdbStats) (tableType : Nat) :
    (stats.rowCount tableType).isSome = (stats'.rowCount tableType).isSome := by
  unfold PdbStats.rowCount
  split <;> rfl

/-- No row count is set at the start. -/
def Uncounted (stats : PdbStats) : Prop :=
  ∃ totalPages, stats = { ValidationResult.new.stats with totalPages := totalPages }

theorem Uncounted.zero {stats : PdbStats} (start : Uncounted stats) {tableType c : Nat}
    (is : stats.rowCount tableType = some c) : c = 0 := by
  obtain ⟨totalPages, rfl⟩ := start
  unfold PdbStats.rowCount at is
  split at is <;> simp_all [ValidationResult.new]

/-- Without a good header nothing is counted; behind one the tables are. -/
theorem validatePdb_cases (data : Bytes) :
    (¬ HeaderOk data ∧ ∃ r, Core.validatePdb data = .ok r ∧ Uncounted r.stats) ∨
    HeaderOk data ∧ ∃ r, Uncounted r.stats ∧ Core.validatePdb data = (do
      let r ← Core.checkTables data (actualPages data) (readLE (data.take PAGE_SIZE) 8 4) 0 r
      .ok ((List.range' 1 (actualPages data - 1)).foldl (Core.checkPage data) r)) := by
  rw [Core.validatePdb]
  by_cases short : data.length < PAGE_SIZE
  · rw [if_pos short]
    exact .inl ⟨fun ok => absurd ok.long (by omega), _, rfl, 0, rfl⟩
  by_cases ragged : data.length % PAGE_SIZE ≠ 0
  · rw [if_neg short, if_pos ragged]
    exact .inl ⟨fun ok => ragged ok.aligned, _, rfl, 0, rfl⟩
  rw [if_neg short, if_neg ragged]
  by_cases size : readLE (data.take PAGE_SIZE) 4 4 = PAGE_SIZE
  · refine .inr ⟨⟨by omega, by omega, size⟩, ?_⟩
    by_cases many : 20 < readLE (data.take PAGE_SIZE) 8 4
    all_goals by_cases beyond :
      data.length / PAGE_SIZE % 2 ^ 32 < readLE (data.take PAGE_SIZE) 12 4
    all_goals
      simp only [size, many, beyond, ne_eq, not_true_eq_false, if_false, if_true]
      refine ⟨_, ?_, rfl⟩
      exact ⟨_, rfl⟩
  · refine .inl ⟨fun ok => size ok.pageSize, ?_⟩
    simp only [ne_eq, size, not_false_eq_true, if_true]
    exact ⟨_, rfl, 0, rfl⟩

theorem fault_of_validatePdb {data : Bytes} {fault : Fault}
    (error : Indexed.validatePdb data = .error fault) : fault = .integerOverflow := by
  rw [Indexed.validatePdb_eq] at error
  rcases validatePdb_cases data with ⟨-, r, returned, -⟩ | ⟨-, r, -, body⟩
  · rw [returned] at error
    cases error
  · rw [body] at error
    cases tables : Core.checkTables data (actualPages data)
        (readLE (data.take PAGE_SIZE) 8 4) 0 r with
    | ok r' =>
      rw [tables] at error
      cases error
    | error fault' =>
      rw [tables] at error
      obtain rfl := Except.error.inj error
      exact fault_of_checkTables tables

/-- Where no table's row count faults, the validator returns and records the row counts. -/
theorem validatePdb_returns {data : Bytes}
    (counts : ∀ i, IsTable data i → ∃ c, rowCountOf data i = .ok c) :
    ∃ r, Indexed.validatePdb data = .ok r ∧
      ∀ tableType c, r.stats.rowCount tableType = some c → Recorded data tableType c := by
  rw [Indexed.validatePdb_eq]
  rcases validatePdb_cases data with ⟨bad, r, returned, start⟩ | ⟨ok, r, start, body⟩
  · refine ⟨r, returned, ?_⟩
    intro tableType c is
    exact .inr ⟨start.zero is, fun i table => absurd table.header bad⟩
  · obtain ⟨r', checked, latest⟩ := checkTables_returns (readLE (data.take PAGE_SIZE) 8 4) 0 r
      (fun j _ below inHeader => counts j ⟨ok, by omega, inHeader⟩)
    rw [checked, Loops.ok_bind] at body
    refine ⟨_, body, ?_⟩
    intro tableType c is
    rw [(checkPages_keep data _ r').2.1] at is
    have before := rowCount_isSome r.stats r'.stats tableType
    rw [is] at before
    obtain ⟨old, was⟩ := Option.isSome_iff_exists.mp before
    obtain rfl := start.zero was
    obtain ⟨new, found, here⟩ := latest tableType 0 was
    obtain rfl : new = c := Option.some.inj (found.symm.trans is)
    cases here with
    | counted i _ below inHeader same count last =>
      refine .inl ⟨i, ⟨ok, by omega, inHeader⟩, same, count, ?_⟩
      intro j after table
      exact last j after (by have := table.counted; omega) table.inHeader
    | unchanged kept uncounted =>
      refine .inr ⟨kept, ?_⟩
      intro i table
      exact uncounted i (Nat.zero_le i) (by have := table.counted; omega) table.inHeader

/-- The rows before and behind the end that the validator sees. -/
theorem rowSum_split (data : Bytes) (first : Nat) :
    rowSum data (reachedPages data (data.length / PAGE_SIZE) first) =
      rowSum data (reachedPages data (actualPages data) first) +
      rowSum data ((reachedPages data (data.length / PAGE_SIZE) first).dropWhile
        (· < actualPages data)) := by
  have seen : reachedPages data (actualPages data) first = _ :=
    pagesFrom_shorter data (actualPages_le data) first []
  rw [seen]
  simp only [rowSum]
  rw [← List.sum_append, ← List.map_append]
  exact congrArg (fun ks => (ks.map (fun k => numRows (page data k))).sum)
    List.takeWhile_append_dropWhile.symm

theorem PagePointer.Within.mono {p : PagePointer} {short pages : Nat} (within : p.Within short)
    (less : short ≤ pages) : p.Within pages := by
  obtain ⟨positive, inside, last⟩ := within
  exact ⟨positive, by omega, by omega⟩

theorem CountsRows.fit {data : Bytes} (right : CountsRows data) : CountsFit data := by
  intro i table within
  obtain ⟨seen, small, same⟩ := rowCountOf_some_iff.mp (right.counts i table within).2
  have split := rowSum_split data (pagePointer data i).firstPage
  exact ⟨small, seen, by omega⟩

theorem CountsFit.rowCount {data : Bytes} (fit : CountsFit data) {i : Nat}
    (table : IsTable data i) (within : (pagePointer data i).Within (data.length / PAGE_SIZE)) :
    rowCountOf data i = .ok (some (rowSum data
      (reachedPages data (data.length / PAGE_SIZE) (pagePointer data i).firstPage))) := by
  obtain ⟨small, seen, behind⟩ := fit i table within
  have split := rowSum_split data (pagePointer data i).firstPage
  exact rowCountOf_some_iff.mpr ⟨seen, small, by omega⟩

/-- No access is ever out of range, and the rows of the distinct pages are counted right exactly
where they fit. -/
theorem countsRows_iff (data : Bytes) :
    Indexed.validatePdb data ≠ .error .indexOutOfBounds ∧
      (CountsRows data ↔ CountsFit data) := by
  constructor
  · intro error
    cases fault_of_validatePdb error
  · constructor
    · exact CountsRows.fit
    · intro fit
      refine ⟨validatePdb_returns ?_,
        fun i table within => ⟨pagesFrom_nodup _ _ _ _, fit.rowCount table within⟩⟩
      intro i table
      by_cases within : (pagePointer data i).Within (data.length / PAGE_SIZE)
      · exact ⟨_, fit.rowCount table within⟩
      · exact ⟨none, if_neg (fun seen => within (seen.mono (actualPages_le data)))⟩

/-- A header with one table of tracks, whose pages start behind the header. -/
def longHeader : Bytes :=
  leBytes 4 0 ++ leBytes 4 PAGE_SIZE ++ leBytes 4 1 ++ List.replicate 16 0 ++ leBytes 4 0 ++
    leBytes 4 0 ++ leBytes 4 1 ++ leBytes 4 0xFFFFFFFF ++ List.replicate 4052 0

/-- A page with as many rows as its count can say, and the page that follows it. -/
def fullPage (next : Nat) : Bytes :=
  (List.replicate 12 0 ++ leBytes 4 next ++ List.replicate 8 0) ++
    (leBytes 3 (2047 * 2 ^ 13) ++ List.replicate 4069 0)

/-- A file of so many full pages, each followed by the next one. -/
def longChain (n : Nat) : Bytes :=
  (longHeader :: (List.range' 2 n).map fullPage).flatten

theorem length_longHeader : longHeader.length = PAGE_SIZE := by
  simp only [longHeader, List.length_append, length_leBytes, List.length_replicate]
  rfl

theorem length_fullPage (next : Nat) : (fullPage next).length = PAGE_SIZE := by
  simp only [fullPage, List.length_append, length_leBytes, List.length_replicate]
  rfl

theorem readLE_fullPage {next : Nat} (small : next < 2 ^ 32) :
    readLE (fullPage next) 12 4 = next := by
  have field : slice (fullPage next) 12 4 = leBytes 4 next := by
    rw [fullPage, slice_append_left (by simp), slice_append_left (by simp),
      slice_append_right (by simp), List.length_replicate]
    exact List.take_of_length_le (by simp)
  rw [readLE, field, leNat_leBytes_of_lt (by simpa using small)]

theorem numRows_fullPage (next : Nat) : numRows (fullPage next) = 2047 := by
  have field : slice (fullPage next) 24 3 = leBytes 3 (2047 * 2 ^ 13) := by
    rw [fullPage, slice_append_right (by simp), slice_append_left (by simp)]
    simp [slice]
  rw [numRows, readLE, field]
  decide

theorem length_longPages (n : Nat) : ∀ p ∈ longHeader :: (List.range' 2 n).map fullPage,
    p.length = PAGE_SIZE := by
  intro p mem
  rcases List.mem_cons.mp mem with rfl | mem
  · exact length_longHeader
  · obtain ⟨next, -, rfl⟩ := List.mem_map.mp mem
    exact length_fullPage next

theorem length_longChain (n : Nat) : (longChain n).length = (n + 1) * PAGE_SIZE := by
  rw [longChain, length_pages (length_longPages n), List.length_cons, List.length_map,
    List.length_range']

theorem take_longChain (n : Nat) : (longChain n).take PAGE_SIZE = longHeader := by
  rw [longChain, List.flatten_cons, List.take_left' length_longHeader]

theorem page_longChain {n k : Nat} (positive : 0 < k) (inside : k ≤ n) :
    page (longChain n) k = fullPage (k + 1) := by
  have here : (longHeader :: (List.range' 2 n).map fullPage)[k]? = some (fullPage (k + 1)) := by
    obtain ⟨j, rfl⟩ : ∃ j, k = j + 1 := ⟨k - 1, by omega⟩
    rw [List.getElem?_cons_succ, List.getElem?_map, List.getElem?_range' (by omega)]
    have number : 2 + 1 * j = j + 1 + 1 := by omega
    rw [number]
    rfl
  exact slice_pages (length_longPages n) here

/-- From page `k` on the chain meets all pages that are left. -/
theorem pagesFrom_longChain {n : Nat} (small : n + 1 < 2 ^ 32) {left k : Nat} (positive : 0 < k)
    (all : k + left = n + 1) {visited : List Nat} (before : ∀ j ∈ visited, j < k) :
    pagesFrom (longChain n) (n + 1) k visited = List.range' k left := by
  induction left generalizing k visited with
  | zero => rw [pagesFrom, dif_neg (by omega), List.range'_zero]
  | succ left ih =>
    have new : k ∉ visited := fun seen => Nat.lt_irrefl k (before k seen)
    rw [pagesFrom, dif_pos ⟨by omega, new⟩, page_longChain positive (by omega),
      readLE_fullPage (by omega), List.range'_succ]
    rw [ih (by omega) (by omega)]
    intro j seen
    rcases List.mem_cons.mp seen with rfl | seen
    · exact Nat.lt_succ_self j
    · exact Nat.lt_succ_of_lt (before j seen)

theorem rowSum_longChain {n : Nat} (small : n + 1 < 2 ^ 32) :
    rowSum (longChain n) (reachedPages (longChain n) (n + 1) 1) = n * 2047 := by
  have pages : reachedPages (longChain n) (n + 1) 1 = List.range' 1 n :=
    pagesFrom_longChain small (by omega) (by omega) nofun
  have each : ∀ k ∈ List.range' 1 n, numRows (page (longChain n) k) = 2047 := by
    intro k mem
    rw [List.mem_range'_1] at mem
    rw [page_longChain (by omega) (by omega), numRows_fullPage]
  rw [pages, rowSum, List.map_congr_left each, List.map_const', List.sum_replicate,
    List.length_range']
  rfl

/-- About eight and a half gigabytes of full pages: their rows are more than a word holds. -/
theorem longChain_not_counted : ¬ CountsRows (longChain 2099200) := by
  intro right
  have pages : (longChain 2099200).length / PAGE_SIZE = 2099201 := by
    rw [length_longChain, Nat.mul_div_cancel _ (by decide)]
  have word : ∀ off, readLE ((longChain 2099200).take PAGE_SIZE) off 4 = readLE longHeader off 4 :=
    fun off => by rw [take_longChain]
  have pointer : pagePointer (longChain 2099200) 0 = ⟨0, 1, 0xFFFFFFFF⟩ := by
    simp only [pagePointer, word]
    decide +kernel
  have table : IsTable (longChain 2099200) 0 := by
    refine ⟨⟨?_, ?_, ?_⟩, ?_, ?_⟩
    · rw [length_longChain]
      decide
    · rw [length_longChain, Nat.mul_mod_left]
    · rw [word]
      decide +kernel
    · rw [word]
      decide +kernel
    · simp only [InHeader, PAGE_SIZE]
      decide
  have within : (pagePointer (longChain 2099200) 0).Within
      ((longChain 2099200).length / PAGE_SIZE) := by
    rw [pointer, pages]
    exact ⟨by decide, by decide, .inl rfl⟩
  have small := (right.fit 0 table within).1
  rw [pages, pointer] at small
  change rowSum (longChain 2099200) (reachedPages (longChain 2099200) (2099200 + 1) 1) < 2 ^ 32
    at small
  rw [rowSum_longChain (by decide)] at small
  omega

end BVault.Core
