import BVault.Core.Validate
import BVault.Lib.Clusters

/-!
# The page diff of two files

`diff.rs` and the `pdbdiff` binary. Two files are compared page by page; the
differing bytes of a page are gathered into ranges, and bytes behind the last
whole page are not looked at.
-/

namespace BVault.Core

open Bytes

/-- Contiguous run of differing bytes within a page, both ends included. -/
structure ByteRange where
  start : Nat
  end_ : Nat
  golden : Bytes
  mine : Bytes
  field : String
  deriving DecidableEq, Repr

/-- All differences found on a single page. -/
structure PageDiff where
  index : Nat
  table : String
  ranges : List ByteRange
  deriving DecidableEq, Repr

/-- Result of comparing two PDB files. -/
structure PdbDiff where
  goldenPages : Nat
  minePages : Nat
  diffs : List PageDiff
  onlyInGolden : List Nat
  onlyInMine : List Nat
  deriving DecidableEq, Repr

def PdbDiff.isIdentical (d : PdbDiff) : Bool :=
  d.diffs.isEmpty && d.onlyInGolden.isEmpty && d.onlyInMine.isEmpty

/-- Cap a byte slice for display. -/
def clip (b : Bytes) : Bytes := if 16 < b.length then b.take 16 else b

def pageTypeName (ty : Nat) : String :=
  match ty with
  | 0 => "Tracks"
  | 1 => "Genres"
  | 2 => "Artists"
  | 3 => "Albums"
  | 4 => "Labels"
  | 5 => "Keys"
  | 6 => "Colors"
  | 7 => "PlaylistTree"
  | 8 => "PlaylistEntries"
  | 9 => "Unknown9"
  | 10 => "Unknown10"
  | 11 => "HistoryPlaylists"
  | 12 => "HistoryEntries"
  | 13 => "Artwork"
  | 14 => "Unknown14"
  | 15 => "Unknown15"
  | 16 => "Columns"
  | 17 => "Unknown17"
  | 18 => "Unknown18"
  | 19 => "History"
  | _ => "type" ++ toString ty

/-- Label a page by reading its own type byte (file header is page 0). -/
def pageLabel (index : Nat) (page : Bytes) : String :=
  if index = 0 then "File Header" else pageTypeName (readLE page 0x08 4)

/-- Map a within-page offset to a known header field name. -/
def annotate (index off : Nat) : String :=
  if index = 0 then
    if off ≤ 0x03 then "fh:zero"
    else if off ≤ 0x07 then "fh:page_size"
    else if off ≤ 0x0B then "fh:num_tables"
    else if off ≤ 0x0F then "fh:next_unused_page"
    else if off ≤ 0x13 then "fh:unknown"
    else if off ≤ 0x17 then "fh:sequence"
    else if off ≤ 0x1B then "fh:gap"
    else "fh:table_pointers"
  else
    if off ≤ 0x03 then "zero"
    else if off ≤ 0x07 then "page_index"
    else if off ≤ 0x0B then "page_type"
    else if off ≤ 0x0F then "next_page"
    else if off ≤ 0x13 then "sequence"
    else if off ≤ 0x17 then "unknown"
    else if off ≤ 0x1A then "packed_counts"
    else if off = 0x1B then "flags"
    else if off ≤ 0x1D then "free_size"
    else if off ≤ 0x1F then "used_size"
    else if off ≤ 0x27 then "page_hdr_tail"
    else "heap/row-data"

/-- `g[i] != m[i]`. -/
def Differs (g m : Bytes) (i : Nat) : Prop := g.getD i 0 ≠ m.getD i 0

instance (g m : Bytes) (i : Nat) : Decidable (Differs g m i) :=
  inferInstanceAs (Decidable (g.getD i 0 ≠ m.getD i 0))

def GAP : Nat := 3

/-- `while j < PAGE_SIZE && j - i < GAP`: the place where it finds a difference. -/
def lookAhead (g m : Bytes) (i j : Nat) : Option Nat :=
  if j < PAGE_SIZE ∧ j - i < GAP then
    if Differs g m j then some j else lookAhead g m i (j + 1)
  else none
termination_by PAGE_SIZE - j

theorem lookAhead_spec {g m : Bytes} {i j found : Nat} (is : lookAhead g m i j = some found) :
    j ≤ found ∧ found < PAGE_SIZE ∧ found - i < GAP ∧ Differs g m found := by
  fun_induction lookAhead g m i j with
  | case1 j inside differs =>
    obtain rfl := Option.some.inj is
    exact ⟨Nat.le_refl j, inside.1, inside.2, differs⟩
  | case2 j inside equal ih =>
    obtain ⟨after, rest⟩ := ih is
    exact ⟨by omega, rest⟩
  | case3 => cases is

theorem lookAhead_none {g m : Bytes} {i j : Nat} (is : lookAhead g m i j = none) {k : Nat}
    (after : j ≤ k) (below : k < PAGE_SIZE) (near : k - i < GAP) : ¬ Differs g m k := by
  fun_induction lookAhead g m i j with
  | case1 => cases is
  | case2 j inside equal ih =>
    rcases Nat.eq_or_lt_of_le after with rfl | later
    · exact equal
    · exact ih is later
  | case3 j outside => omega

/-- The loop that extends a range ending at `end_`: the place where it stops, and the new end. -/
def extend (g m : Bytes) (i end_ : Nat) : Nat × Nat :=
  if _inside : i < PAGE_SIZE then
    if equal : Differs g m i then extend g m (i + 1) i
    else
      match _ahead : lookAhead g m i i with
      | some j => extend g m j end_
      | none => (i, end_)
  else (i, end_)
termination_by PAGE_SIZE - i
decreasing_by
  · omega
  · obtain ⟨after, below, -, differs⟩ := lookAhead_spec _ahead
    have other : j ≠ i := by
      rintro rfl
      exact equal differs
    omega

/-- What the extending loop leaves behind a range that ends at `end_`. -/
structure Extended (g m : Bytes) (end_ : Nat) (r : Nat × Nat) : Prop where
  behind : r.1 = r.2 + 1
  order : end_ ≤ r.2
  below : r.2 < PAGE_SIZE
  differs : Differs g m r.2
  dense : ∀ start, Clusters.Dense (Differs g m) 2 start end_ →
    Clusters.Dense (Differs g m) 2 start r.2
  equal : ∀ i, r.2 < i → i ≤ r.2 + 3 → i < PAGE_SIZE → ¬ Differs g m i

/-- The loop is entered right behind the range or at the next difference. -/
theorem extend_spec {g m : Bytes} {i end_ : Nat} (below : end_ < PAGE_SIZE)
    (differs : Differs g m end_) (near : end_ < i ∧ i ≤ end_ + 3)
    (entry : i = end_ + 1 ∨ i < PAGE_SIZE ∧ Differs g m i) :
    Extended g m end_ (extend g m i end_) := by
  fun_induction extend g m i end_ with
  | case1 i end_ inside here ih =>
    have next := ih inside here ⟨by omega, by omega⟩ (.inl rfl)
    have step : ∀ start, Clusters.Dense (Differs g m) 2 start end_ →
        Clusters.Dense (Differs g m) 2 start i :=
      fun start dense => dense.extend differs here (by omega)
    have order : end_ ≤ (extend g m (i + 1) i).2 := by
      have := next.order
      omega
    exact ⟨next.behind, order, next.below, next.differs,
      fun start dense => next.dense start (step start dense), next.equal⟩
  | case2 i end_ inside here j ahead ih =>
    have first : i = end_ + 1 := entry.resolve_right (fun other => here other.2)
    obtain ⟨after, inside', close, there⟩ := lookAhead_spec ahead
    have further : j ≠ i := by
      rintro rfl
      exact here there
    simp only [GAP] at close
    exact ih below differs ⟨by omega, by omega⟩ (.inr ⟨inside', there⟩)
  | case3 i end_ inside here ahead =>
    have first : i = end_ + 1 := entry.resolve_right (fun other => here other.2)
    refine ⟨first, Nat.le_refl end_, below, differs, fun _ dense => dense, ?_⟩
    intro k past close inside'
    exact lookAhead_none ahead (by omega) inside' (by simp only [GAP]; omega)
  | case4 i end_ outside =>
    have first : i = end_ + 1 := entry.resolve_right (fun other => outside other.1)
    refine ⟨first, Nat.le_refl end_, below, differs, fun _ dense => dense, ?_⟩
    intro k past close inside'
    omega

theorem extend_start {g m : Bytes} {i : Nat} (inside : i < PAGE_SIZE) (differs : Differs g m i) :
    Extended g m i (extend g m (i + 1) i) :=
  extend_spec inside differs ⟨by omega, by omega⟩ (.inl rfl)

/-- The outer loop: the ranges from place `i` on. -/
def findRuns (g m : Bytes) (i : Nat) : List (Nat × Nat) :=
  if _inside : i < PAGE_SIZE then
    if differs : Differs g m i then
      have _later := (extend_start _inside differs).order
      have _behind := (extend_start _inside differs).behind
      (i, (extend g m (i + 1) i).2) :: findRuns g m (extend g m (i + 1) i).1
    else findRuns g m (i + 1)
  else []
termination_by PAGE_SIZE - i
decreasing_by all_goals omega

/-- The annotated range from a start to an inclusive end. -/
def rangeOf (index : Nat) (g m : Bytes) (r : Nat × Nat) : ByteRange where
  start := r.1
  end_ := r.2
  golden := clip (slice g r.1 (r.2 + 1 - r.1))
  mine := clip (slice m r.1 (r.2 + 1 - r.1))
  field := annotate index r.1

/-- Find runs of differing bytes. -/
def diffPage (index : Nat) (g m : Bytes) : List ByteRange :=
  (findRuns g m 0).map (rangeOf index g m)

/-- Every range is extended over two equal bytes, and ends before three. -/
theorem findRuns_clustered (g m : Bytes) (i : Nat) :
    Clusters.Clustered (Differs g m) 2 i PAGE_SIZE (findRuns g m i) := by
  fun_induction findRuns g m i with
  | case1 i inside differs later behind ih =>
    have extended := extend_start inside differs
    rw [behind] at ih ⊢
    exact ih.cons extended.order extended.below differs extended.differs
      (extended.dense i (Clusters.dense_single differs)) extended.equal
  | case2 i inside equal ih => exact ih.skip equal
  | case3 i outside => exact Clusters.clustered_nil (by omega)

/-- The ranges of two pages, merged over up to three equal bytes. -/
structure MergesUpToThree (g m : Bytes) (ranges : List ByteRange) : Prop where
  increasing : ranges.Pairwise (fun r s => r.end_ < s.start)
  ends : ∀ r ∈ ranges, r.start ≤ r.end_ ∧ r.end_ < PAGE_SIZE ∧
    Differs g m r.start ∧ Differs g m r.end_
  covers : ∀ i < PAGE_SIZE, Differs g m i → ∃ r ∈ ranges, r.start ≤ i ∧ i ≤ r.end_
  noRun : ∀ r ∈ ranges, ∀ i, r.start ≤ i → i + 3 ≤ r.end_ →
    ∃ j, i ≤ j ∧ j ≤ i + 3 ∧ Differs g m j
  separated : ∀ k r s, ranges[k]? = some r → ranges[k + 1]? = some s →
    3 < s.start - r.end_ - 1 ∧ ∀ i, r.end_ < i → i < s.start → ¬ Differs g m i

/-- Two differing bytes with just three equal bytes between them. -/
def ThreeEqualBetween (g m : Bytes) : Prop :=
  ∃ i, i + 4 < PAGE_SIZE ∧ Differs g m i ∧ Differs g m (i + 4) ∧
    ∀ j, i < j → j < i + 4 → ¬ Differs g m j

/-- Ranges that are merged over three equal bytes leave no three equal bytes between two. -/
theorem not_threeEqualBetween {g m : Bytes}
    (wider : Clusters.Clustered (Differs g m) 3 0 PAGE_SIZE (findRuns g m 0)) :
    ¬ ThreeEqualBetween g m := by
  rintro ⟨i, inside, first, second, equal⟩
  have close := (findRuns_clustered g m 0).wider_iff.mp wider
  obtain ⟨j, after, before, differs⟩ := close i (Nat.zero_le i) inside first second
  exact equal j after before differs

/-- Ranges with the properties are those that a look ahead of four places would find. -/
theorem MergesUpToThree.clustered {index : Nat} {g m : Bytes}
    (merges : MergesUpToThree g m (diffPage index g m)) :
    Clusters.Clustered (Differs g m) 3 0 PAGE_SIZE (findRuns g m 0) := by
  apply (findRuns_clustered g m 0).wider_of_next
  intro k r s hr hs
  have first : (diffPage index g m)[k]? = some (rangeOf index g m r) := by
    rw [diffPage, List.getElem?_map, hr, Option.map_some]
  have second : (diffPage index g m)[k + 1]? = some (rangeOf index g m s) := by
    rw [diffPage, List.getElem?_map, hs, Option.map_some]
  have apart : 3 < s.1 - r.2 - 1 := (merges.separated k _ _ first second).1
  omega

theorem mergesUpToThree_of_clustered {index : Nat} {g m : Bytes}
    (wider : Clusters.Clustered (Differs g m) 3 0 PAGE_SIZE (findRuns g m 0)) :
    MergesUpToThree g m (diffPage index g m) := by
  constructor
  case increasing =>
    rw [diffPage, List.pairwise_map]
    refine wider.apart.imp ?_
    intro r s apart
    show r.2 < s.1
    omega
  case ends =>
    intro range mem
    obtain ⟨r, hr, rfl⟩ := List.mem_map.mp mem
    exact (wider.ends r hr).2
  case covers =>
    intro i inside differs
    obtain ⟨r, hr, within⟩ := wider.covers i (Nat.zero_le i) inside differs
    exact ⟨_, List.mem_map_of_mem hr, within⟩
  case noRun =>
    intro range mem
    obtain ⟨r, hr, rfl⟩ := List.mem_map.mp mem
    exact wider.dense r hr
  case separated =>
    intro k range next here there
    rw [diffPage, List.getElem?_map] at here there
    obtain ⟨r, hr, rfl⟩ := Option.map_eq_some_iff.mp here
    obtain ⟨s, hs, rfl⟩ := Option.map_eq_some_iff.mp there
    refine ⟨?_, fun i behind before => wider.between hr hs behind before⟩
    have apart := List.pairwise_iff_getElem.mp wider.apart
    obtain ⟨hk, rfl⟩ := List.getElem?_eq_some_iff.mp hr
    obtain ⟨hk', rfl⟩ := List.getElem?_eq_some_iff.mp hs
    have wide := apart k (k + 1) hk hk' (by omega)
    show 3 < (findRuns g m 0)[k + 1].1 - (findRuns g m 0)[k].2 - 1
    omega

/-- The ranges merge as documented exactly if no two differing bytes have just three equal bytes
between them. -/
theorem diffPage_merges_iff (index : Nat) (g m : Bytes) :
    MergesUpToThree g m (diffPage index g m) ↔ ¬ ThreeEqualBetween g m := by
  constructor
  · intro merges
    exact not_threeEqualBetween merges.clustered
  · intro none
    apply mergesUpToThree_of_clustered
    apply (findRuns_clustered g m 0).wider_iff.mpr
    intro i _ inside first second
    by_contra empty
    apply none
    refine ⟨i, inside, first, second, ?_⟩
    intro j after before differs
    exact empty ⟨j, after, before, differs⟩

/-- A page whose first and fifth byte are not zero. -/
def spacedPage : Bytes := [1, 0, 0, 0, 1] ++ List.replicate 4091 0

/-- Three equal bytes between two differing ones: two ranges. -/
theorem three_equal_bytes_not_merged :
    zeroPage.length = PAGE_SIZE ∧ spacedPage.length = PAGE_SIZE ∧
      ¬ MergesUpToThree zeroPage spacedPage (diffPage 1 zeroPage spacedPage) := by
  refine ⟨List.length_replicate, ?_, ?_⟩
  · rw [spacedPage, List.length_append, List.length_replicate]
    rfl
  intro merges
  apply not_threeEqualBetween merges.clustered
  refine ⟨0, by decide, by decide, by decide, ?_⟩
  intro j after before
  obtain rfl | rfl | rfl : j = 1 ∨ j = 2 ∨ j = 3 := by omega
  · decide
  · decide
  · decide

/-- The number of whole pages. -/
def pageCount (file : Bytes) : Nat := file.length / PAGE_SIZE

/-- The body of the loop over the pages that both files have. -/
def diffAt (golden mine : Bytes) (idx : Nat) : Option PageDiff :=
  let g := page golden idx
  let m := page mine idx
  if g = m then none
  else
    let ranges := diffPage (idx % 2 ^ 32) g m
    if ranges.isEmpty then none
    else some ⟨idx % 2 ^ 32, pageLabel (idx % 2 ^ 32) g, ranges⟩

/-- Compare two PDB byte buffers. -/
def diffPdb (golden mine : Bytes) : PdbDiff :=
  let gp := pageCount golden
  let mp := pageCount mine
  let compared := min gp mp
  { goldenPages := gp
    minePages := mp
    diffs := (List.range compared).filterMap (diffAt golden mine)
    onlyInGolden := (List.range' compared (gp - compared)).map (· % 2 ^ 32)
    onlyInMine := (List.range' compared (mp - compared)).map (· % 2 ^ 32) }

/-- A difference in a page is found. -/
theorem diffPage_ne_nil (index : Nat) {g m : Bytes} (hg : g.length = PAGE_SIZE)
    (hm : m.length = PAGE_SIZE) (other : g ≠ m) : diffPage index g m ≠ [] := by
  intro empty
  apply other
  have runs : findRuns g m 0 = [] := List.map_eq_nil_iff.mp empty
  have clustered := findRuns_clustered g m 0
  rw [runs] at clustered
  apply List.ext_getElem (hg.trans hm.symm)
  intro i hi hi'
  by_contra differs
  have found : Differs g m i := by
    rw [Differs, List.getD_eq_getElem _ _ hi, List.getD_eq_getElem _ _ hi']
    exact differs
  obtain ⟨r, mem, -⟩ := clustered.covers i (Nat.zero_le i) (hg ▸ hi) found
  cases mem

theorem length_page_of_count {file : Bytes} {k : Nat} (inside : k < pageCount file) :
    (page file k).length = PAGE_SIZE :=
  length_page (Nat.div_mul_le_self file.length PAGE_SIZE) inside

theorem diffAt_eq_none_iff {golden mine : Bytes} {idx : Nat} (inGolden : idx < pageCount golden)
    (inMine : idx < pageCount mine) :
    diffAt golden mine idx = none ↔ page golden idx = page mine idx := by
  constructor
  · intro none
    by_contra other
    apply diffPage_ne_nil (idx % 2 ^ 32) (length_page_of_count inGolden)
      (length_page_of_count inMine) other
    simpa [diffAt, other] using none
  · intro same
    simp [diffAt, same]

/-- The bytes of the whole pages. -/
def wholePages (file : Bytes) : Bytes := file.take (pageCount file * PAGE_SIZE)

/-- The bytes behind the last whole page. -/
def tail (file : Bytes) : Bytes := file.drop (pageCount file * PAGE_SIZE)

theorem pages_append_tail (file : Bytes) : wholePages file ++ tail file = file :=
  List.take_append_drop _ file

theorem length_wholePages (file : Bytes) :
    (wholePages file).length = pageCount file * PAGE_SIZE := by
  rw [wholePages, List.length_take]
  exact Nat.min_eq_left (Nat.div_mul_le_self file.length PAGE_SIZE)

/-- Whole pages are the same if their number is, and each of them. -/
theorem wholePages_eq_iff (golden mine : Bytes) :
    wholePages golden = wholePages mine ↔ pageCount golden = pageCount mine ∧
      ∀ k < pageCount golden, page golden k = page mine k := by
  have positive : 0 < PAGE_SIZE := by decide
  constructor
  · intro same
    have lengths := congrArg List.length same
    rw [length_wholePages, length_wholePages] at lengths
    have counts := Nat.eq_of_mul_eq_mul_right positive lengths
    refine ⟨counts, ?_⟩
    intro k inside
    have within : k * PAGE_SIZE + PAGE_SIZE ≤ (wholePages golden).length := by
      rw [length_wholePages, ← Nat.succ_mul]
      exact Nat.mul_le_mul_right PAGE_SIZE inside
    have within' : k * PAGE_SIZE + PAGE_SIZE ≤ (wholePages mine).length := same ▸ within
    calc page golden k
        = slice (wholePages golden ++ tail golden) (k * PAGE_SIZE) PAGE_SIZE := by
          rw [pages_append_tail, page]
      _ = slice (wholePages mine ++ tail mine) (k * PAGE_SIZE) PAGE_SIZE := by
          rw [slice_append_left within, slice_append_left within', same]
      _ = page mine k := by rw [pages_append_tail, page]
  · rintro ⟨counts, pages⟩
    apply List.ext_getElem?
    intro i
    rw [wholePages, wholePages, ← counts]
    by_cases inside : i < pageCount golden * PAGE_SIZE
    · have number : i / PAGE_SIZE < pageCount golden := (Nat.div_lt_iff_lt_mul positive).mpr inside
      have offset : i % PAGE_SIZE < PAGE_SIZE := Nat.mod_lt i positive
      have place : i / PAGE_SIZE * PAGE_SIZE + i % PAGE_SIZE = i := Nat.div_add_mod' i PAGE_SIZE
      have same := congrArg (·[i % PAGE_SIZE]?) (pages _ number)
      simp only [page, slice_getElem?, if_pos offset, place] at same
      rw [List.getElem?_take_of_lt inside, List.getElem?_take_of_lt inside, same]
    · rw [List.getElem?_take_eq_none (by omega), List.getElem?_take_eq_none (by omega)]

/-- What the diff calls identical are equal whole pages. -/
theorem isIdentical_iff (golden mine : Bytes) :
    (diffPdb golden mine).isIdentical = true ↔ wholePages golden = wholePages mine := by
  rw [wholePages_eq_iff]
  simp only [PdbDiff.isIdentical, diffPdb, Bool.and_eq_true, List.isEmpty_iff,
    List.map_eq_nil_iff, List.range'_eq_nil_iff, List.filterMap_eq_nil_iff, List.mem_range]
  constructor
  · rintro ⟨⟨pages, inGolden⟩, inMine⟩
    refine ⟨by omega, ?_⟩
    intro k inside
    have inside' : k < pageCount mine := by omega
    exact (diffAt_eq_none_iff inside inside').mp (pages k (by omega))
  · rintro ⟨counts, pages⟩
    refine ⟨⟨?_, by omega⟩, by omega⟩
    intro k inside
    exact (diffAt_eq_none_iff (by omega) (by omega)).mpr (pages k (by omega))

/-- `{:02X}` of each byte; a clipped slice ends in dots. -/
def hex (b : Bytes) : String :=
  " ".intercalate (b.map hexByte) ++ (if b.length = 16 then " ..." else "")

/-- `{:<n}`. -/
def padRight (n : Nat) (s : String) : String := s ++ String.ofList (List.replicate (n - s.length) ' ')

/-- `0x{:04X}`. -/
def hexOffset (off : Nat) : String :=
  let digits := (Nat.toDigits 16 off).map Char.toUpper
  "0x" ++ String.ofList (List.replicate (4 - digits.length) '0' ++ digits)

/-- `{:+}`. -/
def signed (n : Int) : String := if 0 ≤ n then "+" ++ toString n else toString n

/-- `{:?}` of a vector of numbers. -/
def debugList (ns : List Nat) : String := "[" ++ ", ".intercalate (ns.map toString) ++ "]"

def rangeLine (r : ByteRange) : String :=
  let span :=
    if r.start = r.end_ then hexOffset r.start
    else hexOffset r.start ++ ".." ++ hexOffset r.end_
  "  " ++ padRight 17 span ++ " " ++ padRight 14 r.field ++ " golden=" ++ hex r.golden ++
    "  mine=" ++ hex r.mine

def pageLine (pd : PageDiff) : String :=
  "Page " ++ toString pd.index ++ " [" ++ pd.table ++ "] differs (" ++
    toString pd.ranges.length ++ " range" ++ (if pd.ranges.length = 1 then "" else "s") ++ "):"

/-- One more page of a table. -/
def tallyTable (table : String) : List (String × Nat) → List (String × Nat)
  | [] => [(table, 1)]
  | (t, n) :: rest => if t = table then (t, n + 1) :: rest else (t, n) :: tallyTable table rest

/-- Differing pages by table, in the order of their first page. -/
def tally (diffs : List PageDiff) : List (String × Nat) :=
  diffs.foldl (fun counts pd => tallyTable pd.table counts) []

/-- The lines of the report. -/
def PdbDiff.reportLines (d : PdbDiff) : List String :=
  let compared := min d.goldenPages d.minePages
  let identical := compared - d.diffs.length
  ["PDB diff: golden = " ++ toString d.goldenPages ++ " pages, mine = " ++
    toString d.minePages ++ " pages"] ++
  (if d.goldenPages = d.minePages then []
    else ["  ! page count differs (" ++ signed ((d.minePages : Int) - d.goldenPages) ++ ")"]) ++
  if d.isIdentical then ["", "Files are byte-identical."]
  else
    ["", toString compared ++ " pages compared, " ++ toString identical ++ " identical, " ++
      toString d.diffs.length ++ " differ", ""] ++
    d.diffs.flatMap (fun pd => pageLine pd :: pd.ranges.map rangeLine ++ [""]) ++
    (if d.onlyInGolden.isEmpty then []
      else ["Pages only in golden: " ++ debugList d.onlyInGolden]) ++
    (if d.onlyInMine.isEmpty then [] else ["Pages only in mine: " ++ debugList d.onlyInMine]) ++
    (if (tally d.diffs).isEmpty then []
      else ["Differing pages by table: " ++ ", ".intercalate
        ((tally d.diffs).map (fun (t, n) => t ++ "x" ++ toString n))])

/-- What `pdbdiff` prints to the standard output, line by line, and its exit code. -/
structure Outcome where
  printed : List String
  exitCode : Nat

/-- `pdbdiff`; `read` is what the filesystem has. -/
def pdbdiff (read : String → Option Bytes) (args : List String) : Outcome :=
  match args with
  | [_, goldenPath, minePath] =>
    match read goldenPath, read minePath with
    | some golden, some mine =>
      let d := diffPdb golden mine
      ⟨d.reportLines, if d.isIdentical then 0 else 1⟩
    | _, _ => ⟨[], 2⟩
  | _ => ⟨[], 2⟩

theorem ne_identical_of_head {c : Char} {line s : String} (t : String) (is : line = s ++ t)
    (head : s.toList.head? = some c) (other : c ≠ 'F') : line ≠ "Files are byte-identical." := by
  intro same
  have heads := congrArg (fun line => line.toList.head?) (is.symm.trans same)
  simp only [String.toList_append, List.head?_append, head, Option.some_or] at heads
  exact other (Option.some.inj heads)

theorem ne_identical_of_last {c : Char} {line t : String} (s : String) (is : line = s ++ t)
    (last : t.toList.getLast? = some c) (other : c ≠ '.') :
    line ≠ "Files are byte-identical." := by
  intro same
  have lasts := congrArg (fun line => line.toList.getLast?) (is.symm.trans same)
  simp only [String.toList_append, List.getLast?_append, last, Option.some_or] at lasts
  exact other (Option.some.inj lasts)

theorem rangeLine_ne (r : ByteRange) : rangeLine r ≠ "Files are byte-identical." := by
  unfold rangeLine
  simp only [String.append_assoc]
  exact ne_identical_of_head (c := ' ') (s := "  ") _ rfl rfl (by decide)

theorem pageLine_ne (pd : PageDiff) : pageLine pd ≠ "Files are byte-identical." := by
  unfold pageLine
  simp only [String.append_assoc]
  exact ne_identical_of_head (c := 'P') (s := "Page ") _ rfl rfl (by decide)

/-- The line is printed for identical diffs only: every other one starts or ends otherwise. -/
theorem identical_line_iff (d : PdbDiff) :
    "Files are byte-identical." ∈ d.reportLines ↔ d.isIdentical = true := by
  constructor
  · intro printed
    by_contra other
    simp only [PdbDiff.reportLines, if_neg other, List.mem_append, List.mem_flatMap] at printed
    rcases printed with (title | counts) | ((((compared | ⟨pd, -, line⟩) | golden) | mine) | tables)
    · simp only [List.mem_singleton, String.append_assoc] at title
      exact ne_identical_of_head (c := 'P') (s := "PDB diff: golden = ") _ rfl rfl (by decide)
        title.symm
    · split at counts
      · cases counts
      · simp only [List.mem_singleton, String.append_assoc] at counts
        exact ne_identical_of_head (c := ' ') (s := "  ! page count differs (") _ rfl rfl
          (by decide) counts.symm
    · simp only [List.mem_cons, List.not_mem_nil, or_false] at compared
      rcases compared with empty | line | empty
      · exact absurd empty (by decide)
      · exact ne_identical_of_last (c := 'r') (t := " differ") _ rfl rfl (by decide) line.symm
      · exact absurd empty (by decide)
    · rcases line with line | empty
      · rcases List.mem_cons.mp line with page | range
        · exact pageLine_ne pd page.symm
        · obtain ⟨r, -, is⟩ := List.mem_map.mp range
          exact rangeLine_ne r is
      · exact absurd (List.mem_singleton.mp empty) (by decide)
    · split at golden
      · cases golden
      · exact ne_identical_of_head (c := 'P') (s := "Pages only in golden: ") _ rfl rfl (by decide)
          (List.mem_singleton.mp golden).symm
    · split at mine
      · cases mine
      · exact ne_identical_of_head (c := 'P') (s := "Pages only in mine: ") _ rfl rfl (by decide)
          (List.mem_singleton.mp mine).symm
    · split at tables
      · cases tables
      · exact ne_identical_of_head (c := 'D') (s := "Differing pages by table: ") _ rfl rfl
          (by decide) (List.mem_singleton.mp tables).symm
  · intro identical
    simp [PdbDiff.reportLines, identical]

/-- The diff and the program tell whether two files are equal. -/
structure TellsIdentity (golden mine : Bytes) : Prop where
  identical : (diffPdb golden mine).isIdentical = true ↔ golden = mine
  prints : ∀ read program goldenPath minePath, read goldenPath = some golden →
    read minePath = some mine →
    "Files are byte-identical." ∈ (pdbdiff read [program, goldenPath, minePath]).printed →
    golden = mine
  exits : ∀ read program goldenPath minePath, read goldenPath = some golden →
    read minePath = some mine →
    (pdbdiff read [program, goldenPath, minePath]).exitCode = 0 → golden = mine

/-- The program says what the diff says. -/
theorem pdbdiff_tells {read : String → Option Bytes} {goldenPath minePath : String}
    {golden mine : Bytes} (program : String) (first : read goldenPath = some golden)
    (second : read minePath = some mine) :
    ("Files are byte-identical." ∈ (pdbdiff read [program, goldenPath, minePath]).printed ↔
        (diffPdb golden mine).isIdentical = true) ∧
      ((pdbdiff read [program, goldenPath, minePath]).exitCode = 0 ↔
        (diffPdb golden mine).isIdentical = true) := by
  simp only [pdbdiff, first, second]
  constructor
  · exact identical_line_iff (diffPdb golden mine)
  · split <;> simp_all

theorem eq_of_pages_of_tail {golden mine : Bytes} (pages : wholePages golden = wholePages mine)
    (tails : tail golden = tail mine) : golden = mine := by
  rw [← pages_append_tail golden, ← pages_append_tail mine, pages, tails]

/-- Identity is told exactly where equal whole pages come with equal bytes behind them. -/
theorem tellsIdentity_iff (golden mine : Bytes) :
    TellsIdentity golden mine ↔
      (wholePages golden = wholePages mine → tail golden = tail mine) := by
  constructor
  · intro tells pages
    have equal := tells.identical.mp ((isIdentical_iff golden mine).mpr pages)
    exact congrArg tail equal
  · intro tails
    have sound : (diffPdb golden mine).isIdentical = true → golden = mine := by
      intro identical
      have pages := (isIdentical_iff golden mine).mp identical
      exact eq_of_pages_of_tail pages (tails pages)
    refine ⟨⟨sound, ?_⟩, ?_, ?_⟩
    · rintro rfl
      exact (isIdentical_iff golden golden).mpr rfl
    · intro read program goldenPath minePath first second printed
      exact sound ((pdbdiff_tells program first second).1.mp printed)
    · intro read program goldenPath minePath first second exits
      exact sound ((pdbdiff_tells program first second).2.mp exits)

/-- An empty file and one of a single byte have no page to compare. -/
theorem short_files_not_told : ¬ TellsIdentity [] [0] := by
  intro tells
  have identical : (diffPdb [] [0]).isIdentical = true := (isIdentical_iff [] [0]).mpr rfl
  exact absurd (tells.identical.mp identical) (by decide)

end BVault.Core
