import BVault.Core.Page

/-!
# Rows on a page

The documented way to read a data page, and that a finalized page reads as the
rows written to it: a row's offset stands in its group of the row index, counted
down from the page end, and rows neither meet each other nor the index.
-/

namespace BVault.Core

open Bytes

/-- The number of rows: the low 11 bits at 0x18. -/
def rowCountField (page : Bytes) : Nat := readLE page 0x18 3 % 2048

/-- The number of row offsets: the 13 bits above. -/
def rowOffsetCountField (page : Bytes) : Nat := readLE page 0x18 3 / 2048

/-- A row's offset from the heap start: slot `15 - r mod 16` of group `r / 16`. -/
def rowOffset (page : Bytes) (r : Nat) : Nat :=
  readLE page (PageBuilder.groupStart (r / 16) + (15 - r % 16) * 2) 2

/-- The presence bit of a row, in both flag words of its group. -/
def rowPresent (page : Bytes) (r : Nat) : Bool × Bool :=
  ((readLE page (PageBuilder.groupStart (r / 16) + 32) 2).testBit (r % 16),
    (readLE page (PageBuilder.groupStart (r / 16) + 34) 2).testBit (r % 16))

/-- A page read this way holds exactly the given rows, aligned, in order and apart. -/
structure HoldsRows (page : Bytes) (rows : List Bytes) : Prop where
  count : rowCountField page = rows.length
  offsets : rowOffsetCountField page = 4 * rows.length
  present : ∀ r < 16 * ((rows.length + 15) / 16),
    rowPresent page r = (decide (r < rows.length), decide (r < rows.length))
  aligned : ∀ r < rows.length, (HEAP_START + rowOffset page r) % 4 = 0
  stored : ∀ (r : Nat) (row : Bytes), rows[r]? = some row →
    slice page (HEAP_START + rowOffset page r) row.length = row
  apart : ∀ (r s : Nat) (row : Bytes), rows[r]? = some row → r < s → s < rows.length →
    rowOffset page r + row.length ≤ rowOffset page s
  inside : ∀ (r : Nat) (row : Bytes), rows[r]? = some row →
    HEAP_START + rowOffset page r + row.length ≤ PAGE_SIZE - 36 * ((rows.length + 15) / 16)
  index : 36 * ((rows.length + 15) / 16) + HEAP_START ≤ PAGE_SIZE

namespace PageBuilder

/-- The heap and the row index have room beside each other. -/
structure Spaced (p : PageBuilder) : Prop where
  size : p.data.length = PAGE_SIZE
  offsets : p.rowOffsets.length = p.rowCount
  heap : HEAP_START ≤ p.heapPos
  room : p.heapPos + (p.rowCount / 16 + 1) * 36 ≤ PAGE_SIZE

/-- The builder holds these rows on its heap. -/
structure Filled (p : PageBuilder) (rows : List Bytes) : Prop where
  size : p.data.length = PAGE_SIZE
  count : p.rowCount = rows.length
  offsets : p.rowOffsets.length = rows.length
  heap : HEAP_START ≤ p.heapPos
  room : p.heapPos + (rows.length / 16 + 1) * 36 ≤ PAGE_SIZE
  stored : ∀ (r off : Nat) (row : Bytes), p.rowOffsets[r]? = some off → rows[r]? = some row →
    slice p.data (HEAP_START + off) row.length = row
  aligned : ∀ off ∈ p.rowOffsets, off % 4 = 0
  below : ∀ (r off : Nat) (row : Bytes), p.rowOffsets[r]? = some off → rows[r]? = some row →
    HEAP_START + off + row.length ≤ p.heapPos
  apart : ∀ (r s off : Nat) (row : Bytes) (off' : Nat), p.rowOffsets[r]? = some off →
    rows[r]? = some row → r < s → p.rowOffsets[s]? = some off' → off + row.length ≤ off'
  -- where the heap is not aligned, not even the padding fits any more
  padded : (p.heapPos - HEAP_START) % 4 = 0 ∨
    indexStart (rows.length + 1) < p.heapPos + p.padding

theorem filled_new (pageIndex : Nat) (pageType : PageType) :
    (new pageIndex pageType).Filled [] where
  size := length_zeroPage
  count := rfl
  offsets := rfl
  heap := le_refl _
  room := by simp [new, HEAP_START, PAGE_SIZE]
  stored := by simp [new]
  aligned := by simp [new]
  below := by simp [new]
  apart := by simp [new]
  padded := Or.inl rfl

theorem wouldOverflow_eq_true {p : PageBuilder} {n : Nat} :
    p.wouldOverflow n = true ↔ indexStart (p.rowCount + 1) < p.heapPos + n :=
  decide_eq_true_iff

theorem wouldOverflow_eq_false {p : PageBuilder} {n : Nat} :
    p.wouldOverflow n = false ↔ p.heapPos + n ≤ indexStart (p.rowCount + 1) := by
  rw [wouldOverflow, decide_eq_false_iff_not, Nat.not_lt]

/-- The subtraction in `indexStart` does not underflow on the way. -/
theorem fits_of_not_overflow {p : PageBuilder} {n : Nat} (heap : HEAP_START ≤ p.heapPos)
    (fits : p.wouldOverflow n = false) :
    p.heapPos + n + ((p.rowCount + 1) / 16 + 1) * 36 ≤ PAGE_SIZE := by
  rw [wouldOverflow_eq_false] at fits
  simp only [indexStart, PAGE_SIZE, ROWS_PER_GROUP, ROW_GROUP_SIZE, HEAP_START] at *
  omega

theorem padHeap_spec (p : PageBuilder) :
    p.padHeap = { p with heapPos := p.padHeap.heapPos } ∧ p.heapPos ≤ p.padHeap.heapPos ∧
      (p.padHeap.heapPos = p.heapPos ∨ p.padHeap.heapPos ≤ indexStart (p.rowCount + 1)) ∧
      (HEAP_START ≤ p.heapPos → (p.padHeap.heapPos - HEAP_START) % 4 = 0 ∨
        indexStart (p.rowCount + 1) < p.padHeap.heapPos + p.padHeap.padding) := by
  rw [padHeap]
  split
  · rename_i pad
    have room : p.heapPos + p.padding ≤ indexStart (p.rowCount + 1) :=
      wouldOverflow_eq_false.mp (by simpa using pad.2)
    refine ⟨rfl, Nat.le_add_right _ _, Or.inr room, ?_⟩
    intro heap
    left
    simp only [padding]
    omega
  · rename_i full
    refine ⟨rfl, Nat.le_refl _, Or.inl rfl, ?_⟩
    intro heap
    rcases Nat.eq_zero_or_pos p.padding with aligned | unaligned
    · left
      rw [padding] at aligned
      omega
    · right
      exact wouldOverflow_eq_true.mp (by simpa [unaligned] using full)

/-- A written row is patched in at the heap position, which then moves behind it. -/
theorem writeRow_spec {p p' : PageBuilder} {row : Bytes} (written : p.writeRow row = .ok p') :
    p.wouldOverflow row.length = false ∧ ∃ stored : PageBuilder,
      stored = { p with
        data := patch p.data p.heapPos row
        heapPos := p.heapPos + row.length
        rowCount := p.rowCount + 1
        rowOffsets := p.rowOffsets ++ [(p.heapPos - HEAP_START) % 2 ^ 16] } ∧
      p' = stored.padHeap := by
  simp only [writeRow, writeHeap] at written
  split at written
  · cases written
  · rename_i offset q ok
    split at ok
    · cases ok
    · rename_i fits
      cases ok
      cases written
      exact ⟨by simpa using fits, _, rfl, rfl⟩

/-- Whatever its length, a row leaves room for the index. -/
theorem spaced_writeRow {p p' : PageBuilder} {row : Bytes} (spaced : p.Spaced)
    (written : p.writeRow row = .ok p') : p'.Spaced := by
  obtain ⟨fits, stored, parts, rfl⟩ := writeRow_spec written
  obtain ⟨same, grown, top, -⟩ := padHeap_spec stored
  have position : stored.heapPos = p.heapPos + row.length := by rw [parts]
  have rows : stored.rowCount = p.rowCount + 1 := by rw [parts]
  have heap := spaced.heap
  have space := fits_of_not_overflow heap fits
  have inside : p.heapPos + row.length ≤ p.data.length := by
    rw [spaced.size]
    omega
  constructor
  · rw [same, parts]
    exact (length_patch inside).trans spaced.size
  · rw [same, parts]
    simp [spaced.offsets]
  · omega
  · have count : stored.padHeap.rowCount = p.rowCount + 1 := by rw [same, rows]
    rw [count]
    rcases top with exactly | spare
    · omega
    · rw [rows] at spare
      simp only [indexStart, PAGE_SIZE, HEAP_START, ROWS_PER_GROUP, ROW_GROUP_SIZE] at *
      omega

theorem Filled.spaced {p : PageBuilder} {rows : List Bytes} (filled : p.Filled rows) :
    p.Spaced where
  size := filled.size
  offsets := filled.offsets.trans filled.count.symm
  heap := filled.heap
  room := by
    rw [filled.count]
    exact filled.room

/-- Where the padding did not fit, no row of four bytes fits either. -/
theorem Filled.heap_aligned {p : PageBuilder} {rows : List Bytes} (filled : p.Filled rows)
    {row : Bytes} (fits : p.wouldOverflow row.length = false) (long : 4 ≤ row.length) :
    (p.heapPos - HEAP_START) % 4 = 0 := by
  rcases filled.padded with even | full
  · exact even
  · have small : p.padding ≤ 3 := by
      rw [padding]
      omega
    rw [wouldOverflow_eq_false, filled.count] at fits
    omega

/-- A row of at least four bytes lands aligned behind the rows before it. -/
theorem filled_writeRow {p p' : PageBuilder} {rows : List Bytes} {row : Bytes}
    (filled : p.Filled rows) (written : p.writeRow row = .ok p') (long : 4 ≤ row.length) :
    p'.Filled (rows ++ [row]) := by
  have spaced' := spaced_writeRow filled.spaced written
  obtain ⟨fits, stored, parts, rfl⟩ := writeRow_spec written
  obtain ⟨same, grown, top, pad⟩ := padHeap_spec stored
  have data : stored.padHeap.data = patch p.data p.heapPos row := by rw [same, parts]
  have offsets : stored.padHeap.rowOffsets =
      p.rowOffsets ++ [(p.heapPos - HEAP_START) % 2 ^ 16] := by rw [same, parts]
  have count : stored.padHeap.rowCount = (rows ++ [row]).length := by
    rw [same, parts, List.length_append, List.length_singleton, ← filled.count]
  have position : stored.heapPos = p.heapPos + row.length := by rw [parts]
  have rows_ : stored.rowCount = p.rowCount + 1 := by rw [parts]
  rw [rows_, filled.count] at pad
  rw [position] at grown pad
  have heap := filled.heap
  have space := fits_of_not_overflow heap fits
  have size := filled.size
  have inside : p.heapPos + row.length ≤ p.data.length := by omega
  have here : (p.heapPos - HEAP_START) % 2 ^ 16 = p.heapPos - HEAP_START := by
    simp only [PAGE_SIZE, HEAP_START] at *
    omega
  rw [here] at offsets
  -- a row of the page is one from before, or the new one at the heap position
  have placed : ∀ r off row', stored.padHeap.rowOffsets[r]? = some off →
      (rows ++ [row])[r]? = some row' →
      (r < rows.length ∧ p.rowOffsets[r]? = some off ∧ rows[r]? = some row') ∨
        (r = rows.length ∧ off = p.heapPos - HEAP_START ∧ row' = row) := by
    intro r off row' found rowFound
    rw [offsets] at found
    exact getElem?_snoc_both filled.offsets found rowFound
  exact {
    size := spaced'.size
    count
    offsets := spaced'.offsets.trans count
    heap := spaced'.heap
    room := by
      have room := spaced'.room
      rwa [count] at room
    stored := by
      intro r off row' found rowFound
      rw [data]
      rcases placed r off row' found rowFound with ⟨_, old, oldRow⟩ | ⟨_, rfl, rfl⟩
      · have bound := filled.below r off row' old oldRow
        rw [slice_patch_of_disjoint inside (Or.inl bound)]
        exact filled.stored r off row' old oldRow
      · rw [Nat.add_sub_cancel' heap]
        exact slice_patch_self inside
    aligned := by
      intro off mem
      rw [offsets, List.mem_append, List.mem_singleton] at mem
      rcases mem with old | rfl
      · exact filled.aligned off old
      · exact filled.heap_aligned fits long
    below := by
      intro r off row' found rowFound
      rcases placed r off row' found rowFound with ⟨_, old, oldRow⟩ | ⟨_, rfl, rfl⟩
      · have := filled.below r off row' old oldRow
        omega
      · omega
    apart := by
      intro r s off row' off' found rowFound before found'
      rw [offsets] at found'
      rcases placed r off row' found rowFound with ⟨_, old, oldRow⟩ | ⟨_, rfl, rfl⟩
      · rcases getElem?_snoc found' with ⟨_, old'⟩ | ⟨_, rfl⟩
        · exact filled.apart r s off row' off' old oldRow before old'
        · have := filled.below r off row' old oldRow
          omega
      · have length := filled.offsets
        rcases getElem?_snoc found' with ⟨_, _⟩ | ⟨_, _⟩ <;> omega
    padded := by
      rw [List.length_append, List.length_singleton]
      exact pad (by omega) }

/-- The word in a slot of a row group: offsets in reverse order, then the flags twice. -/
def indexWord (p : PageBuilder) (group slot : Nat) : Nat :=
  if slot < 16 then p.rowOffsets.getD (group * 16 + (15 - slot)) 0 else p.presenceFlags group

theorem mem_indexWrites {p : PageBuilder} {q : Nat × Bytes} (mem : q ∈ p.indexWrites) :
    ∃ group slot, group < p.numGroups ∧ slot < 18 ∧
      q = (groupStart group + 2 * slot, leBytes 2 (p.indexWord group slot)) := by
  obtain ⟨group, inside, mem⟩ := List.mem_flatMap.mp mem
  rw [List.mem_range] at inside
  rcases List.mem_append.mp mem with row | flags
  · obtain ⟨i, hi, rfl⟩ := List.mem_map.mp row
    rw [List.mem_range, rowsInGroup, ROWS_PER_GROUP] at hi
    have back : 15 - (15 - i) = i := by omega
    refine ⟨group, 15 - i, inside, by omega, ?_⟩
    rw [indexWord, if_pos (by omega), back, Nat.mul_comm 2]
    rfl
  · rcases List.mem_cons.mp flags with rfl | flags
    · exact ⟨group, 16, inside, by omega, rfl⟩
    · rw [List.mem_singleton.mp flags]
      exact ⟨group, 17, inside, by omega, rfl⟩

theorem flags_mem_indexWrites {p : PageBuilder} {group slot : Nat} (inside : group < p.numGroups)
    (flag : slot = 16 ∨ slot = 17) :
    (groupStart group + 2 * slot, leBytes 2 (p.presenceFlags group)) ∈ p.indexWrites := by
  refine List.mem_flatMap.mpr ⟨group, List.mem_range.mpr inside, ?_⟩
  rcases flag with rfl | rfl <;> simp [groupWrites]

theorem offset_mem_indexWrites {p : PageBuilder} {r off : Nat}
    (found : p.rowOffsets[r]? = some off) :
    (groupStart (r / 16) + (15 - r % 16) * 2, leBytes 2 off) ∈ p.indexWrites := by
  have inside : r < p.rowOffsets.length := (List.getElem?_eq_some_iff.mp found).1
  have nonempty : p.rowOffsets ≠ [] := by
    intro empty
    rw [empty] at inside
    simp at inside
  refine List.mem_flatMap.mpr ⟨r / 16, List.mem_range.mpr ?_, List.mem_append_left _ ?_⟩
  · rw [numGroups, if_neg nonempty, ROWS_PER_GROUP]
    omega
  · refine List.mem_map.mpr ⟨r % 16, List.mem_range.mpr ?_, ?_⟩
    · rw [rowsInGroup, ROWS_PER_GROUP]
      omega
    · have row : r / 16 * 16 + r % 16 = r := by omega
      rw [ROWS_PER_GROUP, row, List.getD_eq_getElem?_getD, found]
      rfl

theorem ascending_headerWrites (p : PageBuilder) (nextPage : Nat) :
    Ascending (p.headerWrites nextPage) := by
  simp [Ascending, headerWrites]

theorem headerWrites_below {p : PageBuilder} {nextPage : Nat} {q : Nat × Bytes}
    (mem : q ∈ p.headerWrites nextPage) : q.1 + q.2.length ≤ HEAP_START := by
  simp only [headerWrites, List.mem_cons, List.not_mem_nil, or_false] at mem
  rcases mem with rfl | rfl | rfl | rfl | rfl | rfl | rfl | rfl | rfl | rfl | rfl <;>
    simp [HEAP_START]

section
variable {p : PageBuilder} (spaced : p.Spaced)
include spaced

theorem Spaced.groups : 36 * p.numGroups + p.heapPos ≤ PAGE_SIZE ∧
    (p.rowCount + 15) / 16 ≤ p.numGroups := by
  have room := spaced.room
  have offsets := spaced.offsets
  rw [numGroups, offsets, ROWS_PER_GROUP]
  split
  · rename_i empty
    have none_ : p.rowCount = 0 := by rw [← offsets, empty]; rfl
    omega
  · omega

theorem Spaced.within (nextPage : Nat) :
    Within p.data.length (p.headerWrites nextPage ++ p.indexWrites) := by
  have groups := spaced.groups.1
  have heap := spaced.heap
  intro q mem
  rw [spaced.size]
  rcases List.mem_append.mp mem with header | index
  · have := headerWrites_below header
    omega
  · obtain ⟨group, slot, inside, slots, rfl⟩ := mem_indexWrites index
    simp only [groupStart, PAGE_SIZE, ROW_GROUP_SIZE, length_leBytes] at *
    omega

/-- Header fields are read back. -/
theorem Spaced.read_header (nextPage off : Nat) (bs : Bytes)
    (mem : (off, bs) ∈ p.headerWrites nextPage) :
    slice (p.finalize nextPage) off bs.length = bs := by
  have groups := spaced.groups.1
  have heap := spaced.heap
  have low := headerWrites_below mem
  refine slice_patchAll_ascending (spaced.within nextPage) (ascending_headerWrites p nextPage)
    mem ?_
  intro q index
  obtain ⟨group, slot, inside, slots, rfl⟩ := mem_indexWrites index
  simp only [groupStart, PAGE_SIZE, ROW_GROUP_SIZE, HEAP_START] at *
  omega

theorem Spaced.length_finalize (nextPage : Nat) : (p.finalize nextPage).length = PAGE_SIZE := by
  rw [finalize, length_patchAll (spaced.within nextPage), spaced.size]

/-- The packed counts lose no bits. -/
theorem Spaced.packed_eq : p.packedRowCounts = 8192 * p.rowCount + p.rowCount ∧
    p.rowCount < 2048 := by
  have room := spaced.room
  have heap := spaced.heap
  have small : p.rowCount < 2048 := by
    simp only [PAGE_SIZE, HEAP_START] at *
    omega
  refine ⟨?_, small⟩
  have low : p.rowCount &&& 0x7FF = p.rowCount :=
    (Nat.and_two_pow_sub_one_eq_mod p.rowCount 11).trans (Nat.mod_eq_of_lt small)
  rw [packedRowCounts, low, spaced.offsets, ← Nat.shiftLeft_add_eq_or_of_lt (by omega),
    Nat.shiftLeft_eq]
  omega

theorem Spaced.counts_eq (nextPage : Nat) :
    readLE (p.finalize nextPage) 0x18 3 = 8192 * p.rowCount + p.rowCount := by
  obtain ⟨packed, small⟩ := spaced.packed_eq
  have first : slice (p.finalize nextPage) 0x18 1 = [UInt8.ofNat p.packedRowCounts] :=
    spaced.read_header nextPage 0x18 [_] (by simp [headerWrites])
  have second : slice (p.finalize nextPage) 0x19 1 = [UInt8.ofNat (p.packedRowCounts >>> 8)] :=
    spaced.read_header nextPage 0x19 [_] (by simp [headerWrites])
  have third : slice (p.finalize nextPage) 0x1A 1 = [UInt8.ofNat (p.packedRowCounts >>> 16)] :=
    spaced.read_header nextPage 0x1A [_] (by simp [headerWrites])
  have high : (8192 * p.rowCount + p.rowCount) / 65536 =
      (8192 * p.rowCount + p.rowCount) / 256 / 256 := by
    rw [Nat.div_div_eq_div_mul]
  rw [readLE, slice_add _ 0x18 1 2, slice_add _ (0x18 + 1) 1 1, first, second, third]
  simp only [List.singleton_append, leNat, UInt8.toNat_ofNat', Nat.shiftRight_eq_div_pow, packed,
    Nat.reducePow, high]
  omega

end

section
variable {p : PageBuilder} {rows : List Bytes} (filled : p.Filled rows)
include filled

theorem Filled.groups : 36 * p.numGroups + p.heapPos ≤ PAGE_SIZE ∧
    (rows.length + 15) / 16 ≤ p.numGroups := by
  rw [← filled.count]
  exact filled.spaced.groups

theorem Filled.within (nextPage : Nat) :
    Within p.data.length (p.headerWrites nextPage ++ p.indexWrites) :=
  filled.spaced.within nextPage

theorem Filled.length_finalize (nextPage : Nat) :
    (p.finalize nextPage).length = PAGE_SIZE :=
  filled.spaced.length_finalize nextPage

theorem Filled.read_header (nextPage off : Nat) (bs : Bytes)
    (mem : (off, bs) ∈ p.headerWrites nextPage) :
    slice (p.finalize nextPage) off bs.length = bs :=
  filled.spaced.read_header nextPage off bs mem

/-- The heap is what was written to it. -/
theorem Filled.read_heap (nextPage : Nat) {a n : Nat} (low : HEAP_START ≤ a)
    (high : a + n ≤ p.heapPos) : slice (p.finalize nextPage) a n = slice p.data a n := by
  have groups := filled.groups.1
  refine slice_patchAll_of_disjoint (filled.within nextPage) ?_
  intro q mem
  rcases List.mem_append.mp mem with header | index
  · have := headerWrites_below header
    omega
  · obtain ⟨group, slot, inside, slots, rfl⟩ := mem_indexWrites index
    simp only [groupStart, PAGE_SIZE, ROW_GROUP_SIZE] at *
    omega

/-- Index words are read back: two different slots are two different places. -/
theorem Filled.read_index (nextPage : Nat) {place : Nat} {bs : Bytes}
    (mem : (place, bs) ∈ p.indexWrites) : slice (p.finalize nextPage) place bs.length = bs := by
  have groups := filled.groups.1
  have heap := filled.heap
  obtain ⟨group, slot, inside, slots, same⟩ := mem_indexWrites mem
  refine slice_patchAll_of_mem (filled.within nextPage) (List.mem_append_right _ mem) ?_
  intro q other
  rcases List.mem_append.mp other with header | index
  · have := headerWrites_below header
    cases same
    simp only [groupStart, PAGE_SIZE, ROW_GROUP_SIZE, HEAP_START, length_leBytes] at *
    omega
  · obtain ⟨group', slot', inside', slots', same'⟩ := mem_indexWrites index
    by_cases equal : group = group' ∧ slot = slot'
    · obtain ⟨rfl, rfl⟩ := equal
      exact Or.inr (Or.inr (same'.trans same.symm))
    · cases same
      cases same'
      simp only [groupStart, PAGE_SIZE, ROW_GROUP_SIZE, length_leBytes] at *
      omega

theorem Filled.rowOffset_eq (nextPage : Nat) {r off : Nat} (found : p.rowOffsets[r]? = some off) :
    rowOffset (p.finalize nextPage) r = off := by
  have small : off < 256 ^ 2 := by
    obtain ⟨row, rowFound⟩ : ∃ row, rows[r]? = some row := by
      refine ⟨_, List.getElem?_eq_getElem ?_⟩
      rw [← filled.offsets]
      exact (List.getElem?_eq_some_iff.mp found).1
    have below := filled.below r off row found rowFound
    have room := filled.room
    simp only [PAGE_SIZE, HEAP_START] at *
    omega
  have word := filled.read_index nextPage (offset_mem_indexWrites found)
  rw [length_leBytes] at word
  rw [rowOffset, readLE, word, leNat_leBytes_of_lt small]

theorem Filled.flags_eq (nextPage : Nat) {group slot : Nat} (inside : group < p.numGroups)
    (flag : slot = 16 ∨ slot = 17) :
    readLE (p.finalize nextPage) (groupStart group + 2 * slot) 2 = p.presenceFlags group := by
  have small : p.presenceFlags group < 256 ^ 2 := by
    have size : p.rowsInGroup group ≤ 16 := Nat.min_le_left _ _
    have power : 2 ^ p.rowsInGroup group ≤ 2 ^ 16 := Nat.pow_le_pow_right (by decide) size
    rw [presenceFlags]
    omega
  have word := filled.read_index nextPage (flags_mem_indexWrites inside flag)
  rw [length_leBytes] at word
  rw [readLE, word, leNat_leBytes_of_lt small]

theorem Filled.counts_eq (nextPage : Nat) :
    readLE (p.finalize nextPage) 0x18 3 = 8192 * rows.length + rows.length ∧
      rows.length < 2048 := by
  have counts := filled.spaced.counts_eq nextPage
  have small := filled.spaced.packed_eq.2
  rw [filled.count] at counts small
  exact ⟨counts, small⟩

/-- A finalized page reads as the rows written to it. -/
theorem Filled.holdsRows (nextPage : Nat) : HoldsRows (p.finalize nextPage) rows := by
  obtain ⟨counts, small⟩ := filled.counts_eq nextPage
  have groups := filled.groups
  have heap := filled.heap
  have offsetAt : ∀ r < rows.length, ∃ off, p.rowOffsets[r]? = some off := by
    intro r inside
    rw [← filled.offsets] at inside
    exact ⟨_, List.getElem?_eq_getElem inside⟩
  have rowBound : ∀ (r : Nat) (row : Bytes), rows[r]? = some row → r < rows.length :=
    fun r row found => (List.getElem?_eq_some_iff.mp found).1
  constructor
  · rw [rowCountField, counts]
    omega
  · rw [rowOffsetCountField, counts]
    omega
  · intro r inside
    have group : r / 16 < p.numGroups := by omega
    have first := filled.flags_eq nextPage group (Or.inl rfl)
    have second := filled.flags_eq nextPage group (Or.inr rfl)
    have bit : (p.presenceFlags (r / 16)).testBit (r % 16) = decide (r < rows.length) := by
      rw [presenceFlags, Nat.testBit_two_pow_sub_one, rowsInGroup, filled.offsets, ROWS_PER_GROUP]
      congr 1
      apply propext
      omega
    simp only [rowPresent]
    rw [show groupStart (r / 16) + 32 = groupStart (r / 16) + 2 * 16 from rfl, first,
      show groupStart (r / 16) + 34 = groupStart (r / 16) + 2 * 17 from rfl, second, bit]
  · intro r inside
    obtain ⟨off, found⟩ := offsetAt r inside
    have aligned := filled.aligned off (List.mem_of_getElem? found)
    rw [filled.rowOffset_eq nextPage found, HEAP_START]
    omega
  · intro r row found
    obtain ⟨off, offFound⟩ := offsetAt r (rowBound r row found)
    rw [filled.rowOffset_eq nextPage offFound,
      filled.read_heap nextPage (by omega) (filled.below r off row offFound found)]
    exact filled.stored r off row offFound found
  · intro r s row found before inside
    obtain ⟨off, offFound⟩ := offsetAt r (rowBound r row found)
    obtain ⟨off', offFound'⟩ := offsetAt s inside
    rw [filled.rowOffset_eq nextPage offFound, filled.rowOffset_eq nextPage offFound']
    exact filled.apart r s off row off' offFound found before offFound'
  · intro r row found
    obtain ⟨off, offFound⟩ := offsetAt r (rowBound r row found)
    have := filled.below r off row offFound found
    rw [filled.rowOffset_eq nextPage offFound]
    omega
  · omega

end

end PageBuilder

end BVault.Core
