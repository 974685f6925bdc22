import BVault.Lib.Bytes

/-!
# Pages

`page.rs`: the index page every table starts with, data pages with a heap that
grows up and a row index that grows down, and the file header. Each page is
4096 zero bytes with overwrites, in the order of the source.
-/

namespace BVault.Core

open Bytes

def PAGE_SIZE : Nat := 4096

def HEAP_START : Nat := 0x28

def ROW_GROUP_SIZE : Nat := 36

def ROWS_PER_GROUP : Nat := 16

def PAGE_FLAGS_INDEX : UInt8 := 0x64

def PAGE_FLAGS_DATA : UInt8 := 0x24

def PAGE_FLAGS_DATA_TRACK : UInt8 := 0x34

def EMPTY_TABLE_MARKER : Nat := 0x03FFFFFF

/-- What keeps a call from returning `Ok`: the crate's error, or a panic. Integer additions
are checked. -/
inductive Fault where
  | pageOverflow (needed available : Nat)
  | integerOverflow
  | indexOutOfBounds
  deriving DecidableEq, Repr

/-- `a + b` on `u32`. -/
def addU32 (a b : Nat) : Except Fault Nat :=
  if a + b < 2 ^ 32 then .ok (a + b) else .error .integerOverflow

/-- Table types. -/
inductive PageType where
  | tracks
  | genres
  | artists
  | albums
  | labels
  | keys
  | colors
  | playlistTree
  | playlistEntries
  | unknown9
  | unknown10
  | historyPlaylists
  | historyEntries
  | artwork
  | unknown14
  | unknown15
  | columns
  | unknown17
  | unknown18
  | history
  deriving DecidableEq, Repr

namespace PageType

/-- All 20 table types in order. -/
def allTypes : List PageType :=
  [tracks, genres, artists, albums, labels, keys, colors, playlistTree, playlistEntries,
    unknown9, unknown10, historyPlaylists, historyEntries, artwork, unknown14, unknown15,
    columns, unknown17, unknown18, history]

/-- `page_type as u32`. -/
def toNat : PageType → Nat
  | tracks => 0
  | genres => 1
  | artists => 2
  | albums => 3
  | labels => 4
  | keys => 5
  | colors => 6
  | playlistTree => 7
  | playlistEntries => 8
  | unknown9 => 9
  | unknown10 => 10
  | historyPlaylists => 11
  | historyEntries => 12
  | artwork => 13
  | unknown14 => 14
  | unknown15 => 15
  | columns => 16
  | unknown17 => 17
  | unknown18 => 18
  | history => 19

/-- The tables whose index page carries an entry and whose data pages are flagged 0x34. -/
def indexed : PageType → Bool
  | tracks => true
  | history => true
  | _ => false

end PageType

/-- `vec![0u8; PAGE_SIZE]`. -/
def zeroPage : Bytes := List.replicate PAGE_SIZE 0

@[simp] theorem length_zeroPage : zeroPage.length = PAGE_SIZE := List.length_replicate

/-- An all-zero page carries no data flag. -/
theorem zeroPage_flags : zeroPage.getD 0x1B 0 = 0 := by
  rw [zeroPage, List.getD_eq_getElem?_getD, List.getElem?_replicate, if_pos (by decide)]
  rfl

/-- `(from..to).step_by(4)` filled with one word. -/
def fillWords (start stop word : Nat) : List (Nat × Bytes) :=
  (List.range ((stop - start + 3) / 4)).map (fun i => (start + 4 * i, leBytes 4 word))

/-- The index page of a table. -/
structure IndexPageBuilder where
  pageIndex : Nat
  pageType : PageType

namespace IndexPageBuilder

/-- The overwrites of `IndexPageBuilder::finalize`. -/
def writes (p : IndexPageBuilder) (dataPageIndex : Nat) (hasData : Bool) (numRowOffsets : Nat) :
    List (Nat × Bytes) :=
  [(4, leBytes 4 p.pageIndex),
    (8, leBytes 4 (p.pageIndex / 2)),
    (12, leBytes 4 (p.pageIndex + 1)),
    (16, leBytes 4 1),
    (27, [PAGE_FLAGS_INDEX]),
    (0x20, leBytes 4 (if p.pageType.indexed then 1 else 0x1FFF1FFF)),
    (0x24, leBytes 2 0x03ec),
    (0x26, leBytes 2 (if p.pageType.indexed then 1 else 0)),
    (0x28, leBytes 4 p.pageIndex),
    (0x2C, leBytes 4 (if hasData then dataPageIndex else EMPTY_TABLE_MARKER)),
    (0x30, leBytes 4 0x03FFFFFF),
    (0x38, leBytes 2 (if p.pageType.indexed then 1 else 0)),
    (0x3A, leBytes 2 0x1fff)] ++
  if p.pageType.indexed then
    (0x3C, leBytes 4
      (match p.pageType with
        | .tracks => 19
        | .history => 323
        | _ => numRowOffsets)) ::
      fillWords 0x40 (PAGE_SIZE - 20) 0x1FFFFFF8
  else fillWords 0x3C (PAGE_SIZE - 20) 0x1FFFFFF8

def finalize (p : IndexPageBuilder) (dataPageIndex : Nat) (hasData : Bool) (numRowOffsets : Nat) :
    Bytes :=
  patchAll zeroPage (p.writes dataPageIndex hasData numRowOffsets)

end IndexPageBuilder

/-- A data page being built. -/
structure PageBuilder where
  data : Bytes
  heapPos : Nat
  rowCount : Nat
  pageIndex : Nat
  pageType : PageType
  rowOffsets : List Nat

namespace PageBuilder

def new (pageIndex : Nat) (pageType : PageType) : PageBuilder where
  data := zeroPage
  heapPos := HEAP_START
  rowCount := 0
  pageIndex := pageIndex
  pageType := pageType
  rowOffsets := []

/-- Where the row index begins when it has room for one more row than `rows`. -/
def indexStart (rows : Nat) : Nat := PAGE_SIZE - (rows / ROWS_PER_GROUP + 1) * ROW_GROUP_SIZE

/-- How much space is available for new data. -/
def availableSpace (p : PageBuilder) : Nat := indexStart p.rowCount - p.heapPos

/-- Adding data of the given size would overflow. -/
def wouldOverflow (p : PageBuilder) (dataSize : Nat) : Bool :=
  indexStart (p.rowCount + 1) < p.heapPos + dataSize

/-- Write raw bytes to the heap, with the offset relative to `HEAP_START`. -/
def writeHeap (p : PageBuilder) (data : Bytes) : Except Fault (Nat × PageBuilder) :=
  if p.wouldOverflow data.length then .error (.pageOverflow data.length p.availableSpace)
  else
    .ok ((p.heapPos - HEAP_START) % 2 ^ 16,
      { p with data := patch p.data p.heapPos data, heapPos := p.heapPos + data.length })

/-- Record a row at a heap offset. -/
def addRow (p : PageBuilder) (heapOffset : Nat) : PageBuilder :=
  { p with rowOffsets := p.rowOffsets ++ [heapOffset], rowCount := p.rowCount + 1 }

/-- The bytes up to the next multiple of four. -/
def padding (p : PageBuilder) : Nat := (4 - (p.heapPos - HEAP_START) % 4) % 4

/-- Skip the padding where there is room for it. -/
def padHeap (p : PageBuilder) : PageBuilder :=
  if 0 < p.padding ∧ ¬ p.wouldOverflow p.padding then
    { p with heapPos := p.heapPos + p.padding }
  else p

/-- Write row data and add to index in one step. -/
def writeRow (p : PageBuilder) (row : Bytes) : Except Fault PageBuilder :=
  match p.writeHeap row with
  | .error fault => .error fault
  | .ok (offset, p) => .ok (p.addRow offset).padHeap

/-- `(num_row_offsets << 11) | (num_rows & 0x7FF)`. -/
def packedRowCounts (p : PageBuilder) : Nat :=
  ((p.rowOffsets.length * 4) <<< 11) ||| (p.rowCount &&& 0x7FF)

/-- The overwrites of `write_header`. -/
def headerWrites (p : PageBuilder) (nextPage : Nat) : List (Nat × Bytes) :=
  [(0x04, leBytes 4 p.pageIndex),
    (0x08, leBytes 4 p.pageType.toNat),
    (0x0C, leBytes 4 nextPage),
    (0x10, leBytes 4 p.rowCount),
    (0x18, [UInt8.ofNat p.packedRowCounts]),
    (0x19, [UInt8.ofNat (p.packedRowCounts >>> 8)]),
    (0x1A, [UInt8.ofNat (p.packedRowCounts >>> 16)]),
    (0x1B, [if p.pageType.indexed then PAGE_FLAGS_DATA_TRACK else PAGE_FLAGS_DATA]),
    (0x1C, leBytes 2 p.availableSpace),
    (0x1E, leBytes 2 (p.heapPos - HEAP_START)),
    (0x20, leBytes 2 p.rowCount)]

/-- At least one row group, also on an empty page. -/
def numGroups (p : PageBuilder) : Nat :=
  if p.rowOffsets = [] then 1
  else (p.rowOffsets.length + (ROWS_PER_GROUP - 1)) / ROWS_PER_GROUP

/-- Start of a row group, counted down from the page end. -/
def groupStart (group : Nat) : Nat := PAGE_SIZE - (group + 1) * ROW_GROUP_SIZE

def rowsInGroup (p : PageBuilder) (group : Nat) : Nat :=
  min ROWS_PER_GROUP (p.rowOffsets.length - group * ROWS_PER_GROUP)

/-- Bits 0 to N-1 for N rows. -/
def presenceFlags (p : PageBuilder) (group : Nat) : Nat := 2 ^ p.rowsInGroup group - 1

/-- The overwrites of one row group: the offsets in reverse order, the flags twice. -/
def groupWrites (p : PageBuilder) (group : Nat) : List (Nat × Bytes) :=
  (List.range (p.rowsInGroup group)).map (fun i =>
    (groupStart group + (ROWS_PER_GROUP - 1 - i) * 2,
      leBytes 2 (p.rowOffsets.getD (group * ROWS_PER_GROUP + i) 0))) ++
  [(groupStart group + 32, leBytes 2 (p.presenceFlags group)),
    (groupStart group + 34, leBytes 2 (p.presenceFlags group))]

/-- The overwrites of `write_row_index`. -/
def indexWrites (p : PageBuilder) : List (Nat × Bytes) :=
  (List.range p.numGroups).flatMap p.groupWrites

/-- Finalize the page and return the complete data. -/
def finalize (p : PageBuilder) (nextPage : Nat) : Bytes :=
  patchAll p.data (p.headerWrites nextPage ++ p.indexWrites)

end PageBuilder

/-- Table pointer in the file header. -/
structure TablePointer where
  tableType : Nat
  first : Nat
  empty : Nat
  last : Nat

namespace TablePointer

def new (tableType : PageType) (first indexPage dataPage : Nat) : TablePointer where
  tableType := tableType.toNat
  first := first
  empty := indexPage
  last := dataPage

/-- In the order (type, empty_candidate, first_page, last_page). -/
def toBytes (t : TablePointer) : Bytes :=
  leBytes 4 t.tableType ++ leBytes 4 t.first ++ leBytes 4 t.empty ++ leBytes 4 t.last

end TablePointer

structure FileHeader where
  pageSize : Nat
  numTables : Nat
  nextUnusedPage : Nat
  trackCount : Nat
  sequence : Nat
  tables : List TablePointer

namespace FileHeader

def new : FileHeader where
  pageSize := PAGE_SIZE
  numTables := 0
  nextUnusedPage := 1
  trackCount := 0
  sequence := 0
  tables := []

def addTable (h : FileHeader) (pointer : TablePointer) : FileHeader :=
  { h with tables := h.tables ++ [pointer], numTables := h.tables.length + 1 }

/-- The overwrites of `to_page`. -/
def writes (h : FileHeader) : List (Nat × Bytes) :=
  [(4, leBytes 4 h.pageSize),
    (8, leBytes 4 h.numTables),
    (12, leBytes 4 h.nextUnusedPage),
    (0x10, leBytes 4 h.trackCount),
    (0x14, leBytes 4 h.sequence)] ++
  h.tables.mapIdx (fun i t => (0x1C + 16 * i, t.toBytes))

def toPage (h : FileHeader) : Bytes := patchAll zeroPage h.writes

end FileHeader

end BVault.Core
