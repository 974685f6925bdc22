import BVault.Core.PdbHistory
import BVault.Core.PdbLayout

/-!
# The rows of a built file

A table's rows as a player finds them: the data pages between a table's first
and last page, and on each page the rows of its row index. They are the encoded
rows of the table, each once and in order, across all page breaks.
-/

namespace BVault.Core

open Bytes Loops

namespace Reader

/-- What stands at the row offsets of a page, up to the page's end. -/
def pageRows (page : Bytes) : List Bytes :=
  (List.range (rowCountField page)).map (fun r => page.drop (HEAP_START + rowOffset page r))

/-- The data pages among a table's pages. -/
def tablePages (file : Bytes) (i : Nat) : List Nat :=
  (List.range' (firstPage file i) (endPage file i + 1 - firstPage file i)).filter (isDataPage file)

/-- What stands at the row offsets of a table, page after page. -/
def tableRows (file : Bytes) (i : Nat) : List Bytes :=
  (tablePages file i).flatMap (fun k => pageRows (page file k))

end Reader

/-- A row as it is found: at the beginning of what is read, and within a page. -/
def Found (row seen : Bytes) : Prop := row <+: seen ∧ row.length ≤ PAGE_SIZE

theorem HoldsRows.found {page : Bytes} {rows : List Bytes} (holds : HoldsRows page rows) :
    List.Forall₂ Found rows (Reader.pageRows page) := by
  rw [List.forall₂_iff_get]
  have count := holds.count
  refine ⟨by rw [Reader.pageRows, List.length_map, List.length_range, count], ?_⟩
  intro r inside _
  have here : rows[r]? = some (rows.get ⟨r, inside⟩) := List.getElem?_eq_getElem inside
  have stored := holds.stored r _ here
  have bound := holds.inside r _ here
  simp only [Reader.pageRows, List.get_eq_getElem, List.getElem_map, List.getElem_range]
    at stored bound ⊢
  refine ⟨?_, by omega⟩
  rw [slice] at stored
  have front := List.take_prefix rows[r].length (page.drop (HEAP_START + rowOffset page r))
  rwa [stored] at front

namespace Realizes

variable {b : PdbBuilder} {plan : Plan} {header : FileHeader} {file : Bytes}
  (realizes : Realizes b plan header file) {i : Nat} {pageType : PageType}
  {chunks : List (List Bytes)} (here : PageType.allTypes[i]? = some pageType)
  (there : plan[i]? = some chunks)
include realizes here there

theorem tablePages_eq :
    Reader.tablePages file i = List.range' (plan.firstPage i + 1) chunks.length := by
  have last := realizes.endPage_eq here there
  rw [Reader.tablePages, last, realizes.firstPage_eq here there, Nat.add_sub_cancel_left]
  exact realizes.filter_table here there

/-- Page after page, the data pages of a table hold its chunks. -/
theorem tablePages_hold :
    List.Forall₂ (fun k chunk => HoldsRows (page file k) chunk ∧ chunk ≠ [])
      (Reader.tablePages file i) chunks := by
  rw [realizes.tablePages_eq here there]
  refine List.forall₂_iff_get.mpr ⟨by simp, ?_⟩
  intro j _ inside
  have found : chunks[j]? = some (chunks.get ⟨j, inside⟩) := List.getElem?_eq_getElem inside
  obtain ⟨page, same, data, _⟩ := (realizes.tables i pageType chunks here there).data j _ found
  cases same
  simp only [List.get_eq_getElem, List.getElem_range', Nat.one_mul] at data ⊢
  exact ⟨data.holds, data.nonempty⟩

end Realizes

/-- A table of a file holds these rows: they are what is found at the row offsets of its data
pages, and every one of these pages holds its share of them aligned, apart and in order. -/
structure HoldsTable (file : Bytes) (i : Nat) (rows : List Bytes) : Prop where
  found : List.Forall₂ Found rows (Reader.tableRows file i)
  pages : ∃ chunks : List (List Bytes), chunks.flatten = rows ∧
    List.Forall₂ (fun k chunk => HoldsRows (page file k) chunk ∧ chunk ≠ [])
      (Reader.tablePages file i) chunks

theorem Realizes.holdsTable {b : PdbBuilder} {plan : Plan} {header : FileHeader} {file : Bytes}
    (realizes : Realizes b plan header file) {i : Nat} {pageType : PageType}
    (known : PageType.allTypes[i]? = some pageType) : HoldsTable file i (b.rows pageType) := by
  obtain ⟨type, chunks, here, there, rows⟩ := realizes.table (toNat_of_allTypes known).2
  rw [known] at here
  cases here
  have pages := realizes.tablePages_hold known there
  rw [← rows]
  refine ⟨?_, chunks, rfl, pages⟩
  rw [Reader.tableRows, List.flatMap_def]
  refine List.rel_flatten ?_
  rw [List.forall₂_map_right_iff]
  exact pages.flip.imp fun _ _ page => page.1.found

/-- Whatever was added, every table of a built file holds exactly its encoded rows, in the order
in which tracks and playlists were added. -/
theorem build_holdsTables {calls : List PdbBuilder.Call} {file : Bytes}
    (built : PdbBuilder.buildAfter calls = .ok file) :
    ∃ b, PdbBuilder.run calls = .ok b ∧
      b.tracks.map (fun track => (track.analysis, track.analyzePath)) =
        (calls.filterMap PdbBuilder.Call.track?).map (fun entry => (entry.1, entry.2.1)) ∧
      b.playlists = PdbBuilder.playlistsOf calls ∧
      ∀ (i : Nat) (pageType : PageType), PageType.allTypes[i]? = some pageType →
        HoldsTable file i (b.rows pageType) := by
  obtain ⟨b, ran, built⟩ := of_bind built
  obtain ⟨plan, header, realizes⟩ := PdbBuilder.build_realizes built
  have faithful := PdbBuilder.run_faithful ran
  exact ⟨b, ran, PdbBuilder.analyses_of_refers faithful.tracks, faithful.playlists,
    fun _ _ => realizes.holdsTable⟩

theorem smallHistory_holdsTables : ∃ file b,
    PdbBuilder.buildAfter PdbBuilder.smallHistory = .ok file ∧
      PdbBuilder.run PdbBuilder.smallHistory = .ok b ∧
      ∀ (i : Nat) (pageType : PageType), PageType.allTypes[i]? = some pageType →
        HoldsTable file i (b.rows pageType) := by
  obtain ⟨file, built⟩ := PdbBuilder.smallHistory_returns
  obtain ⟨b, ran, _, _, holds⟩ := build_holdsTables built
  exact ⟨file, b, built, ran, holds⟩

end BVault.Core
