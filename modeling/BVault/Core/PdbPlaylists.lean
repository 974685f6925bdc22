import BVault.Core.PdbCounts
import BVault.Core.PdbDictionary
import BVault.Lib.Pointwise

/-!
# Playlists read back

The playlist tree and the playlist entries of a built file, row for row: the
ids, names and positions of the playlists as they were added, and under each
playlist's id its tracks, numbered from 1.
-/

namespace BVault.Core

open Bytes Loops Pointwise

namespace Reader

/-- Id, name and position of a playlist. -/
def playlistTreeRow (row : Bytes) : Option (Nat × String × Nat) :=
  (nameAt row 20).map (fun name => (readLE row 12 4, name, readLE row 8 4))

/-- Entry index, track and playlist. -/
def playlistEntryRow (row : Bytes) : Nat × Nat × Nat := (readLE row 0 4, readLE row 4 4, readLE row 8 4)

def playlistTree (file : Bytes) : Option (List (Nat × String × Nat)) :=
  (tableRows file 7).mapM playlistTreeRow

def playlistEntries (file : Bytes) : List (Nat × Nat × Nat) :=
  (tableRows file 8).map playlistEntryRow

/-- The entries of one playlist: index and track. -/
def entriesOf (file : Bytes) (playlistId : Nat) : List (Nat × Nat) :=
  ((playlistEntries file).filter (fun e => e.2.2 = playlistId)).map (fun e => (e.1, e.2.1))

end Reader

/-- Members of a list behind their numbers, from 1. -/
def numbered (ids : List Nat) : List (Nat × Nat) := ids.zipIdx.map (fun (id, i) => (i + 1, id))

section
variable {p : PlaylistInfo} {seen : Bytes} {entryIndex trackId playlistId : Nat}

theorem playlistTreeRow_found (small : p.sortOrder < 2 ^ 32)
    (found : Found (buildPlaylistTreeRow p) seen) :
    Reader.playlistTreeRow seen = some (p.id.toNat, p.name, p.sortOrder) := by
  obtain ⟨⟨rest, rfl⟩, fits⟩ := found
  have parts : buildPlaylistTreeRow p =
      ([leBytes 4 p.parentId.toNat, leBytes 4 0, leBytes 4 p.sortOrder, leBytes 4 p.id.toNat,
        leBytes 4 (if p.isFolder then 1 else 0)] ++ [encodeString p.name]).flatten := by
    simp [buildPlaylistTreeRow]
  have short : (encodeString p.name).length ≤ PAGE_SIZE := by
    unfold buildPlaylistTreeRow at fits
    rw [List.length_append] at fits
    omega
  rw [parts, Reader.playlistTreeRow, nameAt_fields _ rest 20 rfl short,
    read_word _ rest 3 12 rfl rfl p.id.toNat_lt, read_word _ rest 2 8 rfl rfl small]
  rfl

theorem playlistEntryRow_found (number : entryIndex < 2 ^ 32) (track : trackId < 2 ^ 32)
    (playlist : playlistId < 2 ^ 32)
    (found : Found (buildPlaylistEntryRow entryIndex trackId playlistId) seen) :
    Reader.playlistEntryRow seen = (entryIndex, trackId, playlistId) := by
  obtain ⟨⟨rest, rfl⟩, _⟩ := found
  have parts : buildPlaylistEntryRow entryIndex trackId playlistId =
      [leBytes 4 entryIndex, leBytes 4 trackId, leBytes 4 playlistId].flatten := by
    simp [buildPlaylistEntryRow]
  rw [parts, Reader.playlistEntryRow, read_word _ rest 0 0 rfl rfl number,
    read_word _ rest 1 4 rfl rfl track, read_word _ rest 2 8 rfl rfl playlist]

end

theorem map_of_found {α β : Type} {xs : List α} {row : α → Bytes} {seen : List Bytes}
    {parse : Bytes → β} {value : α → β} (found : List.Forall₂ Found (xs.map row) seen)
    (each : ∀ x ∈ xs, ∀ s, Found (row x) s → parse s = value x) :
    seen.map parse = xs.map value := by
  rw [List.forall₂_map_left_iff] at found
  refine (map_eq (with_mem found) ?_).symm
  rintro x s ⟨mem, here⟩
  exact (each x mem s here).symm

/-- A count of which every index has a successor in 32 bits. -/
theorem few_of_indices {n : Nat} (each : ∀ i < n, i % 2 ^ 32 + 1 < 2 ^ 32) : n < 2 ^ 32 := by
  by_contra many
  have last := each (2 ^ 32 - 1) (by omega)
  omega

namespace PdbBuilder

theorem sortOrder_small {calls : List Call} {p : PlaylistInfo} (mem : p ∈ playlistsOf calls) :
    p.sortOrder < 2 ^ 32 := by
  induction calls using List.reverseRecOn with
  | nil => cases mem
  | append_singleton calls c ih =>
    rw [playlistsOf_snoc, List.mem_append] at mem
    rcases mem with before | last
    · exact ih before
    · cases c with
      | addPlaylist id parentId name trackIds =>
        obtain rfl := List.mem_singleton.mp last
        exact Nat.mod_lt _ (by decide)
      | addFolder id parentId name =>
        obtain rfl := List.mem_singleton.mp last
        exact Nat.mod_lt _ (by decide)
      | addTrack => cases last
      | addTrackWithArtwork => cases last

/-- A file is built only if its entries can be numbered. -/
theorem entries_fit {b : PdbBuilder} {file : Bytes} (built : b.build = .ok file)
    {entry : Nat × UInt32 × UInt32} (mem : entry ∈ b.playlistEntries) :
    entry.1 % 2 ^ 32 + 1 < 2 ^ 32 := by
  obtain ⟨s, tables, _⟩ := of_bind built
  have known : PageType.playlistEntries ∈ PageType.allTypes := by decide
  obtain ⟨t, t', table⟩ := foldlM_each tables known
  obtain ⟨_, sequenced, _⟩ := of_bind table
  obtain ⟨_, _, sequenced⟩ := of_bind sequenced
  obtain ⟨_, pages, _⟩ := of_bind sequenced
  obtain ⟨_, rows, _⟩ := of_bind pages
  obtain ⟨_, row⟩ := mapM_each rows mem
  obtain ⟨_, number, _⟩ := of_bind row
  exact (addU32_spec number).2

theorem trackIds_few {b : PdbBuilder} {file : Bytes} (built : b.build = .ok file)
    {p : PlaylistInfo} (mem : p ∈ b.playlists) (list : p.isFolder = false) :
    p.trackIds.length < 2 ^ 32 := by
  apply few_of_indices
  intro i inside
  have entry : (i, p.trackIds[i], p.id) ∈ b.playlistEntries → i % 2 ^ 32 + 1 < 2 ^ 32 :=
    entries_fit built
  apply entry
  refine List.mem_flatMap.mpr ⟨p, ?_, List.mem_map.mpr ⟨(p.trackIds[i], i), ?_, rfl⟩⟩
  · simpa [list] using mem
  · rw [List.mem_zipIdx_iff_getElem?]
    exact List.getElem?_eq_getElem inside

end PdbBuilder

/-- The entries of a playlist. -/
def entryRows (p : PlaylistInfo) : List (Nat × Nat × Nat) :=
  p.trackIds.zipIdx.map (fun (trackId, i) => (i + 1, trackId.toNat, p.id.toNat))

theorem build_playlistTree {calls : List PdbBuilder.Call} {file : Bytes}
    (built : PdbBuilder.buildAfter calls = .ok file) :
    Reader.playlistTree file = some ((PdbBuilder.playlistsOf calls).map
      (fun p => (p.id.toNat, p.name, p.sortOrder))) := by
  obtain ⟨b, _, _, playlists, holds⟩ := build_holdsTables built
  have found := (holds 7 .playlistTree rfl).found
  rw [PdbBuilder.rows, playlists] at found
  apply mapM_of_found found
  intro p mem seen here
  exact playlistTreeRow_found (PdbBuilder.sortOrder_small mem) here

theorem build_playlistEntries {calls : List PdbBuilder.Call} {file : Bytes}
    (built : PdbBuilder.buildAfter calls = .ok file) :
    Reader.playlistEntries file =
      ((PdbBuilder.playlistsOf calls).filter (fun p => !p.isFolder)).flatMap entryRows := by
  obtain ⟨b, ran, rendered⟩ := of_bind built
  obtain ⟨b', ran', _, playlists, holds⟩ := build_holdsTables built
  obtain rfl : b = b' := Except.ok.inj (ran.symm.trans ran')
  have found := (holds 8 .playlistEntries rfl).found
  have seen : Reader.playlistEntries file = b.playlistEntries.map
      fun entry => (entry.1 + 1, entry.2.1.toNat, entry.2.2.toNat) := by
    apply map_of_found found
    intro entry mem seen here
    obtain ⟨p, listed, inside⟩ := List.mem_flatMap.mp mem
    obtain ⟨⟨trackId, i⟩, there, rfl⟩ := List.mem_map.mp inside
    obtain ⟨list, kind⟩ := List.mem_filter.mp listed
    have few := PdbBuilder.trackIds_few rendered list (by simpa using kind)
    have number : i < p.trackIds.length := by simpa using (List.mem_zipIdx there).2.1
    have small : i + 1 < 2 ^ 32 := by omega
    exact playlistEntryRow_found small trackId.toNat_lt p.id.toNat_lt here
  rw [seen, PdbBuilder.playlistEntries, playlists, List.map_flatMap]
  congr 1
  funext p
  rw [List.map_map]
  rfl

/-- Under the id of a playlist stand its tracks, where no two playlists have an id in common. -/
theorem build_entriesOf {calls : List PdbBuilder.Call} {file : Bytes}
    (built : PdbBuilder.buildAfter calls = .ok file)
    (apart : ((PdbBuilder.playlistsOf calls).map (fun p => p.id.toNat)).Nodup)
    {p : PlaylistInfo} (mem : p ∈ PdbBuilder.playlistsOf calls) (list : p.isFolder = false) :
    Reader.entriesOf file p.id.toNat = numbered (p.trackIds.map UInt32.toNat) := by
  let lists := (PdbBuilder.playlistsOf calls).filter (fun q => !q.isFolder)
  have ids : (lists.map (fun q => q.id.toNat)).Nodup :=
    apart.sublist (List.Sublist.map _ List.filter_sublist)
  have own : ∀ q ∈ lists, ∀ e ∈ entryRows q, e.2.2 = q.id.toNat := by
    intro q _ e inside
    obtain ⟨_, _, rfl⟩ := List.mem_map.mp inside
    rfl
  have listed : p ∈ lists := List.mem_filter.mpr ⟨mem, by simp [list]⟩
  rw [Reader.entriesOf, build_playlistEntries built, filter_groups ids own listed]
  simp [entryRows, numbered, List.zipIdx_map]

end BVault.Core
