import BVault.Gateway.Library
import BVault.Lib.Ranks
import Mathlib.Data.Finset.Sort
import Mathlib.Data.String.Basic

/-!
# Viewing and editing a playlist

The client asks for the members of a playlist and for the tracks of the library,
and joins the two. The listing of the library is a page: where the client asks
for no limit it gets the newest hundred, and a member behind them is not seen.
-/

namespace BVault.Cli

open BVault.Meta BVault.Gateway

/-- What the client reads of a track; the listing has no artist. -/
structure Track where
  hash : String
  title : Option String
  artist : Option String
  deriving DecidableEq

variable {φ : Type*}

def ofView (view : TrackView φ) : Track := ⟨view.hash, view.title, none⟩

/-- The gateway as a client of one user sees it. The members of a playlist come in some order. -/
structure Server (φ : Type*) where
  ilike : String → String → Bool
  stores : TrackStores φ
  tables : Tables
  userId : Uuid
  hashes : Uuid → List String
  hashes_toFinset : ∀ id, (hashes id).toFinset = playlistHashes tables userId id

/-- The playlist of a name; among several the user selects. -/
def fetchPlaylistByName (playlists : List Playlist) (name : String) (selection : Nat) :
    Option Playlist :=
  match playlists.filter (fun p => p.name = name) with
  | [] => none
  | [p] => some p
  | several => several[selection]?

/-- `GET /tracks` without parameters. -/
def allTracks (server : Server φ) : List Track :=
  (Gateway.listTracks server.ilike server.stores server.tables server.userId {}).map ofView

/-- The rows of the table, before their cells are written. -/
def viewTracks (hashes : List String) (tracks : List Track) : List Track :=
  hashes.filterMap (fun h => tracks.find? (fun t => t.hash = h))

def cells (t : Track) : String × String := (t.artist.getD "-", t.title.getD "-")

def runPlaylistViewFlow (server : Server φ) (name : String) (selection : Nat) :
    Option (List Track) :=
  (fetchPlaylistByName (listPlaylists server.tables server.userId) name selection).map
    (fun playlist => viewTracks (server.hashes playlist.id) (allTracks server))

/-- The printed table. -/
def printed (server : Server φ) (name : String) (selection : Nat) :
    Option (List (String × String)) :=
  (runPlaylistViewFlow server name selection).map (List.map cells)

/-- `tracks_str.split(',')`, trimmed, without empty queries. -/
def queriesOf (tracksStr : String) : List String :=
  ((tracksStr.toList.splitOn ',').map (fun q => trim (String.ofList q))).filter (· ≠ "")

/-- The tracks that every query is matched against. -/
def playlistTracks (hashes : List String) (tracks : List Track) : List Track :=
  tracks.filter (fun t => t.hash ∈ hashes)

/-- `lower` is `str::to_lowercase`. -/
def Matches (lower : String → String) (q : String) (t : Track) : Bool :=
  (lower q).toList <:+: (lower (t.title.getD "")).toList ∨
    (lower q).toList <:+: (lower (t.artist.getD "")).toList

/-- One match is taken, and of several the user selects among the first five. -/
def chosen (found : List Track) (selection : Nat) : Option Track :=
  match found with
  | [] => none
  | [t] => some t
  | several => (several.take 5)[selection]?

/-- The hashes to remove; `selections` are the user's answers to the queries. -/
def hashesToRemove (lower : String → String) (tracks : List Track) (queries : List String)
    (selections : Nat → Nat) : List String :=
  queries.zipIdx.filterMap (fun (q, n) =>
    (chosen (tracks.filter (Matches lower q)) (selections n)).map Track.hash)

/-- The playlist and the candidates for removal. -/
def removeCandidates (server : Server φ) (name : String) (selection : Nat) :
    Option (Playlist × List Track) :=
  (fetchPlaylistByName (listPlaylists server.tables server.userId) name selection).map
    (fun playlist =>
      (playlist, playlistTracks (server.hashes playlist.id) (allTracks server)))

/-- The request that is sent: the playlist and the hashes, if there are any. -/
def runPlaylistRemoveFlow (lower : String → String) (server : Server φ) (name : String)
    (selection : Nat) (tracksStr : String) (selections : Nat → Nat) :
    Option (Uuid × List String) :=
  (removeCandidates server name selection).bind (fun (playlist, tracks) =>
    match hashesToRemove lower tracks (queriesOf tracksStr) selections with
    | [] => none
    | hashes => some (playlist.id, hashes))

theorem mem_of_chosen {found : List Track} {selection : Nat} {t : Track}
    (is : chosen found selection = some t) : t ∈ found := by
  cases found with
  | nil => cases is
  | cons first rest =>
    cases rest with
    | nil =>
      obtain rfl := Option.some.inj is
      exact List.mem_singleton_self first
    | cons second rest => exact List.mem_of_mem_take (List.mem_of_getElem? is)

/-- Only members that match a query are removed. -/
theorem removed_matches {lower : String → String} {server : Server φ} {name tracksStr : String}
    {selection : Nat} {selections : Nat → Nat} {id : Uuid} {hashes : List String}
    (sent : runPlaylistRemoveFlow lower server name selection tracksStr selections =
      some (id, hashes)) {h : String} (mem : h ∈ hashes) :
    h ∈ playlistHashes server.tables server.userId id ∧
      ∃ q ∈ queriesOf tracksStr, ∃ t ∈ allTracks server, t.hash = h ∧ Matches lower q t = true := by
  obtain ⟨⟨playlist, tracks⟩, candidates, request⟩ := Option.bind_eq_some_iff.mp sent
  obtain ⟨p, -, same⟩ := Option.map_eq_some_iff.mp candidates
  obtain ⟨rfl, rfl⟩ := Prod.mk.inj same
  dsimp only at request
  split at request
  · cases request
  · obtain ⟨rfl, rfl⟩ := Prod.mk.inj (Option.some.inj request)
    obtain ⟨⟨q, n⟩, asked, removed⟩ := List.mem_filterMap.mp mem
    obtain ⟨t, picked, rfl⟩ := Option.map_eq_some_iff.mp removed
    obtain ⟨candidate, matched⟩ := List.mem_filter.mp (mem_of_chosen picked)
    obtain ⟨there, member⟩ := List.mem_filter.mp candidate
    refine ⟨?_, q, (List.mem_zipIdx' asked).2 ▸ List.getElem_mem _, t, there, rfl, matched⟩
    rw [← server.hashes_toFinset p.id]
    exact List.mem_toFinset.mpr (of_decide_eq_true member)

/-- The user has the track. -/
def InLibrary (server : Server φ) (h : String) : Prop :=
  ∃ track ∈ library server.tables server.userId, track.hash = h

/-- Fewer than `n` tracks of the library are newer, or as new and recorded before. -/
def AmongNewest (n : Nat) (server : Server φ) (h : String) : Prop :=
  ∃ before track after, library server.tables server.userId = before ++ track :: after ∧
    track.hash = h ∧
    before.countP (fun other => track.addedAt ≤ other.addedAt) +
      after.countP (fun other => track.addedAt < other.addedAt) < n

instance newestTotal : Std.Total (fun a b : Meta.Track => b.addedAt ≤ a.addedAt) :=
  ⟨fun a b => Nat.le_total b.addedAt a.addedAt⟩

instance newestTrans : IsTrans Meta.Track (fun a b => b.addedAt ≤ a.addedAt) :=
  ⟨fun _ _ _ first second => Nat.le_trans second first⟩

section
variable {server : Server φ} {h : String}

theorem hashes_allTracks : (allTracks server).map Track.hash =
    (((library server.tables server.userId).insertionSort
      (fun a b => b.addedAt ≤ a.addedAt)).take 100).map Meta.Track.hash := by
  simp [allTracks, Gateway.listTracks, Meta.listTracks, library, ofView, Function.comp_def]

/-- What is fetched is the newest hundred. -/
theorem fetched_iff : (∃ t ∈ allTracks server, t.hash = h) ↔ AmongNewest 100 server h := by
  have fetched : (∃ t ∈ allTracks server, t.hash = h) ↔
      ∃ track ∈ ((library server.tables server.userId).insertionSort
        (fun a b => b.addedAt ≤ a.addedAt)).take 100, track.hash = h := by
    rw [← List.mem_map, ← List.mem_map, hashes_allTracks]
  rw [fetched]
  constructor
  · rintro ⟨track, mem, rfl⟩
    obtain ⟨before, after, split, few⟩ := (List.mem_take_insertionSort_iff _).mp mem
    exact ⟨before, track, after, split, rfl, by simpa using few⟩
  · rintro ⟨before, track, after, split, rfl, few⟩
    refine ⟨track, (List.mem_take_insertionSort_iff _).mpr ?_, rfl⟩
    exact ⟨before, after, split, by simpa using few⟩

theorem viewed_iff {hashes : List String} {tracks : List Track} (member : h ∈ hashes) :
    (∃ row ∈ viewTracks hashes tracks, row.hash = h) ↔ ∃ t ∈ tracks, t.hash = h := by
  constructor
  · rintro ⟨row, mem, is⟩
    obtain ⟨k, -, found⟩ := List.mem_filterMap.mp mem
    exact ⟨row, List.mem_of_find?_eq_some found, is⟩
  · rintro ⟨t, mem, is⟩
    have some_ : (tracks.find? (fun t => t.hash = h)).isSome := by
      rw [List.find?_isSome]
      exact ⟨t, mem, by simpa using is⟩
    obtain ⟨row, found⟩ := Option.isSome_iff_exists.mp some_
    refine ⟨row, List.mem_filterMap.mpr ⟨h, member, found⟩, ?_⟩
    simpa using List.find?_some found

theorem candidate_iff {hashes : List String} {tracks : List Track} (member : h ∈ hashes) :
    (∃ t ∈ playlistTracks hashes tracks, t.hash = h) ↔ ∃ t ∈ tracks, t.hash = h := by
  constructor
  · rintro ⟨t, mem, is⟩
    exact ⟨t, (List.mem_filter.mp mem).1, is⟩
  · rintro ⟨t, mem, is⟩
    exact ⟨t, List.mem_filter.mpr ⟨mem, by simpa [is] using member⟩, is⟩

end

/-- A playlist's members are all viewed and all candidates for removal if and only if each is
among the newest hundred of the library. -/
theorem members_seen_iff (server : Server φ) {name : String} {selection : Nat}
    {playlist : Playlist}
    (fetched : fetchPlaylistByName (listPlaylists server.tables server.userId) name selection =
      some playlist) :
    (∀ h ∈ playlistHashes server.tables server.userId playlist.id, InLibrary server h →
      (∃ rows, runPlaylistViewFlow server name selection = some rows ∧
        ∃ row ∈ rows, row.hash = h) ∧
      (∃ tracks, removeCandidates server name selection = some (playlist, tracks) ∧
        ∃ t ∈ tracks, t.hash = h)) ↔
    ∀ h ∈ playlistHashes server.tables server.userId playlist.id, InLibrary server h →
      AmongNewest 100 server h := by
  have answered : ∀ h ∈ playlistHashes server.tables server.userId playlist.id,
      h ∈ server.hashes playlist.id := by
    intro h mem
    rw [← server.hashes_toFinset playlist.id] at mem
    exact List.mem_toFinset.mp mem
  constructor
  · intro seen h mem has
    obtain ⟨rows, view, row, there, is⟩ := (seen h mem has).1
    rw [runPlaylistViewFlow, fetched, Option.map_some] at view
    obtain rfl := Option.some.inj view
    exact fetched_iff.mp ((viewed_iff (answered h mem)).mp ⟨row, there, is⟩)
  · intro recent h mem has
    have there := fetched_iff.mpr (recent h mem has)
    rw [runPlaylistViewFlow, removeCandidates, fetched]
    exact ⟨⟨_, rfl, (viewed_iff (answered h mem)).mpr there⟩,
      ⟨_, rfl, (candidate_iff (answered h mem)).mpr there⟩⟩

/-- A gateway that answers in the order of the hashes. -/
def inOrder (t : Tables) (userId : Uuid) : Server Nat where
  ilike := fun _ _ => false
  stores := ⟨fun _ => none, fun _ => none⟩
  tables := t
  userId := userId
  hashes := fun id => (playlistHashes t userId id).sort (· ≤ ·)
  hashes_toFinset := fun _ => Finset.sort_toFinset _ _

/-- A library of tracks added one after the other, the first of them in a playlist. -/
def grown (count : Nat) : Tables where
  tracks := fun h => some ("raw/" ++ h)
  userTracks := (List.range count).map (fun n => ⟨0, Nat.repr n, n, some "Untitled", none⟩)
  playlists := [⟨7, "Set", none, 0, 0, 0⟩]
  playlistTracks := {(7, "0")}
  batches := []

theorem members_seen_two :
    (∃ rows, runPlaylistViewFlow (inOrder (grown 2) 0) "Set" 0 = some rows ∧
      ∃ row ∈ rows, row.hash = "0") ∧
    (∃ tracks, removeCandidates (inOrder (grown 2) 0) "Set" 0 =
        some (⟨7, "Set", none, 0, 0, 0⟩, tracks) ∧
      ∃ t ∈ tracks, t.hash = "0") := by
  have fetched : fetchPlaylistByName (listPlaylists (grown 2) 0) "Set" 0 =
      some ⟨7, "Set", none, 0, 0, 0⟩ := by decide
  have only : playlistHashes (grown 2) 0 7 = {"0"} := by decide +kernel
  have rows : library (grown 2) 0 =
      [⟨"0", "raw/0", some "Untitled", none, 0⟩, ⟨"1", "raw/1", some "Untitled", none, 1⟩] := by
    decide +kernel
  refine (members_seen_iff (inOrder (grown 2) 0) fetched).mpr ?_ "0" ?_ ?_
  · intro h mem _
    obtain rfl : h = "0" := Finset.mem_singleton.mp (only ▸ mem)
    exact ⟨[], _, _, rows, rfl, by decide⟩
  · exact only ▸ Finset.mem_singleton_self "0"
  · exact ⟨_, rows ▸ List.mem_cons_self, rfl⟩

/-- The oldest of 101 tracks is neither viewed nor a candidate. -/
theorem oldest_not_seen :
    "0" ∈ playlistHashes (grown 101) 0 7 ∧ InLibrary (inOrder (grown 101) 0) "0" ∧
    runPlaylistViewFlow (inOrder (grown 101) 0) "Set" 0 = some [] ∧
    (removeCandidates (inOrder (grown 101) 0) "Set" 0).map Prod.snd = some [] := by
  refine ⟨?_, ?_, ?_, ?_⟩
  · decide +kernel
  · refine ⟨⟨"0", "raw/0", some "Untitled", none, 0⟩, ?_, rfl⟩
    decide +kernel
  · decide +kernel
  · decide +kernel

end BVault.Cli
