import BVault.Gateway.Audio
import Mathlib.Data.List.DropRight

/-!
# The library listing

`GET /tracks`: the page of the request with its defaults, the search text
trimmed, and for each track what the artifact store knows of it.
-/

namespace BVault.Gateway

open BVault.Meta

/-- `str::trim`. -/
def trim (text : String) : String :=
  String.ofList ((text.toList.dropWhile isWhitespace).rdropWhile isWhitespace)

/-- The query of the request, with the defaults of what it leaves out. -/
structure Pagination where
  limit : Nat := 100
  offset : Nat := 0
  q : Option String := none

/-- What is read out of `analysis.json`; `φ` are its floating point numbers. -/
structure AnalysisSummary (φ : Type*) where
  durationSecs : φ
  bpm : φ
  bitrate : Nat
  fileSize : Nat

structure TrackView (φ : Type*) where
  hash : String
  title : Option String
  addedAt : Nat
  durationSecs : Option φ
  bpm : Option φ
  bitrate : Option Nat
  sizeBytes : Option Nat

/-- The stores beside the tables: the analysis of a hash, and the length of the file at a raw
location. -/
structure TrackStores (φ : Type*) where
  analysis : String → Option (AnalysisSummary φ)
  rawLen : String → Option Nat

variable {φ : Type*}

def trackView (stores : TrackStores φ) (track : Track) : TrackView φ :=
  match stores.analysis track.hash with
  | some s =>
    ⟨track.hash, track.title, track.addedAt, some s.durationSecs, some s.bpm, some s.bitrate,
      some s.fileSize⟩
  | none =>
    ⟨track.hash, track.title, track.addedAt, none, none, none, stores.rawLen track.rawLocation⟩

def listTracks (ilike : String → String → Bool) (stores : TrackStores φ) (t : Tables) (userId : Uuid)
    (p : Pagination) : List (TrackView φ) :=
  (Meta.listTracks ilike t userId p.limit p.offset ((p.q.map trim).filter (· ≠ ""))).map
    (trackView stores)

@[simp] theorem trackView_hash (stores : TrackStores φ) (track : Track) :
    (trackView stores track).hash = track.hash := by
  rw [trackView]
  split <;> rfl

@[simp] theorem trackView_title (stores : TrackStores φ) (track : Track) :
    (trackView stores track).title = track.title := by
  rw [trackView]
  split <;> rfl

/-- The tracks in a user's library. -/
def library (t : Tables) (userId : Uuid) : List Track :=
  (t.userTracks.filter (fun row => row.userId = userId)).filterMap (joinTrack t)

/-- A library is no longer than the table of all. -/
theorem length_library_le (t : Tables) (userId : Uuid) :
    (library t userId).length ≤ t.userTracks.length :=
  (List.length_filterMap_le _ _).trans (List.length_filter_le _ _)

end BVault.Gateway
