import Mathlib.Data.Finset.Dedup
import Mathlib.Data.Finset.Image
import Mathlib.Data.Finset.Option
import Mathlib.Data.Finset.Union
import Mathlib.Data.List.Sort

/-!
# The metadata tables

The queries of the metadata layer over the tables they touch. A statement or a
transaction is one step. Ids drawn by `gen_random_uuid()` and the time of
`now()` are the database's answers and come with the call. Rows that a query
returns in no order form a set; where it orders them, rows of the same time
stay as inserted.
-/

namespace BVault.Meta

abbrev Uuid := Nat

/-- A row of `user_tracks`; the key is the user with the hash. -/
structure UserTrack where
  userId : Uuid
  hash : String
  addedAt : Nat
  title : Option String
  artist : Option String
  deriving DecidableEq

/-- A row of `playlists`. -/
structure Playlist where
  id : Uuid
  name : String
  description : Option String
  createdAt : Nat
  updatedAt : Nat
  userId : Uuid
  deriving DecidableEq

/-- A row of `batches`. -/
structure Batch where
  id : Uuid
  name : Option String
  hashes : List String
  createdAt : Nat
  userId : Uuid
  deriving DecidableEq

/-- What the listing of a user's tracks returns for each. -/
structure Track where
  hash : String
  rawLocation : String
  title : Option String
  artist : Option String
  addedAt : Nat
  deriving DecidableEq

/-- The tables; `tracks` takes a hash to its raw location, `playlistTracks` is the set of
members. -/
structure Tables where
  tracks : String → Option String
  userTracks : List UserTrack
  playlists : List Playlist
  playlistTracks : Finset (Uuid × String)
  batches : List Batch

/-- The tables after the migrations. -/
def Tables.empty : Tables := ⟨fun _ => none, [], [], ∅, []⟩

inductive DbError where
  | uniqueViolation
  | foreignKeyViolation
  deriving DecidableEq

/-- `insert … on conflict (user_id, hash) do update`, keeping what the new row leaves out. -/
def upsertUserTrack (rows : List UserTrack) (userId : Uuid) (hash : String)
    (title artist : Option String) (now : Nat) : List UserTrack :=
  if ∃ row ∈ rows, row.userId = userId ∧ row.hash = hash then
    rows.map (fun row =>
      if row.userId = userId ∧ row.hash = hash then
        { row with title := title.or row.title, artist := artist.or row.artist }
      else row)
  else rows ++ [⟨userId, hash, now, title, artist⟩]

def upsertTrack (t : Tables) (userId : Uuid) (hash rawLocation : String)
    (title artist : Option String) (now : Nat) : Tables :=
  { t with
    tracks := fun h => if h = hash then some rawLocation else t.tracks h
    userTracks := upsertUserTrack t.userTracks userId hash title artist now }

/-- The playlist of that name, or a new one. -/
def playlistOf (t : Tables) (userId : Uuid) (name : String) (description : Option String)
    (newId : Uuid) (now : Nat) : Except DbError (Tables × Uuid) :=
  match t.playlists.find? (fun p => p.userId = userId ∧ p.name = name) with
  | some existing => .ok (t, existing.id)
  | none =>
    if ∃ p ∈ t.playlists, p.id = newId then .error .uniqueViolation
    else
      .ok ({ t with playlists := t.playlists ++ [⟨newId, name, description, now, now, userId⟩] },
        newId)

def createPlaylist (t : Tables) (userId : Uuid) (name : String) (description : Option String)
    (hashes : List String) (newId : Uuid) (now : Nat) : Except DbError (Tables × Uuid) := do
  let (t, id) ← playlistOf t userId name description newId now
  if ∀ h ∈ hashes, (t.tracks h).isSome then
    .ok ({ t with
      playlistTracks := t.playlistTracks ∪ (hashes.map (fun h => (id, h))).toFinset }, id)
  else .error .foreignKeyViolation

/-- A user's own playlist of that id. -/
def Owns (t : Tables) (userId id : Uuid) : Prop := ∃ p ∈ t.playlists, p.id = id ∧ p.userId = userId

instance (t : Tables) (userId id : Uuid) : Decidable (Owns t userId id) :=
  inferInstanceAs (Decidable (∃ p ∈ t.playlists, _))

/-- Deletes a playlist; its members go with it. -/
def deletePlaylist (t : Tables) (userId id : Uuid) : Tables :=
  { t with
    playlists := t.playlists.filter (fun p => ¬ (p.id = id ∧ p.userId = userId))
    playlistTracks := t.playlistTracks.filter (fun member => ¬ (member.1 = id ∧ Owns t userId id)) }

def removePlaylistTracks (t : Tables) (userId id : Uuid) (hashes : List String) : Tables :=
  if Owns t userId id then
    { t with
      playlistTracks := t.playlistTracks.filter (fun member =>
        ¬ (member.1 = id ∧ member.2 ∈ hashes)) }
  else t

def createBatch (t : Tables) (userId : Uuid) (name : Option String) (hashes : List String)
    (newId : Uuid) (now : Nat) : Except DbError (Tables × Uuid) :=
  if ∃ b ∈ t.batches, b.id = newId then .error .uniqueViolation
  else .ok ({ t with batches := t.batches ++ [⟨newId, name, hashes, now, userId⟩] }, newId)

/-- `user_tracks` joined with `tracks`. -/
def joinTrack (t : Tables) (row : UserTrack) : Option Track :=
  (t.tracks row.hash).map (fun location =>
    ⟨row.hash, location, row.title, row.artist, row.addedAt⟩)

/-- A user's tracks, newest first; `ilike` is the database's operator. -/
def listTracks (ilike : String → String → Bool) (t : Tables) (userId : Uuid)
    (limit offset : Nat) (q : Option String) : List Track :=
  let joined := (t.userTracks.filter (fun row => row.userId = userId)).filterMap (joinTrack t)
  let matched := joined.filter (fun track =>
    match q with
    | none => true
    | some q => track.title.any (fun title => ilike title ("%" ++ q ++ "%")))
  ((matched.insertionSort (fun a b => b.addedAt ≤ a.addedAt)).drop offset).take limit

def getTrackByHash (t : Tables) (userId : Uuid) (hash : String) : Option Track :=
  (t.userTracks.find? (fun row => row.userId = userId ∧ row.hash = hash)).bind (joinTrack t)

def listPlaylists (t : Tables) (userId : Uuid) : List Playlist :=
  (t.playlists.filter (fun p => p.userId = userId)).insertionSort
    (fun a b => b.createdAt ≤ a.createdAt)

def getPlaylist (t : Tables) (userId id : Uuid) : Option Playlist :=
  t.playlists.find? (fun p => p.userId = userId ∧ p.id = id)

def playlistHashes (t : Tables) (userId id : Uuid) : Finset String :=
  (t.playlistTracks.filter (fun member => member.1 = id ∧ Owns t userId member.1)).image Prod.snd

/-- The members of a user's playlists with their raw locations. -/
def resolveHashes (t : Tables) (userId : Uuid) (playlistIds : List Uuid) :
    Finset (String × String) :=
  (t.playlistTracks.filter (fun member =>
    member.1 ∈ playlistIds ∧ Owns t userId member.1)).biUnion
      (fun member => ((t.tracks member.2).map (fun location => (member.2, location))).toFinset)

def getBatch (t : Tables) (userId id : Uuid) : Option Batch :=
  t.batches.find? (fun b => b.userId = userId ∧ b.id = id)

/-- A call of a user, with the time and the id that the database answers with. -/
inductive Op where
  | upsertTrack (hash rawLocation : String) (title artist : Option String)
  | createPlaylist (name : String) (description : Option String) (hashes : List String)
  | deletePlaylist (id : Uuid)
  | removePlaylistTracks (id : Uuid) (hashes : List String)
  | createBatch (name : Option String) (hashes : List String)

structure Call where
  user : Uuid
  op : Op
  newId : Uuid
  now : Nat

/-- The tables after a transaction; one that fails is rolled back. -/
def committed (t : Tables) : Except DbError (Tables × Uuid) → Tables
  | .ok (t', _) => t'
  | .error _ => t

/-- The tables after a call. -/
def step (t : Tables) (c : Call) : Tables :=
  match c.op with
  | .upsertTrack hash rawLocation title artist =>
    upsertTrack t c.user hash rawLocation title artist c.now
  | .createPlaylist name description hashes =>
    committed t (createPlaylist t c.user name description hashes c.newId c.now)
  | .deletePlaylist id => deletePlaylist t c.user id
  | .removePlaylistTracks id hashes => removePlaylistTracks t c.user id hashes
  | .createBatch name hashes =>
    committed t (createBatch t c.user name hashes c.newId c.now)

/-- A read of a user. -/
inductive Read where
  | listTracks (limit offset : Nat) (q : Option String)
  | getTrackByHash (hash : String)
  | listPlaylists
  | getPlaylist (id : Uuid)
  | playlistHashes (id : Uuid)
  | resolveHashes (playlistIds : List Uuid)
  | getBatch (id : Uuid)

inductive Answer where
  | tracks (tracks : List Track)
  | track (track : Option Track)
  | playlists (playlists : List Playlist)
  | playlist (playlist : Option Playlist)
  | hashes (hashes : Finset String)
  | located (located : Finset (String × String))
  | batch (batch : Option Batch)

def read (ilike : String → String → Bool) (t : Tables) (userId : Uuid) : Read → Answer
  | .listTracks limit offset q => .tracks (listTracks ilike t userId limit offset q)
  | .getTrackByHash hash => .track (getTrackByHash t userId hash)
  | .listPlaylists => .playlists (listPlaylists t userId)
  | .getPlaylist id => .playlist (getPlaylist t userId id)
  | .playlistHashes id => .hashes (playlistHashes t userId id)
  | .resolveHashes playlistIds => .located (resolveHashes t userId playlistIds)
  | .getBatch id => .batch (getBatch t userId id)

end BVault.Meta
