import BVault.Lib.Loops
import BVault.Meta.Model

/-!
# A user's own rows

The tables as if only one user's rows were there. Reads of the user see nothing
else, and what another user's call does to the whole tables it does not do to
these, with one exception: the location of a hash that both have.
-/

namespace BVault.Meta

/-- The user has a row for the hash. -/
def Has (t : Tables) (userId : Uuid) (hash : String) : Prop :=
  ∃ row ∈ t.userTracks, row.userId = userId ∧ row.hash = hash

instance (t : Tables) (userId : Uuid) (hash : String) : Decidable (Has t userId hash) :=
  inferInstanceAs (Decidable (∃ row ∈ t.userTracks, _))

/-- The user's rows, with the locations of the user's hashes. -/
def own (t : Tables) (userId : Uuid) : Tables where
  tracks := fun h => if Has t userId h then t.tracks h else none
  userTracks := t.userTracks.filter (fun row => row.userId = userId)
  playlists := t.playlists.filter (fun p => p.userId = userId)
  playlistTracks := t.playlistTracks.filter (fun member => Owns t userId member.1)
  batches := t.batches.filter (fun b => b.userId = userId)

theorem Tables.eq_of_rows {s t : Tables} (tracks : s.tracks = t.tracks)
    (userTracks : s.userTracks = t.userTracks) (playlists : s.playlists = t.playlists)
    (members : s.playlistTracks = t.playlistTracks) (batches : s.batches = t.batches) : s = t := by
  cases s
  cases t
  simp_all

/-- What a condition implies is not lost by a filter for it. -/
theorem exists_mem_filter_of_imp {α : Type} {p : α → Bool} {q : α → Prop}
    (imp : ∀ x, q x → p x = true) (xs : List α) :
    (∃ x ∈ xs.filter p, q x) ↔ ∃ x ∈ xs, q x := by
  constructor
  · rintro ⟨x, mem, here⟩
    exact ⟨x, List.mem_of_mem_filter mem, here⟩
  · rintro ⟨x, mem, here⟩
    exact ⟨x, List.mem_filter.mpr ⟨mem, imp x here⟩, here⟩

@[simp] theorem has_own {t : Tables} {userId : Uuid} {hash : String} :
    Has (own t userId) userId hash ↔ Has t userId hash := by
  rw [Has, Has, own]
  exact exists_mem_filter_of_imp (fun row here => decide_eq_true here.1) t.userTracks

@[simp] theorem owns_own {t : Tables} {userId id : Uuid} :
    Owns (own t userId) userId id ↔ Owns t userId id := by
  rw [Owns, Owns, own]
  exact exists_mem_filter_of_imp (fun p here => decide_eq_true here.2) t.playlists

/-- What is searched for under a condition is found among the items that meet it. -/
theorem find?_filter_of_imp {α : Type} {p q : α → Bool} (imp : ∀ x, q x = true → p x = true)
    (xs : List α) : (xs.filter p).find? q = xs.find? q := by
  rw [List.find?_filter]
  congr 1
  funext x
  by_cases both : q x = true
  · simp [both, imp x both]
  · simp [both]

/-- The members of the user's playlists are hashes of the user. -/
def Closed (t : Tables) (userId : Uuid) : Prop :=
  ∀ member ∈ t.playlistTracks, Owns t userId member.1 → Has t userId member.2

section
variable {t : Tables} {userId : Uuid}

theorem joinTrack_own {row : UserTrack} (mem : row ∈ t.userTracks) (mine : row.userId = userId) :
    joinTrack (own t userId) row = joinTrack t row := by
  have has : Has t userId row.hash := ⟨row, mem, mine, rfl⟩
  simp only [joinTrack, own, if_pos has]

theorem listTracks_own (ilike : String → String → Bool) (limit offset : Nat) (q : Option String) :
    listTracks ilike (own t userId) userId limit offset q =
      listTracks ilike t userId limit offset q := by
  have rows : ((own t userId).userTracks.filter (fun row => row.userId = userId)).filterMap
      (joinTrack (own t userId)) =
        (t.userTracks.filter (fun row => row.userId = userId)).filterMap (joinTrack t) := by
    simp only [own, List.filter_filter, Bool.and_self]
    refine List.filterMap_congr (fun row mem => ?_)
    obtain ⟨inside, mine⟩ := List.mem_filter.mp mem
    exact joinTrack_own inside (of_decide_eq_true mine)
  simp only [listTracks, rows]

theorem getTrackByHash_own (hash : String) :
    getTrackByHash (own t userId) userId hash = getTrackByHash t userId hash := by
  have found : (own t userId).userTracks.find? (fun row => row.userId = userId ∧ row.hash = hash) =
      t.userTracks.find? (fun row => row.userId = userId ∧ row.hash = hash) := by
    refine find?_filter_of_imp (fun row both => ?_) t.userTracks
    exact decide_eq_true (of_decide_eq_true both).1
  rw [getTrackByHash, getTrackByHash, found]
  cases row : t.userTracks.find? (fun row => row.userId = userId ∧ row.hash = hash) with
  | none => rfl
  | some row' =>
    have both := List.find?_some row
    simp only [decide_eq_true_eq] at both
    exact joinTrack_own (List.mem_of_find?_eq_some row) both.1

/-- A hash that the user has is read with its location. -/
theorem location_of_has {hash : String} (has : Has t userId hash) :
    (getTrackByHash t userId hash).map Track.rawLocation = t.tracks hash := by
  rw [getTrackByHash]
  cases found : t.userTracks.find? (fun row => row.userId = userId ∧ row.hash = hash) with
  | none =>
    obtain ⟨row, mem, here⟩ := has
    exact absurd (decide_eq_true here) (List.find?_eq_none.mp found row mem)
  | some row =>
    have both := List.find?_some found
    simp only [decide_eq_true_eq] at both
    rw [Option.bind_some, joinTrack, both.2]
    cases t.tracks hash <;> rfl

theorem listPlaylists_own : listPlaylists (own t userId) userId = listPlaylists t userId := by
  simp only [listPlaylists, own, List.filter_filter, Bool.and_self]

theorem getPlaylist_own (id : Uuid) : getPlaylist (own t userId) userId id =
    getPlaylist t userId id :=
  find?_filter_of_imp (fun _ both => decide_eq_true (of_decide_eq_true both).1) t.playlists

theorem getBatch_own (id : Uuid) : getBatch (own t userId) userId id = getBatch t userId id :=
  find?_filter_of_imp (fun _ both => decide_eq_true (of_decide_eq_true both).1) t.batches

theorem playlistHashes_own (id : Uuid) :
    playlistHashes (own t userId) userId id = playlistHashes t userId id := by
  ext hash
  simp only [playlistHashes, Finset.mem_image, Finset.mem_filter, owns_own]
  simp only [own, Finset.mem_filter]
  constructor
  · rintro ⟨member, ⟨⟨mem, _⟩, here⟩, same⟩
    exact ⟨member, ⟨mem, here⟩, same⟩
  · rintro ⟨member, ⟨mem, here⟩, same⟩
    exact ⟨member, ⟨⟨mem, here.2⟩, here⟩, same⟩

theorem resolveHashes_own (closed : Closed t userId) (playlistIds : List Uuid) :
    resolveHashes (own t userId) userId playlistIds = resolveHashes t userId playlistIds := by
  have located {member : Uuid × String} (mem : member ∈ t.playlistTracks)
      (mine : Owns t userId member.1) : (own t userId).tracks member.2 = t.tracks member.2 :=
    if_pos (closed member mem mine)
  ext pair
  simp only [resolveHashes, Finset.mem_biUnion, Finset.mem_filter, owns_own]
  constructor
  · rintro ⟨member, ⟨inside, here⟩, located'⟩
    have mem := (Finset.mem_filter.mp inside).1
    rw [located mem here.2] at located'
    exact ⟨member, ⟨mem, here⟩, located'⟩
  · rintro ⟨member, ⟨mem, here⟩, located'⟩
    rw [← located mem here.2] at located'
    exact ⟨member, ⟨Finset.mem_filter.mpr ⟨mem, here.2⟩, here⟩, located'⟩

/-- All a user reads is read from the own rows. -/
theorem read_own (ilike : String → String → Bool) (closed : Closed t userId) (q : Read) :
    read ilike (own t userId) userId q = read ilike t userId q := by
  cases q with
  | listTracks limit offset q => exact congrArg _ (listTracks_own ilike limit offset q)
  | getTrackByHash hash => exact congrArg _ (getTrackByHash_own hash)
  | listPlaylists => exact congrArg _ listPlaylists_own
  | getPlaylist id => exact congrArg _ (getPlaylist_own id)
  | playlistHashes id => exact congrArg _ (playlistHashes_own id)
  | resolveHashes ids => exact congrArg _ (resolveHashes_own closed ids)
  | getBatch id => exact congrArg _ (getBatch_own id)

end

/-- Rows of other users stay as they are. -/
theorem filter_upsert_other {rows : List UserTrack} {userId other : Uuid} (differ : other ≠ userId)
    (hash : String) (title artist : Option String) (now : Nat) :
    (upsertUserTrack rows other hash title artist now).filter (fun row => row.userId = userId) =
      rows.filter (fun row => row.userId = userId) := by
  rw [upsertUserTrack]
  split
  · rw [List.filter_map]
    have same : ((fun row : UserTrack => decide (row.userId = userId)) ∘ fun row =>
        if row.userId = other ∧ row.hash = hash then
          { row with title := title.or row.title, artist := artist.or row.artist }
        else row) = fun row => decide (row.userId = userId) := by
      funext row
      simp only [Function.comp_apply]
      split <;> rfl
    rw [same]
    refine (List.map_congr_left (fun row mem => ?_)).trans (List.map_id _)
    have mine : row.userId = userId := of_decide_eq_true (List.mem_filter.mp mem).2
    exact if_neg (fun both => differ (both.1.symm.trans mine))
  · rw [List.filter_append]
    simp [differ]

/-- The user's own rows are upserted as in the whole table. -/
theorem filter_upsert_self (rows : List UserTrack) (userId : Uuid) (hash : String)
    (title artist : Option String) (now : Nat) :
    (upsertUserTrack rows userId hash title artist now).filter (fun row => row.userId = userId) =
      upsertUserTrack (rows.filter (fun row => row.userId = userId)) userId hash title artist now := by
  have present : (∃ row ∈ rows.filter (fun row => row.userId = userId),
      row.userId = userId ∧ row.hash = hash) ↔
        ∃ row ∈ rows, row.userId = userId ∧ row.hash = hash :=
    exists_mem_filter_of_imp (fun row here => decide_eq_true here.1) rows
  rw [upsertUserTrack, upsertUserTrack]
  simp only [present]
  split
  · rw [List.filter_map]
    congr 2
    funext row
    simp only [Function.comp_apply]
    split <;> rfl
  · rw [List.filter_append]
    simp

/-- A hash has a row after an upsert if it had one, or it is the one upserted. -/
theorem mem_upsert_key {rows : List UserTrack} {other : Uuid} {hash : String}
    {title artist : Option String} {now : Nat} (userId : Uuid) (h : String) :
    (∃ row ∈ upsertUserTrack rows other hash title artist now,
        row.userId = userId ∧ row.hash = h) ↔
      (∃ row ∈ rows, row.userId = userId ∧ row.hash = h) ∨ (userId = other ∧ h = hash) := by
  rw [upsertUserTrack]
  split
  · rename_i present
    constructor
    · rintro ⟨row, mem, here⟩
      obtain ⟨old, inside, rfl⟩ := List.mem_map.mp mem
      refine Or.inl ⟨old, inside, ?_⟩
      split at here <;> exact here
    · rintro (⟨row, mem, here⟩ | ⟨rfl, rfl⟩)
      · refine ⟨_, List.mem_map.mpr ⟨row, mem, rfl⟩, ?_⟩
        split <;> exact here
      · obtain ⟨row, mem, here⟩ := present
        refine ⟨_, List.mem_map.mpr ⟨row, mem, rfl⟩, ?_⟩
        split <;> exact here
  · simp only [List.mem_append, List.mem_singleton]
    constructor
    · rintro ⟨row, mem | rfl, here⟩
      · exact Or.inl ⟨row, mem, here⟩
      · exact Or.inr ⟨here.1.symm, here.2.symm⟩
    · rintro (⟨row, mem, here⟩ | ⟨rfl, rfl⟩)
      · exact ⟨row, Or.inl mem, here⟩
      · exact ⟨_, Or.inr rfl, rfl, rfl⟩

theorem has_upsertTrack (t : Tables) (other : Uuid) (hash location : String)
    (title artist : Option String) (now : Nat) (userId : Uuid) (h : String) :
    Has (upsertTrack t other hash location title artist now) userId h ↔
      Has t userId h ∨ (userId = other ∧ h = hash) :=
  mem_upsert_key userId h

theorem tracks_upsertTrack (t : Tables) (other : Uuid) (hash location : String)
    (title artist : Option String) (now : Nat) (h : String) :
    (upsertTrack t other hash location title artist now).tracks h =
      if h = hash then some location else t.tracks h := rfl

theorem own_tracks (t : Tables) (userId : Uuid) (h : String) :
    (own t userId).tracks h = if Has t userId h then t.tracks h else none := rfl

theorem own_tracks_congr {t t' : Tables} (userId : Uuid) (rows : t'.userTracks = t.userTracks)
    (tracks : t'.tracks = t.tracks) : (own t' userId).tracks = (own t userId).tracks := by
  funext h
  have same : Has t' userId h ↔ Has t userId h := by rw [Has, Has, rows]
  rw [own_tracks, own_tracks, tracks]
  exact if_congr same rfl rfl

section
variable {t : Tables} {userId other : Uuid}

/-- Another user's upsert leaves the own rows alone, where it does not move a hash that the
user has. -/
theorem own_upsertTrack_other (differ : other ≠ userId) {hash location : String}
    (kept : Has t userId hash → t.tracks hash = some location) (title artist : Option String)
    (now : Nat) : own (upsertTrack t other hash location title artist now) userId =
      own t userId := by
  refine Tables.eq_of_rows ?_ (filter_upsert_other differ hash title artist now) rfl rfl rfl
  funext h
  have same : Has (upsertTrack t other hash location title artist now) userId h ↔ Has t userId h := by
    rw [has_upsertTrack]
    exact or_iff_left (fun both => differ both.1.symm)
  rw [own_tracks, own_tracks]
  by_cases has : Has t userId h
  · rw [if_pos (same.mpr has), if_pos has, tracks_upsertTrack]
    by_cases here : h = hash
    · subst here
      rw [if_pos rfl, kept has]
    · rw [if_neg here]
  · rw [if_neg (fun has' => has (same.mp has')), if_neg has]

theorem own_upsertTrack_self (hash location : String) (title artist : Option String) (now : Nat) :
    own (upsertTrack t userId hash location title artist now) userId =
      upsertTrack (own t userId) userId hash location title artist now := by
  refine Tables.eq_of_rows ?_ (filter_upsert_self t.userTracks userId hash title artist now)
    rfl rfl rfl
  funext h
  have has := has_upsertTrack t userId hash location title artist now userId h
  rw [own_tracks, tracks_upsertTrack, tracks_upsertTrack, own_tracks]
  by_cases here : h = hash
  · rw [if_pos (has.mpr (Or.inr ⟨rfl, here⟩)), if_pos here, if_pos here]
  · simp only [has, here, and_false, or_false, if_false]

end

/-- What a `create_playlist` that commits has done. -/
structure Created (t : Tables) (userId : Uuid) (name : String) (description : Option String)
    (hashes : List String) (newId : Uuid) (now : Nat) (t' : Tables) (id : Uuid) : Prop where
  known : ∀ h ∈ hashes, (t.tracks h).isSome
  playlists :
    ((∃ p, t.playlists.find? (fun p => p.userId = userId ∧ p.name = name) = some p ∧ p.id = id) ∧
        t'.playlists = t.playlists) ∨
      (t.playlists.find? (fun p => p.userId = userId ∧ p.name = name) = none ∧ id = newId ∧
        (¬ ∃ p ∈ t.playlists, p.id = newId) ∧
        t'.playlists = t.playlists ++ [⟨newId, name, description, now, now, userId⟩])
  members : t'.playlistTracks = t.playlistTracks ∪ (hashes.map (fun h => (id, h))).toFinset
  tracks : t'.tracks = t.tracks
  userTracks : t'.userTracks = t.userTracks
  batches : t'.batches = t.batches

theorem createPlaylist_spec {t t' : Tables} {userId id newId : Uuid} {name : String}
    {description : Option String} {hashes : List String} {now : Nat}
    (created : createPlaylist t userId name description hashes newId now = .ok (t', id)) :
    Created t userId name description hashes newId now t' id := by
  obtain ⟨⟨t₁, id₁⟩, placed, created⟩ := Loops.of_bind created
  dsimp only at created
  split at created
  · rename_i known
    cases created
    rw [playlistOf] at placed
    split at placed
    · rename_i p found
      cases placed
      exact ⟨known, Or.inl ⟨⟨p, found, rfl⟩, rfl⟩, rfl, rfl, rfl, rfl⟩
    · rename_i found
      split at placed
      · cases placed
      · rename_i fresh
        cases placed
        exact ⟨known, Or.inr ⟨found, rfl, fresh, rfl⟩, rfl, rfl, rfl, rfl⟩
  · cases created

/-- It found the name, or its id was new. -/
theorem Created.placed {t t' : Tables} {userId id newId : Uuid} {name : String}
    {description : Option String} {hashes : List String} {now : Nat}
    (created : Created t userId name description hashes newId now t' id) :
    (∃ p ∈ t.playlists, p.userId = userId ∧ p.name = name) ∨
      ¬ ∃ p ∈ t.playlists, p.id = newId := by
  rcases created.playlists with ⟨⟨p, found, _⟩, _⟩ | ⟨_, _, fresh, _⟩
  · have both := List.find?_some found
    simp only [decide_eq_true_eq] at both
    exact Or.inl ⟨p, List.mem_of_find?_eq_some found, both⟩
  · exact Or.inr fresh

/-- A `create_playlist` commits when its name is there or its id is new, and its hashes are
known. -/
theorem createPlaylist_commits {t : Tables} (userId : Uuid) {newId : Uuid} (name : String)
    (description : Option String) {hashes : List String} (now : Nat)
    (placed : (∃ p ∈ t.playlists, p.userId = userId ∧ p.name = name) ∨
      ¬ ∃ p ∈ t.playlists, p.id = newId)
    (known : ∀ h ∈ hashes, (t.tracks h).isSome) :
    ∃ t' id, createPlaylist t userId name description hashes newId now = .ok (t', id) := by
  rw [createPlaylist, playlistOf]
  cases found : t.playlists.find? (fun p => p.userId = userId ∧ p.name = name) with
  | some p => exact ⟨_, _, Loops.bind_ok rfl (if_pos known)⟩
  | none =>
    rcases placed with ⟨p, mem, here⟩ | fresh
    · exact absurd (decide_eq_true here) (List.find?_eq_none.mp found p mem)
    · simp only [if_neg fresh]
      exact ⟨_, _, Loops.bind_ok rfl (if_pos known)⟩

theorem createPlaylist_fails {t : Tables} (userId newId : Uuid) (name : String)
    (description : Option String) {hashes : List String} (now : Nat)
    (unknown : ∃ h ∈ hashes, t.tracks h = none) :
    ∃ e, createPlaylist t userId name description hashes newId now = .error e := by
  cases created : createPlaylist t userId name description hashes newId now with
  | error e => exact ⟨e, rfl⟩
  | ok result =>
    obtain ⟨h, mem, none_⟩ := unknown
    have known := (createPlaylist_spec created).known h mem
    rw [none_] at known
    cases known

/-- What the foreign keys and the primary keys keep; `drawn` are the ids drawn so far. -/
structure Consistent (t : Tables) (drawn : List Uuid) : Prop where
  located : ∀ row ∈ t.userTracks, (t.tracks row.hash).isSome
  listed : ∀ member ∈ t.playlistTracks, ∃ p ∈ t.playlists, p.id = member.1
  known : ∀ member ∈ t.playlistTracks, (t.tracks member.2).isSome
  owner : ∀ p ∈ t.playlists, ∀ q ∈ t.playlists, p.id = q.id → p.userId = q.userId
  playlistIds : ∀ p ∈ t.playlists, p.id ∈ drawn
  batchIds : ∀ b ∈ t.batches, b.id ∈ drawn

/-- A new id is that of no playlist. -/
theorem Consistent.unused {t : Tables} {drawn : List Uuid} (consistent : Consistent t drawn)
    {newId : Uuid} (fresh : newId ∉ drawn) : ¬ ∃ p ∈ t.playlists, p.id = newId := by
  rintro ⟨p, mem, same⟩
  exact fresh (same ▸ consistent.playlistIds p mem)

namespace Created

variable {t t' : Tables} {caller id newId : Uuid} {name : String} {description : Option String}
  {hashes : List String} {now : Nat}
  (created : Created t caller name description hashes newId now t' id)
include created

/-- The caller owns the playlist that was filled. -/
theorem owns_id : Owns t' caller id := by
  rcases created.playlists with ⟨⟨p, found, rfl⟩, same⟩ | ⟨_, rfl, _, more⟩
  · have both := List.find?_some found
    simp only [decide_eq_true_eq] at both
    exact ⟨p, same ▸ List.mem_of_find?_eq_some found, rfl, both.1⟩
  · exact ⟨_, by rw [more]; exact List.mem_append_right _ List.mem_cons_self, rfl, rfl⟩

/-- A playlist of the tables is one from before or the caller's new one. -/
theorem mem_playlists {p : Playlist} (mem : p ∈ t'.playlists) : p ∈ t.playlists ∨
    (p.id = newId ∧ p.userId = caller ∧ id = newId ∧ ¬ ∃ p ∈ t.playlists, p.id = newId) := by
  rcases created.playlists with ⟨_, same⟩ | ⟨_, rfl, fresh, more⟩
  · exact Or.inl (same ▸ mem)
  · rw [more] at mem
    rcases List.mem_append.mp mem with old | new
    · exact Or.inl old
    · rw [List.mem_singleton.mp new]
      exact Or.inr ⟨rfl, rfl, rfl, fresh⟩

theorem kept_playlist {p : Playlist} (mem : p ∈ t.playlists) : p ∈ t'.playlists := by
  rcases created.playlists with ⟨_, same⟩ | ⟨_, _, _, more⟩
  · exact same ▸ mem
  · rw [more]
    exact List.mem_append_left _ mem

/-- Who owned a playlist owns it, and the caller owns a new one. -/
theorem owns_iff {userId x : Uuid} : Owns t' userId x ↔ Owns t userId x ∨
    (x = newId ∧ userId = caller ∧ id = newId ∧ ¬ ∃ p ∈ t.playlists, p.id = newId) := by
  constructor
  · rintro ⟨p, mem, rfl, rfl⟩
    rcases created.mem_playlists mem with old | new
    · exact Or.inl ⟨p, old, rfl, rfl⟩
    · exact Or.inr new
  · rintro (⟨p, mem, here⟩ | ⟨rfl, rfl, rfl, _⟩)
    · exact ⟨p, created.kept_playlist mem, here⟩
    · exact created.owns_id

theorem consistent {drawn : List Uuid} (consistent : Consistent t drawn) :
    Consistent t' (drawn ++ [newId]) where
  located := by
    rw [created.userTracks, created.tracks]
    exact consistent.located
  listed := by
    intro member mem
    rw [created.members, Finset.mem_union, List.mem_toFinset] at mem
    rcases mem with old | new
    · obtain ⟨p, inside, same⟩ := consistent.listed member old
      exact ⟨p, created.kept_playlist inside, same⟩
    · obtain ⟨h, _, rfl⟩ := List.mem_map.mp new
      obtain ⟨p, inside, same, _⟩ := created.owns_id
      exact ⟨p, inside, same⟩
  known := by
    intro member mem
    rw [created.tracks]
    rw [created.members, Finset.mem_union, List.mem_toFinset] at mem
    rcases mem with old | new
    · exact consistent.known member old
    · obtain ⟨h, inside, rfl⟩ := List.mem_map.mp new
      exact created.known h inside
  owner := by
    intro p hp q hq same
    rcases created.mem_playlists hp with oldP | ⟨idP, userP, _, fresh⟩
    · rcases created.mem_playlists hq with oldQ | ⟨idQ, _, _, fresh⟩
      · exact consistent.owner p oldP q oldQ same
      · exact absurd ⟨p, oldP, same.trans idQ⟩ fresh
    · rcases created.mem_playlists hq with oldQ | ⟨_, userQ, _, _⟩
      · exact absurd ⟨q, oldQ, same.symm.trans idP⟩ fresh
      · rw [userP, userQ]
  playlistIds := by
    intro p mem
    rcases created.mem_playlists mem with old | ⟨same, _⟩
    · exact List.mem_append_left _ (consistent.playlistIds p old)
    · rw [same]
      exact List.mem_append_right _ List.mem_cons_self
  batchIds := by
    rw [created.batches]
    exact fun b mem => List.mem_append_left _ (consistent.batchIds b mem)

/-- Another user's `create_playlist` leaves the own rows alone. -/
theorem own_other {drawn : List Uuid} (consistent : Consistent t drawn) {userId : Uuid}
    (differ : caller ≠ userId) : own t' userId = own t userId := by
  have owns (x : Uuid) : Owns t' userId x ↔ Owns t userId x := by
    rw [created.owns_iff, or_iff_left]
    exact fun new => differ new.2.1.symm
  have theirs : ¬ Owns t' userId id := by
    rintro ⟨q, hq, sameId, sameUser⟩
    obtain ⟨p, hp, idP, userP⟩ := created.owns_id
    have one := (created.consistent consistent).owner p hp q hq (idP.trans sameId.symm)
    exact differ (userP.symm.trans (one.trans sameUser))
  refine Tables.eq_of_rows ?_ ?_ ?_ ?_ ?_
  · exact own_tracks_congr userId created.userTracks created.tracks
  · simp only [own, created.userTracks]
  · rcases created.playlists with ⟨_, same⟩ | ⟨_, _, _, more⟩
    · simp only [own, same]
    · simp [own, more, differ]
  · ext member
    simp only [own, Finset.mem_filter, created.members, Finset.mem_union, List.mem_toFinset, owns]
    constructor
    · rintro ⟨old | new, mine⟩
      · exact ⟨old, mine⟩
      · obtain ⟨h, _, rfl⟩ := List.mem_map.mp new
        exact absurd ((owns id).mpr mine) theirs
    · rintro ⟨old, mine⟩
      exact ⟨Or.inl old, mine⟩
  · simp only [own, created.batches]

/-- The user's own `create_playlist` does to the own rows what it does to the tables, when
the hashes are the user's. -/
theorem own_self {drawn : List Uuid} (consistent : Consistent t drawn)
    (mine : ∀ h ∈ hashes, Has t caller h) (fresh : newId ∉ drawn) :
    createPlaylist (own t caller) caller name description hashes newId now =
      .ok (own t' caller, id) := by
  have search : (own t caller).playlists.find? (fun p => p.userId = caller ∧ p.name = name) =
      t.playlists.find? (fun p => p.userId = caller ∧ p.name = name) :=
    find?_filter_of_imp (fun _ both => decide_eq_true (of_decide_eq_true both).1) t.playlists
  have unused := consistent.unused fresh
  have unused' : ¬ ∃ p ∈ (own t caller).playlists, p.id = newId := by
    rintro ⟨p, mem, same⟩
    exact unused ⟨p, (List.mem_filter.mp mem).1, same⟩
  have known : ∀ h ∈ hashes, ((own t caller).tracks h).isSome := by
    intro h mem
    rw [own_tracks, if_pos (mine h mem)]
    exact created.known h mem
  obtain ⟨t'', id', committed⟩ := createPlaylist_commits caller name description now
    (Or.inr unused') known
  have again := createPlaylist_spec committed
  rw [committed]
  have same : id' = id ∧ t''.playlists = (own t' caller).playlists := by
    rcases created.playlists with ⟨⟨p, found, rfl⟩, old⟩ | ⟨missing, rfl, _, more⟩
    · rcases again.playlists with ⟨⟨p', found', rfl⟩, old'⟩ | ⟨missing', _⟩
      · rw [search, found] at found'
        cases found'
        exact ⟨rfl, by simp only [old', own, old]⟩
      · rw [search, found] at missing'
        cases missing'
    · rcases again.playlists with ⟨⟨p', found', _⟩, _⟩ | ⟨_, rfl, _, more'⟩
      · rw [search, missing] at found'
        cases found'
      · exact ⟨rfl, by simp [more', own, more]⟩
  obtain ⟨rfl, playlists⟩ := same
  congr 2
  refine Tables.eq_of_rows ?_ ?_ playlists ?_ ?_
  · rw [again.tracks]
    exact (own_tracks_congr caller created.userTracks created.tracks).symm
  · rw [again.userTracks]
    simp only [own, created.userTracks]
  · rw [again.members]
    ext member
    have owns (old : member ∈ t.playlistTracks) : Owns t' caller member.1 ↔ Owns t caller member.1 := by
      rw [created.owns_iff, or_iff_left]
      rintro ⟨new, _⟩
      obtain ⟨q, inside, same⟩ := consistent.listed member old
      exact unused ⟨q, inside, same.trans new⟩
    simp only [own, Finset.mem_filter, created.members, Finset.mem_union]
    constructor
    · rintro (⟨old, owned⟩ | new)
      · exact ⟨Or.inl old, (owns old).mpr owned⟩
      · obtain ⟨h, _, rfl⟩ := List.mem_map.mp (List.mem_toFinset.mp new)
        exact ⟨Or.inr new, created.owns_id⟩
    · rintro ⟨old | new, owned⟩
      · exact Or.inl ⟨old, (owns old).mp owned⟩
      · exact Or.inr new
  · rw [again.batches]
    simp only [own, created.batches]

end Created

end BVault.Meta
