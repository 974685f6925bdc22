import BVault.Meta.Own

/-!
# One call and the own rows

A call of the user does to the own rows what it does to the tables, and a call
of another user does nothing to them, each under the one condition that can fail
(`Respects`).
-/

namespace BVault.Meta

variable {t : Tables} {userId other : Uuid} {drawn : List Uuid}

theorem mem_own {member : Uuid × String} : member ∈ (own t userId).playlistTracks ↔
    member ∈ t.playlistTracks ∧ Owns t userId member.1 :=
  Finset.mem_filter

theorem mem_deletePlaylist {id : Uuid} {member : Uuid × String} :
    member ∈ (deletePlaylist t other id).playlistTracks ↔
      member ∈ t.playlistTracks ∧ ¬ (member.1 = id ∧ Owns t other id) :=
  Finset.mem_filter

theorem owns_deletePlaylist (t : Tables) (other id user x : Uuid) :
    Owns (deletePlaylist t other id) user x ↔ Owns t user x ∧ ¬ (x = id ∧ user = other) := by
  simp only [Owns, deletePlaylist, List.mem_filter, decide_eq_true_eq]
  constructor
  · rintro ⟨p, ⟨mem, kept⟩, rfl, rfl⟩
    exact ⟨⟨p, mem, rfl, rfl⟩, kept⟩
  · rintro ⟨⟨p, mem, rfl, rfl⟩, kept⟩
    exact ⟨p, ⟨mem, kept⟩, rfl, rfl⟩

/-- No playlist has two owners. -/
theorem Consistent.one_owner (consistent : Consistent t drawn) {user user' id : Uuid}
    (first : Owns t user id) (second : Owns t user' id) : user = user' := by
  obtain ⟨p, hp, idP, rfl⟩ := first
  obtain ⟨q, hq, idQ, rfl⟩ := second
  exact consistent.owner p hp q hq (idP.trans idQ.symm)

theorem own_deletePlaylist_other (consistent : Consistent t drawn) (differ : other ≠ userId)
    (id : Uuid) : own (deletePlaylist t other id) userId = own t userId := by
  refine Tables.eq_of_rows rfl rfl ?_ ?_ rfl
  · simp only [own, deletePlaylist, List.filter_filter]
    refine List.filter_congr (fun p _ => ?_)
    by_cases mine : p.userId = userId
    · simp [mine, Ne.symm differ]
    · simp [mine]
  · ext member
    rw [mem_own, mem_own, mem_deletePlaylist, owns_deletePlaylist]
    constructor
    · rintro ⟨⟨mem, _⟩, owned, _⟩
      exact ⟨mem, owned⟩
    · rintro ⟨mem, owned⟩
      refine ⟨⟨mem, ?_⟩, owned, fun both => differ both.2.symm⟩
      rintro ⟨same, theirs⟩
      rw [same] at owned
      exact differ (consistent.one_owner theirs owned)

theorem own_deletePlaylist_self (id : Uuid) : own (deletePlaylist t userId id) userId =
    deletePlaylist (own t userId) userId id := by
  refine Tables.eq_of_rows rfl rfl ?_ ?_ rfl
  · simp only [own, deletePlaylist, List.filter_filter]
    exact List.filter_congr (fun p _ => Bool.and_comm _ _)
  · ext member
    rw [mem_own, mem_deletePlaylist, owns_deletePlaylist, mem_deletePlaylist, mem_own, owns_own]
    constructor
    · rintro ⟨⟨mem, kept⟩, owned, _⟩
      exact ⟨⟨mem, owned⟩, kept⟩
    · rintro ⟨⟨mem, owned⟩, kept⟩
      refine ⟨⟨mem, kept⟩, owned, ?_⟩
      rintro ⟨same, _⟩
      exact kept ⟨same, same ▸ owned⟩

theorem own_removePlaylistTracks_other (consistent : Consistent t drawn) (differ : other ≠ userId)
    (id : Uuid) (hashes : List String) :
    own (removePlaylistTracks t other id hashes) userId = own t userId := by
  rw [removePlaylistTracks]
  split
  · rename_i theirs
    refine Tables.eq_of_rows rfl rfl rfl ?_ rfl
    ext member
    simp only [own, Finset.mem_filter]
    constructor
    · rintro ⟨⟨mem, _⟩, owned⟩
      exact ⟨mem, owned⟩
    · rintro ⟨mem, owned⟩
      refine ⟨⟨mem, ?_⟩, owned⟩
      rintro ⟨same, _⟩
      have owned' : Owns t userId id := same ▸ owned
      exact differ (consistent.one_owner theirs owned')
  · rfl

theorem own_removePlaylistTracks_self (id : Uuid) (hashes : List String) :
    own (removePlaylistTracks t userId id hashes) userId =
      removePlaylistTracks (own t userId) userId id hashes := by
  rw [removePlaylistTracks, removePlaylistTracks]
  by_cases mine : Owns t userId id
  · rw [if_pos mine, if_pos (owns_own.mpr mine)]
    refine Tables.eq_of_rows rfl rfl rfl ?_ rfl
    ext member
    simp only [own, Finset.mem_filter]
    exact and_right_comm
  · rw [if_neg mine, if_neg (fun owned => mine (owns_own.mp owned))]

theorem createBatch_spec {t' : Tables} {newId now id : Uuid} {name : Option String}
    {hashes : List String} (created : createBatch t other name hashes newId now = .ok (t', id)) :
    t' = { t with batches := t.batches ++ [⟨newId, name, hashes, now, other⟩] } := by
  rw [createBatch] at created
  split at created
  · cases created
  · cases created
    rfl

theorem createBatch_commits (userId : Uuid) {newId : Uuid} (name : Option String)
    (hashes : List String) (now : Nat) (fresh : ¬ ∃ b ∈ t.batches, b.id = newId) :
    createBatch t userId name hashes newId now =
      .ok ({ t with batches := t.batches ++ [⟨newId, name, hashes, now, userId⟩] }, newId) :=
  if_neg fresh

/-- Another user's upsert moves no hash that the user has; a playlist of the user is made of
the user's hashes, unless it fails for one that nobody has. -/
def Respects (t : Tables) (userId : Uuid) (c : Call) : Prop :=
  match c.op with
  | .upsertTrack hash rawLocation _ _ =>
    c.user ≠ userId → Has t userId hash → t.tracks hash = some rawLocation
  | .createPlaylist _ _ hashes =>
    c.user = userId → (∀ h ∈ hashes, Has t userId h) ∨ ∃ h ∈ hashes, t.tracks h = none
  | _ => True

/-- A call of another user leaves the own rows alone. -/
theorem own_step_other (consistent : Consistent t drawn) {c : Call} (differ : c.user ≠ userId)
    (respects : Respects t userId c) : own (step t c) userId = own t userId := by
  obtain ⟨caller, op, newId, now⟩ := c
  cases op with
  | upsertTrack hash location title artist =>
    exact own_upsertTrack_other differ (respects differ) title artist now
  | createPlaylist name description hashes =>
    rw [step]
    dsimp only
    cases created : createPlaylist t caller name description hashes newId now with
    | error e => rfl
    | ok result => exact (createPlaylist_spec created).own_other consistent differ
  | deletePlaylist id => exact own_deletePlaylist_other consistent differ id
  | removePlaylistTracks id hashes =>
    exact own_removePlaylistTracks_other consistent differ id hashes
  | createBatch name hashes =>
    rw [step]
    dsimp only
    cases created : createBatch t caller name hashes newId now with
    | error e => rfl
    | ok result =>
      obtain ⟨t', id⟩ := result
      rw [createBatch_spec created, committed]
      refine Tables.eq_of_rows rfl rfl rfl rfl ?_
      have theirs : caller ≠ userId := differ
      simp [own, theirs]

/-- A call of the user does to the own rows what it does to the tables. -/
theorem own_step_self (consistent : Consistent t drawn) {c : Call} (mine : c.user = userId)
    (fresh : c.newId ∉ drawn) (respects : Respects t userId c) :
    own (step t c) userId = step (own t userId) c := by
  obtain ⟨caller, op, newId, now⟩ := c
  obtain rfl : caller = userId := mine
  cases op with
  | upsertTrack hash location title artist =>
    exact own_upsertTrack_self hash location title artist now
  | createPlaylist name description hashes =>
    rw [step, step]
    dsimp only
    rcases respects rfl with all | ⟨h, mem, unknown⟩
    · have unused := consistent.unused fresh
      have known : ∀ h ∈ hashes, (t.tracks h).isSome := by
        intro h mem
        obtain ⟨row, inside, _, same⟩ := all h mem
        exact same ▸ consistent.located row inside
      obtain ⟨t', id, created⟩ :=
        createPlaylist_commits caller name description now (Or.inr unused) known
      rw [(createPlaylist_spec created).own_self consistent all fresh, created]
      rfl
    · have unknown' : (own t caller).tracks h = none := by
        rw [own_tracks, unknown]
        exact ite_self _
      obtain ⟨e, failed⟩ :=
        createPlaylist_fails caller newId name description now ⟨h, mem, unknown⟩
      obtain ⟨e', failed'⟩ :=
        createPlaylist_fails caller newId name description now ⟨h, mem, unknown'⟩
      rw [failed, failed']
      rfl
  | deletePlaylist id => exact own_deletePlaylist_self id
  | removePlaylistTracks id hashes => exact own_removePlaylistTracks_self id hashes
  | createBatch name hashes =>
    have unused : ¬ ∃ b ∈ t.batches, b.id = newId := by
      rintro ⟨b, mem, same⟩
      exact fresh (same ▸ consistent.batchIds b mem)
    have unused' : ¬ ∃ b ∈ (own t caller).batches, b.id = newId := by
      rintro ⟨b, mem, same⟩
      exact unused ⟨b, (List.mem_filter.mp mem).1, same⟩
    rw [step, step]
    dsimp only
    rw [createBatch_commits caller name hashes now unused,
      createBatch_commits caller name hashes now unused', committed, committed]
    refine Tables.eq_of_rows rfl rfl rfl rfl ?_
    simp [own]

theorem consistent_empty : Consistent Tables.empty [] where
  located := fun _ mem => absurd mem List.not_mem_nil
  listed := fun _ mem => absurd mem (Finset.notMem_empty _)
  known := fun _ mem => absurd mem (Finset.notMem_empty _)
  owner := fun _ mem => absurd mem List.not_mem_nil
  playlistIds := fun _ mem => absurd mem List.not_mem_nil
  batchIds := fun _ mem => absurd mem List.not_mem_nil

theorem Consistent.weaken (consistent : Consistent t drawn) (id : Uuid) :
    Consistent t (drawn ++ [id]) where
  located := consistent.located
  listed := consistent.listed
  known := consistent.known
  owner := consistent.owner
  playlistIds := fun p mem => List.mem_append_left _ (consistent.playlistIds p mem)
  batchIds := fun b mem => List.mem_append_left _ (consistent.batchIds b mem)

theorem Consistent.upsertTrack (consistent : Consistent t drawn) (caller : Uuid)
    (hash location : String) (title artist : Option String) (now : Nat) :
    Consistent (upsertTrack t caller hash location title artist now) drawn := by
  have located {h : String} (old : (t.tracks h).isSome ∨ h = hash) :
      ((BVault.Meta.upsertTrack t caller hash location title artist now).tracks h).isSome := by
    rw [tracks_upsertTrack]
    split
    · rfl
    · rename_i differ
      exact old.resolve_right differ
  refine ⟨?_, consistent.listed, fun member mem => located (Or.inl (consistent.known member mem)),
    consistent.owner, consistent.playlistIds, consistent.batchIds⟩
  intro row mem
  have kept := (has_upsertTrack t caller hash location title artist now row.userId row.hash).mp
    ⟨row, mem, rfl, rfl⟩
  rcases kept with ⟨old, inside, _, same⟩ | ⟨_, same⟩
  · exact located (Or.inl (same ▸ consistent.located old inside))
  · exact located (Or.inr same)

theorem Consistent.deletePlaylist (consistent : Consistent t drawn) (caller id : Uuid) :
    Consistent (deletePlaylist t caller id) drawn := by
  refine ⟨consistent.located, ?_, fun member mem => consistent.known member
    (mem_deletePlaylist.mp mem).1, ?_, ?_, consistent.batchIds⟩
  · intro member mem
    obtain ⟨inside, kept⟩ := mem_deletePlaylist.mp mem
    obtain ⟨p, listed, same⟩ := consistent.listed member inside
    refine ⟨p, List.mem_filter.mpr ⟨listed, ?_⟩, same⟩
    rw [decide_eq_true_eq]
    rintro ⟨here, theirs⟩
    exact kept ⟨same.symm.trans here, p, listed, here, theirs⟩
  · intro p hp q hq
    exact consistent.owner p (List.mem_filter.mp hp).1 q (List.mem_filter.mp hq).1
  · intro p hp
    exact consistent.playlistIds p (List.mem_filter.mp hp).1

theorem Consistent.removePlaylistTracks (consistent : Consistent t drawn) (caller id : Uuid)
    (hashes : List String) : Consistent (removePlaylistTracks t caller id hashes) drawn := by
  rw [BVault.Meta.removePlaylistTracks]
  split
  · exact ⟨consistent.located,
      fun member mem => consistent.listed member (Finset.mem_filter.mp mem).1,
      fun member mem => consistent.known member (Finset.mem_filter.mp mem).1, consistent.owner,
      consistent.playlistIds, consistent.batchIds⟩
  · exact consistent

theorem Consistent.step (consistent : Consistent t drawn) (c : Call) :
    Consistent (step t c) (drawn ++ [c.newId]) := by
  obtain ⟨caller, op, newId, now⟩ := c
  have weaker := consistent.weaken newId
  cases op with
  | upsertTrack hash location title artist =>
    exact weaker.upsertTrack caller hash location title artist now
  | createPlaylist name description hashes =>
    rw [BVault.Meta.step]
    dsimp only
    cases created : createPlaylist t caller name description hashes newId now with
    | error e => exact weaker
    | ok result => exact (createPlaylist_spec created).consistent consistent
  | deletePlaylist id => exact weaker.deletePlaylist caller id
  | removePlaylistTracks id hashes => exact weaker.removePlaylistTracks caller id hashes
  | createBatch name hashes =>
    rw [BVault.Meta.step]
    dsimp only
    cases created : createBatch t caller name hashes newId now with
    | error e => exact weaker
    | ok result =>
      obtain ⟨t', id⟩ := result
      rw [createBatch_spec created]
      refine ⟨weaker.located, weaker.listed, weaker.known, weaker.owner, weaker.playlistIds, ?_⟩
      intro b mem
      rcases List.mem_append.mp mem with old | new
      · exact weaker.batchIds b old
      · rw [List.mem_singleton.mp new]
        exact List.mem_append_right _ List.mem_cons_self

end BVault.Meta
