import BVault.Lib.Runs
import BVault.Meta.OwnSteps

/-!
# What other users can change

A run is compared with the run of one user's calls alone. They show the user the
same as long as nobody else moves a hash that the user has, and the user's
playlists hold no hash that only others have brought in. Both conditions are on
the table `tracks`, the one without a user.
-/

namespace BVault.Meta

/-- The tables after a run of calls. -/
def after (calls : List Call) : Tables := Runs.run step Tables.empty calls

/-- The calls of one user. -/
def callsOf (userId : Uuid) (calls : List Call) : List Call :=
  calls.filter (fun c => c.user = userId)

/-- No id is drawn twice. -/
def Fresh (calls : List Call) : Prop := (calls.map Call.newId).Nodup

instance (calls : List Call) : Decidable (Fresh calls) := inferInstanceAs (Decidable (List.Nodup _))

/-- Every call of the run meets its condition, on the tables before it. -/
def Guarded (userId : Uuid) (calls : List Call) : Prop :=
  Runs.EachStep calls (fun pre c => Respects (after pre) userId c)

/-- The user reads what the calls of the user alone would have left. -/
def Isolated (ilike : String → String → Bool) (userId : Uuid) (calls : List Call) : Prop :=
  ∀ q, read ilike (after calls) userId q = read ilike (after (callsOf userId calls)) userId q

section
variable {calls pre : List Call} {c : Call} {userId : Uuid}

theorem after_snoc : after (calls ++ [c]) = step (after calls) c := Runs.run_snoc _ _ _ _

theorem consistent_after (calls : List Call) :
    Consistent (after calls) (calls.map Call.newId) := by
  induction calls using List.reverseRecOn with
  | nil => exact consistent_empty
  | append_singleton calls c ih =>
    rw [after_snoc, List.map_append]
    exact ih.step c

theorem Fresh.eachStep (fresh : Fresh calls) :
    Runs.EachStep calls (fun pre c => c.newId ∉ pre.map Call.newId) := by
  rintro pre c post rfl
  rw [Fresh, List.map_append, List.map_cons, List.nodup_append] at fresh
  intro mem
  exact fresh.2.2 _ mem _ List.mem_cons_self rfl

theorem callsOf_snoc_self (mine : c.user = userId) :
    callsOf userId (pre ++ [c]) = callsOf userId pre ++ [c] := by
  simp [callsOf, List.filter_append, mine]

theorem callsOf_snoc_other (differ : c.user ≠ userId) :
    callsOf userId (pre ++ [c]) = callsOf userId pre := by
  simp [callsOf, List.filter_append, differ]

theorem callsOf_callsOf (userId : Uuid) (calls : List Call) :
    callsOf userId (callsOf userId calls) = callsOf userId calls := by
  rw [callsOf, callsOf, List.filter_filter]
  simp only [Bool.and_self]

/-- A guarded call keeps the own rows those of the user's calls alone. -/
theorem own_after_snoc (same : own (after pre) userId = after (callsOf userId pre))
    (fresh : c.newId ∉ pre.map Call.newId) (respects : Respects (after pre) userId c) :
    own (after (pre ++ [c])) userId = after (callsOf userId (pre ++ [c])) := by
  have consistent := consistent_after pre
  rw [after_snoc]
  by_cases mine : c.user = userId
  · rw [own_step_self consistent mine fresh respects, callsOf_snoc_self mine, after_snoc, same]
  · rw [own_step_other consistent mine respects, callsOf_snoc_other mine, same]

/-- Members of the user's playlists are hashes of the user. -/
theorem closed_of_own (same : own (after pre) userId = after (callsOf userId pre)) :
    Closed (after pre) userId := by
  intro member mem owned
  have inside : member ∈ (after (callsOf userId pre)).playlistTracks :=
    same ▸ mem_own.mpr ⟨mem, owned⟩
  have known := (consistent_after (callsOf userId pre)).known member inside
  rw [← same, own_tracks] at known
  by_contra lacks
  rw [if_neg lacks] at known
  cases known

theorem isolated_of_own (ilike : String → String → Bool)
    (same : own (after pre) userId = after (callsOf userId pre)) : Isolated ilike userId pre := by
  intro q
  rw [← read_own ilike (closed_of_own same) q, same]

/-- An upsert that moves a hash of the user shows in the track's location. -/
theorem moved_seen {ilike : String → String → Bool}
    (same : own (after pre) userId = after (callsOf userId pre)) {hash location : String}
    {title artist : Option String} (op : c.op = .upsertTrack hash location title artist)
    (differ : c.user ≠ userId) (has : Has (after pre) userId hash)
    (isolated : Isolated ilike userId (pre ++ [c])) :
    (after pre).tracks hash = some location := by
  have answer := isolated (.getTrackByHash hash)
  rw [callsOf_snoc_other differ, ← same] at answer
  have track : getTrackByHash (after (pre ++ [c])) userId hash =
      getTrackByHash (after pre) userId hash :=
    (Answer.track.inj answer).trans (getTrackByHash_own hash)
  have stepped : after (pre ++ [c]) =
      upsertTrack (after pre) c.user hash location title artist c.now := by
    rw [after_snoc, step, op]
  have still : Has (after (pre ++ [c])) userId hash := by
    rw [stepped, has_upsertTrack]
    exact Or.inl has
  have moved := location_of_has still
  rw [track, location_of_has has, stepped, tracks_upsertTrack, if_pos rfl] at moved
  exact moved

/-- A playlist with a hash of others shows in its members. -/
theorem foreign_seen {ilike : String → String → Bool}
    (same : own (after pre) userId = after (callsOf userId pre))
    (fresh : c.newId ∉ pre.map Call.newId) {name : String} {description : Option String}
    {hashes : List String} (op : c.op = .createPlaylist name description hashes)
    (mine : c.user = userId) (known : ∀ h ∈ hashes, ((after pre).tracks h).isSome)
    (isolated : Isolated ilike userId (pre ++ [c])) : ∀ h ∈ hashes, Has (after pre) userId h := by
  intro h mem
  by_contra lacks
  subst mine
  have consistent := consistent_after pre
  have unused : ¬ ∃ p ∈ (after pre).playlists, p.id = c.newId := by
    rintro ⟨p, inside, same'⟩
    exact fresh (same' ▸ consistent.playlistIds p inside)
  obtain ⟨t', id, created⟩ :=
    createPlaylist_commits c.user name description c.now (Or.inr unused) known
  have spec := createPlaylist_spec created
  have stepped : after (pre ++ [c]) = t' := by
    rw [after_snoc, step, op]
    dsimp only
    rw [created, committed]
  have unknown : (own (after pre) c.user).tracks h = none := if_neg lacks
  have failed : after (callsOf c.user (pre ++ [c])) = own (after pre) c.user := by
    obtain ⟨e, failed⟩ := createPlaylist_fails c.user c.newId name description c.now
      ⟨h, mem, unknown⟩
    rw [callsOf_snoc_self rfl, after_snoc, ← same, step, op]
    dsimp only
    rw [failed, committed]
  have answer := isolated (.playlistHashes id)
  rw [stepped, failed] at answer
  have members : playlistHashes t' c.user id = playlistHashes (own (after pre) c.user) c.user id :=
    Answer.hashes.inj answer
  have shown : h ∈ playlistHashes t' c.user id := by
    refine Finset.mem_image.mpr ⟨(id, h), Finset.mem_filter.mpr ⟨?_, rfl, spec.owns_id⟩, rfl⟩
    rw [spec.members, Finset.mem_union, List.mem_toFinset]
    exact Or.inr (List.mem_map.mpr ⟨h, mem, rfl⟩)
  rw [members] at shown
  obtain ⟨member, inside, rfl⟩ := Finset.mem_image.mp shown
  have there := (Finset.mem_filter.mp inside).1
  rw [same] at there unknown
  have located := (consistent_after (callsOf c.user pre)).known member there
  rw [unknown] at located
  cases located

/-- A call after which the user reads the same as alone meets its condition. -/
theorem respects_of_isolated {ilike : String → String → Bool}
    (same : own (after pre) userId = after (callsOf userId pre))
    (fresh : c.newId ∉ pre.map Call.newId) (isolated : Isolated ilike userId (pre ++ [c])) :
    Respects (after pre) userId c := by
  rw [Respects]
  split
  · rename_i op
    intro differ has
    exact moved_seen same op differ has isolated
  · rename_i name description hashes op
    intro mine
    by_cases known : ∀ h ∈ hashes, ((after pre).tracks h).isSome
    · exact Or.inl (foreign_seen same fresh op mine known isolated)
    · push Not at known
      obtain ⟨h, mem, unknown⟩ := known
      exact Or.inr ⟨h, mem, by simpa using unknown⟩
  · trivial

/-- A user reads at every point of a run what the user's calls alone would have left, exactly
when every call meets its condition. -/
theorem isolated_iff_guarded (ilike : String → String → Bool) (userId : Uuid)
    (fresh : Fresh calls) :
    (∀ pre post, calls = pre ++ post → Isolated ilike userId pre) ↔ Guarded userId calls :=
  Runs.each_prefix_iff_eachStep (P := fun pre => own (after pre) userId = after (callsOf userId pre))
    fresh.eachStep rfl (fun _ same => isolated_of_own ilike same)
    (fun _ _ same fresh respects => own_after_snoc same fresh respects)
    (fun _ _ same fresh isolated => respects_of_isolated same fresh isolated)

/-- A run of one user's calls meets their conditions, and all rows are the user's own. -/
theorem guarded_alone (fresh : Fresh calls) (alone : ∀ c ∈ calls, c.user = userId) :
    Guarded userId calls ∧ own (after calls) userId = after calls := by
  induction calls using List.reverseRecOn with
  | nil => exact ⟨Runs.eachStep_nil, rfl⟩
  | append_singleton calls c ih =>
    have mine : c.user = userId := alone c (List.mem_append_right _ List.mem_cons_self)
    have before : ∀ c ∈ calls, c.user = userId :=
      fun c mem => alone c (List.mem_append_left _ mem)
    have all : callsOf userId calls = calls :=
      List.filter_eq_self.mpr (fun c mem => decide_eq_true (before c mem))
    have fresh' : Fresh calls := by
      rw [Fresh, List.map_append] at fresh
      exact fresh.of_append_left
    obtain ⟨steps, same⟩ := ih fresh' before
    have respects : Respects (after calls) userId c := by
      rw [Respects]
      split
      · exact fun differ => absurd mine differ
      · rename_i name description hashes op
        intro _
        by_cases each : ∀ h ∈ hashes, Has (after calls) userId h
        · exact Or.inl each
        · push Not at each
          obtain ⟨h, mem, lacks⟩ := each
          refine Or.inr ⟨h, mem, ?_⟩
          rw [← same, own_tracks]
          exact if_neg lacks
      · trivial
    refine ⟨steps.snoc respects, ?_⟩
    have next := own_after_snoc (same.trans (congrArg after all).symm) fresh.eachStep.last respects
    rw [callsOf_snoc_self mine, all] at next
    exact next

theorem guarded_callsOf (userId : Uuid) (fresh : Fresh calls) :
    Fresh (callsOf userId calls) ∧ Guarded userId (callsOf userId calls) := by
  have fresh' : Fresh (callsOf userId calls) := fresh.sublist (List.filter_sublist.map _)
  exact ⟨fresh', (guarded_alone fresh' (fun c mem =>
    of_decide_eq_true (List.mem_filter.mp mem).2)).1⟩

/-- Two runs that agree on a user's calls show the user the same when both are guarded, and a
run agrees with every guarded one only if it is guarded itself. -/
theorem noninterference_iff_guarded (ilike : String → String → Bool) (userId : Uuid)
    (calls : List Call) (fresh : Fresh calls) :
    (∀ others, Fresh others → Guarded userId others → ∀ pre post pre' post',
      calls = pre ++ post → others = pre' ++ post' → callsOf userId pre = callsOf userId pre' →
      ∀ q, read ilike (after pre) userId q = read ilike (after pre') userId q) ↔
    Guarded userId calls := by
  constructor
  · intro agrees
    obtain ⟨freshOwn, guarded⟩ := guarded_callsOf userId fresh
    refine (isolated_iff_guarded ilike userId fresh).mp ?_
    intro pre post split
    exact agrees _ freshOwn guarded pre post (callsOf userId pre) (callsOf userId post) split
      (by rw [split, callsOf, List.filter_append]; rfl) (callsOf_callsOf userId pre).symm
  · intro guarded others freshOthers guardedOthers pre post pre' post' split split' agree q
    have here := (isolated_iff_guarded ilike userId fresh).mpr guarded pre post split q
    have there := (isolated_iff_guarded ilike userId freshOthers).mpr guardedOthers pre' post'
      split' q
    rw [here, there, agree]

end

/-- A user adds a track. -/
def addsTrack : Call := ⟨1, .upsertTrack "a1" "a1/a1.mp3" (some "Song") none, 10, 100⟩

/-- Another user adds the same hash at another location. -/
def movesTrack : Call := ⟨2, .upsertTrack "a1" "b2/b2.mp3" none none, 11, 101⟩

/-- Another user adds the same hash where it is. -/
def keepsTrack : Call := ⟨2, .upsertTrack "a1" "a1/a1.mp3" none none, 11, 101⟩

theorem keepsTrack_guarded : Guarded 1 [addsTrack, keepsTrack] := by
  rw [Guarded, Runs.eachStep_cons, Runs.eachStep_cons]
  refine ⟨fun differ => absurd rfl differ, fun _ _ => ?_, Runs.eachStep_nil⟩
  decide

theorem keepsTrack_unseen : Guarded 1 [addsTrack, keepsTrack] ∧
    ∀ q, read (fun _ _ => true) (after [addsTrack, keepsTrack]) 1 q =
      read (fun _ _ => true) (after [addsTrack]) 1 q :=
  ⟨keepsTrack_guarded,
    (noninterference_iff_guarded (fun _ _ => true) 1 [addsTrack, keepsTrack] (by decide)).mpr
      keepsTrack_guarded [addsTrack] (by decide)
      (Runs.EachStep.initial keepsTrack_guarded)
      _ [] _ [] rfl rfl rfl⟩

/-- Two runs that differ in one call of another user, which changes where the user's track
is read from. -/
theorem movesTrack_interferes :
    Fresh [addsTrack, movesTrack] ∧ Fresh [addsTrack] ∧
      callsOf 1 [addsTrack, movesTrack] = callsOf 1 [addsTrack] ∧
      getTrackByHash (after [addsTrack]) 1 "a1" =
        some ⟨"a1", "a1/a1.mp3", some "Song", none, 100⟩ ∧
      getTrackByHash (after [addsTrack, movesTrack]) 1 "a1" =
        some ⟨"a1", "b2/b2.mp3", some "Song", none, 100⟩ :=
  ⟨by decide, by decide, rfl, by decide, by decide⟩

end BVault.Meta
