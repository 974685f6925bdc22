import BVault.Meta.Transactions

/-!
# Concurrent calls for one name

`create_playlist` selects and then inserts, and no constraint keeps two
playlists of a user from having one name. Rows of the name, committed or still
to be committed by a transaction whose select found none, are counted; the
count never falls, and the calls agree when it ends at one.
-/

namespace BVault.Meta

open Runs

/-- Exactly one playlist of the name, which every call has returned, with its earlier members
and all submitted hashes. -/
structure Settled (user : Uuid) (name : String) (t : Tables) (requests : List Request)
    (s : Session) (id : Uuid) : Prop where
  only : (playlistsNamed s.tables user name).map Playlist.id = [id]
  returned : ∀ tx ∈ s.txs, tx.progress = .returned id
  members : ∀ h, (id, h) ∈ s.tables.playlistTracks ↔
    (id, h) ∈ t.playlistTracks ∨ ∃ request ∈ requests, h ∈ request.hashes

/-- The select of the transaction has found no playlist, and it is still open. -/
def Progress.Creating : Progress → Prop
  | .absent | .named _ (some _) | .filled _ (some _) _ => True
  | _ => False

instance : DecidablePred Progress.Creating := fun progress =>
  match progress with
  | .absent | .named _ (some _) | .filled _ (some _) _ => isTrue trivial
  | .begun | .named _ none | .filled _ none _ | .returned _ | .failed _ => isFalse id

/-- The select of that transaction comes next, and there is no playlist of the name. -/
def Misses (user : Uuid) (name : String) (s : Session) : Nat × Statement → Prop
  | (i, .select none) =>
    s.txs[i]?.map Tx.progress = some .begun ∧ playlistsNamed s.tables user name = []
  | _ => False

/-- A select that finds no playlist runs while no other transaction whose select found none
is open. -/
def CreatesAlone (user : Uuid) (name : String) (s : Session) (l : Nat × Statement) : Prop :=
  Misses user name s l → ∀ tx ∈ s.txs, ¬ tx.progress.Creating

variable {user : Uuid} {name : String}

/-- The playlist that a transaction has named is committed, or its own. -/
def Names (user : Uuid) (name : String) (t : Tables) (id : Uuid) : Option Playlist → Prop
  | none => ∃ p ∈ playlistsNamed t user name, p.id = id
  | some p => p.id = id ∧ p.userId = user ∧ p.name = name

/-- A transaction knows a playlist of the name, and its hashes are members there or will be. -/
def Sound (user : Uuid) (name : String) (t : Tables) (request : Request) : Progress → Prop
  | .begun | .absent => True
  | .named id own => Names user name t id own
  | .filled id own members => Names user name t id own ∧
    (∀ row ∈ members, row ∈ memberRows id request.hashes) ∧
    ∀ row ∈ memberRows id request.hashes, row ∈ members ∨ row ∈ t.playlistTracks
  | .returned id => Names user name t id none ∧
    ∀ row ∈ memberRows id request.hashes, row ∈ t.playlistTracks
  | .failed _ => False

/-- Rows are only added. -/
structure Grows (t t' : Tables) : Prop where
  tracks : t'.tracks = t.tracks
  playlists : t.playlists ⊆ t'.playlists
  playlistTracks : t.playlistTracks ⊆ t'.playlistTracks

theorem Names.grows {t t' : Tables} (grows : Grows t t') {id : Uuid} {own : Option Playlist}
    (names : Names user name t id own) : Names user name t' id own := by
  cases own with
  | none =>
    obtain ⟨p, row, same⟩ := names
    obtain ⟨there, matching⟩ := mem_playlistsNamed.mp row
    exact ⟨p, mem_playlistsNamed.mpr ⟨grows.playlists there, matching⟩, same⟩
  | some p => exact names

theorem Sound.grows {t t' : Tables} (grows : Grows t t') {request : Request}
    {progress : Progress} (sound : Sound user name t request progress) :
    Sound user name t' request progress := by
  cases progress with
  | begun => trivial
  | absent => trivial
  | named id own => exact Names.grows grows sound
  | filled id own members =>
    obtain ⟨names, inside, there⟩ := sound
    exact ⟨names.grows grows, inside, fun row member =>
      (there row member).imp_right (fun row => grows.playlistTracks row)⟩
  | returned id =>
    obtain ⟨names, there⟩ := sound
    exact ⟨names.grows grows, fun row member => grows.playlistTracks (there row member)⟩
  | failed error => exact sound

theorem publish_grows (t : Tables) (own : Option Playlist)
    (members : Finset (Uuid × String)) : Grows t (publish t own members) :=
  ⟨rfl, List.subset_append_left _ _, Finset.subset_union_left⟩

theorem Advance.grows {t tables : Tables} {request : Request} {progress after : Progress}
    (advance : Advance user name t request progress tables after) : Grows t tables := by
  cases advance with
  | committed => exact publish_grows t _ _
  | _ => exact ⟨rfl, List.Subset.refl _, Finset.Subset.refl _⟩

theorem Advance.sound {t tables : Tables} {request : Request} {progress after : Progress}
    (advance : Advance user name t request progress tables after)
    (sound : Sound user name t request progress) : Sound user name tables request after := by
  cases advance with
  | found row => exact ⟨_, row, rfl⟩
  | missed none => trivial
  | inserted owner same => exact ⟨rfl, owner, same⟩
  | filled =>
    refine ⟨sound, fun row member => (Finset.mem_sdiff.mp member).1, fun row member => ?_⟩
    by_cases there : row ∈ t.playlistTracks
    · exact Or.inr there
    · exact Or.inl (Finset.mem_sdiff.mpr ⟨member, there⟩)
  | @committed id own members =>
    obtain ⟨names, inside, there⟩ := sound
    constructor
    · cases own with
      | none => exact names.grows (publish_grows t none members)
      | some p =>
        obtain ⟨same, matching⟩ := names
        exact ⟨p, mem_playlistsNamed.mpr ⟨by simp [publish], matching⟩, same⟩
    · intro row member
      exact Finset.mem_union.mpr (there row member).symm

/-- A new member comes from a call that has returned its playlist. -/
theorem Advance.member {t tables : Tables} {request : Request} {progress after : Progress}
    (advance : Advance user name t request progress tables after)
    (sound : Sound user name t request progress) {row : Uuid × String}
    (member : row ∈ tables.playlistTracks) :
    row ∈ t.playlistTracks ∨ after = .returned row.1 ∧ row.2 ∈ request.hashes := by
  cases advance with
  | @committed id own members =>
    rcases Finset.mem_union.mp member with old | new
    · exact Or.inl old
    · obtain ⟨_, inside, _⟩ := sound
      obtain ⟨same, submitted⟩ := mem_memberRows.mp (inside row new)
      exact Or.inr ⟨by rw [same], submitted⟩
  | _ => exact Or.inl member

/-- What holds in every state of the calls. -/
structure Kept (user : Uuid) (name : String) (t : Tables) (requests : List Request)
    (s : Session) : Prop where
  requests : s.txs.map Tx.request = requests
  grown : Grows t s.tables
  sound : ∀ tx ∈ s.txs, Sound user name s.tables tx.request tx.progress
  origin : ∀ row ∈ s.tables.playlistTracks, row ∈ t.playlistTracks ∨
    ∃ tx ∈ s.txs, tx.progress = .returned row.1 ∧ row.2 ∈ tx.request.hashes

theorem Grows.trans {t t' t'' : Tables} (first : Grows t t') (second : Grows t' t'') :
    Grows t t'' :=
  ⟨second.tracks.trans first.tracks, List.Subset.trans first.playlists second.playlists,
    Finset.Subset.trans first.playlistTracks second.playlistTracks⟩

theorem kept_opened (t : Tables) (requests : List Request) :
    Kept user name t requests (opened t requests) := by
  constructor
  · simp [opened, Function.comp_def]
  · exact ⟨rfl, List.Subset.refl _, Finset.Subset.refl _⟩
  · intro tx member
    obtain ⟨request, _, rfl⟩ := List.mem_map.mp member
    trivial
  · intro row member
    exact Or.inl member

theorem Kept.existing {t : Tables} {requests : List Request} {s : Session}
    (kept : Kept user name t requests s) (exist : Existing t requests) :
    Existing s.tables (s.txs.map Tx.request) := by
  intro request member h submitted
  rw [kept.requests] at member
  rw [kept.grown.tracks]
  exact exist request member h submitted

theorem Kept.step {t : Tables} {requests : List Request} {s : Session}
    (kept : Kept user name t requests s) (exist : Existing t requests) {l : Nat × Statement}
    (fresh : FreshDraw s l) : Kept user name t requests (stepTx user name s l) := by
  rcases stepTx_advances (kept.existing exist) fresh with
    same | ⟨pre, tx, post, tables, progress, split, _, _, advance, result⟩
  · rw [same]
    exact kept
  · have member : tx ∈ s.txs := by simp [split]
    have others : ∀ other ∈ pre ++ post, other ∈ s.txs := by
      intro other there
      rw [split]
      rcases List.mem_append.mp there with before | after
      · exact List.mem_append_left _ before
      · exact List.mem_append_right _ (List.mem_cons_of_mem _ after)
    have this := advance.sound (kept.sound tx member)
    rw [result]
    constructor
    · have := kept.requests
      rw [split] at this
      simpa using this
    · exact kept.grown.trans advance.grows
    · exact forall_mem_insert (fun other there =>
        (kept.sound other (others other there)).grows advance.grows) this
    · intro row there
      rcases advance.member (kept.sound tx member) there with old | ⟨stands, submitted⟩
      · rcases kept.origin row old with earlier | ⟨other, present, stands, submitted⟩
        · exact Or.inl earlier
        · refine Or.inr ⟨other, ?_, stands, submitted⟩
          -- A transaction that has returned is not the one that advances.
          have apart : other ≠ tx := by
            rintro rfl
            rw [stands] at advance
            cases advance
          rw [split] at present
          rcases List.mem_append.mp present with before | here
          · exact List.mem_append_left _ before
          · have after := (List.mem_cons.mp here).resolve_left apart
            exact List.mem_append_right _ (List.mem_cons_of_mem _ after)
      · exact Or.inr ⟨{ tx with progress }, by simp, stands, submitted⟩

/-- The playlists of the name, committed and to be committed. -/
def rowsNamed (user : Uuid) (name : String) (s : Session) : Nat :=
  (playlistsNamed s.tables user name).length + s.txs.countP (fun tx => tx.progress.Creating)

theorem playlistsNamed_publish (t : Tables) (own : Option Playlist)
    (members : Finset (Uuid × String)) :
    playlistsNamed (publish t own members) user name =
      playlistsNamed t user name ++
        own.toList.filter (fun p => p.userId = user ∧ p.name = name) := by
  simp [playlistsNamed, publish]

/-- The select of the transaction has found no playlist. -/
def Missed (progress after : Progress) : Prop := progress = .begun ∧ after = .absent

instance (progress after : Progress) : Decidable (Missed progress after) :=
  inferInstanceAs (Decidable (_ ∧ _))

theorem Advance.rows {t tables : Tables} {request : Request} {progress after : Progress}
    (advance : Advance user name t request progress tables after)
    (sound : Sound user name t request progress) :
    (playlistsNamed tables user name).length + (if after.Creating then 1 else 0) =
      (playlistsNamed t user name).length + (if progress.Creating then 1 else 0) +
        (if Missed progress after then 1 else 0) := by
  cases advance with
  | found row => simp [Progress.Creating, Missed]
  | missed none => simp [Progress.Creating, Missed]
  | inserted owner same => simp [Progress.Creating, Missed]
  | @filled id own => cases own <;> simp [Progress.Creating, Missed]
  | @committed id own members =>
    rw [playlistsNamed_publish]
    cases own with
    | none => simp [Progress.Creating, Missed]
    | some p =>
      obtain ⟨⟨_, owner, same⟩, _⟩ := sound
      simp [Progress.Creating, Missed, owner, same]

theorem select_of_missed {s : Session} {request : Request} {progress after : Progress}
    {statement : Statement} {tables : Tables}
    (left : next user name s request progress statement = some (tables, after))
    (missed : Missed progress after) :
    statement = .select none ∧ playlistsNamed s.tables user name = [] := by
  obtain ⟨rfl, rfl⟩ := missed
  revert left
  fun_cases next user name s request .begun statement with
  | case2 picked => exact fun _ => ⟨rfl, picked⟩
  | _ =>
    intro left
    cases left

theorem Misses.none {s : Session} {l : Nat × Statement} (misses : Misses user name s l) :
    playlistsNamed s.tables user name = [] := by
  obtain ⟨i, statement⟩ := l
  match statement with
  | .select .none => exact misses.2

/-- A select that finds no playlist adds one to come. -/
theorem rows_of_misses {s : Session} {l : Nat × Statement} (misses : Misses user name s l) :
    rowsNamed user name (stepTx user name s l) = rowsNamed user name s + 1 := by
  obtain ⟨t, txs⟩ := s
  obtain ⟨i, statement⟩ := l
  match statement with
  | .select none =>
    obtain ⟨begun, none⟩ := misses
    obtain ⟨⟨request, progress⟩, there, rfl⟩ := Option.map_eq_some_iff.mp begun
    obtain ⟨pre, post, split, rfl⟩ := split_at there
    obtain rfl : txs = _ := split
    have taken : stepTx user name ⟨t, pre ++ ⟨request, .begun⟩ :: post⟩
        (pre.length, .select .none) = ⟨t, pre ++ ⟨request, .absent⟩ :: post⟩ :=
      stepTx_takes (if_pos none)
    have before : ¬ Progress.begun.Creating := id
    have after : Progress.absent.Creating := trivial
    rw [taken]
    simp [rowsNamed, before, after]
    omega

/-- No other statement changes their number. -/
theorem Kept.rows_of_not_misses {t : Tables} {requests : List Request} {s : Session}
    (kept : Kept user name t requests s) (exist : Existing t requests) {l : Nat × Statement}
    (fresh : FreshDraw s l) (others : ¬ Misses user name s l) :
    rowsNamed user name (stepTx user name s l) = rowsNamed user name s := by
  rcases stepTx_advances (kept.existing exist) fresh with
    same | ⟨pre, tx, post, tables, progress, split, at_, left, advance, result⟩
  · rw [same]
  · have stays : ¬ Missed tx.progress progress := by
      intro missed
      obtain ⟨select, none⟩ := select_of_missed left missed
      obtain ⟨i, statement⟩ := l
      obtain rfl : statement = _ := select
      apply others
      refine ⟨?_, none⟩
      obtain rfl : pre.length = i := at_
      have here : s.txs[pre.length]? = some tx := by simp [split]
      rw [here, Option.map_some, missed.1]
    have count := advance.rows (kept.sound tx (by simp [split]))
    rw [if_neg stays] at count
    rw [result]
    simp only [rowsNamed, split, List.countP_append, List.countP_cons, decide_eq_true_eq]
    omega

theorem Kept.rows_le {t : Tables} {requests : List Request} {s : Session}
    (kept : Kept user name t requests s) (exist : Existing t requests) {l : Nat × Statement}
    (fresh : FreshDraw s l) :
    rowsNamed user name s ≤ rowsNamed user name (stepTx user name s l) := by
  by_cases misses : Misses user name s l
  · rw [rows_of_misses misses]
    omega
  · rw [kept.rows_of_not_misses exist fresh misses]

/-- Every id that the run draws is new. -/
def FreshDraws (user : Uuid) (name : String) (s : Session) (ls : List (Nat × Statement)) : Prop :=
  EachStep ls (fun pre => FreshDraw (run (stepTx user name) s pre))

theorem Kept.run {t : Tables} {requests : List Request} {s : Session}
    (kept : Kept user name t requests s) (exist : Existing t requests)
    {ls : List (Nat × Statement)} (fresh : FreshDraws user name s ls) :
    Kept user name t requests (run (stepTx user name) s ls) := by
  refine history_induction (P := fun pre => Kept user name t requests
    (Runs.run (stepTx user name) s pre)) ls fresh kept (fun pre l kept fresh => ?_)
  rw [run_snoc]
  exact kept.step exist fresh

/-- Along a run the rows of the name only become more. -/
theorem Kept.rows_le_run {t : Tables} {requests : List Request} {s : Session}
    (kept : Kept user name t requests s) (exist : Existing t requests)
    {ls : List (Nat × Statement)} (fresh : FreshDraws user name s ls) :
    rowsNamed user name s ≤ rowsNamed user name (Runs.run (stepTx user name) s ls) := by
  induction ls generalizing s with
  | nil => exact Nat.le_refl _
  | cons l ls ih =>
    obtain ⟨first, rest⟩ := eachStep_cons.mp fresh
    exact Nat.le_trans (kept.rows_le exist first) (ih (kept.step exist first) rest)

theorem nobody_creates_iff {txs : List Tx} :
    txs.countP (fun tx => tx.progress.Creating) = 0 ↔ ∀ tx ∈ txs, ¬ tx.progress.Creating := by
  simp [List.countP_eq_zero]

theorem Progress.Ended.not_creating {progress : Progress} (ended : progress.Ended) :
    ¬ progress.Creating := by
  cases progress with
  | returned playlist => exact id
  | failed error => exact id
  | _ => exact ended.elim

theorem rows_opened (t : Tables) (requests : List Request) :
    rowsNamed user name (opened t requests) = (playlistsNamed t user name).length := by
  have none : (opened t requests).txs.countP (fun tx => tx.progress.Creating) = 0 := by
    apply nobody_creates_iff.mpr
    intro tx member
    obtain ⟨request, _, rfl⟩ := List.mem_map.mp member
    exact id
  rw [rowsNamed, none]
  rfl

/-- With every creating select alone, there is at most one row of the name. -/
theorem rows_le_one {t : Tables} {requests : List Request} (exist : Existing t requests)
    (one : (playlistsNamed t user name).length ≤ 1) {ls : List (Nat × Statement)}
    (fresh : FreshDraws user name (opened t requests) ls)
    (alone : EachStep ls (fun pre =>
      CreatesAlone user name (run (stepTx user name) (opened t requests) pre))) :
    rowsNamed user name (run (stepTx user name) (opened t requests) ls) ≤ 1 := by
  have both : EachStep ls (fun pre l =>
      FreshDraws user name (opened t requests) pre ∧
      FreshDraw (run (stepTx user name) (opened t requests) pre) l ∧
      CreatesAlone user name (run (stepTx user name) (opened t requests) pre) l) := by
    rintro pre l post rfl
    exact ⟨EachStep.initial fresh, fresh pre l post rfl, alone pre l post rfl⟩
  refine history_induction (P := fun pre =>
    rowsNamed user name (run (stepTx user name) (opened t requests) pre) ≤ 1) ls both
    (by simpa [rows_opened] using one) (fun pre l before guards => ?_)
  obtain ⟨earlier, draw, guard⟩ := guards
  have kept := (kept_opened t requests).run exist earlier
  rw [run_snoc]
  by_cases misses : Misses user name (run (stepTx user name) (opened t requests) pre) l
  · have nobody : (run (stepTx user name) (opened t requests) pre).txs.countP
        (fun tx => tx.progress.Creating) = 0 :=
      nobody_creates_iff.mpr (guard misses)
    rw [rows_of_misses misses, rowsNamed, nobody, misses.none]
    simp
  · rw [kept.rows_of_not_misses exist draw misses]
    exact before

/-- With everything ended, the rows of the name are those committed. -/
theorem rows_ended {s : Session} (ended : s.Ended) :
    rowsNamed user name s = (playlistsNamed s.tables user name).length := by
  have none : s.txs.countP (fun tx => tx.progress.Creating) = 0 :=
    nobody_creates_iff.mpr (fun tx member => (ended tx member).not_creating)
  rw [rowsNamed, none]
  rfl

theorem Kept.returned {t : Tables} {requests : List Request} {s : Session}
    (kept : Kept user name t requests s) (ended : s.Ended) {tx : Tx} (member : tx ∈ s.txs) :
    ∃ p ∈ playlistsNamed s.tables user name, tx.progress = .returned p.id ∧
      ∀ row ∈ memberRows p.id tx.request.hashes, row ∈ s.tables.playlistTracks := by
  have done := ended tx member
  have sound := kept.sound tx member
  cases stands : tx.progress with
  | returned id =>
    rw [stands] at sound
    obtain ⟨⟨p, row, rfl⟩, there⟩ := sound
    exact ⟨p, row, rfl, there⟩
  | failed error =>
    rw [stands] at sound
    exact sound.elim
  | _ =>
    rw [stands] at done
    exact done.elim

/-- One row of the name at the end is the playlist that all the calls have returned and
filled. -/
theorem Kept.settled {t : Tables} {requests : List Request} {s : Session}
    (kept : Kept user name t requests s) (ended : s.Ended) {p : Playlist}
    (only : playlistsNamed s.tables user name = [p]) : Settled user name t requests s p.id := by
  have returned : ∀ tx ∈ s.txs, tx.progress = .returned p.id := by
    intro tx member
    obtain ⟨q, row, stands, _⟩ := kept.returned ended member
    rw [only, List.mem_singleton] at row
    rw [stands, row]
  refine ⟨by simp [only], returned, fun h => ⟨fun member => ?_, ?_⟩⟩
  · rcases kept.origin _ member with earlier | ⟨tx, there, _, submitted⟩
    · exact Or.inl earlier
    · refine Or.inr ⟨tx.request, ?_, submitted⟩
      rw [← kept.requests]
      exact List.mem_map_of_mem there
  · rintro (earlier | ⟨request, asked, submitted⟩)
    · exact kept.grown.playlistTracks earlier
    · rw [← kept.requests] at asked
      obtain ⟨tx, there, rfl⟩ := List.mem_map.mp asked
      obtain ⟨q, row, _, members⟩ := kept.returned ended there
      rw [only, List.mem_singleton] at row
      subst row
      exact members _ (mem_memberRows.mpr ⟨rfl, submitted⟩)

/-- The calls settle on one playlist in exactly the runs where each select that finds none is
alone in that. -/
theorem settled_iff_creates_alone {t : Tables} {requests : List Request}
    {ls : List (Nat × Statement)} (calls : requests ≠ []) (exist : Existing t requests)
    (one : (playlistsNamed t user name).length ≤ 1)
    (fresh : FreshDraws user name (opened t requests) ls)
    (ended : (run (stepTx user name) (opened t requests) ls).Ended) :
    (∃ id, Settled user name t requests (run (stepTx user name) (opened t requests) ls) id) ↔
      EachStep ls (fun pre =>
        CreatesAlone user name (run (stepTx user name) (opened t requests) pre)) := by
  have kept := (kept_opened t requests).run exist fresh
  constructor
  · rintro ⟨id, settled⟩ pre l post rfl misses
    have last : rowsNamed user name (run (stepTx user name) (opened t requests)
        (pre ++ l :: post)) = 1 := by
      rw [rows_ended ended]
      simpa using congrArg List.length settled.only
    have before := (kept_opened t requests).run exist (EachStep.initial fresh)
    have rest : FreshDraws user name
        (stepTx user name (run (stepTx user name) (opened t requests) pre) l) post := by
      rintro mid m after rfl
      have draw := fresh (pre ++ l :: mid) m after (by simp)
      simpa only [run_append, run_cons] using draw
    have more := (before.step exist (fresh pre l post rfl)).rows_le_run exist rest
    rw [rows_of_misses misses, ← run_cons, ← run_append, last] at more
    have nobody : (run (stepTx user name) (opened t requests) pre).txs.countP
        (fun tx => tx.progress.Creating) = 0 := by
      rw [rowsNamed] at more
      omega
    exact nobody_creates_iff.mp nobody
  · intro alone
    have most := rows_le_one exist one fresh alone
    rw [rows_ended ended] at most
    obtain ⟨request, asked⟩ := List.exists_mem_of_ne_nil requests calls
    rw [← kept.requests] at asked
    obtain ⟨tx, there, _⟩ := List.mem_map.mp asked
    obtain ⟨p, row, _⟩ := kept.returned ended there
    obtain ⟨q, only⟩ := List.length_eq_one_iff.mp
      (Nat.le_antisymm most (List.length_pos_of_mem row))
    exact ⟨q.id, kept.settled ended only⟩

instance (s : Session) : DecidablePred (Misses user name s) := fun l =>
  match l with
  | (_, .select none) => inferInstanceAs (Decidable (_ ∧ _))
  | (_, .select (some _)) | (_, .insertPlaylist _ _) | (_, .insertTracks) | (_, .commit) =>
    isFalse id

instance (s : Session) (l : Nat × Statement) : Decidable (CreatesAlone user name s l) :=
  inferInstanceAs (Decidable (Misses user name s l → _))

instance (s : Session) : DecidablePred (FreshDraw s) := fun l =>
  match l with
  | (_, .insertPlaylist newId _) =>
    inferInstanceAs (Decidable (∀ p ∈ s.tables.playlists, p.id ≠ newId))
  | (_, .select _) | (_, .insertTracks) | (_, .commit) => isTrue trivial

instance (s : Session) : Decidable s.Ended :=
  inferInstanceAs (Decidable (∀ tx ∈ s.txs, tx.progress.Ended))

/-- Two tracks and no playlist. -/
def twoTracks : Tables :=
  { Tables.empty with
    tracks := fun h => if h = "a" ∨ h = "b" then some h else none }

def twoRequests : List Request := [⟨none, ["a"]⟩, ⟨none, ["b", "a"]⟩]

instance (t : Tables) (requests : List Request) : Decidable (Existing t requests) :=
  inferInstanceAs (Decidable (∀ request ∈ requests, _))

theorem twoRequests_existing : Existing twoTracks twoRequests := by decide

theorem settled_in_turn : ∃ id, Settled 1 "set" twoTracks twoRequests
    (run (stepTx 1 "set") (opened twoTracks twoRequests)
      [(0, .select none), (0, .insertPlaylist 7 0), (0, .insertTracks), (0, .commit),
        (1, .select (some 7)), (1, .insertTracks), (1, .commit)]) id := by
  apply (settled_iff_creates_alone (by decide) twoRequests_existing (by decide) ?_
    (by decide)).mpr
  · simp only [eachStep_cons, eachStep_nil, and_true]
    decide
  · simp only [FreshDraws, eachStep_cons, eachStep_nil, and_true]
    decide

/-- Both selects run before either commit. -/
theorem two_playlists_of_one_name :
    ¬ ∀ (user : Uuid) (name : String) (t : Tables) (requests : List Request)
        (ls : List (Nat × Statement)),
      requests ≠ [] → Existing t requests → (playlistsNamed t user name).length ≤ 1 →
      FreshDraws user name (opened t requests) ls →
      (run (stepTx user name) (opened t requests) ls).Ended →
      ∃ id, Settled user name t requests (run (stepTx user name) (opened t requests) ls) id := by
  intro settles
  obtain ⟨id, settled⟩ := settles 1 "set" twoTracks twoRequests
    [(0, .select none), (1, .select none), (0, .insertPlaylist 7 0), (1, .insertPlaylist 8 0),
      (0, .insertTracks), (1, .insertTracks), (0, .commit), (1, .commit)]
    (by decide) twoRequests_existing (by decide)
    (by
      simp only [FreshDraws, eachStep_cons, eachStep_nil, and_true]
      decide)
    (by decide)
  have two : 2 = 1 := congrArg List.length settled.only
  omega

end BVault.Meta
