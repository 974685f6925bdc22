import BVault.Lib.Runs
import BVault.Meta.Model
import Mathlib.Algebra.Ring.Nat
import Mathlib.Data.Fintype.EquivFin

/-!
# Open transactions of `create_playlist`

Calls of one user for one name, interleaved statement by statement under READ
COMMITTED. A statement sees the committed rows and its own transaction's, and
takes effect at once; while another open transaction has inserted a row of the
same key it waits. What a transaction has inserted stands with its progress
until the commit, and is dropped when a statement fails.
-/

namespace BVault.Meta

open Runs

/-- What a call gives beside the user and the name. -/
structure Request where
  description : Option String
  hashes : List String
  deriving DecidableEq

/-- Where a transaction stands, with the rows it has inserted. -/
inductive Progress where
  | begun
  /-- The select has found no playlist. -/
  | absent
  | named (id : Uuid) (own : Option Playlist)
  | filled (id : Uuid) (own : Option Playlist) (members : Finset (Uuid × String))
  | returned (id : Uuid)
  | failed (error : DbError)
  deriving DecidableEq

def Progress.own : Progress → Option Playlist
  | .named _ own | .filled _ own _ => own
  | _ => none

def Progress.members : Progress → Finset (Uuid × String)
  | .filled _ _ members => members
  | _ => ∅

/-- The transaction has been committed or rolled back. -/
def Progress.Ended : Progress → Prop
  | .returned _ | .failed _ => True
  | _ => False

instance : DecidablePred Progress.Ended := fun progress =>
  match progress with
  | .returned _ | .failed _ => isTrue trivial
  | .begun | .absent | .named _ _ | .filled _ _ _ => isFalse id

structure Tx where
  request : Request
  progress : Progress
  deriving DecidableEq

/-- The committed tables and the transactions over them. -/
structure Session where
  tables : Tables
  txs : List Tx

def opened (t : Tables) (requests : List Request) : Session :=
  ⟨t, requests.map (fun request => ⟨request, .begun⟩)⟩

def Session.Ended (s : Session) : Prop := ∀ tx ∈ s.txs, tx.progress.Ended

/-- The statements of the transaction, with the database's answers: the row that `limit 1`
picks, the id that `gen_random_uuid()` draws, the transaction's `now()`. -/
inductive Statement where
  | select (answer : Option Uuid)
  | insertPlaylist (newId : Uuid) (now : Nat)
  | insertTracks
  | commit

/-- A user's playlists of the name. -/
def playlistsNamed (t : Tables) (user : Uuid) (name : String) : List Playlist :=
  t.playlists.filter (fun p => p.userId = user ∧ p.name = name)

/-- What `limit 1` may pick; nothing orders the rows. -/
def Picks (rows : List Playlist) : Option Uuid → Prop
  | none => rows = []
  | some id => ∃ p ∈ rows, p.id = id

instance (rows : List Playlist) : DecidablePred (Picks rows) := fun answer =>
  match answer with
  | none => inferInstanceAs (Decidable (rows = []))
  | some _ => inferInstanceAs (Decidable (∃ p ∈ rows, _))

def memberRows (id : Uuid) (hashes : List String) : Finset (Uuid × String) :=
  (hashes.map (fun h => (id, h))).toFinset

/-- The tables with the rows of a transaction. -/
def publish (t : Tables) (own : Option Playlist) (members : Finset (Uuid × String)) : Tables :=
  { t with
    playlists := t.playlists ++ own.toList
    playlistTracks := t.playlistTracks ∪ members }

/-- What a transaction's statement leaves; nothing if it waits, or is not the next one. -/
def next (user : Uuid) (name : String) (s : Session) (request : Request) :
    Progress → Statement → Option (Tables × Progress)
  | .begun, .select answer =>
    if Picks (playlistsNamed s.tables user name) answer then
      match answer with
      | some existing => some (s.tables, .named existing none)
      | none => some (s.tables, .absent)
    else none
  | .absent, .insertPlaylist newId now =>
    if ∃ tx ∈ s.txs, ∃ p ∈ tx.progress.own, p.id = newId then none
    else if ∃ p ∈ s.tables.playlists, p.id = newId then
      some (s.tables, .failed .uniqueViolation)
    else
      some (s.tables,
        .named newId (some ⟨newId, name, request.description, now, now, user⟩))
  | .named id own, .insertTracks =>
    if ∃ tx ∈ s.txs, ∃ row ∈ memberRows id request.hashes, row ∈ tx.progress.members then none
    else if ∀ h ∈ request.hashes, (s.tables.tracks h).isSome then
      -- `on conflict do nothing`: the rows that are there already are not inserted again.
      some (s.tables,
        .filled id own (memberRows id request.hashes \ s.tables.playlistTracks))
    else some (s.tables, .failed .foreignKeyViolation)
  | .filled id own members, .commit => some (publish s.tables own members, .returned id)
  | _, _ => none

/-- A statement of the transaction of that number. -/
def stepTx (user : Uuid) (name : String) (s : Session) (l : Nat × Statement) : Session :=
  match s.txs[l.1]? with
  | none => s
  | some tx =>
    match next user name s tx.request tx.progress l.2 with
    | none => s
    | some (tables, progress) => ⟨tables, s.txs.set l.1 { tx with progress }⟩

variable {user : Uuid} {name : String}

@[simp] theorem mem_memberRows {id : Uuid} {hashes : List String} {row : Uuid × String} :
    row ∈ memberRows id hashes ↔ row.1 = id ∧ row.2 ∈ hashes := by
  simp only [memberRows, List.mem_toFinset, List.mem_map]
  constructor
  · rintro ⟨h, member, rfl⟩
    exact ⟨rfl, member⟩
  · rintro ⟨rfl, member⟩
    exact ⟨row.2, member, rfl⟩

@[simp] theorem mem_playlistsNamed {t : Tables} {p : Playlist} :
    p ∈ playlistsNamed t user name ↔ p ∈ t.playlists ∧ p.userId = user ∧ p.name = name := by
  simp [playlistsNamed]

theorem split_at {txs : List Tx} {i : Nat} {tx : Tx} (there : txs[i]? = some tx) :
    ∃ pre post, txs = pre ++ tx :: post ∧ pre.length = i := by
  obtain ⟨bound, rfl⟩ := List.getElem?_eq_some_iff.mp there
  refine ⟨txs.take i, txs.drop (i + 1), ?_, List.length_take_of_le bound.le⟩
  rw [List.getElem_cons_drop, List.take_append_drop]

/-- A statement changes one transaction, or nothing. -/
theorem stepTx_cases (s : Session) (l : Nat × Statement) :
    stepTx user name s l = s ∨ ∃ pre tx post tables progress,
      s.txs = pre ++ tx :: post ∧ pre.length = l.1 ∧
      next user name s tx.request tx.progress l.2 = some (tables, progress) ∧
      stepTx user name s l = ⟨tables, pre ++ { tx with progress } :: post⟩ := by
  cases at_ : s.txs[l.1]? with
  | none => exact Or.inl (by simp [stepTx, at_])
  | some tx =>
    cases left : next user name s tx.request tx.progress l.2 with
    | none => exact Or.inl (by simp [stepTx, at_, left])
    | some result =>
      obtain ⟨tables, progress⟩ := result
      obtain ⟨pre, post, split, length⟩ := split_at at_
      refine Or.inr ⟨pre, tx, post, tables, progress, split, length, left, ?_⟩
      simp [stepTx, left, split, ← length]

/-- The hashes of every request are those of tracks. -/
def Existing (t : Tables) (requests : List Request) : Prop :=
  ∀ request ∈ requests, ∀ h ∈ request.hashes, (t.tracks h).isSome

/-- A drawn id is one that no committed playlist has. -/
def FreshDraw (s : Session) : Nat × Statement → Prop
  | (_, .insertPlaylist newId _) => ∀ p ∈ s.tables.playlists, p.id ≠ newId
  | _ => True

/-- What the statements of a transaction do that do not fail. -/
inductive Advance (user : Uuid) (name : String) (t : Tables) (request : Request) :
    Progress → Tables → Progress → Prop where
  | found {p : Playlist} (row : p ∈ playlistsNamed t user name) :
    Advance user name t request .begun t (.named p.id none)
  | missed (none : playlistsNamed t user name = []) :
    Advance user name t request .begun t .absent
  | inserted {p : Playlist} (owner : p.userId = user) (same : p.name = name) :
    Advance user name t request .absent t (.named p.id (some p))
  | filled {id : Uuid} {own : Option Playlist} :
    Advance user name t request (.named id own) t
      (.filled id own (memberRows id request.hashes \ t.playlistTracks))
  | committed {id : Uuid} {own : Option Playlist} {members : Finset (Uuid × String)} :
    Advance user name t request (.filled id own members) (publish t own members)
      (.returned id)

theorem advance_of_next {s : Session} {request : Request} {progress after : Progress}
    {i : Nat} {statement : Statement} {tables : Tables}
    (exist : ∀ h ∈ request.hashes, (s.tables.tracks h).isSome)
    (fresh : FreshDraw s (i, statement))
    (left : next user name s request progress statement = some (tables, after)) :
    Advance user name s.tables request progress tables after := by
  revert left
  fun_cases next user name s request progress statement with
  | case1 existing picked =>
    rintro ⟨⟩
    obtain ⟨p, row, rfl⟩ := picked
    exact .found row
  | case2 picked =>
    rintro ⟨⟩
    exact .missed picked
  | case5 newId now waits taken =>
    obtain ⟨p, row, same⟩ := taken
    exact absurd same (fresh p row)
  | case6 newId now waits free =>
    rintro ⟨⟩
    exact .inserted (p := ⟨newId, name, request.description, now, now, user⟩) rfl rfl
  | case8 id own waits known =>
    rintro ⟨⟩
    exact .filled
  | case9 id own waits missing => exact absurd exist missing
  | case10 id own members =>
    rintro ⟨⟩
    exact .committed
  | _ => nofun

/-- A step that does not fail, as the one transaction that it advances. -/
theorem stepTx_advances {s : Session} {l : Nat × Statement}
    (exist : Existing s.tables (s.txs.map Tx.request)) (fresh : FreshDraw s l) :
    stepTx user name s l = s ∨ ∃ pre tx post tables progress,
      s.txs = pre ++ tx :: post ∧ pre.length = l.1 ∧
      next user name s tx.request tx.progress l.2 = some (tables, progress) ∧
      Advance user name s.tables tx.request tx.progress tables progress ∧
      stepTx user name s l = ⟨tables, pre ++ { tx with progress } :: post⟩ := by
  rcases stepTx_cases s l with same | ⟨pre, tx, post, tables, progress, split, at_, left, result⟩
  · exact Or.inl same
  · have member : tx.request ∈ s.txs.map Tx.request := by
      apply List.mem_map_of_mem
      simp [split]
    exact Or.inr ⟨pre, tx, post, tables, progress, split, at_, left,
      advance_of_next (exist _ member) fresh left, result⟩

/-- The statements that a transaction has before it. -/
def Progress.ahead : Progress → Nat
  | .begun => 4
  | .absent => 3
  | .named _ _ => 2
  | .filled _ _ _ => 1
  | .returned _ | .failed _ => 0

def Session.ahead (s : Session) : Nat := (s.txs.map (fun tx => tx.progress.ahead)).sum

theorem next_ahead {s : Session} {request : Request} {progress after : Progress}
    {statement : Statement} {tables : Tables}
    (left : next user name s request progress statement = some (tables, after)) :
    after.ahead < progress.ahead := by
  revert left
  fun_cases next user name s request progress statement <;> rintro ⟨⟩ <;> simp [Progress.ahead]

theorem stepTx_ahead {s : Session} {pre post : List Tx} {tx : Tx} {statement : Statement}
    {result : Tables × Progress} (split : s.txs = pre ++ tx :: post)
    (left : next user name s tx.request tx.progress statement = some result) :
    (stepTx user name s (pre.length, statement)).ahead < s.ahead := by
  obtain ⟨t, txs⟩ := s
  obtain ⟨tables, after⟩ := result
  obtain rfl : txs = pre ++ tx :: post := split
  have lower := next_ahead left
  have taken : stepTx user name ⟨t, pre ++ tx :: post⟩ (pre.length, statement) =
      ⟨tables, pre ++ { tx with progress := after } :: post⟩ := by
    simp [stepTx, left]
  rw [taken]
  simp only [Session.ahead, List.map_append, List.map_cons, List.sum_append, List.sum_cons]
  omega

/-- Some row or none is what the select may answer. -/
theorem exists_picks (rows : List Playlist) : ∃ answer, Picks rows answer := by
  cases rows with
  | nil => exact ⟨none, rfl⟩
  | cons p rest => exact ⟨some p.id, p, List.mem_cons_self, rfl⟩

theorem next_select {s : Session} {request : Request} {answer : Option Uuid}
    (picks : Picks (playlistsNamed s.tables user name) answer) :
    ∃ result, next user name s request .begun (.select answer) = some result := by
  cases answer with
  | none => exact ⟨_, if_pos picks⟩
  | some existing => exact ⟨_, if_pos picks⟩

theorem next_insertPlaylist {s : Session} {request : Request} {newId : Uuid} {now : Nat}
    (free : ¬ ∃ tx ∈ s.txs, ∃ p ∈ tx.progress.own, p.id = newId) :
    ∃ result, next user name s request .absent (.insertPlaylist newId now) = some result := by
  by_cases taken : ∃ p ∈ s.tables.playlists, p.id = newId
  · exact ⟨_, (if_neg free).trans (if_pos taken)⟩
  · exact ⟨_, (if_neg free).trans (if_neg taken)⟩

theorem next_insertTracks {s : Session} {request : Request} {id : Uuid} {own : Option Playlist}
    (free : ¬ ∃ tx ∈ s.txs, ∃ row ∈ memberRows id request.hashes, row ∈ tx.progress.members) :
    ∃ result, next user name s request (.named id own) .insertTracks = some result := by
  by_cases known : ∀ h ∈ request.hashes, (s.tables.tracks h).isSome
  · exact ⟨_, (if_neg free).trans (if_pos known)⟩
  · exact ⟨_, (if_neg free).trans (if_neg known)⟩

/-- A row that a statement waits for is one of a transaction that can commit. -/
theorem next_commit {s : Session} {tx : Tx} {row : Uuid × String}
    (held : row ∈ tx.progress.members) :
    ∃ result, next user name s tx.request tx.progress .commit = some result := by
  cases stands : tx.progress with
  | filled id own members => exact ⟨_, rfl⟩
  | _ => simp [Progress.members, stands] at held

/-- There is always an id that no playlist has, committed or not. -/
theorem exists_fresh (s : Session) : ∃ newId,
    (∀ p ∈ s.tables.playlists, p.id ≠ newId) ∧
      ¬ ∃ tx ∈ s.txs, ∃ p ∈ tx.progress.own, p.id = newId := by
  obtain ⟨newId, fresh⟩ := Infinite.exists_notMem_finset
    ((s.tables.playlists ++ s.txs.filterMap (fun tx => tx.progress.own)).map
      Playlist.id).toFinset
  simp only [List.mem_toFinset, List.mem_map, not_exists, not_and] at fresh
  refine ⟨newId, fun p row => fresh p (List.mem_append_left _ row), ?_⟩
  rintro ⟨tx, there, p, own, same⟩
  exact fresh p (List.mem_append_right _ (List.mem_filterMap.mpr ⟨tx, there, own⟩)) same

/-- While a transaction is open, some transaction can go on. -/
theorem goes_on (user : Uuid) (name : String) {s : Session} (open_ : ¬ s.Ended) :
    ∃ l, FreshDraw s l ∧ (stepTx user name s l).ahead < s.ahead := by
  obtain ⟨tx, member, unfinished⟩ : ∃ tx ∈ s.txs, ¬ tx.progress.Ended := by
    simpa [Session.Ended] using open_
  suffices can : ∃ tx ∈ s.txs, ∃ statement result, (∀ i, FreshDraw s (i, statement)) ∧
      next user name s tx.request tx.progress statement = some result by
    obtain ⟨other, there, statement, result, fresh, left⟩ := can
    obtain ⟨pre, post, split⟩ := List.append_of_mem there
    exact ⟨(pre.length, statement), fresh _, stepTx_ahead split left⟩
  cases stands : tx.progress with
  | begun =>
    obtain ⟨answer, picks⟩ := exists_picks (playlistsNamed s.tables user name)
    obtain ⟨result, left⟩ := next_select picks
    exact ⟨tx, member, .select answer, result, fun _ => trivial, stands ▸ left⟩
  | absent =>
    obtain ⟨newId, fresh, free⟩ := exists_fresh s
    obtain ⟨result, left⟩ := next_insertPlaylist free
    exact ⟨tx, member, .insertPlaylist newId 0, result, fun _ => fresh, stands ▸ left⟩
  | named id own =>
    by_cases waits : ∃ other ∈ s.txs, ∃ row ∈ memberRows id tx.request.hashes,
        row ∈ other.progress.members
    · obtain ⟨other, there, row, _, held⟩ := waits
      obtain ⟨result, left⟩ := next_commit held
      exact ⟨other, there, .commit, result, fun _ => trivial, left⟩
    · obtain ⟨result, left⟩ := next_insertTracks waits
      exact ⟨tx, member, .insertTracks, result, fun _ => trivial, stands ▸ left⟩
  | filled id own members =>
    exact ⟨tx, member, .commit, _, fun _ => trivial, by rw [stands]; rfl⟩
  | returned id =>
    rw [stands] at unfinished
    exact absurd trivial unfinished
  | failed error =>
    rw [stands] at unfinished
    exact absurd trivial unfinished

/-- Every session has a run to its end. -/
theorem can_end (s : Session) :
    ∃ ls, EachStep ls (fun pre => FreshDraw (run (stepTx user name) s pre)) ∧
      (run (stepTx user name) s ls).Ended := by
  induction below : s.ahead using Nat.strongRecOn generalizing s with
  | ind n ih =>
    by_cases ended : s.Ended
    · exact ⟨[], eachStep_nil, ended⟩
    · obtain ⟨l, fresh, less⟩ := goes_on user name ended
      obtain ⟨ls, drawn, finish⟩ := ih _ (below ▸ less) (stepTx user name s l) rfl
      exact ⟨l :: ls, eachStep_cons.mpr ⟨fresh, drawn⟩, finish⟩

/-- What a transaction has become of that result. -/
def outcome : Except DbError (Tables × Uuid) → Progress
  | .ok (_, id) => .returned id
  | .error error => .failed error

theorem stepTx_takes {t after : Tables} {pre post : List Tx} {tx : Tx}
    {progress : Progress} {statement : Statement}
    (left : next user name ⟨t, pre ++ tx :: post⟩ tx.request tx.progress statement =
      some (after, progress)) :
    stepTx user name ⟨t, pre ++ tx :: post⟩ (pre.length, statement) =
      ⟨after, pre ++ { tx with progress } :: post⟩ := by
  simp [stepTx, left]

theorem stepTx_waits {t : Tables} {pre post : List Tx} {tx : Tx} {statement : Statement}
    (left : next user name ⟨t, pre ++ tx :: post⟩ tx.request tx.progress statement = none) :
    stepTx user name ⟨t, pre ++ tx :: post⟩ (pre.length, statement) =
      ⟨t, pre ++ tx :: post⟩ := by
  simp [stepTx, left]

/-- No open transaction has inserted a row. -/
def Quiet (txs : List Tx) : Prop :=
  ∀ tx ∈ txs, tx.progress.own = none ∧ tx.progress.members = ∅

theorem forall_mem_insert {pre post : List Tx} {tx : Tx} {P : Tx → Prop}
    (others : ∀ other ∈ pre ++ post, P other) (this : P tx) :
    ∀ other ∈ pre ++ tx :: post, P other := by
  simp only [List.forall_mem_append, List.forall_mem_cons] at others ⊢
  exact ⟨others.1, this, others.2⟩

theorem Quiet.insertTracks {t : Tables} {request : Request} {pre post : List Tx} {id : Uuid}
    {own : Option Playlist} (quiet : Quiet (pre ++ post)) :
    run (stepTx user name) ⟨t, pre ++ ⟨request, .named id own⟩ :: post⟩
        [(pre.length, .insertTracks), (pre.length, .commit)] =
      if ∀ h ∈ request.hashes, (t.tracks h).isSome then
        ⟨publish t own (memberRows id request.hashes),
          pre ++ ⟨request, .returned id⟩ :: post⟩
      else ⟨t, pre ++ ⟨request, .failed .foreignKeyViolation⟩ :: post⟩ := by
  have free : ¬ ∃ tx ∈ pre ++ ⟨request, .named id own⟩ :: post,
      ∃ row ∈ memberRows id request.hashes, row ∈ tx.progress.members := by
    rintro ⟨tx, member, row, _, held⟩
    have none : tx.progress.members = ∅ :=
      forall_mem_insert (P := fun tx => tx.progress.members = ∅)
        (fun other there => (quiet other there).2) rfl tx member
    simp [none] at held
  simp only [run_cons, run_nil]
  split
  · rename_i known
    have inserted : stepTx user name ⟨t, pre ++ ⟨request, .named id own⟩ :: post⟩
        (pre.length, .insertTracks) =
        ⟨t, pre ++ ⟨request, .filled id own
          (memberRows id request.hashes \ t.playlistTracks)⟩ :: post⟩ :=
      stepTx_takes (by simp only [next, if_neg free, if_pos known])
    rw [inserted, stepTx_takes rfl]
    simp [publish]
  · rename_i missing
    have refused : stepTx user name ⟨t, pre ++ ⟨request, .named id own⟩ :: post⟩
        (pre.length, .insertTracks) =
        ⟨t, pre ++ ⟨request, .failed .foreignKeyViolation⟩ :: post⟩ :=
      stepTx_takes (by simp only [next, if_neg free, if_neg missing])
    rw [refused, stepTx_waits rfl]

theorem createPlaylist_of_playlistOf {t : Tables} {description : Option String}
    {hashes : List String} {newId id : Uuid} {now : Nat} {own : Option Playlist}
    (got : playlistOf t user name description newId now = .ok (publish t own ∅, id)) :
    createPlaylist t user name description hashes newId now =
      if ∀ h ∈ hashes, (t.tracks h).isSome then .ok (publish t own (memberRows id hashes), id)
      else .error .foreignKeyViolation := by
  simp [createPlaylist, got, bind, Except.bind, publish, memberRows]

theorem Quiet.insertTracks_agrees {t : Tables} {request : Request} {pre post : List Tx}
    {newId id : Uuid} {now : Nat} {own : Option Playlist} (quiet : Quiet (pre ++ post))
    (got : playlistOf t user name request.description newId now = .ok (publish t own ∅, id)) :
    run (stepTx user name) ⟨t, pre ++ ⟨request, .named id own⟩ :: post⟩
        [(pre.length, .insertTracks), (pre.length, .commit)] =
      let result := createPlaylist t user name request.description request.hashes newId now
      ⟨committed t result, pre ++ ⟨request, outcome result⟩ :: post⟩ := by
  rw [quiet.insertTracks, createPlaylist_of_playlistOf got]
  split
  · rfl
  · rfl

theorem Quiet.insertPlaylist_agrees {t : Tables} {request : Request} {pre post : List Tx}
    {newId : Uuid} {now : Nat} (quiet : Quiet (pre ++ post))
    (absent : t.playlists.find? (fun p => p.userId = user ∧ p.name = name) = none) :
    run (stepTx user name) ⟨t, pre ++ ⟨request, .absent⟩ :: post⟩
        [(pre.length, .insertPlaylist newId now), (pre.length, .insertTracks),
          (pre.length, .commit)] =
      let result := createPlaylist t user name request.description request.hashes newId now
      ⟨committed t result, pre ++ ⟨request, outcome result⟩ :: post⟩ := by
  have free : ¬ ∃ tx ∈ pre ++ ⟨request, .absent⟩ :: post,
      ∃ p ∈ tx.progress.own, p.id = newId := by
    rintro ⟨tx, member, p, own, _⟩
    have none : tx.progress.own = none :=
      forall_mem_insert (P := fun tx => tx.progress.own = none)
        (fun other there => (quiet other there).1) rfl tx member
    simp [none] at own
  rw [run_cons]
  by_cases taken : ∃ p ∈ t.playlists, p.id = newId
  · have refused : stepTx user name ⟨t, pre ++ ⟨request, .absent⟩ :: post⟩
        (pre.length, .insertPlaylist newId now) =
        ⟨t, pre ++ ⟨request, .failed .uniqueViolation⟩ :: post⟩ :=
      stepTx_takes (by simp only [next, if_neg free, if_pos taken])
    rw [refused, run_cons, stepTx_waits rfl, run_cons, stepTx_waits rfl]
    simp only [createPlaylist, playlistOf, absent, if_pos taken]
    rfl
  · have inserted : stepTx user name ⟨t, pre ++ ⟨request, .absent⟩ :: post⟩
        (pre.length, .insertPlaylist newId now) =
        ⟨t, pre ++ ⟨request, .named newId
          (some ⟨newId, name, request.description, now, now, user⟩)⟩ :: post⟩ :=
      stepTx_takes (by simp only [next, if_neg free, if_neg taken])
    rw [inserted]
    apply quiet.insertTracks_agrees
    simp only [playlistOf, absent, if_neg taken]
    simp [publish]

/-- While no other transaction has inserted anything, the four statements in a row are the call
as one step. -/
theorem alone_agrees (t : Tables) (request : Request) (pre post : List Tx) (newId : Uuid)
    (now : Nat) (quiet : Quiet (pre ++ post)) :
    ∃ answer, run (stepTx user name) ⟨t, pre ++ ⟨request, .begun⟩ :: post⟩
        [(pre.length, .select answer), (pre.length, .insertPlaylist newId now),
          (pre.length, .insertTracks), (pre.length, .commit)] =
      let result := createPlaylist t user name request.description request.hashes newId now
      ⟨committed t result, pre ++ ⟨request, outcome result⟩ :: post⟩ := by
  cases existing : t.playlists.find? (fun p => p.userId = user ∧ p.name = name) with
  | some p =>
    have row : p ∈ playlistsNamed t user name := by
      have here := List.mem_of_find?_eq_some existing
      have matching := List.find?_some existing
      simpa [here] using matching
    have picked : Picks (playlistsNamed t user name) (some p.id) := ⟨p, row, rfl⟩
    have selected : stepTx user name ⟨t, pre ++ ⟨request, .begun⟩ :: post⟩
        (pre.length, .select (some p.id)) =
        ⟨t, pre ++ ⟨request, .named p.id none⟩ :: post⟩ :=
      stepTx_takes (by simp only [next, if_pos picked])
    refine ⟨some p.id, ?_⟩
    rw [run_cons, selected, run_cons, stepTx_waits rfl]
    apply quiet.insertTracks_agrees
    simp only [playlistOf, existing]
    simp [publish]
  | none =>
    have empty : playlistsNamed t user name = [] := by
      simpa [playlistsNamed, List.filter_eq_nil_iff] using existing
    have selected : stepTx user name ⟨t, pre ++ ⟨request, .begun⟩ :: post⟩
        (pre.length, .select none) = ⟨t, pre ++ ⟨request, .absent⟩ :: post⟩ :=
      stepTx_takes (if_pos empty)
    refine ⟨none, ?_⟩
    rw [run_cons, selected]
    exact quiet.insertPlaylist_agrees existing

end BVault.Meta
