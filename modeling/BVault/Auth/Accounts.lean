import BVault.Auth.Secrets
import BVault.Meta.Model

/-!
# The tables of users and sessions

The queries of accounts, each one statement. What the migrations declare (two
primary keys, the unique index on `lower(username)`, the reference of a session
to its user) is part of the type. Postgres' `lower` is a parameter; times are in
microseconds.
-/

namespace BVault.Auth

open BVault.Meta (Uuid)

/-- A row of `users`. -/
structure User where
  id : Uuid
  username : String
  passwordHash : String
  youtubeCookies : Option Bytes
  deriving DecidableEq

/-- A row of `sessions`. -/
structure Session where
  tokenHash : String
  userId : Uuid
  expiresAt : Nat
  deriving DecidableEq, Repr

inductive MetaError where
  | usernameTaken
  | database
  deriving DecidableEq, Repr

structure Accounts (lower : String → String) where
  users : List User
  sessions : List Session
  usersPkey : (users.map User.id).Nodup
  usersUsernameLower : (users.map fun u => lower u.username).Nodup
  sessionsPkey : (sessions.map Session.tokenHash).Nodup
  sessionsUserId : ∀ s ∈ sessions, s.userId ∈ users.map User.id

namespace Accounts

variable {lower : String → String}

def empty : Accounts lower where
  users := []
  sessions := []
  usersPkey := List.nodup_nil
  usersUsernameLower := List.nodup_nil
  sessionsPkey := List.nodup_nil
  sessionsUserId := List.forall_mem_nil _

/-- One more row under a new key. -/
theorem nodup_snoc {α β : Type*} {key : α → β} {rows : List α} {row : α}
    (distinct : (rows.map key).Nodup) (fresh : key row ∉ rows.map key) :
    ((rows ++ [row]).map key).Nodup := by
  rw [List.map_append, List.nodup_append]
  refine ⟨distinct, List.nodup_singleton _, ?_⟩
  intro a old b new same
  obtain rfl : b = key row := List.mem_singleton.mp new
  exact fresh (same ▸ old)

theorem known_snoc {users : List User} {user : User} {sessions : List Session}
    (known : ∀ s ∈ sessions, s.userId ∈ users.map User.id) :
    ∀ s ∈ sessions, s.userId ∈ (users ++ [user]).map User.id := by
  intro s mem
  rw [List.map_append]
  exact List.mem_append_left _ (known s mem)

theorem known_new {users : List User} {sessions : List Session} {session : Session}
    (known : ∀ s ∈ sessions, s.userId ∈ users.map User.id)
    (owner : session.userId ∈ users.map User.id) :
    ∀ s ∈ sessions ++ [session], s.userId ∈ users.map User.id := by
  intro s mem
  rcases List.mem_append.mp mem with old | new
  · exact known s old
  · rwa [List.mem_singleton.mp new]

theorem nodup_filter {α β : Type*} {key : α → β} {rows : List α} (distinct : (rows.map key).Nodup)
    (keep : α → Bool) : ((rows.filter keep).map key).Nodup :=
  distinct.sublist (List.filter_sublist.map key)

/-- `insert into users … returning id`, with the id that the database draws. -/
def createUser (a : Accounts lower) (username passwordHash : String) (newId : Uuid) :
    Except MetaError (Accounts lower × Uuid) :=
  if idTaken : newId ∈ a.users.map User.id then .error .usernameTaken
  else if nameTaken : lower username ∈ a.users.map (fun u => lower u.username) then
    .error .usernameTaken
  else
    .ok ({
      users := a.users ++ [⟨newId, username, passwordHash, none⟩]
      sessions := a.sessions
      usersPkey := nodup_snoc a.usersPkey idTaken
      usersUsernameLower := nodup_snoc a.usersUsernameLower nameTaken
      sessionsPkey := a.sessionsPkey
      sessionsUserId := known_snoc a.sessionsUserId }, newId)

def findCredentials (a : Accounts lower) (username : String) : Option (Uuid × String) :=
  (a.users.find? fun u => lower u.username = lower username).map fun u => (u.id, u.passwordHash)

def createSession (a : Accounts lower) (tokenHash : String) (userId : Uuid) (expiresAt : Nat) :
    Except MetaError (Accounts lower) :=
  if taken : tokenHash ∈ a.sessions.map Session.tokenHash then .error .database
  else if owner : userId ∈ a.users.map User.id then
    .ok {
      users := a.users
      sessions := a.sessions ++ [⟨tokenHash, userId, expiresAt⟩]
      usersPkey := a.usersPkey
      usersUsernameLower := a.usersUsernameLower
      sessionsPkey := nodup_snoc a.sessionsPkey taken
      sessionsUserId := known_new a.sessionsUserId owner }
  else .error .database

/-- The user of a session that has not expired. -/
def lookupSession (a : Accounts lower) (tokenHash : String) (now : Nat) : Option Uuid :=
  (a.sessions.find? fun s => s.tokenHash = tokenHash ∧ now < s.expiresAt).map Session.userId

def deleteSession (a : Accounts lower) (tokenHash : String) : Accounts lower where
  users := a.users
  sessions := a.sessions.filter fun s => s.tokenHash ≠ tokenHash
  usersPkey := a.usersPkey
  usersUsernameLower := a.usersUsernameLower
  sessionsPkey := nodup_filter a.sessionsPkey _
  sessionsUserId := fun s mem => a.sessionsUserId s (List.mem_of_mem_filter mem)

def withCookies (id : Uuid) (ciphertext : Bytes) (u : User) : User :=
  if u.id = id then { u with youtubeCookies := some ciphertext } else u

@[simp] theorem withCookies_id (id : Uuid) (ciphertext : Bytes) (u : User) :
    (withCookies id ciphertext u).id = u.id := by
  rw [withCookies]
  split <;> rfl

@[simp] theorem withCookies_username (id : Uuid) (ciphertext : Bytes) (u : User) :
    (withCookies id ciphertext u).username = u.username := by
  rw [withCookies]
  split <;> rfl

@[simp] theorem withCookies_passwordHash (id : Uuid) (ciphertext : Bytes) (u : User) :
    (withCookies id ciphertext u).passwordHash = u.passwordHash := by
  rw [withCookies]
  split <;> rfl

theorem map_withCookies {β : Type*} {key : User → β} {id : Uuid} {ciphertext : Bytes}
    (kept : ∀ u, key (withCookies id ciphertext u) = key u) (users : List User) :
    (users.map (withCookies id ciphertext)).map key = users.map key := by
  rw [List.map_map]
  exact List.map_congr_left fun u _ => kept u

theorem nodup_withCookies {β : Type*} {key : User → β} {id : Uuid} {ciphertext : Bytes}
    (kept : ∀ u, key (withCookies id ciphertext u) = key u) {users : List User}
    (distinct : (users.map key).Nodup) :
    ((users.map (withCookies id ciphertext)).map key).Nodup := by
  rwa [map_withCookies kept]

theorem known_withCookies {users : List User} {sessions : List Session} {id : Uuid}
    {ciphertext : Bytes} (known : ∀ s ∈ sessions, s.userId ∈ users.map User.id) :
    ∀ s ∈ sessions, s.userId ∈ (users.map (withCookies id ciphertext)).map User.id := by
  rwa [map_withCookies (withCookies_id id ciphertext)]

theorem lower_withCookies (id : Uuid) (ciphertext : Bytes) (u : User) :
    lower (withCookies id ciphertext u).username = lower u.username :=
  congrArg lower (withCookies_username id ciphertext u)

/-- `update users set youtube_cookies = $1 where id = $2`. -/
def updateCookies (a : Accounts lower) (id : Uuid) (ciphertext : Bytes) : Accounts lower where
  users := a.users.map (withCookies id ciphertext)
  sessions := a.sessions
  usersPkey := nodup_withCookies (withCookies_id id ciphertext) a.usersPkey
  usersUsernameLower := nodup_withCookies (lower_withCookies id ciphertext) a.usersUsernameLower
  sessionsPkey := a.sessionsPkey
  sessionsUserId := known_withCookies a.sessionsUserId

/-- `select youtube_cookies from users where id = $1`; the outer `none` is that of no row. -/
def cookies (a : Accounts lower) (id : Uuid) : Option (Option Bytes) :=
  (a.users.find? fun u => u.id = id).map User.youtubeCookies

/-- The row under a key of the sessions. -/
def session (a : Accounts lower) (tokenHash : String) : Option Session :=
  a.sessions.find? fun s => s.tokenHash = tokenHash

theorem find?_eq_some_of_nodup {α β : Type*} [DecidableEq β] {key : α → β} {rows : List α}
    (distinct : (rows.map key).Nodup) {k : β} {row : α} :
    rows.find? (fun r => key r = k) = some row ↔ row ∈ rows ∧ key row = k := by
  constructor
  · intro found
    have key := List.find?_some found
    exact ⟨List.mem_of_find?_eq_some found, of_decide_eq_true key⟩
  · rintro ⟨mem, rfl⟩
    cases found : rows.find? (fun r => key r = key row) with
    | none => exact absurd (decide_eq_true rfl) (List.find?_eq_none.mp found row mem)
    | some other =>
      have same := List.find?_some found
      rw [decide_eq_true_eq] at same
      rw [List.inj_on_of_nodup_map distinct (List.mem_of_find?_eq_some found) mem same]

theorem session_eq_some_iff {a : Accounts lower} {tokenHash : String} {s : Session} :
    a.session tokenHash = some s ↔ s ∈ a.sessions ∧ s.tokenHash = tokenHash :=
  find?_eq_some_of_nodup a.sessionsPkey

/-- A lookup finds the one row of the fingerprint, until it expires. -/
theorem lookupSession_eq_some_iff {a : Accounts lower} {tokenHash : String} {now : Nat} {id : Uuid} :
    a.lookupSession tokenHash now = some id ↔
      ∃ s, a.session tokenHash = some s ∧ now < s.expiresAt ∧ s.userId = id := by
  rw [lookupSession, Option.map_eq_some_iff]
  constructor
  · rintro ⟨s, found, owner⟩
    have both := List.find?_some found
    rw [decide_eq_true_eq] at both
    exact ⟨s, session_eq_some_iff.mpr ⟨List.mem_of_find?_eq_some found, both.1⟩, both.2, owner⟩
  · rintro ⟨s, found, valid, owner⟩
    obtain ⟨mem, key⟩ := session_eq_some_iff.mp found
    refine ⟨s, ?_, owner⟩
    cases answer : a.sessions.find? (fun s => s.tokenHash = tokenHash ∧ now < s.expiresAt) with
    | none =>
      have passed := List.find?_eq_none.mp answer s mem
      exact absurd (decide_eq_true ⟨key, valid⟩) passed
    | some other =>
      have both := List.find?_some answer
      rw [decide_eq_true_eq] at both
      have same : a.session tokenHash = some other :=
        session_eq_some_iff.mpr ⟨List.mem_of_find?_eq_some answer, both.1⟩
      rw [found] at same
      exact same.symm

theorem findCredentials_eq_some_iff {a : Accounts lower} {username : String} {id : Uuid}
    {hash : String} :
    a.findCredentials username = some (id, hash) ↔
      ∃ u ∈ a.users, lower u.username = lower username ∧ u.id = id ∧ u.passwordHash = hash := by
  rw [findCredentials, Option.map_eq_some_iff]
  constructor
  · rintro ⟨u, found, same⟩
    obtain ⟨mem, name⟩ := (find?_eq_some_of_nodup a.usersUsernameLower).mp found
    cases same
    exact ⟨u, mem, name, rfl, rfl⟩
  · rintro ⟨u, mem, name, rfl, rfl⟩
    exact ⟨u, (find?_eq_some_of_nodup a.usersUsernameLower).mpr ⟨mem, name⟩, rfl⟩

theorem cookies_eq_some_iff {a : Accounts lower} {id : Uuid} {c : Option Bytes} :
    a.cookies id = some c ↔ ∃ u ∈ a.users, u.id = id ∧ u.youtubeCookies = c := by
  rw [cookies, Option.map_eq_some_iff]
  constructor
  · rintro ⟨u, found, same⟩
    obtain ⟨mem, key⟩ := (find?_eq_some_of_nodup a.usersPkey).mp found
    exact ⟨u, mem, key, same⟩
  · rintro ⟨u, mem, key, same⟩
    exact ⟨u, (find?_eq_some_of_nodup a.usersPkey).mpr ⟨mem, key⟩, same⟩

theorem createUser_eq_ok {a b : Accounts lower} {username hash : String} {newId id : Uuid}
    (created : a.createUser username hash newId = .ok (b, id)) :
    id = newId ∧ newId ∉ a.users.map User.id ∧
      b.users = a.users ++ [⟨newId, username, hash, none⟩] ∧ b.sessions = a.sessions := by
  unfold createUser at created
  split at created
  · cases created
  · rename_i fresh
    split at created
    · cases created
    · cases created
      exact ⟨rfl, fresh, rfl, rfl⟩

theorem createSession_eq_ok {a b : Accounts lower} {tokenHash : String} {userId : Uuid}
    {expiresAt : Nat} (created : a.createSession tokenHash userId expiresAt = .ok b) :
    tokenHash ∉ a.sessions.map Session.tokenHash ∧ b.users = a.users ∧
      b.sessions = a.sessions ++ [⟨tokenHash, userId, expiresAt⟩] := by
  unfold createSession at created
  split at created
  · cases created
  · rename_i fresh
    split at created
    · cases created
      exact ⟨fresh, rfl, rfl⟩
    · cases created

end Accounts

end BVault.Auth
