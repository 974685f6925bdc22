import BVault.Auth.Accounts
import BVault.Gateway.Library
import BVault.Lib.LastWrite

/-!
# Registering, logging in and out

The gateway's handlers as requests in flight. A handler is between two of its
statements at any time, and the statements of all requests take turns in any
order; a request whose client is gone is one that does not go on. Besides the
accounts, the cookies of the users are set.
-/

namespace BVault.Auth

open BVault.Gateway (trim)
open BVault.Meta (Uuid)

inductive GatewayError where
  | notFound
  | badRequest (message : String)
  | unauthorized
  | internal
  | usernameTaken
  | database
  deriving DecidableEq, Repr

structure Config where
  /-- In seconds. -/
  sessionTtl : Nat
  internalApiKey : Option String
  cookieEncryptionKey : { key : Bytes // key.length = 32 }

/-- The headers that are read, where their values are visible ASCII. -/
structure Headers where
  authorization : Option String
  xInternalKey : Option String
  xUserId : Option String
  deriving DecidableEq, Repr

structure Credentials where
  username : String
  password : String
  deriving DecidableEq, Repr

structure SessionResponse where
  token : String
  userId : Uuid
  expiresAt : Nat
  deriving DecidableEq, Repr

/-- `strip_prefix("Bearer ")`. -/
def stripBearer (header : String) : Option String :=
  if "Bearer ".toList.isPrefixOf header.toList then some (String.ofList (header.toList.drop 7)) else none

def bearerToken (headers : Headers) : Option String := headers.authorization.bind stripBearer

/-- The latest time that `chrono` has, in microseconds. -/
def MAX_UTC : Nat := 8210266876799999999

/-- The lifetime of a session in microseconds; one that `chrono` cannot hold becomes 30 days. -/
def sessionTtl (cfg : Config) : Nat :=
  1000000 * if cfg.sessionTtl ≤ (2 ^ 63 - 1) / 1000 then cfg.sessionTtl else 30 * 86400

inductive Call where
  | register (c : Credentials) (salt : Bytes)
  | login (c : Credentials)
  | logout (headers : Headers)

/-- The next statement of a handler. -/
inductive Phase where
  | createUser (username passwordHash : String)
  | findCredentials (c : Credentials)
  | createSession (userId : Uuid)
  | deleteSession (tokenHash : String)
  /-- Answered; without a session, with no content. -/
  | replied (answer : Except GatewayError (Option SessionResponse))
  | panicked

structure Request where
  call : Call
  phase : Phase

/-- What the machine delivers to a statement: an id from the database, random bytes and the time
from the gateway. -/
structure Answer where
  newId : Uuid
  random : Bytes
  now : Nat

structure Site (lower : String → String) where
  accounts : Accounts lower
  requests : List Request

inductive Event where
  | call (c : Call)
  | proceed (i : Nat) (answer : Answer)
  | setYoutubeCookies (user : Uuid) (cookiesTxt : String) (nonce : Nonce)

section
variable {lower : String → String} (p : Primitives) (cfg : Config)

section
variable (parseUuid : String → Option Uuid)

/-- The user named by a service that has the internal key. -/
def internalUser (headers : Headers) : Option Uuid :=
  match cfg.internalApiKey, headers.xInternalKey with
  | some internalKey, some reqKey =>
    if reqKey = internalKey then headers.xUserId.bind parseUuid else none
  | _, _ => none

/-- The gateway's `AuthUser`. -/
def authUser (a : Accounts lower) (now : Nat) (headers : Headers) : Except GatewayError Uuid :=
  match internalUser cfg parseUuid headers with
  | some id => .ok id
  | none =>
    match bearerToken headers with
    | none => .error .unauthorized
    | some token =>
      match a.lookupSession (hashToken p token) now with
      | none => .error .unauthorized
      | some id => .ok id

end

/-- The export-builder's `AuthUser`. -/
def exportAuthUser (a : Accounts lower) (now : Nat) (headers : Headers) :
    Except GatewayError Uuid :=
  match bearerToken headers with
  | none => .error .unauthorized
  | some token =>
    match a.lookupSession (hashToken p token) now with
    | none => .error .unauthorized
    | some id => .ok id

def register (c : Credentials) (salt : Bytes) : Phase :=
  let username := trim c.username
  if username = "" ∨ c.password.utf8ByteSize < 8 then
    .replied (.error (.badRequest
      "username is required and password must be at least 8 characters"))
  else
    match hashPassword p c.password salt with
    | .error _ => .replied (.error .internal)
    | .ok hash => .createUser username hash

def logout (headers : Headers) : Phase :=
  match bearerToken headers with
  | some token => .deleteSession (hashToken p token)
  | none => .replied (.ok none)

/-- A handler up to its first statement. -/
def received : Call → Phase
  | .register c salt => register p c salt
  | .login c => .findCredentials c
  | .logout headers => logout p headers

/-- `issue_session`. -/
def issueSession (a : Accounts lower) (userId : Uuid) (answer : Answer) :
    Accounts lower × Phase :=
  let token := generateToken answer.random
  let expiresAt := answer.now + sessionTtl cfg
  if MAX_UTC < expiresAt then (a, .panicked)
  else
    match a.createSession (hashToken p token) userId expiresAt with
    | .ok a' => (a', .replied (.ok (some ⟨token, userId, expiresAt⟩)))
    | .error _ => (a, .replied (.error .database))

/-- The next statement, and what the handler makes of its result. -/
def statement (a : Accounts lower) (answer : Answer) : Phase → Accounts lower × Phase
  | .createUser username passwordHash =>
    match a.createUser username passwordHash answer.newId with
    | .ok (a', userId) => (a', .createSession userId)
    | .error .usernameTaken => (a, .replied (.error .usernameTaken))
    | .error .database => (a, .replied (.error .database))
  | .findCredentials c =>
    match a.findCredentials c.username with
    | some (userId, hash) =>
      if verifyPassword p c.password hash then (a, .createSession userId)
      else (a, .replied (.error .unauthorized))
    | none => (a, .replied (.error .unauthorized))
  | .createSession userId => issueSession p cfg a userId answer
  | .deleteSession tokenHash => (a.deleteSession tokenHash, .replied (.ok none))
  | .replied reply => (a, .replied reply)
  | .panicked => (a, .panicked)

/-- `set_youtube_cookies`. -/
def setYoutubeCookies (a : Accounts lower) (user : Uuid) (cookiesTxt : String) (nonce : Nonce) :
    Accounts lower × Except GatewayError Unit :=
  match encryptCookie p cookiesTxt cfg.cookieEncryptionKey.val nonce with
  | .error _ => (a, .error .internal)
  | .ok ciphertext => (a.updateCookies user ciphertext, .ok ())

/-- `get_youtube_cookies`; a user without a row is an internal error. -/
def getYoutubeCookies (a : Accounts lower) (user : Uuid) : Except GatewayError String :=
  match a.cookies user with
  | none => .error .internal
  | some none => .error .notFound
  | some (some ciphertext) =>
    match decryptCookie p ciphertext cfg.cookieEncryptionKey.val with
    | .error _ => .error .internal
    | .ok cookiesTxt => .ok cookiesTxt

def step (s : Site lower) : Event → Site lower
  | .call c => { s with requests := s.requests ++ [⟨c, received p c⟩] }
  | .proceed i answer =>
    match s.requests[i]? with
    | none => s
    | some r =>
      let (accounts, phase) := statement p cfg s.accounts answer r.phase
      ⟨accounts, s.requests.set i { r with phase := phase }⟩
  | .setYoutubeCookies user cookiesTxt nonce =>
    { s with accounts := (setYoutubeCookies p cfg s.accounts user cookiesTxt nonce).1 }

def start : Site lower := ⟨Accounts.empty, []⟩

variable (lower) in
/-- The site after a run from empty tables. -/
def after (events : List Event) : Site lower := Runs.run (step p cfg) start events

/-- The statement that is next in a request. -/
def Site.next (s : Site lower) : Event → Option (Phase × Answer)
  | .proceed i answer => (s.requests[i]?).map fun r => (r.phase, answer)
  | _ => none

/-- The session that a step hands out. -/
def handedOut (s : Site lower) (e : Event) : Option SessionResponse :=
  match s.next e with
  | some (.createSession userId, answer) =>
    match (issueSession p cfg s.accounts userId answer).2 with
    | .replied (.ok session) => session
    | _ => none
  | _ => none

/-- The fingerprint that a step logs out. -/
def loggedOut (s : Site lower) (e : Event) : Option String :=
  match s.next e with
  | some (.deleteSession tokenHash, _) => some tokenHash
  | _ => none

variable {p cfg}

theorem bearerToken_eq_some_iff (headers : Headers) (token : String) :
    bearerToken headers = some token ↔ headers.authorization = some ("Bearer " ++ token) := by
  have strip (header : String) : stripBearer header = some token ↔ header = "Bearer " ++ token := by
    unfold stripBearer
    constructor
    · intro stripped
      split at stripped
      · rename_i front
        obtain ⟨rest, whole⟩ := List.isPrefixOf_iff_prefix.mp front
        cases stripped
        have behind : ("Bearer ".toList ++ rest).drop 7 = rest := rfl
        apply String.ext
        rw [String.toList_append, ← whole, behind, String.toList_ofList (l := rest)]
      · cases stripped
    · rintro rfl
      have whole : ("Bearer " ++ token).toList = "Bearer ".toList ++ token.toList :=
        String.toList_append
      rw [whole, if_pos (List.isPrefixOf_iff_prefix.mpr ⟨_, rfl⟩)]
      have behind : ("Bearer ".toList ++ token.toList).drop 7 = token.toList := rfl
      rw [behind, String.ofList_toList]
  rw [bearerToken, Option.bind_eq_some_iff]
  constructor
  · rintro ⟨header, there, stripped⟩
    rw [there, (strip header).mp stripped]
  · intro there
    exact ⟨_, there, (strip _).mpr rfl⟩

variable (p cfg) in
/-- Nothing but the next statement of a request touches users and sessions, and cookies. -/
theorem step_accounts (s : Site lower) (e : Event) :
    (∃ phase answer, s.next e = some (phase, answer) ∧
      (step p cfg s e).accounts = (statement p cfg s.accounts answer phase).1) ∨
    (s.next e = none ∧ (step p cfg s e).accounts = s.accounts) ∨
    ∃ user ciphertext, s.next e = none ∧ (∃ text nonce, e = .setYoutubeCookies user text nonce ∧
        encryptCookie p text cfg.cookieEncryptionKey.val nonce = .ok ciphertext) ∧
      (step p cfg s e).accounts = s.accounts.updateCookies user ciphertext := by
  cases e with
  | call c => exact Or.inr (Or.inl ⟨rfl, rfl⟩)
  | proceed i answer =>
    cases there : s.requests[i]? with
    | none =>
      refine Or.inr (Or.inl ⟨?_, ?_⟩)
      · simp only [Site.next, there, Option.map_none]
      · simp only [step, there]
    | some r =>
      refine Or.inl ⟨r.phase, answer, ?_, ?_⟩
      · simp only [Site.next, there, Option.map_some]
      · simp only [step, there]
  | setYoutubeCookies user text nonce =>
    cases encrypted : encryptCookie p text cfg.cookieEncryptionKey.val nonce with
    | error fault =>
      refine Or.inr (Or.inl ⟨rfl, ?_⟩)
      simp only [step, setYoutubeCookies, encrypted]
    | ok ciphertext =>
      refine Or.inr (Or.inr ⟨user, ciphertext, rfl, ⟨text, nonce, rfl, encrypted⟩, ?_⟩)
      simp only [step, setYoutubeCookies, encrypted]

theorem after_snoc (events : List Event) (e : Event) :
    after lower p cfg (events ++ [e]) = step p cfg (after lower p cfg events) e :=
  Runs.run_snoc _ _ _ _

variable (p cfg) in
/-- A session comes out of its statement with its row. -/
theorem issueSession_cases (a : Accounts lower) (userId : Uuid) (answer : Answer) :
    (∃ r b, issueSession p cfg a userId answer = (b, .replied (.ok (some r))) ∧
      r.token = generateToken answer.random ∧ r.userId = userId ∧
      r.expiresAt = answer.now + sessionTtl cfg ∧
      a.createSession (hashToken p r.token) userId r.expiresAt = .ok b) ∨
    ∃ phase, issueSession p cfg a userId answer = (a, phase) ∧
      (phase = .panicked ∨ phase = .replied (.error .database)) := by
  unfold issueSession
  simp only
  split
  · exact Or.inr ⟨_, rfl, Or.inl rfl⟩
  · split
    · rename_i b created
      exact Or.inl ⟨_, b, rfl, rfl, rfl, rfl, created⟩
    · exact Or.inr ⟨_, rfl, Or.inr rfl⟩

end

end BVault.Auth
