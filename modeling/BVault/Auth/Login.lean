import BVault.Auth.Sessions

/-!
# Who gets a session

Accounts come from registrations alone and stay as registered. So a login is let
in exactly if it names an account, in either case of letters, and the hash made
at the registration verifies its password; and a session is only ever handed out
to such a login, or to the registration itself.
-/

namespace BVault.Auth

open BVault.Gateway (trim)
open BVault.Meta (Uuid)

section
variable {lower : String → String} (p : Primitives) (cfg : Config)

/-- The account that a step creates. -/
def registered (s : Site lower) (e : Event) : Option User :=
  match s.next e with
  | some (.createUser username hash, answer) =>
    match s.accounts.createUser username hash answer.newId with
    | .ok (_, id) => some ⟨id, username, hash, none⟩
    | .error _ => none
  | _ => none

/-- The request that a step takes further. -/
def Site.served (s : Site lower) : Event → Option Request
  | .proceed i _ => s.requests[i]?
  | _ => none

/-- In the run a registration with credentials `c` has created account `id` with a hash of its
password. -/
def Registered (lower : String → String) (events : List Event) (c : Credentials) (hash : String)
    (id : Uuid) : Prop :=
  ∃ pre e post salt phase, events = pre ++ e :: post ∧
    registered (after lower p cfg pre) e = some ⟨id, trim c.username, hash, none⟩ ∧
    (after lower p cfg pre).served e = some ⟨.register c salt, phase⟩ ∧
    hashPassword p c.password salt = .ok hash

/-- The login `c` names the account and knows its password. -/
def Admits (lower : String → String) (events : List Event) (c : Credentials) (id : Uuid) : Prop :=
  ∃ c' hash, Registered p cfg lower events c' hash id ∧
    lower (trim c'.username) = lower c.username ∧ verifyPassword p c.password hash = true

/-- How a request got to its next statement. -/
def Earned (lower : String → String) (events : List Event) : Request → Prop
  | ⟨call, .createUser username hash⟩ => ∃ c salt, call = .register c salt ∧
      username = trim c.username ∧ hashPassword p c.password salt = .ok hash
  | ⟨call, .findCredentials c⟩ => call = .login c
  | ⟨call, .createSession id⟩ =>
      (∃ c salt hash, call = .register c salt ∧ Registered p cfg lower events c hash id) ∨
      ∃ c, call = .login c ∧ Admits p cfg lower events c id
  | _ => True

variable {p cfg}

theorem Registered.more {events : List Event} {c : Credentials} {hash : String} {id : Uuid}
    (done : Registered p cfg lower events c hash id) (more : List Event) :
    Registered p cfg lower (events ++ more) c hash id := by
  obtain ⟨pre, e, post, salt, phase, rfl, rest⟩ := done
  exact ⟨pre, e, post ++ more, salt, phase, by simp, rest⟩

theorem Admits.more {events : List Event} {c : Credentials} {id : Uuid}
    (admits : Admits p cfg lower events c id) (more : List Event) :
    Admits p cfg lower (events ++ more) c id := by
  obtain ⟨c', hash, done, names, verifies⟩ := admits
  exact ⟨c', hash, done.more more, names, verifies⟩

theorem Earned.more {events : List Event} {r : Request} (earned : Earned p cfg lower events r)
    (more : List Event) : Earned p cfg lower (events ++ more) r := by
  obtain ⟨call, phase⟩ := r
  cases phase with
  | createSession id =>
    rcases earned with ⟨c, salt, hash, rfl, done⟩ | ⟨c, rfl, admits⟩
    · exact Or.inl ⟨c, salt, hash, rfl, done.more more⟩
    · exact Or.inr ⟨c, rfl, admits.more more⟩
  | _ => exact earned

/-- A step leaves the names and hashes of the accounts, and adds the one it registers. -/
theorem mem_users_step (s : Site lower) (e : Event) (id : Uuid) (name hash : String) :
    (∃ u ∈ (step p cfg s e).accounts.users, u.id = id ∧ u.username = name ∧ u.passwordHash = hash) ↔
      (∃ u ∈ s.accounts.users, u.id = id ∧ u.username = name ∧ u.passwordHash = hash) ∨
      registered s e = some ⟨id, name, hash, none⟩ := by
  rcases step_accounts p cfg s e with
    ⟨phase, answer, next, accounts⟩ | ⟨next, accounts⟩ | ⟨user, ciphertext, next, -, accounts⟩
  · rw [accounts]
    cases phase with
    | createUser username hash' =>
      cases created : s.accounts.createUser username hash' answer.newId with
      | error fault =>
        have none_ : registered s e = none := by simp only [registered, next, created]
        have same : (statement p cfg s.accounts answer (.createUser username hash')).1 =
            s.accounts := by
          rw [statement, created]
          cases fault <;> rfl
        simp only [same, none_, reduceCtorEq, or_false]
      | ok result =>
        obtain ⟨b, id'⟩ := result
        have some_ : registered s e = some ⟨id', username, hash', none⟩ := by
          simp only [registered, next, created]
        have same : (statement p cfg s.accounts answer (.createUser username hash')).1 = b := by
          rw [statement, created]
        obtain ⟨rfl, -, users, -⟩ := Accounts.createUser_eq_ok created
        rw [same, some_, users]
        simp only [List.mem_append, List.mem_singleton, or_and_right, exists_or, exists_eq_left,
          Option.some.injEq, User.mk.injEq, and_true]
    | createSession userId =>
      have none_ : registered s e = none := by simp only [registered, next]
      have same : (statement p cfg s.accounts answer (.createSession userId)).1.users =
          s.accounts.users := by
        rw [statement]
        rcases issueSession_cases p cfg s.accounts userId answer with
          ⟨r, b, issued, -, -, -, created⟩ | ⟨phase, issued, -⟩
        · rw [issued]
          exact (Accounts.createSession_eq_ok created).2.1
        · rw [issued]
      simp only [same, none_, reduceCtorEq, or_false]
    | findCredentials c =>
      have none_ : registered s e = none := by simp only [registered, next]
      have same : (statement p cfg s.accounts answer (.findCredentials c)).1 = s.accounts := by
        rw [statement]
        split
        · split <;> rfl
        · rfl
      simp only [same, none_, reduceCtorEq, or_false]
    | deleteSession tokenHash =>
      have none_ : registered s e = none := by simp only [registered, next]
      simp only [statement, Accounts.deleteSession, none_, reduceCtorEq, or_false]
    | _ =>
      have none_ : registered s e = none := by simp only [registered, next]
      simp only [statement, none_, reduceCtorEq, or_false]
  · have none_ : registered s e = none := by simp only [registered, next]
    simp only [accounts, none_, reduceCtorEq, or_false]
  · have none_ : registered s e = none := by simp only [registered, next]
    rw [accounts, none_]
    simp only [Accounts.updateCookies, List.mem_map, exists_exists_and_eq_and, Accounts.withCookies_id,
      Accounts.withCookies_username, Accounts.withCookies_passwordHash, reduceCtorEq, or_false]

/-- A step takes one request further, or receives one. -/
theorem mem_requests_step {s : Site lower} {e : Event} {r : Request}
    (mem : r ∈ (step p cfg s e).requests) :
    r ∈ s.requests ∨ (∃ c, e = .call c ∧ r = ⟨c, received p c⟩) ∨
      ∃ old answer, s.served e = some old ∧ s.next e = some (old.phase, answer) ∧
        r = ⟨old.call, (statement p cfg s.accounts answer old.phase).2⟩ := by
  cases e with
  | call c =>
    rcases List.mem_append.mp mem with old | new
    · exact Or.inl old
    · exact Or.inr (Or.inl ⟨c, rfl, List.mem_singleton.mp new⟩)
  | proceed i answer =>
    simp only [step] at mem
    split at mem
    · exact Or.inl mem
    · rename_i old there
      rcases List.mem_or_eq_of_mem_set mem with kept | rfl
      · exact Or.inl kept
      · refine Or.inr (Or.inr ⟨old, answer, there, ?_, rfl⟩)
        simp only [Site.next, there, Option.map_some]
  | setYoutubeCookies user text nonce => exact Or.inl mem

theorem earned_received (events : List Event) (c : Call) :
    Earned p cfg lower events ⟨c, received p c⟩ := by
  cases c with
  | register c salt =>
    simp only [received, register]
    split
    · trivial
    · split
      · trivial
      · rename_i hash hashed
        exact ⟨c, salt, rfl, rfl, hashed⟩
  | login c => exact rfl
  | logout headers =>
    simp only [received, logout]
    split <;> trivial

/-- The accounts are those registered, and every request has earned its next statement. -/
structure Sound (lower : String → String) (p : Primitives) (cfg : Config) (events : List Event) :
    Prop where
  users : ∀ id name hash,
    (∃ u ∈ (after lower p cfg events).accounts.users,
      u.id = id ∧ u.username = name ∧ u.passwordHash = hash) ↔
    ∃ c, trim c.username = name ∧ Registered p cfg lower events c hash id
  requests : ∀ r ∈ (after lower p cfg events).requests, Earned p cfg lower events r

theorem registered_next {s : Site lower} {e : Event} {u : User} (new : registered s e = some u) :
    ∃ answer id b, s.next e = some (.createUser u.username u.passwordHash, answer) ∧
      s.accounts.createUser u.username u.passwordHash answer.newId = .ok (b, id) ∧
      u = ⟨id, u.username, u.passwordHash, none⟩ := by
  unfold registered at new
  split at new
  · rename_i username hash answer next
    split at new
    · rename_i b id created
      cases new
      exact ⟨answer, id, b, next, created, rfl⟩
    · cases new
  · cases new

theorem served_of_next {s : Site lower} {e : Event} {phase : Phase} {answer : Answer}
    (next : s.next e = some (phase, answer)) :
    ∃ r ∈ s.requests, s.served e = some r ∧ r.phase = phase := by
  cases e with
  | proceed i answer' =>
    obtain ⟨r, there, same⟩ := Option.map_eq_some_iff.mp next
    cases same
    exact ⟨r, List.mem_of_getElem? there, there, rfl⟩
  | _ => cases next

/-- The step that registers an account is that of a registration with its name. -/
theorem registered_call {events : List Event} (sound : Sound lower p cfg events) {e : Event}
    {id : Uuid} {name hash : String}
    (new : registered (after lower p cfg events) e = some ⟨id, name, hash, none⟩) :
    ∃ c, trim c.username = name ∧ Registered p cfg lower (events ++ [e]) c hash id := by
  obtain ⟨answer, _, _, next, -, -⟩ := registered_next new
  obtain ⟨⟨call, phase⟩, mem, there, rfl⟩ := served_of_next next
  obtain ⟨c, salt, rfl, rfl, hashed⟩ := sound.requests _ mem
  exact ⟨c, rfl, events, e, [], salt, _, rfl, new, there, hashed⟩

theorem Registered.of_snoc {events : List Event} {e : Event} {c : Credentials} {hash : String}
    {id : Uuid} (done : Registered p cfg lower (events ++ [e]) c hash id) :
    Registered p cfg lower events c hash id ∨
      registered (after lower p cfg events) e = some ⟨id, trim c.username, hash, none⟩ := by
  obtain ⟨pre, e', post, salt, phase, split, new, there, hashed⟩ := done
  rcases Runs.split_snoc split with ⟨rfl, rfl, -⟩ | ⟨mid, -, earlier⟩
  · exact Or.inr new
  · exact Or.inl ⟨pre, e', mid, salt, phase, earlier, new, there, hashed⟩

theorem Sound.users_snoc {events : List Event} (sound : Sound lower p cfg events) (e : Event)
    (id : Uuid) (name hash : String) :
    (∃ u ∈ (after lower p cfg (events ++ [e])).accounts.users,
      u.id = id ∧ u.username = name ∧ u.passwordHash = hash) ↔
    ∃ c, trim c.username = name ∧ Registered p cfg lower (events ++ [e]) c hash id := by
  rw [after_snoc, mem_users_step, sound.users]
  constructor
  · rintro (⟨c, named, done⟩ | new)
    · exact ⟨c, named, done.more [e]⟩
    · exact registered_call sound new
  · rintro ⟨c, rfl, done⟩
    rcases done.of_snoc with earlier | new
    · exact Or.inl ⟨c, rfl, earlier⟩
    · exact Or.inr new

/-- An account that is found with its password is one that admits the login. -/
theorem Sound.findCredentials_iff {events : List Event} (sound : Sound lower p cfg events)
    (c : Credentials) (id : Uuid) :
    (∃ hash, (after lower p cfg events).accounts.findCredentials c.username =
      some (id, hash) ∧ verifyPassword p c.password hash = true) ↔ Admits p cfg lower events c id := by
  constructor
  · rintro ⟨hash, found, verifies⟩
    obtain ⟨u, mem, names, rfl, rfl⟩ := Accounts.findCredentials_eq_some_iff.mp found
    obtain ⟨c', named, done⟩ := (sound.users _ _ _).mp ⟨u, mem, rfl, rfl, rfl⟩
    exact ⟨c', u.passwordHash, done, by rw [named, names], verifies⟩
  · rintro ⟨c', hash, done, names, verifies⟩
    obtain ⟨u, mem, rfl, named, rfl⟩ := (sound.users _ _ _).mpr ⟨c', rfl, done⟩
    refine ⟨u.passwordHash, Accounts.findCredentials_eq_some_iff.mpr ?_, verifies⟩
    exact ⟨u, mem, by rw [named, names], rfl, rfl⟩

/-- What a statement leads on to has been earned. -/
theorem Sound.earned_statement {events : List Event} (sound : Sound lower p cfg events) {e : Event}
    {r : Request} {answer : Answer}
    (there : (after lower p cfg events).served e = some r)
    (mem : r ∈ (after lower p cfg events).requests)
    (next : (after lower p cfg events).next e = some (r.phase, answer)) :
    Earned p cfg lower (events ++ [e]) ⟨r.call,
      (statement p cfg (after lower p cfg events).accounts answer r.phase).2⟩ := by
  obtain ⟨call, phase⟩ := r
  have earned := sound.requests _ mem
  cases phase with
  | createUser username hash =>
    obtain ⟨c, salt, rfl, rfl, hashed⟩ := earned
    simp only [statement]
    split
    · rename_i b id created
      refine Or.inl ⟨c, salt, hash, rfl, events, e, [], salt, _, rfl, ?_, there, hashed⟩
      simp only [registered, next, created]
    · trivial
    · trivial
  | findCredentials c =>
    obtain rfl := earned
    simp only [statement]
    split
    · rename_i id hash found
      split
      · rename_i verifies
        have admits := (sound.findCredentials_iff c id).mp ⟨hash, found, verifies⟩
        exact Or.inr ⟨c, rfl, admits.more [e]⟩
      · trivial
    · trivial
  | createSession id =>
    simp only [statement]
    rcases issueSession_cases p cfg (after lower p cfg events).accounts id answer with
      ⟨r, b, issued, -⟩ | ⟨phase, issued, rfl | rfl⟩ <;> rw [issued] <;> trivial
  | _ => trivial

variable (lower p cfg) in
theorem sound_after (events : List Event) : Sound lower p cfg events := by
  induction events using List.reverseRecOn with
  | nil =>
    refine ⟨?_, List.forall_mem_nil _⟩
    intro id name hash
    constructor
    · rintro ⟨u, mem, -⟩
      cases mem
    · rintro ⟨c, -, pre, e, post, salt, phase, split, -⟩
      exact absurd split (by simp)
  | append_singleton events e sound =>
    refine ⟨sound.users_snoc e, ?_⟩
    intro r mem
    rw [after_snoc] at mem
    rcases mem_requests_step mem with old | ⟨c, -, rfl⟩ | ⟨old, answer, there, next, rfl⟩
    · exact (sound.requests r old).more [e]
    · exact earned_received _ c
    · obtain ⟨r', mem', there', -⟩ := served_of_next next
      rw [there, Option.some.injEq] at there'
      subst there'
      exact sound.earned_statement there mem' next

/-- In every interleaving, a login is let in as account `id` exactly if a registration has
created `id` under its name, up to the case of letters, and its password verifies against the
hash made then; any other login is unauthorized. -/
theorem login_iff_registered (events : List Event) (c : Credentials) (answer : Answer) (id : Uuid) :
    let s := after lower p cfg events
    ((statement p cfg s.accounts answer (.findCredentials c)).2 = .createSession id ↔
      Admits p cfg lower events c id) ∧
    ((∀ id', ¬ Admits p cfg lower events c id') →
      (statement p cfg s.accounts answer (.findCredentials c)).2 = .replied (.error .unauthorized)) := by
  intro s
  have sound := sound_after lower p cfg events
  cases found : s.accounts.findCredentials c.username with
  | none =>
    have nobody : ∀ id', ¬ Admits p cfg lower events c id' := by
      intro id' admits
      obtain ⟨hash, there, -⟩ := (sound.findCredentials_iff c id').mpr admits
      rw [found] at there
      cases there
    simp only [statement, found, reduceCtorEq, false_iff, implies_true, and_true]
    exact nobody id
  | some account =>
    obtain ⟨id', hash⟩ := account
    by_cases verifies : verifyPassword p c.password hash = true
    · have admits := (sound.findCredentials_iff c id').mp ⟨hash, found, verifies⟩
      simp only [statement, found, verifies, if_true, Phase.createSession.injEq, reduceCtorEq, imp_false]
      refine ⟨⟨?_, ?_⟩, fun nobody => nobody id' admits⟩
      · rintro rfl
        exact admits
      · intro other
        obtain ⟨hash', there, -⟩ := (sound.findCredentials_iff c id).mpr other
        rw [found] at there
        cases there
        rfl
    · simp only [statement, found, verifies, reduceCtorEq, false_iff, implies_true, and_true,
        Bool.false_eq_true, if_false]
      intro admits
      obtain ⟨hash', there, verified⟩ := (sound.findCredentials_iff c id).mpr admits
      rw [found] at there
      cases there
      exact verifies verified

/-- In every interleaving, a session is handed out to the registration that created its account,
or to a login that names the account and whose password verifies. -/
theorem handedOut_earned (events : List Event) (e : Event) (r : SessionResponse)
    (out : handedOut p cfg (after lower p cfg events) e = some r) :
    ∃ call phase, (after lower p cfg events).served e = some ⟨call, phase⟩ ∧
      ((∃ c salt hash, call = .register c salt ∧ Registered p cfg lower events c hash r.userId) ∨
        ∃ c, call = .login c ∧ Admits p cfg lower events c r.userId) := by
  cases next : (after lower p cfg events).next e with
  | none => simp only [handedOut, next, reduceCtorEq] at out
  | some pair =>
    obtain ⟨phase, answer⟩ := pair
    obtain ⟨⟨call, phase'⟩, mem, there, rfl⟩ := served_of_next next
    cases phase' with
    | createSession id =>
      rcases issueSession_cases p cfg (after lower p cfg events).accounts id
        answer with ⟨r', b, issued, -, rfl, -⟩ | ⟨phase, issued, refused⟩
      · simp only [handedOut, next, issued, Option.some.injEq] at out
        subst out
        exact ⟨call, _, there, (sound_after lower p cfg events).requests _ mem⟩
      · simp only [handedOut, next, issued] at out
        rcases refused with rfl | rfl <;> cases out
    | _ => simp only [handedOut, next, reduceCtorEq] at out

end

/-- `lower` of ASCII letters. -/
def lowerAscii (s : String) : String := String.ofList (s.toList.map Char.toLower)

/-- Argon2id of "correct horse" with the salt "sixteen byte slt", SHA-256 of the token of the bytes
0 to 31, and AES-256-GCM of "SID=a" with the key of these bytes and the nonce of the first 12. -/
def samplePrimitives : Primitives where
  argon2 _ _ :=
    some "$argon2id$v=19$m=19456,t=2,p=1$c2l4dGVlbiBieXRlIHNsdA$G/bFSWjBTx+oD5UAxzUD+cpH7AFcbWp48NzvOCVG3rM"
  argon2Verify _ phc :=
    phc = "$argon2id$v=19$m=19456,t=2,p=1$c2l4dGVlbiBieXRlIHNsdA$G/bFSWjBTx+oD5UAxzUD+cpH7AFcbWp48NzvOCVG3rM"
  sha256 _ :=
    [108, 134, 198, 170, 197, 251, 36, 188, 245, 217, 147, 156, 183, 215, 213, 100, 92, 227, 148, 24,
      244, 73, 224, 59, 38, 45, 212, 250, 20, 180, 185, 43]
  aesEncrypt _ _ plain :=
    if plain = [83, 73, 68, 61, 97] then
      some [20, 75, 146, 38, 164, 254, 154, 4, 239, 250, 181, 222, 223, 216, 212, 207, 11, 40, 150, 107,
        164]
    else none
  aesDecrypt _ _ cipher :=
    if cipher = [20, 75, 146, 38, 164, 254, 154, 4, 239, 250, 181, 222, 223, 216, 212, 207, 11, 40, 150,
      107, 164] then some [83, 73, 68, 61, 97]
    else none

def sampleConfig : Config where
  sessionTtl := 2592000
  internalApiKey := none
  cookieEncryptionKey := ⟨(List.range 32).map UInt8.ofNat, by decide⟩

/-- User 7 registers, up to the account. -/
def sampleRegistration : List Event :=
  [.call (.register ⟨" Bob ", "correct horse"⟩ (Percent.encode "sixteen byte slt".toList)),
    .proceed 0 ⟨7, [], 0⟩]

theorem handedOut_sampleRegistration :
    ∃ call phase, (after lowerAscii samplePrimitives sampleConfig sampleRegistration).served
        (.proceed 0 ⟨0, (List.range 32).map UInt8.ofNat, 1⟩) = some ⟨call, phase⟩ ∧
      ((∃ c salt hash, call = .register c salt ∧
        Registered samplePrimitives sampleConfig lowerAscii sampleRegistration c hash 7) ∨
        ∃ c, call = .login c ∧ Admits samplePrimitives sampleConfig lowerAscii sampleRegistration c 7) :=
  handedOut_earned sampleRegistration (.proceed 0 ⟨0, (List.range 32).map UInt8.ofNat, 1⟩)
    ⟨"000102030405060708090a0b0c0d0e0f101112131415161718191a1b1c1d1e1f", 7, 2592000000001⟩ (by decide)

end BVault.Auth
