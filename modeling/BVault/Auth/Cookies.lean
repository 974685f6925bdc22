import BVault.Auth.Login

/-!
# A user's cookies

The cookies are sealed before they are stored and opened when they are read.
What a user reads back is what was last set for that user, whoever else set,
registered or logged in in between; what was set for nobody's id is lost.
-/

namespace BVault.Auth

open BVault.Meta (Uuid)

namespace Accounts

variable {lower : String → String} {a b : Accounts lower}

theorem cookies_of_users (same : b.users = a.users) (id : Uuid) : b.cookies id = a.cookies id := by
  rw [cookies, same]
  rfl

theorem cookies_createUser {username hash : String} {newId id' : Uuid}
    (created : a.createUser username hash newId = .ok (b, id')) (id : Uuid) :
    b.cookies id = if newId = id then some none else a.cookies id := by
  obtain ⟨-, fresh, rows, -⟩ := createUser_eq_ok created
  rw [cookies, rows, List.find?_append]
  split
  · rename_i same
    subst same
    have before : a.users.find? (fun u => u.id = newId) = none := by
      rw [List.find?_eq_none]
      intro u mem key
      exact fresh (List.mem_map.mpr ⟨u, mem, of_decide_eq_true key⟩)
    rw [before, Option.none_or, List.find?_cons_of_pos (by simp)]
    rfl
  · rename_i other
    rw [List.find?_cons_of_neg (by simp [other]), List.find?_nil, Option.or_none]
    rfl

theorem cookies_updateCookies (a : Accounts lower) (user : Uuid) (ciphertext : Bytes) (id : Uuid) :
    (a.updateCookies user ciphertext).cookies id =
      if user = id then (a.cookies id).map fun _ => some ciphertext else a.cookies id := by
  have rows : (a.updateCookies user ciphertext).users.find? (fun u => u.id = id) =
      (a.users.find? fun u => u.id = id).map (withCookies user ciphertext) := by
    simp only [updateCookies, List.find?_map, Function.comp_def, withCookies_id]
  rw [cookies, rows, cookies]
  cases found : a.users.find? (fun u => u.id = id) with
  | none => simp only [Option.map_none, ite_self]
  | some u =>
    have key := List.find?_some found
    rw [decide_eq_true_eq] at key
    subst key
    by_cases same : user = u.id
    · simp [withCookies, same]
    · simp [withCookies, same, Ne.symm same]

end Accounts

section
variable {lower : String → String} (p : Primitives) (cfg : Config)

/-- What a step does to the cookies of a user who has a row. -/
def cookieEffect (id : Uuid) (s : Site lower) (e : Event) : LastWrite.Effect (Option Bytes) :=
  match registered s e, e with
  | some u, _ => if u.id = id then .put none else .keep
  | none, .setYoutubeCookies user text nonce =>
    match encryptCookie p text cfg.cookieEncryptionKey.val nonce with
    | .ok ciphertext =>
      if user = id ∧ (s.accounts.cookies id).isSome then .put (some ciphertext) else .keep
    | .error _ => .keep
  | none, _ => .keep

/-- Somebody has registered under this id. -/
def HasAccount (lower : String → String) (events : List Event) (id : Uuid) : Prop :=
  ∃ c hash, Registered p cfg lower events c hash id

/-- The run sets these cookies for the user, who has an account by then, and no later step sets
others. -/
def LastSet (lower : String → String) (events : List Event) (id : Uuid) (text : String) : Prop :=
  ∃ pre post nonce payload, events = pre ++ .setYoutubeCookies id text nonce :: post ∧
    HasAccount p cfg lower pre id ∧
    encryptCookie p text cfg.cookieEncryptionKey.val nonce = .ok payload ∧
    ∀ mid text' nonce' rest payload', post = mid ++ .setYoutubeCookies id text' nonce' :: rest →
      encryptCookie p text' cfg.cookieEncryptionKey.val nonce' ≠ .ok payload'

variable {p cfg}

variable (lower p cfg) in
theorem cookies_isSome_iff (events : List Event) (id : Uuid) :
    ((after lower p cfg events).accounts.cookies id).isSome ↔
      HasAccount p cfg lower events id := by
  have users := (sound_after lower p cfg events).users
  rw [Option.isSome_iff_exists]
  constructor
  · rintro ⟨c, found⟩
    obtain ⟨u, mem, rfl, -⟩ := Accounts.cookies_eq_some_iff.mp found
    obtain ⟨c, -, done⟩ := (users _ _ _).mp ⟨u, mem, rfl, rfl, rfl⟩
    exact ⟨c, u.passwordHash, done⟩
  · rintro ⟨c, hash, done⟩
    obtain ⟨u, mem, same, -⟩ := (users _ _ _).mpr ⟨c, rfl, done⟩
    exact ⟨u.youtubeCookies, Accounts.cookies_eq_some_iff.mpr ⟨u, mem, same, rfl⟩⟩

theorem cookies_step (s : Site lower) (e : Event) (id : Uuid) :
    (step p cfg s e).accounts.cookies id = (cookieEffect p cfg id s e).on (s.accounts.cookies id) := by
  rcases step_accounts p cfg s e with
    ⟨phase, answer, next, accounts⟩ | ⟨next, accounts⟩ | ⟨user, ciphertext, next, set, accounts⟩
  · obtain ⟨i, rfl⟩ : ∃ i, e = .proceed i answer := by
      cases e with
      | proceed i answer' =>
        obtain ⟨r, -, same⟩ := Option.map_eq_some_iff.mp next
        cases same
        exact ⟨i, rfl⟩
      | _ => cases next
    rw [accounts]
    cases new : registered s (.proceed i answer) with
    | some u =>
      obtain ⟨answer', id', b, next', created, same⟩ := registered_next new
      rw [next, Option.some.injEq, Prod.mk.injEq] at next'
      obtain ⟨rfl, rfl⟩ := next'
      have key : u.id = answer.newId := by
        rw [same]
        exact (Accounts.createUser_eq_ok created).1
      simp only [statement, created, cookieEffect, new]
      rw [Accounts.cookies_createUser created, key]
      split <;> rfl
    | none =>
      simp only [cookieEffect, new, LastWrite.Effect.on]
      refine Accounts.cookies_of_users ?_ id
      cases phase with
      | createUser username hash =>
        simp only [statement]
        split
        · rename_i created
          simp only [registered, next, created, reduceCtorEq] at new
        · rfl
        · rfl
      | findCredentials c =>
        simp only [statement]
        split
        · split <;> rfl
        · rfl
      | createSession userId =>
        simp only [statement]
        rcases issueSession_cases p cfg s.accounts userId answer with
          ⟨r, b, issued, -, -, -, created⟩ | ⟨phase, issued, -⟩
        · rw [issued]
          exact (Accounts.createSession_eq_ok created).2.1
        · rw [issued]
      | _ => rfl
  · have none_ : registered s e = none := by simp only [registered, next]
    rw [accounts]
    cases e with
    | setYoutubeCookies user text nonce =>
      cases encrypted : encryptCookie p text cfg.cookieEncryptionKey.val nonce with
      | error fault => simp only [cookieEffect, none_, encrypted, LastWrite.Effect.on]
      | ok ciphertext =>
        -- the statement ran and changed nothing
        have ran := congrArg (fun a => a.cookies id) accounts
        simp only [step, setYoutubeCookies, encrypted] at ran
        rw [Accounts.cookies_updateCookies] at ran
        simp only [cookieEffect, none_, encrypted]
        split
        · rename_i both
          obtain ⟨old, there⟩ := Option.isSome_iff_exists.mp both.2
          rw [if_pos both.1, there, Option.map_some] at ran
          rw [there, ← ran]
          rfl
        · rfl
    | _ => simp only [cookieEffect, none_, LastWrite.Effect.on]
  · obtain ⟨text, nonce, rfl, encrypted⟩ := set
    have none_ : registered s (.setYoutubeCookies user text nonce) = none := by
      simp only [registered, next]
    rw [accounts, Accounts.cookies_updateCookies]
    simp only [cookieEffect, none_, encrypted]
    by_cases same : user = id
    · cases found : s.accounts.cookies id with
      | none => simp [same, LastWrite.Effect.on]
      | some old => simp [same, LastWrite.Effect.on]
    · simp [same, LastWrite.Effect.on]

theorem cookieEffect_set {s : Site lower} {id : Uuid} {text : String} {nonce : Nonce} {payload : Bytes}
    (there : (s.accounts.cookies id).isSome)
    (encrypted : encryptCookie p text cfg.cookieEncryptionKey.val nonce = .ok payload) :
    cookieEffect p cfg id s (.setYoutubeCookies id text nonce) = .put (some payload) := by
  simp only [cookieEffect, registered, Site.next, encrypted, true_and]
  rw [if_pos there]

/-- Only the cookies of a user who has a row are ever written, and only by setting them. -/
theorem set_of_cookieEffect {s : Site lower} {e : Event} {id : Uuid} {payload : Bytes}
    (put : cookieEffect p cfg id s e = .put (some payload)) :
    ∃ text nonce, e = .setYoutubeCookies id text nonce ∧ (s.accounts.cookies id).isSome ∧
      encryptCookie p text cfg.cookieEncryptionKey.val nonce = .ok payload := by
  unfold cookieEffect at put
  split at put
  · split at put <;> cases put
  · rename_i user text nonce new
    split at put
    · rename_i ciphertext encrypted
      split at put
      · rename_i both
        cases put
        obtain ⟨rfl, some_⟩ := both
        exact ⟨text, nonce, rfl, some_, encrypted⟩
      · cases put
    · cases put
  · cases put

/-- The id of an account is not given out again. -/
theorem registered_fresh {s : Site lower} {e : Event} {u : User} (new : registered s e = some u) :
    s.accounts.cookies u.id = none := by
  obtain ⟨answer, id, b, -, created, same⟩ := registered_next new
  obtain ⟨rfl, fresh, -⟩ := Accounts.createUser_eq_ok created
  cases found : s.accounts.cookies u.id with
  | none => rfl
  | some c =>
    obtain ⟨u', mem, key, -⟩ := Accounts.cookies_eq_some_iff.mp found
    have id_eq : u.id = answer.newId := by rw [same]
    exact absurd (List.mem_map.mpr ⟨u', mem, key.trans id_eq⟩) fresh

theorem cookies_kept {s : Site lower} {e : Event} {id : Uuid} {c : Option Bytes}
    (there : s.accounts.cookies id = some c)
    (quiet : ∀ text nonce payload, e = .setYoutubeCookies id text nonce →
      encryptCookie p text cfg.cookieEncryptionKey.val nonce ≠ .ok payload) :
    (step p cfg s e).accounts.cookies id = some c := by
  rw [cookies_step]
  cases does : cookieEffect p cfg id s e with
  | keep => exact there
  | put value =>
    cases value with
    | some payload =>
      obtain ⟨text, nonce, rfl, -, encrypted⟩ := set_of_cookieEffect does
      exact absurd encrypted (quiet text nonce payload rfl)
    | none =>
      unfold cookieEffect at does
      split at does
      · rename_i u new
        split at does
        · rename_i same
          have fresh := registered_fresh new
          rw [same, there] at fresh
          cases fresh
        · cases does
      · split at does
        · split at does <;> cases does
        · cases does
      · cases does
  | clear =>
    unfold cookieEffect at does
    split at does
    · split at does <;> cases does
    · split at does
      · split at does <;> cases does
      · cases does
    · cases does

variable (lower p cfg) in
/-- What is stored is what was last set. -/
theorem cookies_after_iff (events : List Event) (id : Uuid) (payload : Bytes) :
    (after lower p cfg events).accounts.cookies id = some (some payload) ↔
      ∃ pre post text nonce, events = pre ++ .setYoutubeCookies id text nonce :: post ∧
        HasAccount p cfg lower pre id ∧
        encryptCookie p text cfg.cookieEncryptionKey.val nonce = .ok payload ∧
        ∀ mid text' nonce' rest payload', post = mid ++ .setYoutubeCookies id text' nonce' :: rest →
          encryptCookie p text' cfg.cookieEncryptionKey.val nonce' ≠ .ok payload' := by
  constructor
  · intro found
    have last := (LastWrite.look_run_iff (fun s : Site lower => s.accounts.cookies id)
      (fun s e => cookies_step s e id) rfl events (some payload)).mp found
    obtain ⟨pre, e, post, rfl, wrote, quiet⟩ := last
    obtain ⟨text, nonce, rfl, some_, encrypted⟩ := set_of_cookieEffect wrote
    have account := (cookies_isSome_iff lower p cfg pre id).mp some_
    refine ⟨pre, post, text, nonce, rfl, account, encrypted, ?_⟩
    intro mid text' nonce' rest payload' split encrypted'
    -- the account is still there, so the later set would have written
    obtain ⟨c, hash, done⟩ := account
    have later := (cookies_isSome_iff lower p cfg
      (pre ++ .setYoutubeCookies id text nonce :: mid) id).mpr ⟨c, hash, done.more _⟩
    have kept := quiet mid _ rest split
    have put := cookieEffect_set later encrypted'
    exact absurd (put.symm.trans kept) (by simp)
  · rintro ⟨pre, post, text, nonce, rfl, account, encrypted, quiet⟩
    have wrote : (after lower p cfg
        (pre ++ [.setYoutubeCookies id text nonce])).accounts.cookies id = some (some payload) := by
      have there := (cookies_isSome_iff lower p cfg pre id).mpr account
      rw [after_snoc, cookies_step, cookieEffect_set there encrypted]
      rfl
    have stays : ∀ mid rest, post = mid ++ rest → (after lower p cfg
        (pre ++ .setYoutubeCookies id text nonce :: mid)).accounts.cookies id =
          some (some payload) := by
      intro mid
      induction mid using List.reverseRecOn with
      | nil => exact fun _ _ => wrote
      | append_singleton mid m ih =>
        intro rest split
        have before := ih (m :: rest) (by rw [split, List.append_assoc]; rfl)
        have longer : pre ++ .setYoutubeCookies id text nonce :: (mid ++ [m]) =
            (pre ++ .setYoutubeCookies id text nonce :: mid) ++ [m] := by simp
        rw [longer, after_snoc]
        refine cookies_kept before ?_
        rintro text' nonce' payload' rfl
        exact quiet mid text' nonce' rest payload' (by rw [split, List.append_assoc]; rfl)
    exact stays post [] (by rw [List.append_nil])

/-- In every run a user reads the cookies last set for that user; before any were set the answer
is that there are none, and for an id without an account it is an internal error. -/
theorem getYoutubeCookies_after
    (inverse : ∀ key nonce plain cipher, p.aesEncrypt key nonce plain = some cipher →
      p.aesDecrypt key nonce cipher = some plain) (events : List Event) (id : Uuid) :
    let answer := getYoutubeCookies p cfg (after lower p cfg events).accounts id
    (∀ text, answer = .ok text ↔ LastSet p cfg lower events id text) ∧
    (answer = .error .internal ↔ ¬ HasAccount p cfg lower events id) ∧
    (answer = .error .notFound ↔
      HasAccount p cfg lower events id ∧ ∀ text, ¬ LastSet p cfg lower events id text) := by
  intro answer
  have account := cookies_isSome_iff lower p cfg events id
  have stored := cookies_after_iff lower p cfg events id
  -- the three answers are those of no row, of a null and of a ciphertext
  cases found : (after lower p cfg events).accounts.cookies id with
  | none =>
    have lacks : ¬ HasAccount p cfg lower events id := by
      rw [← account, found]
      exact Bool.false_ne_true
    have unset : ∀ text, ¬ LastSet p cfg lower events id text := by
      rintro text ⟨pre, post, nonce, payload, split, there, encrypted, quiet⟩
      have value := (stored payload).mpr ⟨pre, post, text, nonce, split, there, encrypted, quiet⟩
      rw [found] at value
      cases value
    have here : answer = .error .internal := by simp only [answer, getYoutubeCookies, found]
    simp [here, lacks, unset]
  | some value =>
    have has : HasAccount p cfg lower events id := by
      rw [← account, found]
      rfl
    cases value with
    | none =>
      have unset : ∀ text, ¬ LastSet p cfg lower events id text := by
        rintro text ⟨pre, post, nonce, payload, split, there, encrypted, quiet⟩
        have value := (stored payload).mpr ⟨pre, post, text, nonce, split, there, encrypted, quiet⟩
        rw [found] at value
        cases value
      have here : answer = .error .notFound := by simp only [answer, getYoutubeCookies, found]
      simp [here, has, unset]
    | some payload =>
      obtain ⟨pre, post, text, nonce, split, there, encrypted, quiet⟩ := (stored payload).mp found
      have set : LastSet p cfg lower events id text :=
        ⟨pre, post, nonce, payload, split, there, encrypted, quiet⟩
      have opened := decrypt_of_encrypt inverse encrypted
      have here : answer = .ok text := by simp only [answer, getYoutubeCookies, found, opened]
      have only : ∀ text', LastSet p cfg lower events id text' → text' = text := by
        rintro text' ⟨pre', post', nonce', payload', split', there', encrypted', quiet'⟩
        have value := (stored payload').mpr
          ⟨pre', post', text', nonce', split', there', encrypted', quiet'⟩
        rw [found, Option.some.injEq, Option.some.injEq] at value
        subst value
        have opened' := decrypt_of_encrypt inverse encrypted'
        rw [opened] at opened'
        exact (Except.ok.inj opened').symm
      refine ⟨?_, ?_, ?_⟩
      · intro text'
        rw [here, Except.ok.injEq]
        constructor
        · rintro rfl
          exact set
        · intro set'
          exact (only text' set').symm
      · simp [here, has]
      · simp only [here, reduceCtorEq, false_iff, not_and, not_forall, not_not]
        exact fun _ => ⟨text, set⟩

end

theorem samplePrimitives_inverse (key nonce plain cipher : Bytes)
    (made : samplePrimitives.aesEncrypt key nonce plain = some cipher) :
    samplePrimitives.aesDecrypt key nonce cipher = some plain := by
  simp only [samplePrimitives] at made ⊢
  split at made
  · rename_i same
    cases made
    rw [if_pos rfl, same]
  · cases made

/-- User 7 has registered and sets "SID=a". -/
def sampleCookies : List Event :=
  sampleRegistration ++
    [.setYoutubeCookies 7 "SID=a" ⟨(List.range 12).map UInt8.ofNat, by decide⟩]

theorem getYoutubeCookies_sampleCookies :
    let answer := getYoutubeCookies samplePrimitives sampleConfig
      (after lowerAscii samplePrimitives sampleConfig sampleCookies).accounts 7
    (∀ text, answer = .ok text ↔ LastSet samplePrimitives sampleConfig lowerAscii sampleCookies 7 text) ∧
    (answer = .error .internal ↔
      ¬ HasAccount samplePrimitives sampleConfig lowerAscii sampleCookies 7) ∧
    (answer = .error .notFound ↔
      HasAccount samplePrimitives sampleConfig lowerAscii sampleCookies 7 ∧
        ∀ text, ¬ LastSet samplePrimitives sampleConfig lowerAscii sampleCookies 7 text) :=
  getYoutubeCookies_after samplePrimitives_inverse sampleCookies 7

example : getYoutubeCookies samplePrimitives sampleConfig
    (after lowerAscii samplePrimitives sampleConfig sampleCookies).accounts 7 =
      .ok "SID=a" := by
  decide

end BVault.Auth
