import BVault.Auth.Handlers

/-!
# Which tokens are accepted

The row under a fingerprint is the work of the last step that handed out or
logged out a token with it. So a token is accepted until its session expires, or
until somebody logs out with it, and never otherwise.
-/

namespace BVault.Auth

open BVault.Meta (Uuid)

namespace Accounts

variable {lower : String → String} {a b : Accounts lower}

theorem session_createSession {tokenHash h : String} {userId : Uuid} {expiresAt : Nat}
    (created : a.createSession tokenHash userId expiresAt = .ok b) :
    b.session h = if tokenHash = h then some ⟨tokenHash, userId, expiresAt⟩ else a.session h := by
  obtain ⟨fresh, -, rows⟩ := createSession_eq_ok created
  rw [session, rows, List.find?_append]
  split
  · rename_i same
    subst same
    have before : a.sessions.find? (fun s => s.tokenHash = tokenHash) = none := by
      rw [List.find?_eq_none]
      intro s mem key
      exact fresh (List.mem_map.mpr ⟨s, mem, of_decide_eq_true key⟩)
    rw [before, Option.none_or, List.find?_cons_of_pos (by simp)]
  · rename_i other
    rw [List.find?_cons_of_neg (by simp [other]), List.find?_nil, Option.or_none]
    rfl

theorem session_deleteSession (a : Accounts lower) (tokenHash h : String) :
    (a.deleteSession tokenHash).session h = if tokenHash = h then none else a.session h := by
  rw [session, deleteSession, List.find?_filter]
  split
  · rename_i same
    rw [List.find?_eq_none]
    intro s _ both
    have both := of_decide_eq_true both
    simp [same] at both
  · rename_i other
    refine congrArg (fun keep => a.sessions.find? keep) (funext fun s => ?_)
    by_cases key : s.tokenHash = h
    · simp [key, Ne.symm other]
    · simp [key]

theorem session_of_sessions (same : b.sessions = a.sessions) (h : String) :
    b.session h = a.session h := by
  rw [session, same]
  rfl

end Accounts

section
variable {lower : String → String} (p : Primitives) (cfg : Config)

/-- What a step does to the row under a fingerprint. -/
def effect (h : String) (s : Site lower) (e : Event) : LastWrite.Effect Session :=
  match handedOut p cfg s e with
  | some r => if hashToken p r.token = h then .put ⟨h, r.userId, r.expiresAt⟩ else .keep
  | none => if loggedOut s e = some h then .clear else .keep

/-- The run hands out a session with the fingerprint of `token`, and nobody logs out with it
behind that. -/
def Live (lower : String → String) (events : List Event) (token : String)
    (r : SessionResponse) : Prop :=
  ∃ pre e post, events = pre ++ e :: post ∧
    handedOut p cfg (after lower p cfg pre) e = some r ∧
    hashToken p r.token = hashToken p token ∧
    ∀ mid m rest, post = mid ++ m :: rest →
      loggedOut (after lower p cfg (pre ++ e :: mid)) m ≠ some (hashToken p token)

variable {p cfg}

variable (p cfg) in
/-- Steps that neither hand out nor log out leave the sessions as they are. -/
theorem effect_keep {s : Site lower} {e : Event} {h : String} {phase : Phase} {answer : Answer}
    (next : s.next e = some (phase, answer)) (notIssue : ∀ userId, phase ≠ .createSession userId)
    (notDelete : ∀ tokenHash, phase ≠ .deleteSession tokenHash) :
    effect p cfg h s e = .keep ∧ (statement p cfg s.accounts answer phase).1.sessions =
      s.accounts.sessions := by
  have silent : handedOut p cfg s e = none ∧ loggedOut s e = none := by
    simp only [handedOut, loggedOut, next]
    cases phase with
    | createSession userId => exact absurd rfl (notIssue userId)
    | deleteSession tokenHash => exact absurd rfl (notDelete tokenHash)
    | _ => exact ⟨rfl, rfl⟩
  refine ⟨by simp only [effect, silent, if_false, reduceCtorEq], ?_⟩
  cases phase with
  | createUser username hash =>
    rw [statement]
    split
    · rename_i b id created
      exact (Accounts.createUser_eq_ok created).2.2.2
    · rfl
    · rfl
  | findCredentials c =>
    rw [statement]
    split
    · split <;> rfl
    · rfl
  | createSession userId => exact absurd rfl (notIssue userId)
  | deleteSession tokenHash => exact absurd rfl (notDelete tokenHash)
  | replied reply => rfl
  | panicked => rfl

theorem effect_of_none {s : Site lower} {e : Event} {h : String} (next : s.next e = none) :
    effect p cfg h s e = .keep := by
  simp only [effect, handedOut, loggedOut, next, reduceCtorEq, if_false]

variable (p cfg) in
/-- A step does its effect to the row under each fingerprint. -/
theorem session_step (s : Site lower) (e : Event) (h : String) :
    (step p cfg s e).accounts.session h = (effect p cfg h s e).on (s.accounts.session h) := by
  rcases step_accounts p cfg s e with
    ⟨phase, answer, next, accounts⟩ | ⟨next, accounts⟩ | ⟨user, ciphertext, next, -, accounts⟩
  · rw [accounts]
    cases phase with
    | createSession userId =>
      rcases issueSession_cases p cfg s.accounts userId answer with
        ⟨r, b, issued, -, owner, -, created⟩ | ⟨phase, issued, refused⟩
      · have out : handedOut p cfg s e = some r := by
          simp only [handedOut, next, issued]
        simp only [statement, issued, effect, out]
        rw [Accounts.session_createSession created]
        split
        · rename_i same
          rw [← same, owner]
          rfl
        · rfl
      · have out : handedOut p cfg s e = none := by
          simp only [handedOut, next, issued]
          rcases refused with rfl | rfl <;> rfl
        have stays : loggedOut s e = none := by simp only [loggedOut, next]
        simp only [statement, issued, effect, out, stays, reduceCtorEq, if_false]
        rfl
    | deleteSession tokenHash =>
      have out : handedOut p cfg s e = none := by simp only [handedOut, next]
      have gone : loggedOut s e = some tokenHash := by simp only [loggedOut, next]
      simp only [statement, effect, out, gone, Option.some.injEq]
      rw [Accounts.session_deleteSession]
      split <;> rfl
    | _ =>
      obtain ⟨keeps, rows⟩ := effect_keep (h := h) p cfg next nofun nofun
      rw [keeps, Accounts.session_of_sessions rows]
      rfl
  · rw [accounts, effect_of_none next]
    rfl
  · rw [accounts, effect_of_none next]
    rfl

theorem handedOut_of_effect {s : Site lower} {e : Event} {h : String} {row : Session}
    (put : effect p cfg h s e = .put row) :
    ∃ r, handedOut p cfg s e = some r ∧ hashToken p r.token = h ∧
      row = ⟨h, r.userId, r.expiresAt⟩ := by
  unfold effect at put
  split at put
  · rename_i r out
    split at put
    · rename_i same
      cases put
      exact ⟨r, out, same, rfl⟩
    · cases put
  · split at put <;> cases put

theorem not_loggedOut_of_effect {s : Site lower} {e : Event} {h : String}
    (keep : effect p cfg h s e = .keep) : loggedOut s e ≠ some h := by
  intro gone
  have out : handedOut p cfg s e = none := by
    cases next : s.next e with
    | none => simp only [handedOut, next]
    | some pair =>
      obtain ⟨phase, answer⟩ := pair
      simp only [loggedOut, next] at gone
      cases phase with
      | deleteSession tokenHash => simp only [handedOut, next]
      | _ => cases gone
  simp only [effect, out, gone, if_true] at keep
  cases keep

/-- While nobody logs out with the fingerprint, its row stays. -/
theorem session_kept {s : Site lower} {e : Event} {h : String} {row : Session}
    (there : s.accounts.session h = some row) (stays : loggedOut s e ≠ some h) :
    (step p cfg s e).accounts.session h = some row := by
  have after := session_step p cfg s e h
  cases does : effect p cfg h s e with
  | keep => rw [after, does, there]; rfl
  | put row' =>
    obtain ⟨r, out, rfl, -⟩ := handedOut_of_effect does
    -- the primary key refuses a second row of the fingerprint
    cases next : s.next e with
    | none => simp only [handedOut, next, reduceCtorEq] at out
    | some pair =>
      obtain ⟨phase, answer⟩ := pair
      cases phase with
      | createSession userId =>
        rcases issueSession_cases p cfg s.accounts userId answer with
          ⟨r', b, issued, -, -, -, created⟩ | ⟨phase, issued, refused⟩
        · simp only [handedOut, next, issued, Option.some.injEq] at out
          subst out
          obtain ⟨mem, key⟩ := Accounts.session_eq_some_iff.mp there
          exact absurd (List.mem_map.mpr ⟨row, mem, key⟩) (Accounts.createSession_eq_ok created).1
        · simp only [handedOut, next, issued] at out
          rcases refused with rfl | rfl <;> cases out
      | _ => simp only [handedOut, next, reduceCtorEq] at out
  | clear =>
    unfold effect at does
    split at does
    · split at does <;> cases does
    · split at does
      · rename_i gone
        exact absurd gone stays
      · cases does

/-- A live session is in the table, and nothing else is. -/
theorem session_after_iff (events : List Event) (token : String) (row : Session) :
    (after lower p cfg events).accounts.session (hashToken p token) = some row ↔
      ∃ r, Live p cfg lower events token r ∧ row = ⟨hashToken p token, r.userId, r.expiresAt⟩ := by
  constructor
  · intro found
    have last := (LastWrite.look_run_iff (fun s : Site lower => s.accounts.session (hashToken p token))
      (fun s e => session_step p cfg s e _) rfl events row).mp found
    obtain ⟨pre, e, post, rfl, wrote, quiet⟩ := last
    obtain ⟨r, out, same, rfl⟩ := handedOut_of_effect wrote
    refine ⟨r, ⟨pre, e, post, rfl, out, same, ?_⟩, rfl⟩
    intro mid m rest split
    exact not_loggedOut_of_effect (quiet mid m rest split)
  · rintro ⟨r, ⟨pre, e, post, rfl, out, same, quiet⟩, rfl⟩
    have wrote : (after lower p cfg (pre ++ [e])).accounts.session (hashToken p token) =
        some ⟨hashToken p token, r.userId, r.expiresAt⟩ := by
      rw [after_snoc, session_step, effect, out]
      simp only [same, if_true]
      rfl
    have stays : ∀ mid rest, post = mid ++ rest →
        (after lower p cfg (pre ++ e :: mid)).accounts.session (hashToken p token) =
          some ⟨hashToken p token, r.userId, r.expiresAt⟩ := by
      intro mid
      induction mid using List.reverseRecOn with
      | nil => exact fun _ _ => wrote
      | append_singleton mid m ih =>
        intro rest split
        have before := ih (m :: rest) (by rw [split, List.append_assoc]; rfl)
        have longer : pre ++ e :: (mid ++ [m]) = (pre ++ e :: mid) ++ [m] := by simp
        rw [longer, after_snoc]
        exact session_kept before (quiet mid m rest (by rw [split, List.append_assoc]; rfl))
    exact stays post [] (by rw [List.append_nil])

theorem lookupSession_after_iff (events : List Event) (token : String) (now : Nat) (id : Uuid) :
    (after lower p cfg events).accounts.lookupSession (hashToken p token) now = some id ↔
      ∃ r, Live p cfg lower events token r ∧ now < r.expiresAt ∧ r.userId = id := by
  rw [Accounts.lookupSession_eq_some_iff]
  constructor
  · rintro ⟨row, there, valid, owner⟩
    obtain ⟨r, live, rfl⟩ := (session_after_iff events token row).mp there
    exact ⟨r, live, valid, owner⟩
  · rintro ⟨r, live, valid, owner⟩
    exact ⟨_, (session_after_iff events token _).mpr ⟨r, live, rfl⟩, valid, owner⟩

theorem exportAuthUser_eq_ok_iff {a : Accounts lower} {now : Nat} {headers : Headers} {id : Uuid} :
    exportAuthUser p a now headers = .ok id ↔ ∃ token,
      headers.authorization = some ("Bearer " ++ token) ∧
        a.lookupSession (hashToken p token) now = some id := by
  have held := bearerToken_eq_some_iff headers
  unfold exportAuthUser
  cases bearer : bearerToken headers with
  | none =>
    constructor
    · intro accepted
      cases accepted
    · rintro ⟨token, there, -⟩
      rw [(held token).mpr there] at bearer
      cases bearer
  | some token =>
    have there := (held token).mp bearer
    constructor
    · intro accepted
      refine ⟨token, there, ?_⟩
      cases found : a.lookupSession (hashToken p token) now with
      | none => simp only [found, reduceCtorEq] at accepted
      | some id' =>
        simp only [found, Except.ok.injEq] at accepted
        rw [accepted]
    · rintro ⟨token', there', found⟩
      rw [(held token').mpr there', Option.some.injEq] at bearer
      subst bearer
      simp only [found]

/-- The gateway asks the export-builder's question of whoever does not come with the internal
key. -/
theorem authUser_eq (parseUuid : String → Option Uuid) (a : Accounts lower) (now : Nat)
    (headers : Headers) :
    authUser p cfg parseUuid a now headers =
      match internalUser cfg parseUuid headers with
      | some id => .ok id
      | none => exportAuthUser p a now headers := rfl

/-- In every run of registrations, logins and logouts, both services take a request for a user's
exactly if it carries the token of a live session of that user that has not expired; the gateway
also takes the word of a caller with the internal key. -/
theorem accepted_iff_live (parseUuid : String → Option Uuid) (events : List Event) (headers : Headers)
    (now : Nat) (id : Uuid) :
    (exportAuthUser p (after lower p cfg events).accounts now headers = .ok id ↔
      ∃ token r, headers.authorization = some ("Bearer " ++ token) ∧
        Live p cfg lower events token r ∧ now < r.expiresAt ∧ r.userId = id) ∧
    (authUser p cfg parseUuid (after lower p cfg events).accounts now headers = .ok id ↔
      internalUser cfg parseUuid headers = some id ∨
      internalUser cfg parseUuid headers = none ∧ ∃ token r,
        headers.authorization = some ("Bearer " ++ token) ∧
        Live p cfg lower events token r ∧ now < r.expiresAt ∧ r.userId = id) := by
  have bearer : exportAuthUser p (after lower p cfg events).accounts now headers = .ok id ↔
      ∃ token r, headers.authorization = some ("Bearer " ++ token) ∧
        Live p cfg lower events token r ∧ now < r.expiresAt ∧ r.userId = id := by
    rw [exportAuthUser_eq_ok_iff]
    constructor
    · rintro ⟨token, there, found⟩
      obtain ⟨r, live⟩ := (lookupSession_after_iff events token now id).mp found
      exact ⟨token, r, there, live⟩
    · rintro ⟨token, r, there, live⟩
      exact ⟨token, there, (lookupSession_after_iff events token now id).mpr ⟨r, live⟩⟩
  refine ⟨bearer, ?_⟩
  rw [authUser_eq]
  cases internal : internalUser cfg parseUuid headers with
  | some id' =>
    simp only [Except.ok.injEq, Option.some.injEq, reduceCtorEq, false_and, or_false]
  | none =>
    simp only [reduceCtorEq, true_and, false_or]
    exact bearer

end

end BVault.Auth
