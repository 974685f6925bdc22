import BVault.Ytdlp.Ownership

/-!
# Resuming a playlist

`bvault ingest` reads the pages of a playlist, asks for the URLs that its user
has had ingested, and submits the others. What it leaves out depends on that
user's succeeded jobs only.
-/

namespace BVault.Ytdlp

open BVault.Cli (toSubmit watchUrl)
open BVault.Jobs

structure PlaylistItem where
  title : String
  videoId : String
  deriving DecidableEq, Repr

structure ItemsPage where
  items : Option (List PlaylistItem)
  nextPageToken : Option String
  deriving DecidableEq, Repr

/-- The videos of a page that can be had. -/
def ItemsPage.videoIds (page : ItemsPage) : List String :=
  ((page.items.getD []).filter fun item =>
    item.title ≠ "Private video" && item.title ≠ "Deleted video").map PlaylistItem.videoId

/-- YouTube's answers by the number of the request and its page token; `none` fails. -/
abbrev PlaylistApi := Nat → Option String → Option ItemsPage

/-- The loop over the pages, from a request on. -/
def fetchVideoIds (api : PlaylistApi) :
    Nat → Nat → Option String → List String → Option (Except Unit (List String))
  | 0, _, _, _ => none
  | fuel + 1, n, pageToken, videoIds =>
    match api n pageToken with
    | none => some (.error ())
    | some page =>
      match page.nextPageToken with
      | none => some (.ok (videoIds ++ page.videoIds))
      | some token => fetchVideoIds api fuel (n + 1) (some token) (videoIds ++ page.videoIds)

/-- The URLs that `ingest_youtube_playlist` submits; `completed` is the gateway's answer, if there
is one. -/
def urlsToSubmit (api : PlaylistApi) (completed : Option (List String)) (fuel : Nat) :
    Option (Except Unit (List String)) :=
  match fetchVideoIds api fuel 0 none [] with
  | none => none
  | some (.error e) => some (.error e)
  | some (.ok videoIds) =>
    if videoIds.isEmpty then some (.error ()) else some (.ok (toSubmit videoIds (completed.getD [])))

/-- The pages from a token to the last one, each named by the one before. -/
inductive Pages (api : PlaylistApi) : Nat → Option String → List ItemsPage → Prop where
  | last {n : Nat} {pageToken : Option String} {page : ItemsPage} (answer : api n pageToken = some page)
    (next : page.nextPageToken = none) : Pages api n pageToken [page]
  | more {n : Nat} {pageToken : Option String} {page : ItemsPage} {token : String}
    {pages : List ItemsPage} (answer : api n pageToken = some page)
    (next : page.nextPageToken = some token) (rest : Pages api (n + 1) (some token) pages) :
    Pages api n pageToken (page :: pages)

/-- The loop returns the videos of all pages in their order. -/
theorem fetchVideoIds_eq_ok_iff (api : PlaylistApi) (fuel n : Nat) (pageToken : Option String)
    (before videoIds : List String) :
    fetchVideoIds api fuel n pageToken before = some (.ok videoIds) ↔
      ∃ pages, Pages api n pageToken pages ∧ pages.length ≤ fuel ∧
        videoIds = before ++ pages.flatMap ItemsPage.videoIds := by
  induction fuel generalizing n pageToken before with
  | zero =>
    simp only [fetchVideoIds, reduceCtorEq, false_iff]
    rintro ⟨pages, walk, none, -⟩
    rw [Nat.le_zero, List.length_eq_zero_iff] at none
    subst none
    cases walk
  | succ fuel ih =>
    cases answer : api n pageToken with
    | none =>
      simp only [fetchVideoIds, answer, Option.some.injEq, reduceCtorEq, false_iff]
      rintro ⟨pages, walk, -⟩
      cases walk with
      | last answer' => cases answer.symm.trans answer'
      | more answer' => cases answer.symm.trans answer'
    | some page =>
      cases next : page.nextPageToken with
      | none =>
        simp only [fetchVideoIds, answer, next, Option.some.injEq, Except.ok.injEq]
        constructor
        · rintro rfl
          exact ⟨[page], .last answer next, Nat.succ_le_succ (Nat.zero_le fuel),
            by rw [List.flatMap_singleton]⟩
        · rintro ⟨pages, walk, -, rfl⟩
          cases walk with
          | last answer' =>
            cases answer.symm.trans answer'
            rw [List.flatMap_singleton]
          | more answer' next' =>
            cases answer.symm.trans answer'
            cases next.symm.trans next'
      | some token =>
        simp only [fetchVideoIds, answer, next, ih]
        constructor
        · rintro ⟨pages, walk, few, rfl⟩
          refine ⟨page :: pages, .more answer next walk, Nat.succ_le_succ few, ?_⟩
          rw [List.flatMap_cons, List.append_assoc]
        · rintro ⟨pages, walk, few, rfl⟩
          cases walk with
          | last answer' next' =>
            cases answer.symm.trans answer'
            cases next.symm.trans next'
          | more answer' next' rest =>
            cases answer.symm.trans answer'
            cases next.symm.trans next'
            refine ⟨_, rest, Nat.le_of_succ_le_succ few, ?_⟩
            rw [List.flatMap_cons, List.append_assoc]

instance (q : Queue) (user : UserId) (url : String) : Decidable (Ingested q user url) :=
  inferInstanceAs (Decidable (∃ j ∈ q.jobs, j.kind = .ytDlpIngest ∧ j.status = .succeeded ∧
    j.payload = .ytDlpIngest ⟨url, user.val⟩))

theorem toSubmit_completed {q : Queue} (kept : Kept q) (user : UserId) (videoIds : List String) :
    toSubmit videoIds (completedYtdlp q user) =
      (videoIds.map watchUrl).filter (fun url => ¬ Ingested q user url) := by
  rw [toSubmit]
  refine List.filter_congr ?_
  intro url _
  rw [List.contains_eq_mem, ← decide_not]
  exact decide_eq_decide.mpr (not_congr (mem_completedYtdlp_iff kept user url))

variable {maxRetries : Nat} {parseUuid : String → Option UserId}

end BVault.Ytdlp
