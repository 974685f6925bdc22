import Mathlib.Data.Finset.Card
import BVault.Jobs.Active

/-!
# Waiting for a playlist

`bvault ingest` submits one job for each video of a playlist and polls them
until as many jobs are done as ids were collected. The ids are counted as a
list and the finished ones as a set, so the loops end exactly if no id was
collected twice: if no URL is submitted again while its job is in flight.
-/

namespace BVault.Cli

open BVault.Jobs

def watchUrl (videoId : String) : String := "https://www.youtube.com/watch?v=" ++ videoId

/-- The URLs of a playlist that have not been ingested before. -/
def toSubmit (videoIds alreadyDone : List String) : List String :=
  (videoIds.map watchUrl).filter (fun url => !alreadyDone.contains url)

/-- What becomes of a request. -/
inductive Outcome where
  | accepted
  -- the job is queued, and the answer is lost
  | unread
  | unreached
  deriving DecidableEq, Repr

/-- The surroundings of a request: what others do to the queue since the one before, and what
the gateway makes of it. -/
structure Turn where
  others : List Op
  now : Nat
  traceparent : Option String
  outcome : Outcome

/-- The queue, and the accepted URLs with their job ids. -/
structure Submitted where
  queue : Queue
  accepted : List (String × Nat)

/-- `format!("{}:{}", user.id, req.url)`. -/
def dedupKey (userId url : String) : String := userId ++ ":" ++ url

/-- The gateway's `ingest_ytdlp`. -/
def ingestYtdlp (userId : String) (q : Queue) (now : Nat) (traceparent : Option String)
    (url : String) : Nat × Queue :=
  q.enqueue now .ytDlpIngest (dedupKey userId url) (.ytDlpIngest ⟨url, userId⟩) 1 traceparent

/-- The body of the submission loop. -/
def submit (userId : String) (s : Submitted) (request : String × Turn) : Submitted :=
  let q := Runs.run Queue.step s.queue request.2.others
  let result := ingestYtdlp userId q request.2.now request.2.traceparent request.1
  match request.2.outcome with
  | .accepted => ⟨result.2, s.accepted ++ [(request.1, result.1)]⟩
  | .unread => ⟨result.2, s.accepted⟩
  | .unreached => ⟨q, s.accepted⟩

def submitAll (userId : String) (q : Queue) (requests : List (String × Turn)) : Submitted :=
  Runs.run (submit userId) ⟨q, []⟩ requests

/-- Each URL with the surroundings of its request. -/
def requestsOf (urls : List String) (turns : Nat → Turn) : List (String × Turn) :=
  urls.zipIdx.map (fun (url, i) => (url, turns i))

/-- `job_ids`. -/
def Submitted.jobIds (s : Submitted) : List Nat := s.accepted.map Prod.snd

/-- `completed_jobs` and `failed`. -/
structure Waiting where
  completed : Finset Nat
  failed : Nat
  deriving DecidableEq

/-- One request for a job's status, skipped where the job is done. -/
def poll (s : Waiting) (jobId : Nat) (answer : Option JobStatus) : Waiting :=
  if jobId ∈ s.completed then s
  else
    match answer with
    | some .succeeded => { s with completed := insert jobId s.completed }
    | some .failed => { completed := insert jobId s.completed, failed := s.failed + 1 }
    | some .dead => { completed := insert jobId s.completed, failed := s.failed + 1 }
    | some .pending => s
    | some .running => s
    | none => s

/-- One pass over the list; `answers` are the responses by position, if the gateway answers. -/
def pass (jobIds : List Nat) (answers : Nat → Option JobStatus) (s : Waiting) : Waiting :=
  jobIds.zipIdx.foldl (fun s (jobId, i) => poll s jobId (answers i)) s

/-- The waiting loop from a pass on. -/
def wait (jobIds : List Nat) (answers : Nat → Nat → Option JobStatus) :
    Nat → Nat → Waiting → Option Waiting
  | 0, _, _ => none
  | fuel + 1, n, s =>
    if s.completed.card = jobIds.length then some s
    else wait jobIds answers fuel (n + 1) (pass jobIds (answers n) s)

/-- The wait at the end of `ingest_youtube_playlist`. -/
def ingestYoutubePlaylist (jobIds : List Nat) (answers : Nat → Nat → Option JobStatus)
    (fuel : Nat) : Option Waiting :=
  wait jobIds answers fuel 0 ⟨∅, 0⟩

/-- The saved list's wait; an empty list returns before it. -/
def runIngestStatus (jobIds : List Nat) (answers : Nat → Nat → Option JobStatus)
    (fuel : Nat) : Option Waiting :=
  if jobIds.isEmpty then some ⟨∅, 0⟩ else wait jobIds answers fuel 0 ⟨∅, 0⟩

/-- From some pass on every listed job is terminal and each request is answered. -/
def Settles (jobIds : List Nat) (answers : Nat → Nat → Option JobStatus) : Prop :=
  ∃ settled, ∀ n ≥ settled, ∀ i < jobIds.length,
    ∃ status, answers n i = some status ∧ status.terminal = true

/-- Both loops return. -/
def BothReturn (jobIds : List Nat) (answers : Nat → Nat → Option JobStatus) : Prop :=
  (∃ fuel s, ingestYoutubePlaylist jobIds answers fuel = some s) ∧
    ∃ fuel s, runIngestStatus jobIds answers fuel = some s

theorem poll_completed (s : Waiting) (jobId : Nat) (answer : Option JobStatus) :
    s.completed ⊆ (poll s jobId answer).completed ∧
      (poll s jobId answer).completed ⊆ insert jobId s.completed := by
  have same : s.completed ⊆ s.completed ∧ s.completed ⊆ insert jobId s.completed :=
    ⟨Finset.Subset.refl _, Finset.subset_insert _ _⟩
  have more : s.completed ⊆ insert jobId s.completed ∧
      insert jobId s.completed ⊆ insert jobId s.completed :=
    ⟨Finset.subset_insert _ _, Finset.Subset.refl _⟩
  by_cases done : jobId ∈ s.completed
  · simpa only [poll, if_pos done] using same
  · simp only [poll, if_neg done]
    cases answer with
    | none => exact same
    | some status =>
      cases status with
      | succeeded => exact more
      | failed => exact more
      | dead => exact more
      | pending => exact same
      | running => exact same

/-- A job that answers with a terminal status is done. -/
theorem mem_poll {jobId : Nat} {answer : Option JobStatus}
    (settled : ∃ status, answer = some status ∧ status.terminal = true) (s : Waiting) :
    jobId ∈ (poll s jobId answer).completed := by
  obtain ⟨status, rfl, terminal⟩ := settled
  by_cases done : jobId ∈ s.completed
  · simpa only [poll, if_pos done] using done
  · simp only [poll, if_neg done]
    cases status with
    | succeeded => exact Finset.mem_insert_self jobId s.completed
    | dead => exact Finset.mem_insert_self jobId s.completed
    | pending => cases terminal
    | running => cases terminal
    | failed => cases terminal

/-- What the polls of a pass leave done: the listed jobs at most, and those that answered. -/
theorem polls_completed (answers : Nat → Option JobStatus) (listed : List (Nat × Nat))
    (s : Waiting) :
    s.completed ⊆ (listed.foldl (fun s (jobId, i) => poll s jobId (answers i)) s).completed ∧
      (listed.foldl (fun s (jobId, i) => poll s jobId (answers i)) s).completed ⊆
        s.completed ∪ (listed.map Prod.fst).toFinset ∧
      ∀ e ∈ listed, (∃ status, answers e.2 = some status ∧ status.terminal = true) →
        e.1 ∈ (listed.foldl (fun s (jobId, i) => poll s jobId (answers i)) s).completed := by
  induction listed generalizing s with
  | nil =>
    refine ⟨Finset.Subset.refl _, Finset.subset_union_left, ?_⟩
    intro e mem
    cases mem
  | cons e listed ih =>
    obtain ⟨grown, bound⟩ := poll_completed s e.1 (answers e.2)
    obtain ⟨grown', bound', each⟩ := ih (poll s e.1 (answers e.2))
    rw [List.foldl_cons, List.map_cons, List.toFinset_cons]
    refine ⟨grown.trans grown', ?_, ?_⟩
    · refine bound'.trans ?_
      intro jobId mem
      rcases Finset.mem_union.mp mem with early | late
      · rcases Finset.mem_insert.mp (bound early) with rfl | before
        · exact Finset.mem_union_right _ (Finset.mem_insert_self _ _)
        · exact Finset.mem_union_left _ before
      · exact Finset.mem_union_right _ (Finset.mem_insert_of_mem late)
    · intro e' mem settled
      rcases List.mem_cons.mp mem with rfl | later
      · exact grown' (mem_poll settled s)
      · exact each e' later settled

theorem pass_completed (jobIds : List Nat) (answers : Nat → Option JobStatus) {s : Waiting}
    (listed : s.completed ⊆ jobIds.toFinset) :
    (pass jobIds answers s).completed ⊆ jobIds.toFinset := by
  obtain ⟨_, bound, _⟩ := polls_completed answers jobIds.zipIdx s
  rw [List.zipIdx_map_fst] at bound
  exact bound.trans (Finset.union_subset listed (Finset.Subset.refl _))

/-- A pass in which every job answers leaves all of them done. -/
theorem pass_settled {jobIds : List Nat} {answers : Nat → Option JobStatus} {s : Waiting}
    (settled : ∀ i < jobIds.length, ∃ status, answers i = some status ∧ status.terminal = true) :
    jobIds.toFinset ⊆ (pass jobIds answers s).completed := by
  intro jobId mem
  obtain ⟨i, inside, rfl⟩ := List.mem_iff_getElem.mp (List.mem_toFinset.mp mem)
  obtain ⟨_, _, each⟩ := polls_completed answers jobIds.zipIdx s
  have here : (jobIds[i], i) ∈ jobIds.zipIdx :=
    List.mk_mem_zipIdx_iff_getElem?.mpr (List.getElem?_eq_getElem inside)
  exact each _ here (settled i inside)

/-- With an id twice in the list, the set never gets as large as the list. -/
theorem wait_never {jobIds : List Nat} (twice : ¬ jobIds.Nodup)
    (answers : Nat → Nat → Option JobStatus) (fuel n : Nat) {s : Waiting}
    (listed : s.completed ⊆ jobIds.toFinset) : wait jobIds answers fuel n s = none := by
  induction fuel generalizing n s with
  | zero => rfl
  | succ fuel ih =>
    have few : s.completed.card < jobIds.length := by
      apply lt_of_le_of_lt (Finset.card_le_card listed)
      apply lt_of_le_of_ne (List.toFinset_card_le jobIds)
      intro same
      exact twice (Multiset.toFinset_card_eq_card_iff_nodup.mp same)
    rw [wait, if_neg (by omega)]
    exact ih (n + 1) (pass_completed jobIds (answers n) listed)

/-- With distinct ids, the loop is left behind the first settled pass at the latest. -/
theorem wait_returns {jobIds : List Nat} (distinct : jobIds.Nodup)
    {answers : Nat → Nat → Option JobStatus} {settled : Nat}
    (final : ∀ n ≥ settled, ∀ i < jobIds.length,
      ∃ status, answers n i = some status ∧ status.terminal = true)
    (more n : Nat) (near : settled ≤ n + more) {s : Waiting}
    (listed : s.completed ⊆ jobIds.toFinset) :
    ∃ result, wait jobIds answers (more + 2) n s = some result := by
  induction more generalizing n s with
  | zero =>
    rw [wait]
    split
    · exact ⟨s, rfl⟩
    · have all : (pass jobIds (answers n) s).completed = jobIds.toFinset :=
        Finset.Subset.antisymm (pass_completed jobIds (answers n) listed)
          (pass_settled (final n (by omega)))
      refine ⟨pass jobIds (answers n) s, ?_⟩
      rw [wait, all, if_pos (List.toFinset_card_of_nodup distinct)]
  | succ more ih =>
    rw [wait]
    split
    · exact ⟨s, rfl⟩
    · exact ih (n + 1) (by omega) (pass_completed jobIds (answers n) listed)

theorem bothReturn_iff_nodup {jobIds : List Nat} {answers : Nat → Nat → Option JobStatus}
    (settles : Settles jobIds answers) : BothReturn jobIds answers ↔ jobIds.Nodup := by
  constructor
  · rintro ⟨⟨fuel, s, returned⟩, _⟩
    by_contra twice
    rw [ingestYoutubePlaylist, wait_never twice answers fuel 0 (Finset.empty_subset _)] at returned
    cases returned
  · intro distinct
    obtain ⟨settled, final⟩ := settles
    have none_ : (⟨∅, 0⟩ : Waiting).completed ⊆ jobIds.toFinset := Finset.empty_subset _
    obtain ⟨result, returned⟩ := wait_returns distinct final settled 0 (by omega) none_
    refine ⟨⟨_, result, returned⟩, settled + 2, ?_⟩
    rw [runIngestStatus]
    split
    · exact ⟨_, rfl⟩
    · exact ⟨result, returned⟩

/-- No job that an accepted request for this URL was given is still in flight. -/
def NotInFlight (s : Submitted) (request : String × Turn) : Prop :=
  request.2.outcome = .accepted → ∀ id, (request.1, id) ∈ s.accepted →
    ∀ j ∈ (Runs.run Queue.step s.queue request.2.others).jobs, j.id = id →
      j.status.active = false

/-- The row of a URL. -/
def RowOf (userId : String) (q : Queue) (url : String) (id : Nat) : Prop :=
  ∃ j ∈ q.jobs, j.id = id ∧ j.kind = .ytDlpIngest ∧ j.dedupKey = dedupKey userId url

/-- The queue keeps its keys, and each collected id is that of a row of its URL. -/
structure Collected (userId : String) (s : Submitted) : Prop where
  indexed : s.queue.Indexed
  rows : ∀ e ∈ s.accepted, RowOf userId s.queue e.1 e.2

theorem dedupKey_injective {userId url url' : String}
    (same : dedupKey userId url = dedupKey userId url') : url = url' := by
  have chars := congrArg String.toList same
  simp only [dedupKey, String.toList_append] at chars
  exact String.toList_inj.mp (List.append_cancel_left chars)

section
variable {userId url : String} {q : Queue} {id : Nat}

theorem RowOf.step (row : RowOf userId q url id) (op : Op) : RowOf userId (q.step op) url id := by
  obtain ⟨j, hj, number, kind, key⟩ := row
  refine ⟨q.effect op j, Queue.mem_step.mpr (.inl ⟨j, hj, rfl⟩), ?_, ?_, ?_⟩
  · simpa using number
  · simpa using kind
  · simpa using key

theorem Collected.step {accepted : List (String × Nat)} (collected : Collected userId ⟨q, accepted⟩)
    (op : Op) : Collected userId ⟨q.step op, accepted⟩ where
  indexed := Queue.indexed_step op collected.indexed
  rows := fun e mem => (collected.rows e mem).step op

theorem Collected.others {accepted : List (String × Nat)}
    (collected : Collected userId ⟨q, accepted⟩) (ops : List Op) :
    Collected userId ⟨Runs.run Queue.step q ops, accepted⟩ := by
  induction ops generalizing q with
  | nil => exact collected
  | cons op ops ih => exact ih (collected.step op)

/-- The gateway hands out the id of the URL's active row, or a fresh one. -/
theorem ingestYtdlp_spec (userId url : String) (indexed : q.Indexed) (now : Nat)
    (traceparent : Option String) :
    RowOf userId (ingestYtdlp userId q now traceparent url).2 url
        (ingestYtdlp userId q now traceparent url).1 ∧
      ∀ url' id, RowOf userId q url' id → ((ingestYtdlp userId q now traceparent url).1 = id ↔
        url' = url ∧ ∃ j ∈ q.jobs, j.id = id ∧ j.status.active = true) := by
  have keyed := indexed.keyed
  rw [ingestYtdlp, Queue.enqueue]
  cases found : q.activeRow .ytDlpIngest (dedupKey userId url) with
  | some a =>
    obtain ⟨ha, isActive, kind, key⟩ := Queue.activeRow_spec found
    constructor
    · refine ⟨{ a with updatedAt := now }, ?_, rfl, kind, key⟩
      exact List.mem_map.mpr ⟨a, ha, if_pos rfl⟩
    · rintro url' id ⟨j, hj, number, kind', key'⟩
      constructor
      · intro same
        obtain rfl := keyed.same_row ha hj (same.trans number.symm)
        exact ⟨dedupKey_injective (key'.symm.trans key), a, ha, same, isActive⟩
      · rintro ⟨rfl, i, hi, number', isActive'⟩
        obtain rfl := keyed.same_row hi hj (number'.trans number.symm)
        have one := indexed.agree a ha i hi isActive isActive'
          ⟨kind.trans kind'.symm, key.trans key'.symm⟩
        exact one.trans number
  | none =>
    constructor
    · refine ⟨_, List.mem_append_right _ List.mem_cons_self, rfl, rfl, rfl⟩
    · rintro url' id ⟨j, hj, number, kind', key'⟩
      have below := keyed.below j hj
      constructor
      · intro same
        simp only at same
        omega
      · rintro ⟨rfl, i, hi, number', isActive⟩
        obtain rfl := keyed.same_row hi hj (number'.trans number.symm)
        rw [Queue.activeRow_eq_none found hi kind' key'] at isActive
        cases isActive

end

theorem submit_collected {userId : String} {s : Submitted} (collected : Collected userId s)
    (request : String × Turn) : Collected userId (submit userId s request) := by
  have before := collected.others request.2.others
  have after := before.step (.enqueue request.2.now .ytDlpIngest (dedupKey userId request.1)
    (.ytDlpIngest ⟨request.1, userId⟩) 1 request.2.traceparent)
  have spec := ingestYtdlp_spec userId request.1 before.indexed request.2.now
    request.2.traceparent
  rw [submit]
  cases request.2.outcome with
  | accepted =>
    refine ⟨after.indexed, ?_⟩
    intro e mem
    rcases List.mem_append.mp mem with earlier | last
    · exact after.rows e earlier
    · rw [List.mem_singleton.mp last]
      exact spec.1
  | unread => exact after
  | unreached => exact before

/-- A request adds no id twice exactly if no job of its URL is in flight. -/
theorem submit_nodup {userId : String} {s : Submitted} (collected : Collected userId s)
    (request : String × Turn) :
    (submit userId s request).jobIds.Nodup ↔ s.jobIds.Nodup ∧ NotInFlight s request := by
  have before := collected.others request.2.others
  have spec := (ingestYtdlp_spec userId request.1 before.indexed request.2.now
    request.2.traceparent).2
  rw [submit, NotInFlight]
  cases request.2.outcome with
  | accepted =>
    have fresh : (ingestYtdlp userId (Runs.run Queue.step s.queue request.2.others)
          request.2.now request.2.traceparent request.1).1 ∉ s.jobIds ↔
        ∀ id, (request.1, id) ∈ s.accepted →
          ∀ j ∈ (Runs.run Queue.step s.queue request.2.others).jobs, j.id = id →
            j.status.active = false := by
      constructor
      · intro new id listed j hj number
        by_contra isActive
        rw [Bool.not_eq_false] at isActive
        have same := (spec _ _ (before.rows _ listed)).mpr ⟨rfl, j, hj, number, isActive⟩
        exact new (List.mem_map.mpr ⟨_, listed, same.symm⟩)
      · intro idle mem
        obtain ⟨⟨url, id⟩, listed, same⟩ := List.mem_map.mp mem
        obtain ⟨rfl, j, hj, number, isActive⟩ := (spec url id (before.rows _ listed)).mp same.symm
        rw [idle id listed j hj number] at isActive
        cases isActive
    have grown : ∀ id, (s.accepted ++ [(request.1, id)]).map Prod.snd = s.jobIds ++ [id] := by
      intro id
      rw [List.map_append]
      rfl
    simp only [Submitted.jobIds, grown, forall_const]
    rw [List.nodup_append_comm, List.singleton_append, List.nodup_cons, and_comm]
    exact and_congr_right' fresh
  | unread => simp [Submitted.jobIds]
  | unreached => simp [Submitted.jobIds]

theorem collected_start (userId : String) (ops : List Op) :
    Collected userId ⟨runQueue ops, []⟩ where
  indexed := Queue.indexed_run ops
  rows := fun _ mem => absurd mem List.not_mem_nil

theorem submitAll_snoc (userId : String) (q : Queue) (earlier : List (String × Turn))
    (request : String × Turn) : submitAll userId q (earlier ++ [request]) =
      submit userId (submitAll userId q earlier) request :=
  Runs.run_snoc _ _ earlier request

theorem submitAll_collected (userId : String) (ops : List Op) (requests : List (String × Turn)) :
    Collected userId (submitAll userId (runQueue ops) requests) := by
  induction requests using List.reverseRecOn with
  | nil => exact collected_start userId ops
  | append_singleton earlier request ih =>
    rw [submitAll_snoc]
    exact submit_collected ih request

theorem submitAll_nodup {userId : String} (ops : List Op) (requests : List (String × Turn)) :
    (submitAll userId (runQueue ops) requests).jobIds.Nodup ↔
      Runs.EachStep requests (fun earlier request =>
        NotInFlight (submitAll userId (runQueue ops) earlier) request) := by
  have reached := submitAll_collected userId ops
  induction requests using List.reverseRecOn with
  | nil => simp [submitAll, Submitted.jobIds]
  | append_singleton earlier request ih =>
    rw [submitAll_snoc, submit_nodup (reached earlier)]
    constructor
    · rintro ⟨distinct, last⟩
      exact (ih.mp distinct).snoc last
    · intro each
      exact ⟨ih.mpr each.initial, each.last⟩

/-- For every playlist, every state of the queue and everything others do to it meanwhile: once
all collected jobs are terminal and the gateway answers, both loops return exactly if no URL is
submitted while a job it was given before is still in flight. -/
theorem bothReturn_iff_notInFlight (userId : String) (ops : List Op)
    (videoIds alreadyDone : List String) (turns : Nat → Turn)
    (answers : Nat → Nat → Option JobStatus)
    (settles : Settles (submitAll userId (runQueue ops)
      (requestsOf (toSubmit videoIds alreadyDone) turns)).jobIds answers) :
    BothReturn (submitAll userId (runQueue ops)
        (requestsOf (toSubmit videoIds alreadyDone) turns)).jobIds answers ↔
      Runs.EachStep (requestsOf (toSubmit videoIds alreadyDone) turns)
        (fun earlier request => NotInFlight (submitAll userId (runQueue ops) earlier) request) := by
  rw [bothReturn_iff_nodup settles, submitAll_nodup]

/-- Requests with nothing in between, all of them accepted. -/
def promptly : Nat → Turn := fun i => ⟨[], i, none, .accepted⟩

theorem bothReturn_of_two :
    BothReturn (submitAll "u" (runQueue []) (requestsOf (toSubmit ["a", "b"] []) promptly)).jobIds
        (fun _ _ => some .succeeded) := by
  have settles : Settles (submitAll "u" (runQueue [])
      (requestsOf (toSubmit ["a", "b"] []) promptly)).jobIds (fun _ _ => some .succeeded) :=
    ⟨0, fun _ _ _ _ => ⟨.succeeded, rfl, rfl⟩⟩
  have idle := (@submitAll_nodup "u" [] (requestsOf (toSubmit ["a", "b"] []) promptly)).mp
    (by decide)
  exact (bothReturn_iff_notInFlight "u" [] ["a", "b"] [] promptly _ settles).mpr idle

/-- A playlist that lists a video twice is waited for forever. -/
theorem repeated_video_never_ends : ¬ ∀ (userId : String) (ops : List Op)
    (videoIds alreadyDone : List String) (turns : Nat → Turn)
    (answers : Nat → Nat → Option JobStatus),
    Settles (submitAll userId (runQueue ops)
      (requestsOf (toSubmit videoIds alreadyDone) turns)).jobIds answers →
    BothReturn (submitAll userId (runQueue ops)
      (requestsOf (toSubmit videoIds alreadyDone) turns)).jobIds answers := by
  intro always
  have settles : ∀ jobIds, Settles jobIds (fun _ _ => some .succeeded) :=
    fun _ => ⟨0, fun _ _ _ _ => ⟨.succeeded, rfl, rfl⟩⟩
  have ids : (submitAll "u" (runQueue [])
      (requestsOf (toSubmit ["a", "a"] []) promptly)).jobIds = [1, 1] := by decide +kernel
  have returned := always "u" [] ["a", "a"] [] promptly (fun _ _ => some .succeeded) (settles _)
  rw [ids, bothReturn_iff_nodup (settles _)] at returned
  revert returned
  decide

end BVault.Cli
