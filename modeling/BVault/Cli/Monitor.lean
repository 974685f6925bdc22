import BVault.Jobs.Queue
import Mathlib.Data.List.Nodup
import Mathlib.Tactic.Common

/-!
# Watching the analysis queue

`GET /status` groups the rows of each kind by status, and `bvault status
analysis` asks for it until it sees every analysis job done. The database may
list the groups in any order, and only those that have a row.
-/

namespace BVault.Jobs

/-- Rows of a kind under a status. -/
def Queue.countOf (q : Queue) (kind : JobKind) (status : JobStatus) : Nat :=
  (q.jobs.filter fun j => j.kind = kind && j.status = status).length

/-- `select status, count(*) … group by status`; `order` is that of the groups. -/
def Queue.counts (q : Queue) (kind : JobKind) (order : List JobStatus) : List (JobStatus × Nat) :=
  order.filterMap fun status =>
    if q.countOf kind status = 0 then none else some (status, q.countOf kind status)

/-- Every status once. -/
abbrev Order := { order : List JobStatus // order.Nodup ∧ ∀ status, status ∈ order }

/-- The label of the Postgres enum, which is that of the JSON too. -/
def JobKind.asStr : JobKind → String
  | .analysis => "analysis"
  | .ytDlpIngest => "yt_dlp_ingest"

def JobStatus.asStr : JobStatus → String
  | .pending => "pending"
  | .running => "running"
  | .succeeded => "succeeded"
  | .failed => "failed"
  | .dead => "dead"

theorem Queue.countOf_eq_zero_iff {q : Queue} {kind : JobKind} {status : JobStatus} :
    q.countOf kind status = 0 ↔ ∀ j ∈ q.jobs, j.kind = kind → j.status ≠ status := by
  rw [countOf, List.length_eq_zero_iff, List.filter_eq_nil_iff]
  simp only [Bool.and_eq_true, decide_eq_true_eq, not_and]

end BVault.Jobs

namespace BVault.Cli

open BVault.Jobs

structure QueueStatus where
  kind : JobKind
  status : JobStatus
  count : Nat
  deriving DecidableEq, Repr

/-- An entry of the response as JSON has it. -/
structure Entry where
  kind : String
  status : String
  count : Nat
  deriving DecidableEq, Repr

/-- `get_status`: the groups of both kinds. -/
def getStatus (q : Queue) (analysis ytdlp : Order) : List Entry :=
  let jobs :=
    (q.counts .analysis analysis.val).map (fun (status, n) => QueueStatus.mk .analysis status n) ++
      (q.counts .ytDlpIngest ytdlp.val).map fun (status, n) => QueueStatus.mk .ytDlpIngest status n
  jobs.map fun job => ⟨job.kind.asStr, job.status.asStr, job.count⟩

def readKind (label : String) : Option JobKind :=
  if label = "analysis" then some .analysis
  else if label = "yt_dlp_ingest" then some .ytDlpIngest
  else none

def readStatus (label : String) : Option JobStatus :=
  if label = "pending" then some .pending
  else if label = "running" then some .running
  else if label = "succeeded" then some .succeeded
  else if label = "failed" then some .failed
  else if label = "dead" then some .dead
  else none

def readEntry (e : Entry) : Option QueueStatus := do
  let kind ← readKind e.kind
  let status ← readStatus e.status
  some ⟨kind, status, e.count⟩

/-- The sums over the entries of analysis jobs. -/
structure Tally where
  pending : Nat
  running : Nat
  succeeded : Nat
  failed : Nat
  dead : Nat
  deriving DecidableEq, Repr

def Tally.add (t : Tally) (job : QueueStatus) : Tally :=
  match job.kind, job.status with
  | .analysis, .pending => { t with pending := t.pending + job.count }
  | .analysis, .running => { t with running := t.running + job.count }
  | .analysis, .succeeded => { t with succeeded := t.succeeded + job.count }
  | .analysis, .failed => { t with failed := t.failed + job.count }
  | .analysis, .dead => { t with dead := t.dead + job.count }
  | .ytDlpIngest, _ => t

def tally (jobs : List QueueStatus) : Tally := jobs.foldl Tally.add ⟨0, 0, 0, 0, 0⟩

/-- What the progress bar shows, and whether the loop goes on. -/
inductive Shown where
  | noJobs
  | complete (failed : Nat)
  | waiting (position length active failed : Nat)
  deriving DecidableEq, Repr

def Tally.shown (t : Tally) : Shown :=
  let total := t.pending + t.running + t.succeeded + t.failed + t.dead
  let done := t.succeeded + t.dead
  if total = 0 then .noJobs
  else if total ≤ done then .complete (t.failed + t.dead)
  else .waiting done total (t.pending + t.running) (t.failed + t.dead)

/-- `run_analysis_status` from the request `n` on; a request that fails, or whose answer cannot be
read, ends it. -/
def runAnalysisStatus (answers : Nat → Option (List Entry)) :
    Nat → Nat → Option (Except Unit (Nat × Shown))
  | 0, _ => none
  | fuel + 1, n =>
    match (answers n).bind fun entries => entries.mapM readEntry with
    | none => some (.error ())
    | some jobs =>
      match (tally jobs).shown with
      | .waiting .. => runAnalysisStatus answers fuel (n + 1)
      | shown => some (.ok (n, shown))

theorem readEntry_asStr (job : QueueStatus) :
    readEntry ⟨job.kind.asStr, job.status.asStr, job.count⟩ = some job := by
  obtain ⟨kind, status, n⟩ := job
  cases kind <;> cases status <;> rfl

/-- Every entry that the gateway writes is read back. -/
theorem mapM_readEntry (jobs : List QueueStatus) :
    (jobs.map fun job => Entry.mk job.kind.asStr job.status.asStr job.count).mapM readEntry =
      some jobs := by
  induction jobs with
  | nil => rfl
  | cons job jobs ih =>
    rw [List.map_cons, List.mapM_cons, readEntry_asStr, ih]
    rfl

def Tally.get (t : Tally) : JobStatus → Nat
  | .pending => t.pending
  | .running => t.running
  | .succeeded => t.succeeded
  | .failed => t.failed
  | .dead => t.dead

theorem Tally.get_add (t : Tally) (status status' : JobStatus) (n : Nat) :
    (t.add ⟨.analysis, status, n⟩).get status' = t.get status' + if status = status' then n else 0 := by
  cases status <;> cases status' <;> rfl

/-- The groups of analysis jobs add up to the counts of their statuses. -/
theorem get_foldl_counts (q : Queue) {order : List JobStatus} (once : order.Nodup) (t : Tally)
    (status : JobStatus) :
    (((q.counts .analysis order).map fun g => QueueStatus.mk .analysis g.1 g.2).foldl
      Tally.add t).get status =
      t.get status + if status ∈ order then q.countOf .analysis status else 0 := by
  induction order generalizing t with
  | nil => rfl
  | cons first order ih =>
    obtain ⟨fresh, once⟩ := List.nodup_cons.mp once
    by_cases empty : q.countOf .analysis first = 0
    · have skipped : q.counts .analysis (first :: order) = q.counts .analysis order := by
        rw [Queue.counts, List.filterMap_cons, if_pos empty]
        rfl
      rw [skipped, ih once]
      by_cases same : status = first
      · rw [same, if_neg fresh, if_pos List.mem_cons_self, empty]
      · simp only [List.mem_cons, same, false_or]
    · have taken : q.counts .analysis (first :: order) =
          (first, q.countOf .analysis first) :: q.counts .analysis order := by
        rw [Queue.counts, List.filterMap_cons, if_neg empty]
        rfl
      rw [taken, List.map_cons, List.foldl_cons, ih once, Tally.get_add]
      by_cases same : first = status
      · subst same
        rw [if_pos rfl, if_neg fresh, if_pos List.mem_cons_self]
        omega
      · simp only [List.mem_cons, same, Ne.symm same, false_or, if_false, Nat.add_zero]

/-- Groups of other jobs count for nothing. -/
theorem foldl_other (groups : List (JobStatus × Nat)) (t : Tally) :
    (groups.map fun g => QueueStatus.mk .ytDlpIngest g.1 g.2).foldl Tally.add t = t := by
  induction groups generalizing t with
  | nil => rfl
  | cons g groups ih => exact ih t

/-- The sums are those over the table, in whatever order it was read. -/
theorem tally_getStatus (q : Queue) (analysis ytdlp : Order) :
    ((getStatus q analysis ytdlp).mapM readEntry).map tally =
      some ⟨q.countOf .analysis .pending, q.countOf .analysis .running,
        q.countOf .analysis .succeeded, q.countOf .analysis .failed, q.countOf .analysis .dead⟩ := by
  have sums := get_foldl_counts q analysis.property.1 ⟨0, 0, 0, 0, 0⟩
  rw [getStatus, mapM_readEntry, Option.map_some, tally, List.foldl_append]
  refine congrArg some ?_
  refine (foldl_other _ _).trans ?_
  generalize (List.map _ (q.counts .analysis analysis.val)).foldl Tally.add ⟨0, 0, 0, 0, 0⟩ = t at sums
  have sameAs (status : JobStatus) : t.get status = q.countOf .analysis status := by
    rw [sums status, if_pos (analysis.property.2 status)]
    cases status <;> exact Nat.zero_add _
  obtain ⟨pending, running, succeeded, failed, dead⟩ := t
  exact Tally.mk.injEq .. |>.mpr
    ⟨sameAs .pending, sameAs .running, sameAs .succeeded, sameAs .failed, sameAs .dead⟩

/-- Every analysis job is done for good. -/
def Settled (q : Queue) : Prop := ∀ j ∈ q.jobs, j.kind = .analysis → j.status.terminal = true

/-- What is shown at the end. -/
def final (q : Queue) : Shown :=
  if q.jobs.any (fun j => j.kind = .analysis) then .complete (q.countOf .analysis .dead) else .noJobs

theorem final_cases (q : Queue) : final q = .noJobs ∨ ∃ failed, final q = .complete failed := by
  rw [final]
  split
  · exact Or.inr ⟨_, rfl⟩
  · exact Or.inl rfl

theorem settled_iff {q : Queue} :
    Settled q ↔ q.countOf .analysis .pending = 0 ∧ q.countOf .analysis .running = 0 ∧
      q.countOf .analysis .failed = 0 := by
  simp only [Queue.countOf_eq_zero_iff]
  constructor
  · intro settled
    refine ⟨?_, ?_, ?_⟩ <;>
    · intro j mem kind status
      have terminal := settled j mem kind
      rw [status] at terminal
      cases terminal
  · rintro ⟨notPending, notRunning, notFailed⟩ j mem kind
    cases status : j.status with
    | pending => exact absurd status (notPending j mem kind)
    | running => exact absurd status (notRunning j mem kind)
    | failed => exact absurd status (notFailed j mem kind)
    | succeeded => rfl
    | dead => rfl

theorem no_jobs_iff {q : Queue} :
    q.countOf .analysis .pending + q.countOf .analysis .running + q.countOf .analysis .succeeded +
      q.countOf .analysis .failed + q.countOf .analysis .dead = 0 ↔
    q.jobs.any (fun j => j.kind = .analysis) = false := by
  simp only [Nat.add_eq_zero_iff, Queue.countOf_eq_zero_iff, List.any_eq_false, decide_eq_true_eq]
  constructor
  · rintro ⟨⟨⟨⟨pending, running⟩, succeeded⟩, failed⟩, dead⟩ j mem kind
    cases status : j.status with
    | pending => exact pending j mem kind status
    | running => exact running j mem kind status
    | succeeded => exact succeeded j mem kind status
    | failed => exact failed j mem kind status
    | dead => exact dead j mem kind status
  · intro nobody
    refine ⟨⟨⟨⟨?_, ?_⟩, ?_⟩, ?_⟩, ?_⟩ <;> exact fun j mem kind => absurd kind (nobody j mem)

/-- One look at the table: the loop is over exactly if every analysis job is done. -/
theorem shown_iff (q : Queue) (analysis ytdlp : Order) :
    ∃ jobs, (getStatus q analysis ytdlp).mapM readEntry = some jobs ∧
      ((Settled q ∧ (tally jobs).shown = final q) ∨
        (¬ Settled q ∧ ∃ position length active failed,
          (tally jobs).shown = .waiting position length active failed)) := by
  obtain ⟨jobs, read, sums⟩ := Option.map_eq_some_iff.mp (tally_getStatus q analysis ytdlp)
  refine ⟨jobs, read, ?_⟩
  rw [sums]
  simp only [Tally.shown]
  by_cases nothing : q.countOf .analysis .pending + q.countOf .analysis .running +
      q.countOf .analysis .succeeded + q.countOf .analysis .failed + q.countOf .analysis .dead = 0
  · refine Or.inl ⟨settled_iff.mpr ⟨by omega, by omega, by omega⟩, ?_⟩
    rw [if_pos nothing, final, no_jobs_iff.mp nothing]
    rfl
  · have someJob : q.jobs.any (fun j => j.kind = .analysis) = true := by
      rw [← Bool.not_eq_false, ← no_jobs_iff]
      exact nothing
    by_cases settled : Settled q
    · obtain ⟨pending, running, failed⟩ := settled_iff.mp settled
      refine Or.inl ⟨settled, ?_⟩
      rw [if_neg nothing, if_pos (by omega), final, if_pos someJob, failed, Nat.zero_add]
    · have unsettled : 0 < q.countOf .analysis .pending + q.countOf .analysis .running +
          q.countOf .analysis .failed := by
        by_contra none
        exact settled (settled_iff.mpr ⟨by omega, by omega, by omega⟩)
      rw [if_neg nothing, if_neg (by omega)]
      exact Or.inr ⟨settled, _, _, _, _, rfl⟩

/-- While the gateway answers, the loop ends at the first look at which every analysis job is done,
whatever happens to the queue between the looks, and shows how many of them are dead. -/
theorem runAnalysisStatus_eq_iff (queues : Nat → Queue) (orders : Nat → Order × Order) (fuel n : Nat)
    (shown : Shown) :
    runAnalysisStatus (fun i => some (getStatus (queues i) (orders i).1 (orders i).2)) fuel 0 =
        some (.ok (n, shown)) ↔
      n < fuel ∧ Settled (queues n) ∧ (∀ m < n, ¬ Settled (queues m)) ∧ shown = final (queues n) := by
  have fromLook (fuel k : Nat) : runAnalysisStatus
      (fun i => some (getStatus (queues i) (orders i).1 (orders i).2)) fuel k = some (.ok (n, shown)) ↔
      k ≤ n ∧ n < k + fuel ∧ Settled (queues n) ∧ (∀ m, k ≤ m → m < n → ¬ Settled (queues m)) ∧
        shown = final (queues n) := by
    induction fuel generalizing k with
    | zero =>
      simp only [runAnalysisStatus, reduceCtorEq, false_iff]
      rintro ⟨low, high, -⟩
      omega
    | succ fuel ih =>
      obtain ⟨jobs, read, ⟨settled, result⟩ | ⟨unsettled, _, _, _, _, result⟩⟩ :=
        shown_iff (queues k) (orders k).1 (orders k).2
      · have ends : runAnalysisStatus
            (fun i => some (getStatus (queues i) (orders i).1 (orders i).2)) (fuel + 1) k =
              some (.ok (k, final (queues k))) := by
          simp only [runAnalysisStatus, Option.bind_some, read, result]
          obtain none | ⟨_, some⟩ := final_cases (queues k)
          · rw [none]
          · rw [some]
        rw [ends, Option.some.injEq, Except.ok.injEq, Prod.mk.injEq]
        constructor
        · rintro ⟨rfl, rfl⟩
          exact ⟨Nat.le_refl _, by omega, settled, fun m low high => by omega, rfl⟩
        · rintro ⟨low, -, -, before, same⟩
          obtain rfl : k = n := by
            by_contra other
            exact before k (Nat.le_refl k) (by omega) settled
          exact ⟨rfl, same.symm⟩
      · have goesOn : runAnalysisStatus
            (fun i => some (getStatus (queues i) (orders i).1 (orders i).2)) (fuel + 1) k =
              runAnalysisStatus
                (fun i => some (getStatus (queues i) (orders i).1 (orders i).2)) fuel (k + 1) := by
          simp only [runAnalysisStatus, Option.bind_some, read, result]
        rw [goesOn, ih]
        constructor
        · rintro ⟨low, high, settled, before, same⟩
          refine ⟨by omega, by omega, settled, ?_, same⟩
          intro m above below
          by_cases first : m = k
          · rw [first]
            exact unsettled
          · exact before m (by omega) below
        · rintro ⟨low, high, settled, before, same⟩
          have later : k ≠ n := by
            rintro rfl
            exact unsettled settled
          exact ⟨by omega, by omega, settled, fun m above => before m (by omega), same⟩
  rw [fromLook]
  constructor
  · rintro ⟨-, high, settled, before, same⟩
    exact ⟨by omega, settled, fun m => before m (Nat.zero_le m), same⟩
  · rintro ⟨high, settled, before, same⟩
    exact ⟨Nat.zero_le n, by omega, settled, fun m _ => before m, same⟩

end BVault.Cli
