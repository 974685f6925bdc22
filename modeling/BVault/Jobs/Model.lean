/-!
# The durable job contract

Rows of the `jobs` table as the migrations declare them, and the payloads the
gateway writes and the workers read. Row ids are naturals; so are times, in
microseconds, the resolution of `timestamptz`.
-/

namespace BVault.Jobs

/-- Postgres enum `job_kind`. -/
inductive JobKind where
  | analysis
  | ytDlpIngest
  deriving DecidableEq, Repr

/-- Postgres enum `job_status`. -/
inductive JobStatus where
  | pending
  | running
  | succeeded
  | failed
  | dead
  deriving DecidableEq, Repr

structure AnalysisJob where
  hash : String
  rawLocation : String
  fallbackTitle : Option String
  deriving DecidableEq, Repr

structure YtDlpIngestJob where
  url : String
  userId : String
  deriving DecidableEq, Repr

/-- The `payload` column: one contract for each kind of job. -/
inductive Payload where
  | analysis (job : AnalysisJob)
  | ytDlpIngest (job : YtDlpIngestJob)
  deriving DecidableEq, Repr

structure Job where
  id : Nat
  kind : JobKind
  dedupKey : String
  payload : Payload
  status : JobStatus
  attempts : Int
  maxAttempts : Int
  lockedAt : Option Nat
  lockedUntil : Option Nat
  lastError : Option String
  createdAt : Nat
  updatedAt : Nat
  finishedAt : Option Nat
  traceparent : Option String
  deriving DecidableEq, Repr

namespace JobStatus

/-- `succeeded` and `dead`: the statuses `finished_at` is set for. -/
def terminal : JobStatus → Bool
  | succeeded | dead => true
  | pending | running | failed => false

/-- The predicate of the partial index `jobs_active_dedup`. -/
def active : JobStatus → Bool
  | pending | running => true
  | succeeded | failed | dead => false

theorem terminal_iff {s : JobStatus} : s.terminal = true ↔ s = succeeded ∨ s = dead := by
  cases s <;> simp [terminal]

theorem active_not_terminal {s : JobStatus} (h : s.active = true) : s.terminal = false := by
  cases s <;> simp_all [active, terminal]

end JobStatus

/-- Same `(kind, dedup_key)`. -/
def Job.sameKey (i j : Job) : Prop := i.kind = j.kind ∧ i.dedupKey = j.dedupKey

instance (i j : Job) : Decidable (i.sameKey j) := inferInstanceAs (Decidable (_ ∧ _))

end BVault.Jobs
