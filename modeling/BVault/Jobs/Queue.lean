import BVault.Jobs.Model
import BVault.Lib.Runs

/-!
# The Postgres-backed work queue

One definition for each statement of the queue. A statement is atomic: it maps
the table before it to the table after it, or aborts and changes nothing. What
the database is free to choose is an argument: the clock `now`, the rows other
transactions hold locked while `claim` skips them, and which of several rows of
equal age `order by created_at limit 1` returns.
-/

namespace BVault.Jobs

/-- The `jobs` table with its identity sequence. -/
structure Queue where
  jobs : List Job
  nextId : Nat
  deriving DecidableEq, Repr

inductive DbError where
  | uniqueViolation
  deriving DecidableEq, Repr

/-- `make_interval(secs => n)`. -/
def makeInterval (secs : Nat) : Nat := secs * 1000000

namespace Queue

def empty : Queue := ⟨[], 1⟩

def get (q : Queue) (id : Nat) : Option Job := q.jobs.find? (fun j => j.id = id)

/-- `update jobs set … where id = $1`. -/
def update (q : Queue) (id : Nat) (set : Job → Job) : Queue :=
  { q with jobs := q.jobs.map (fun j => if j.id = id then set j else j) }

/-- The row of the partial index `jobs_active_dedup` for a key. -/
def activeRow (q : Queue) (kind : JobKind) (dedupKey : String) : Option Job :=
  q.jobs.find? (fun j => j.status.active && j.kind = kind && j.dedupKey = dedupKey)

/-- The row `insert into jobs … values …` writes when nothing conflicts. -/
def freshRow (id : Nat) (now : Nat) (kind : JobKind) (dedupKey : String)
    (payload : Payload) (maxAttempts : Int) (traceparent : Option String) : Job where
  id := id
  kind := kind
  dedupKey := dedupKey
  payload := payload
  status := .pending
  attempts := 0
  maxAttempts := maxAttempts
  lockedAt := none
  lockedUntil := none
  lastError := none
  createdAt := now
  updatedAt := now
  finishedAt := none
  traceparent := traceparent

/-- Idempotent enqueue. The identity value is drawn before the conflict is
detected, so the sequence advances on both branches. -/
def enqueue (q : Queue) (now : Nat) (kind : JobKind) (dedupKey : String)
    (payload : Payload) (maxAttempts : Int) (traceparent : Option String) : Nat × Queue :=
  match q.activeRow kind dedupKey with
  | some j =>
    (j.id, { q.update j.id (fun r => { r with updatedAt := now }) with nextId := q.nextId + 1 })
  | none =>
    (q.nextId,
      { jobs := q.jobs ++
          [freshRow q.nextId now kind dedupKey payload maxAttempts traceparent]
        nextId := q.nextId + 1 })

/-- The `where` clause of the claim scan. A null `locked_until` is not below `now()`. -/
def runnable (now : Nat) (kind : JobKind) (j : Job) : Bool :=
  j.kind = kind &&
    (j.status = .pending || j.status = .failed ||
      (j.status = .running && j.lockedUntil.any (· < now)))

/-- The rows of least `created_at`. -/
def oldest (js : List Job) : List Job :=
  js.filter (fun j => js.all (fun i => j.createdAt ≤ i.createdAt))

/-- Rows the subselect of `claim` may return. -/
def candidates (q : Queue) (now : Nat) (kind : JobKind) (locked : List Nat) : List Job :=
  oldest (q.jobs.filter (fun j => runnable now kind j && !locked.contains j.id))

/-- `order by created_at for update skip locked limit 1`; `tie` selects among equals. -/
def pick (q : Queue) (now : Nat) (kind : JobKind) (locked : List Nat) (tie : Nat) :
    Option Job :=
  let rows := q.candidates now kind locked
  rows[tie % rows.length]?

/-- The `set` list of `claim`. -/
def leaseRow (now : Nat) (lease : Nat) (j : Job) : Job :=
  { j with
    status := .running
    attempts := j.attempts + 1
    lockedAt := some now
    lockedUntil := some (now + makeInterval lease)
    updatedAt := now }

/-- Another row of the key already sits in `jobs_active_dedup`. -/
def indexBlocked (q : Queue) (j : Job) : Bool :=
  q.jobs.any (fun i => i.id ≠ j.id && i.status.active && decide (i.sameKey j))

/-- Atomically claim the oldest runnable job of `kind`, leasing it for `lease` seconds. -/
def claim (q : Queue) (now : Nat) (kind : JobKind) (lease : Nat)
    (locked : List Nat) (tie : Nat) : Except DbError (Option Job × Queue) :=
  match q.pick now kind locked tie with
  | none => .ok (none, q)
  | some j =>
    if q.indexBlocked j then .error .uniqueViolation
    else .ok (some (leaseRow now lease j), q.update j.id (leaseRow now lease))

/-- Extend a running job's lease. -/
def heartbeat (q : Queue) (now : Nat) (id : Nat) (lease : Nat) : Queue :=
  q.update id (fun j =>
    if j.status = .running then
      { j with lockedUntil := some (now + makeInterval lease), updatedAt := now }
    else j)

/-- Mark a job succeeded. -/
def complete (q : Queue) (now : Nat) (id : Nat) : Queue :=
  q.update id (fun j =>
    { j with status := .succeeded, lockedUntil := none, finishedAt := some now, updatedAt := now })

/-- Record a failure: `failed` while attempts remain, then `dead`. -/
def fail (q : Queue) (now : Nat) (id : Nat) (error : String) : Queue :=
  q.update id (fun j =>
    { j with
      status := if j.maxAttempts ≤ j.attempts then .dead else .failed
      lastError := some error
      lockedUntil := none
      finishedAt := if j.maxAttempts ≤ j.attempts then some now else none
      updatedAt := now })

/-- Terminally park a job as `dead`. -/
def markDead (q : Queue) (now : Nat) (id : Nat) (error : String) : Queue :=
  q.update id (fun j =>
    { j with
      status := .dead
      lastError := some error
      lockedUntil := none
      finishedAt := some now
      updatedAt := now })

/-- Of the given dedup keys, how many are parked as `dead`: the count is over rows. -/
def countDead (q : Queue) (kind : JobKind) (dedupKeys : List String) : Nat :=
  (q.jobs.filter (fun j => j.kind = kind && j.status = .dead && dedupKeys.contains j.dedupKey)).length

end Queue

/-- One statement sent to the queue by some gateway or worker. -/
inductive Op where
  | enqueue (now : Nat) (kind : JobKind) (dedupKey : String) (payload : Payload)
      (maxAttempts : Int) (traceparent : Option String)
  | claim (now : Nat) (kind : JobKind) (lease : Nat) (locked : List Nat) (tie : Nat)
  | heartbeat (now : Nat) (id : Nat) (lease : Nat)
  | complete (now : Nat) (id : Nat)
  | fail (now : Nat) (id : Nat) (error : String)
  | markDead (now : Nat) (id : Nat) (error : String)
  deriving DecidableEq, Repr

/-- The clock reading of the statement. -/
def Op.now : Op → Nat
  | .enqueue now .. | .claim now .. | .heartbeat now .. | .complete now ..
  | .fail now .. | .markDead now .. => now

namespace Queue

/-- An aborted claim leaves the table as it was. -/
def step (q : Queue) : Op → Queue
  | .enqueue now kind key payload maxAttempts tp =>
    (q.enqueue now kind key payload maxAttempts tp).2
  | .claim now kind lease locked tie =>
    match q.claim now kind lease locked tie with
    | .ok (_, q') => q'
    | .error _ => q
  | .heartbeat now id lease => q.heartbeat now id lease
  | .complete now id => q.complete now id
  | .fail now id error => q.fail now id error
  | .markDead now id error => q.markDead now id error

/-- The row a statement hands to a worker. -/
def served (q : Queue) : Op → Option Job
  | .claim now kind lease locked tie =>
    match q.claim now kind lease locked tie with
    | .ok (row, _) => row
    | .error _ => none
  | _ => none

end Queue

/-- The table after a run of statements against an empty one. -/
abbrev runQueue (ops : List Op) : Queue := Runs.run Queue.step Queue.empty ops

theorem runQueue_snoc (ops : List Op) (op : Op) :
    runQueue (ops ++ [op]) = (runQueue ops).step op :=
  Runs.run_snoc _ _ ops op

end BVault.Jobs
