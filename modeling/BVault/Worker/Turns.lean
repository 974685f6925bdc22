import BVault.Store.Artifact
import BVault.Store.Raw
import BVault.Worker.Analyze

/-!
# Turns of workers, and reports about jobs

A turn is one `Worker::process`, from the claimed job to the statement that ends
it, one call at a time; its `put` takes the steps of the artifact store. Any
number of workers, gateways and users of `report_job` take their steps in any
order. A worker may die before each of its steps; what it wrote stays.
-/

namespace BVault.Worker

open BVault.Jobs BVault.Store

/-- The next call of a turn. -/
inductive Phase where
  | check (payload : AnalysisJob)
  | analyze (payload : AnalysisJob)
  /-- In `ArtifactStore::put`, as this call on the bundle directory. -/
  | put (payload : AnalysisJob) (call : Nat)
  | complete
  | fail (error : String)
  | ended
  deriving DecidableEq, Repr

structure Turn where
  job : Job
  phase : Phase
  deriving DecidableEq, Repr

/-- A report that passed the ownership check and was not carried out yet. -/
structure Report where
  id : Nat
  ok : Bool
  error : Option String
  deriving DecidableEq, Repr

structure Site where
  queue : Queue
  bundles : String → Bundle
  turns : List Turn
  reports : List Report

/-- What the machine answers to a call of a turn: the bytes that a write takes, whether a file
system call fails, the analysis that opening, decoding and analyzing come to, and the text of an
error. -/
structure Answer where
  now : Nat
  accepted : Nat
  ioFails : Bool
  analysis : Option Bytes
  error : String
  deriving DecidableEq, Repr

inductive Event where
  /-- A gateway enqueues a track's analysis, after it found no bundle. -/
  | enqueueAnalysis (now : Nat) (job : AnalysisJob) (maxAttempts : Int) (traceparent : Option String)
  | ingestYtdlp (now : Nat) (user url : String) (traceparent : Option String)
  /-- A worker claims an analysis job. -/
  | claim (now lease : Nat) (locked : List Nat) (tie : Nat) (error : String)
  | work (turn : Nat) (answer : Answer)
  | crash (turn : Nat)
  /-- The gateway's `claim_job`, for whoever has the internal key. -/
  | claimJob (now : Nat) (kind : JobKind) (lease : Nat) (locked : List Nat) (tie : Nat)
  /-- `report_job` up to the ownership check, then its statement. -/
  | reportJob (user : String) (id : Nat) (ok : Bool) (error : Option String)
  | carryOut (report now : Nat)

/-- Characters from a byte offset on, if it is a boundary. -/
def dropBytes : List Char → Nat → Option (List Char)
  | cs, 0 => some cs
  | [], _ + 1 => none
  | c :: cs, n + 1 => if c.utf8Size ≤ n + 1 then dropBytes cs (n + 1 - c.utf8Size) else none

/-- Characters up to a byte offset, if it is a boundary. -/
def takeBytes : List Char → Nat → Option (List Char)
  | _, 0 => some []
  | [], _ + 1 => none
  | c :: cs, n + 1 =>
    if c.utf8Size ≤ n + 1 then (takeBytes cs (n + 1 - c.utf8Size)).map (c :: ·) else none

/-- `hash.get(n..n + 2).unwrap_or("00")`. -/
def shard (hash : String) (n : Nat) : String :=
  (((dropBytes hash.toList n).bind (takeBytes · 2)).map String.ofList).getD "00"

/-- `ArtifactStore::bundle_dir`. -/
def bundleDir (root hash : String) : String :=
  join (join (join root (shard hash 0)) (shard hash 2)) hash

/-- `job_owned_by` looks for this field of the payload. -/
def userIdField : Payload → Option String
  | .analysis _ => none
  | .ytDlpIngest job => some job.userId

def jobOwnedBy (job : Job) (user : String) : Bool := userIdField job.payload = some user

namespace Site

def start : Site := ⟨Queue.empty, fun _ => Bundle.empty, [], []⟩

def setPhase (s : Site) (turn : Nat) (phase : Phase) : Site :=
  { s with turns := s.turns.modify turn (fun t => { t with phase := phase }) }

/-- A step of the calls on one bundle directory. -/
def bundleStep (s : Site) (dir : String) (e : Store.Event) : Site :=
  { s with bundles := fun d => if d = dir then (s.bundles d).step e else s.bundles d }

section
variable (root : String) (realDir : String → String)

/-- The directory of a hash's bundle, as the file system resolves its path. -/
def dirOf (hash : String) : String := realDir (bundleDir root hash)

/-- The artifact store's `exists`: the marker of the hash is there. -/
def analyzed (s : Site) (hash : String) : Bool := (s.bundles (dirOf root realDir hash)).exists

/-- The next call of `Worker::process`. -/
def work (s : Site) (turn : Nat) (t : Turn) (answer : Answer) : Site :=
  match t.phase with
  | .check payload =>
    s.setPhase turn (if s.analyzed root realDir payload.hash then .complete else .analyze payload)
  | .analyze payload =>
    match fromStrRadix16 payload.hash, answer.analysis with
    | some _, some json =>
      let dir := dirOf root realDir payload.hash
      (s.bundleStep dir (.call [("analysis.json", json)])).setPhase turn
        (.put payload (s.bundles dir).puts.length)
    | _, _ => s.setPhase turn (.fail answer.error)
  | .put payload call =>
    let dir := dirOf root realDir payload.hash
    let s := s.bundleStep dir (if answer.ioFails then .stop call else .step call answer.accepted)
    match (s.bundles dir).puts[call]? with
    | some p =>
      if p.pc = .returned then s.setPhase turn .complete
      else if p.pc = .stopped then s.setPhase turn (.fail answer.error)
      else s
    | none => s
  | .complete =>
    { s with queue := s.queue.step (.complete answer.now t.job.id) }.setPhase turn .ended
  | .fail error =>
    { s with queue := s.queue.step (.fail answer.now t.job.id error) }.setPhase turn .ended
  | .ended => s

/-- The process is gone, and its `put` with it. -/
def crash (s : Site) (turn : Nat) (t : Turn) : Site :=
  match t.phase with
  | .put payload call =>
    (s.bundleStep (dirOf root realDir payload.hash) (.stop call)).setPhase turn .ended
  | _ => s.setPhase turn .ended

/-- A claimed job starts a turn, with its payload or without. -/
def begin (job : Job) (error : String) : Turn where
  job := job
  phase :=
    match analysisJob job.payload with
    | some payload => .check payload
    | none => .fail ("bad payload: " ++ error)

def step (s : Site) : Event → Site
  | .enqueueAnalysis now job maxAttempts traceparent =>
    { s with
      queue := s.queue.step
        (.enqueue now .analysis job.hash (.analysis job) maxAttempts traceparent) }
  | .ingestYtdlp now user url traceparent =>
    { s with
      queue := s.queue.step
        (.enqueue now .ytDlpIngest (user ++ ":" ++ url) (.ytDlpIngest ⟨url, user⟩) 1 traceparent) }
  | .claim now lease locked tie error =>
    let op := Op.claim now .analysis lease locked tie
    { s with
      queue := s.queue.step op
      turns := s.turns ++ ((s.queue.served op).map (begin · error)).toList }
  | .work turn answer =>
    match s.turns[turn]? with
    | some t => s.work root realDir turn t answer
    | none => s
  | .crash turn =>
    match s.turns[turn]? with
    | some t => s.crash root realDir turn t
    | none => s
  | .claimJob now kind lease locked tie =>
    { s with queue := s.queue.step (.claim now kind lease locked tie) }
  | .reportJob user id ok error =>
    match s.queue.get id with
    | some job => if jobOwnedBy job user then { s with reports := s.reports ++ [⟨id, ok, error⟩] } else s
    | none => s
  | .carryOut report now =>
    match s.reports[report]? with
    | some r =>
      { s with
        queue := s.queue.step
          (if r.ok then .complete now r.id
          else .markDead now r.id (r.error.getD "yt-dlp ingest failed")) }
    | none => s

end

end Site

end BVault.Worker
