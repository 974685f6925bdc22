import BVault.Auth.Handlers
import BVault.Cli.Ingest
import BVault.Gateway.Search
import BVault.Jobs.Rows
import BVault.Worker.Turns
import Mathlib.Logic.Function.Basic

/-!
# Ingesting by yt-dlp

The gateway queues the URLs of its users and answers for the jobs. The pods of
the service claim them, try each one until it is settled, and report how it
ended. A request may reach the gateway after its sender has given up on it, or
never, and a pod may be restarted at any time.
-/

namespace BVault.Ytdlp

open BVault.Auth (GatewayError)
open BVault.Cli (dedupKey ingestYtdlp)
open BVault.Jobs
open BVault.Worker (jobOwnedBy)

/-- The text of a user's id. -/
abbrev UserId :=
  { id : String // id.length = 36 ∧
    id.toList.all (fun c => c = '-' || c.isDigit || ('a' ≤ c && c ≤ 'f')) = true }

structure JobStatusResponse where
  status : JobStatus
  error : Option String
  deriving DecidableEq, Repr

def getJob (q : Queue) (user : UserId) (id : Nat) : Except GatewayError JobStatusResponse :=
  match q.get id with
  | none => .error .notFound
  | some job => if jobOwnedBy job user.val then .ok ⟨job.status, job.lastError⟩ else .error .notFound

structure JobReport where
  ok : Bool
  error : Option String
  deriving DecidableEq, Repr

/-- Nothing that is read of the row ever changes, so that its two statements count as one. -/
def reportJob (q : Queue) (now : Nat) (user : UserId) (id : Nat) (r : JobReport) :
    Except GatewayError Queue :=
  match q.get id with
  | none => .error .notFound
  | some job =>
    if jobOwnedBy job user.val then
      if r.ok then .ok (q.complete now id)
      else .ok (q.markDead now id (r.error.getD "yt-dlp ingest failed"))
    else .error .notFound

structure ClaimResponse where
  id : Nat
  payload : Payload
  traceparent : Option String
  deriving DecidableEq, Repr

def claimJob (q : Queue) (now : Nat) (kind : JobKind) (leaseSecs : Nat) (locked : List Nat)
    (tie : Nat) : Except GatewayError (Option ClaimResponse × Queue) :=
  match q.claim now kind leaseSecs locked tie with
  | .ok (some job, q') => .ok (some ⟨job.id, job.payload, job.traceparent⟩, q')
  | .ok (none, q') => .ok (none, q')
  | .error _ => .error .database

/-- The keys of succeeded jobs that are `like` the prefix and a mark of any sequence. -/
def completedKeys (q : Queue) (kind : JobKind) (keyPrefix : String) : List String :=
  (q.jobs.filter fun j => j.kind = kind && j.status = .succeeded &&
    Like.like id Gateway.marks (keyPrefix ++ "%").toList j.dedupKey.toList).map Job.dedupKey

def stripPrefix (front text : String) : Option String :=
  if front.toList.isPrefixOf text.toList then some (String.ofList (text.toList.drop front.length))
  else none

def completedYtdlp (q : Queue) (user : UserId) : List String :=
  (completedKeys q .ytDlpIngest (user.val ++ ":")).filterMap (stripPrefix (user.val ++ ":"))

/-- What `process_yt_dlp_once` comes to: the track is uploaded, an error is caught, or there is
no directory for the download. -/
inductive Attempt where
  | uploaded
  | failed (error : String)
  | raised
  deriving DecidableEq, Repr

def permanentErrors : List String :=
  ["Video unavailable", "Private video", "Sign in to confirm your age",
    "Sign in to confirm you're not a bot"]

def permanent (error : String) : Bool :=
  permanentErrors.any (fun text => decide (text.toList <:+: error.toList))

/-- A call of `_report_job`. -/
structure Report where
  jobId : Nat
  userId : String
  report : JobReport
  deriving DecidableEq, Repr

/-- `handle_job` with the errors of the attempts it has made. -/
structure Handler where
  jobId : Nat
  url : String
  userId : String
  errors : List String
  deriving DecidableEq, Repr

inductive Next where
  | again (h : Handler)
  | done (report : Option Report)
  deriving DecidableEq, Repr

/-- The body of the loop over `range(MAX_RETRIES + 1)`. -/
def Handler.attempted (maxRetries : Nat) (h : Handler) : Attempt → Next
  | .uploaded => .done (some ⟨h.jobId, h.userId, ⟨true, none⟩⟩)
  | .failed error =>
    if permanent error then .done (some ⟨h.jobId, h.userId, ⟨false, some error⟩⟩)
    else if h.errors.length < maxRetries then .again { h with errors := h.errors ++ [error] }
    else .done (some ⟨h.jobId, h.userId, ⟨false, some error⟩⟩)
  | .raised => .done none

/-- The semaphore, whether the claim loop has acquired it, and the tasks it has spawned. -/
structure Pod where
  free : Nat
  acquired : Bool
  handlers : List Handler
  deriving DecidableEq, Repr

def Pod.start : Pod := ⟨2, false, []⟩

def Pod.acquire (pod : Pod) : Pod := { pod with free := pod.free - 1, acquired := true }

def Pod.release (pod : Pod) : Pod := { pod with free := pod.free + 1, acquired := false }

/-- `create_task(handle_job(job))`; the permit goes to the task. A payload without a URL fails the
task ahead of its `try`, and its permit is never released. -/
def Pod.spawn (pod : Pod) (job : ClaimResponse) : Pod :=
  match job.payload with
  | .ytDlpIngest payload =>
    { pod with
      acquired := false
      handlers := pod.handlers ++ [⟨job.id, payload.url, payload.userId, []⟩] }
  | .analysis _ => { pod with acquired := false }

structure System where
  queue : Queue
  pods : Nat → Pod
  /-- Claims that may reach the gateway with nobody waiting for the answer. -/
  strays : Nat
  reports : List Report
  /-- The handlers that are done, with their last attempts. Nothing reads it. -/
  ended : List (Handler × Attempt)

def System.start : System := ⟨Queue.empty, fun _ => Pod.start, 0, [], []⟩

inductive Event where
  | submit (user : UserId) (url : String) (now : Nat) (traceparent : Option String)
  -- a user's own call of the route that the service reports to
  | report (user : UserId) (id : Nat) (r : JobReport) (now : Nat)
  -- what the gateway and the analysis workers do
  | analysis (op : Op)
  | acquire (pod : Nat)
  | claim (pod now : Nat) (locked : List Nat) (tie : Nat)
  | claimFails (pod : Nat)
  | strayClaim (now : Nat) (locked : List Nat) (tie : Nat)
  | attempt (pod handler : Nat) (outcome : Attempt)
  | deliver (report now : Nat)
  | lose (report : Nat)
  | restart (pod : Nat)

/-- The statements that concern analysis jobs. -/
def onAnalysis (q : Queue) : Op → Bool
  | .enqueue _ kind _ payload _ _ =>
    match kind, payload with
    | .analysis, .analysis _ => true
    | _, _ => false
  | .claim _ kind _ _ _ => kind = .analysis
  | .heartbeat _ id _ | .complete _ id | .fail _ id _ | .markDead _ id _ =>
    (q.get id).any (fun job => job.kind = .analysis)

def System.setPod (s : System) (i : Nat) (pod : Pod) : System :=
  { s with pods := Function.update s.pods i pod }

theorem System.setPod_pods (s : System) (i k : Nat) (pod : Pod) :
    (s.setPod i pod).pods k = if k = i then pod else s.pods k :=
  Function.update_apply s.pods i pod k

/-- `lease_secs` of the service's claims. -/
def leaseSecs : Nat := 1800

/-- What is done with the answer to a claim. An error's is raised and caught in the loop. -/
def System.claimed (s : System) (i : Nat) :
    Except GatewayError (Option ClaimResponse × Queue) → System
  | .ok (some job, q) => { s.setPod i ((s.pods i).spawn job) with queue := q }
  | .ok (none, q) => { s.setPod i (s.pods i).release with queue := q }
  | .error _ => s.setPod i (s.pods i).release

section
variable (maxRetries : Nat) (parseUuid : String → Option UserId)

/-- A report comes in under the user that its header names. -/
def receive (q : Queue) (now : Nat) (r : Report) : Queue :=
  match parseUuid r.userId with
  | none => q
  | some user =>
    match reportJob q now user r.jobId r.report with
    | .ok q' => q'
    | .error _ => q

def System.handled (s : System) (i n : Nat) (h : Handler) (outcome : Attempt) : System :=
  let pod := s.pods i
  match h.attempted maxRetries outcome with
  | .again h' => s.setPod i { pod with handlers := pod.handlers.set n h' }
  | .done report =>
    { s.setPod i { pod with free := pod.free + 1, handlers := pod.handlers.eraseIdx n } with
      reports := s.reports ++ report.toList
      ended := s.ended ++ [(h, outcome)] }

def step (s : System) : Event → System
  | .submit user url now traceparent =>
    { s with queue := (ingestYtdlp user.val s.queue now traceparent url).2 }
  | .report user id r now =>
    match reportJob s.queue now user id r with
    | .ok q => { s with queue := q }
    | .error _ => s
  | .analysis op => if onAnalysis s.queue op then { s with queue := s.queue.step op } else s
  | .acquire i =>
    if (s.pods i).acquired || (s.pods i).free = 0 then s else s.setPod i (s.pods i).acquire
  | .claim i now locked tie =>
    if (s.pods i).acquired then
      s.claimed i (claimJob s.queue now .ytDlpIngest leaseSecs locked tie)
    else s
  | .claimFails i =>
    if (s.pods i).acquired then
      { s.setPod i (s.pods i).release with strays := s.strays + 1 }
    else s
  | .strayClaim now locked tie =>
    if s.strays = 0 then s
    else
      { s with
        strays := s.strays - 1
        queue := s.queue.step (.claim now .ytDlpIngest leaseSecs locked tie) }
  | .attempt i n outcome =>
    match (s.pods i).handlers[n]? with
    | none => s
    | some h => s.handled maxRetries i n h outcome
  | .deliver n now =>
    match s.reports[n]? with
    | none => s
    | some r =>
      { s with reports := s.reports.eraseIdx n, queue := receive parseUuid s.queue now r }
  | .lose n => { s with reports := s.reports.eraseIdx n }
  | .restart i =>
    { s.setPod i Pod.start with
      strays := s.strays + if (s.pods i).acquired then 1 else 0 }

/-- The system after a run of events. -/
def after (events : List Event) : System :=
  Runs.run (step maxRetries parseUuid) System.start events

theorem after_snoc (events : List Event) (e : Event) :
    after maxRetries parseUuid (events ++ [e]) =
      step maxRetries parseUuid (after maxRetries parseUuid events) e :=
  Runs.run_snoc _ _ events e

end

end BVault.Ytdlp
