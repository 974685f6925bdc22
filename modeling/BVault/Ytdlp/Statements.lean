import BVault.Ytdlp.Service
import BVault.Jobs.Active

/-!
# What the service does to the queue

Every event sends the queue one statement at most. Jobs of yt-dlp are submitted
under a user's key with that user in their payload, are claimed, and are
reported on; nothing puts them back for another claim.
-/

namespace BVault.Ytdlp

open BVault.Auth (GatewayError)
open BVault.Cli (dedupKey ingestYtdlp)
open BVault.Jobs
open BVault.Worker (jobOwnedBy)

/-- The update behind a report. -/
def reportOp (now id : Nat) (r : JobReport) : Op :=
  if r.ok then .complete now id else .markDead now id (r.error.getD "yt-dlp ingest failed")

theorem reportOp_ne_fail {now now' id id' : Nat} {error : String} {r : JobReport} :
    reportOp now id r ≠ .fail now' id' error := by
  rw [reportOp]
  split <;> exact Op.noConfusion

theorem reportOp_ne_enqueue {now now' id : Nat} {r : JobReport} {kind : JobKind} {key : String}
    {payload : Payload} {maxAttempts : Int} {traceparent : Option String} :
    reportOp now id r ≠ .enqueue now' kind key payload maxAttempts traceparent := by
  rw [reportOp]
  split <;> exact Op.noConfusion

def ownedAt (q : Queue) (user : UserId) (id : Nat) : Bool :=
  (q.get id).any (fun job => jobOwnedBy job user.val)

theorem reportJob_eq (q : Queue) (now : Nat) (user : UserId) (id : Nat) (r : JobReport) :
    reportJob q now user id r =
      if ownedAt q user id then .ok (q.step (reportOp now id r)) else .error .notFound := by
  cases found : q.get id with
  | none => simp only [reportJob, ownedAt, found, Option.any_none, Bool.false_eq_true, if_false]
  | some job =>
    simp only [reportJob, ownedAt, found, Option.any_some, reportOp]
    cases r.ok <;> rfl

section
variable (parseUuid : String → Option UserId)

/-- The statement that an event sends to the queue. -/
def statement (s : System) : Event → Option Op
  | .submit user url now traceparent =>
    some (.enqueue now .ytDlpIngest (dedupKey user.val url) (.ytDlpIngest ⟨url, user.val⟩) 1
      traceparent)
  | .report user id r now => if ownedAt s.queue user id then some (reportOp now id r) else none
  | .analysis op => if onAnalysis s.queue op then some op else none
  | .claim i now locked tie =>
    if (s.pods i).acquired then some (.claim now .ytDlpIngest leaseSecs locked tie) else none
  | .strayClaim now locked tie =>
    if s.strays = 0 then none else some (.claim now .ytDlpIngest leaseSecs locked tie)
  | .deliver n now =>
    (s.reports[n]?).bind fun r => (parseUuid r.userId).bind fun user =>
      if ownedAt s.queue user r.jobId then some (reportOp now r.jobId r.report) else none
  | _ => none

theorem receive_eq (q : Queue) (now : Nat) (r : Report) :
    receive parseUuid q now r =
      (((parseUuid r.userId).bind fun user =>
        if ownedAt q user r.jobId then some (reportOp now r.jobId r.report) else none).elim
          q q.step) := by
  cases named : parseUuid r.userId with
  | none => simp only [receive, named, Option.bind_none, Option.elim_none]
  | some user =>
    simp only [receive, named, reportJob_eq, Option.bind_some]
    split
    · rename_i owned
      split at owned
      · cases owned
        rename_i yes
        simp only [yes, if_true, Option.elim_some]
      · cases owned
    · rename_i refused
      split at refused
      · cases refused
      · rename_i no
        simp only [no, if_false, Option.elim_none, Bool.false_eq_true]

theorem claimJob_queue (q : Queue) (now : Nat) (kind : JobKind) (lease : Nat) (locked : List Nat)
    (tie : Nat) :
    (∃ row, claimJob q now kind lease locked tie =
      .ok (row, q.step (.claim now kind lease locked tie))) ∨
    claimJob q now kind lease locked tie = .error .database ∧
      q.step (.claim now kind lease locked tie) = q := by
  simp only [claimJob, Queue.step]
  cases q.claim now kind lease locked tie with
  | error _ => exact Or.inr ⟨rfl, rfl⟩
  | ok result =>
    obtain ⟨_ | job, q'⟩ := result
    · exact Or.inl ⟨_, rfl⟩
    · exact Or.inl ⟨_, rfl⟩

variable (maxRetries : Nat)

theorem step_queue (s : System) (e : Event) :
    (step maxRetries parseUuid s e).queue = (statement parseUuid s e).elim s.queue s.queue.step := by
  cases e with
  | submit user url now traceparent => rfl
  | report user id r now =>
    simp only [step, statement, reportJob_eq]
    split
    · rename_i q owned
      split at owned
      · cases owned
        rename_i yes
        simp only [yes, if_true, Option.elim_some]
      · cases owned
    · rename_i refused
      split at refused
      · cases refused
      · rename_i no
        simp only [no, if_false, Option.elim_none, Bool.false_eq_true]
  | analysis op =>
    simp only [step, statement]
    split <;> rfl
  | acquire i =>
    simp only [step, statement, Option.elim_none]
    split <;> rfl
  | claim i now locked tie =>
    simp only [step, statement]
    split
    · rcases claimJob_queue s.queue now .ytDlpIngest leaseSecs locked tie with
        ⟨_ | job, answered⟩ | ⟨refused, same⟩
      · rw [answered]
        rfl
      · rw [answered]
        rfl
      · rw [refused, Option.elim_some, same]
        rfl
    · rfl
  | claimFails i =>
    simp only [step, statement, Option.elim_none]
    split <;> rfl
  | strayClaim now locked tie =>
    simp only [step, statement]
    split <;> rfl
  | attempt i n outcome =>
    simp only [step, statement, Option.elim_none]
    split
    · rfl
    · rename_i h _
      simp only [System.handled]
      split <;> rfl
  | deliver n now =>
    simp only [step, statement]
    cases s.reports[n]? with
    | none => rfl
    | some r => exact receive_eq parseUuid s.queue now r
  | lose n => rfl
  | restart i => rfl

end

/-- The statements that are sent, with what they come from. -/
inductive Sent (s : System) : Event → Op → Prop where
  | submitted (user : UserId) (url : String) (now : Nat) (traceparent : Option String) :
    Sent s (.submit user url now traceparent)
      (.enqueue now .ytDlpIngest (dedupKey user.val url) (.ytDlpIngest ⟨url, user.val⟩) 1 traceparent)
  | claimed {e : Event} (now : Nat) (locked : List Nat) (tie : Nat) :
    Sent s e (.claim now .ytDlpIngest leaseSecs locked tie)
  | reported {op : Op} {user : UserId} {now id : Nat} {r : JobReport}
    (owned : ownedAt s.queue user id = true) (op_eq : op = reportOp now id r) :
    Sent s (.report user id r now) op
  | delivered {op : Op} {n now : Nat} {r : Report} (onTheWay : s.reports[n]? = some r)
    (op_eq : op = reportOp now r.jobId r.report) : Sent s (.deliver n now) op
  | analysis {op : Op} (on : onAnalysis s.queue op = true) : Sent s (.analysis op) op

theorem sent_of_statement {parseUuid : String → Option UserId} {s : System} {e : Event} {op : Op}
    (sends : statement parseUuid s e = some op) : Sent s e op := by
  cases e with
  | submit user url now traceparent =>
    cases sends
    exact .submitted user url now traceparent
  | report user id r now =>
    simp only [statement, Option.ite_none_right_eq_some, Option.some.injEq] at sends
    obtain ⟨owned, rfl⟩ := sends
    exact .reported owned rfl
  | analysis op' =>
    simp only [statement, Option.ite_none_right_eq_some, Option.some.injEq] at sends
    obtain ⟨on, rfl⟩ := sends
    exact .analysis on
  | claim i now locked tie =>
    simp only [statement, Option.ite_none_right_eq_some, Option.some.injEq] at sends
    obtain ⟨-, rfl⟩ := sends
    exact .claimed now locked tie
  | strayClaim now locked tie =>
    simp only [statement, Option.ite_none_left_eq_some, Option.some.injEq] at sends
    obtain ⟨-, rfl⟩ := sends
    exact .claimed now locked tie
  | deliver n now =>
    simp only [statement, Option.bind_eq_some_iff, Option.ite_none_right_eq_some,
      Option.some.injEq] at sends
    obtain ⟨r, onTheWay, user, -, -, rfl⟩ := sends
    exact .delivered onTheWay rfl
  | acquire i => cases sends
  | claimFails i => cases sends
  | attempt i n outcome => cases sends
  | lose n => cases sends
  | restart i => cases sends

/-- What a row holds, by its kind. -/
inductive Row (j : Job) : Prop where
  | analysis (job : AnalysisJob) (kind : j.kind = .analysis) (payload : j.payload = .analysis job)
  | ytdlp (user : UserId) (url : String) (kind : j.kind = .ytDlpIngest)
    (payload : j.payload = .ytDlpIngest ⟨url, user.val⟩)
    (key : j.dedupKey = dedupKey user.val url) (left : j.status ≠ .failed)

/-- The queue as the database and the services keep it. -/
structure Kept (q : Queue) : Prop where
  indexed : q.Indexed
  rows : ∀ j ∈ q.jobs, Row j

theorem get_eq_some_iff {q : Queue} (keyed : q.Keyed) {id : Nat} {j : Job} :
    q.get id = some j ↔ j ∈ q.jobs ∧ j.id = id := by
  rw [Queue.get]
  constructor
  · intro found
    have same := List.find?_some found
    exact ⟨List.mem_of_find?_eq_some found, of_decide_eq_true same⟩
  · rintro ⟨mem, rfl⟩
    cases found : q.jobs.find? (fun i => i.id = j.id) with
    | none => exact absurd (List.find?_eq_none.mp found j mem) (by simp)
    | some i =>
      have same := List.find?_some found
      rw [keyed.same_row (List.mem_of_find?_eq_some found) mem (of_decide_eq_true same)]

/-- Nothing that is sent puts a job of yt-dlp back. -/
theorem not_failed_of_sent {s : System} (keyed : s.queue.Keyed) {e : Event} {op : Op}
    (sent : Sent s e op) {j : Job} (mem : j ∈ s.queue.jobs) (kind : j.kind = .ytDlpIngest)
    (left : j.status ≠ .failed) : (s.queue.effect op j).status ≠ .failed := by
  have made := s.queue.effect_rewrites op j
  generalize s.queue.effect op j = after at made
  cases made with
  | kept updated => exact left
  | leased picked free same => exact JobStatus.noConfusion
  | extended running => exact left
  | completed => exact JobStatus.noConfusion
  | @failed now error _ =>
    cases sent with
    | analysis on =>
      simp only [onAnalysis, (get_eq_some_iff keyed).mpr ⟨mem, rfl⟩, Option.any_some, kind,
        reduceCtorEq, decide_false, Bool.false_eq_true] at on
    | reported owned op_eq => exact absurd op_eq.symm reportOp_ne_fail
    | delivered onTheWay op_eq => exact absurd op_eq.symm reportOp_ne_fail
  | spent limit => exact JobStatus.noConfusion
  | parked => exact JobStatus.noConfusion

theorem row_inserted {s : System} {e : Event} {op : Op} (sent : Sent s e op) {j : Job}
    (mem : j ∈ s.queue.inserted op) : Row j := by
  obtain ⟨now, payload, maxAttempts, tp, op_eq, -, fresh, -⟩ := Queue.mem_inserted mem
  generalize j.kind = kind, j.dedupKey = key at op_eq fresh
  cases sent with
  | submitted user url now' traceparent =>
    cases op_eq
    exact .ytdlp user url (by rw [fresh]; rfl) (by rw [fresh]; rfl) (by rw [fresh]; rfl)
      (by rw [fresh]; exact JobStatus.noConfusion)
  | claimed now' locked tie => cases op_eq
  | reported owned op_eq' => exact absurd (op_eq'.symm.trans op_eq) reportOp_ne_enqueue
  | delivered onTheWay op_eq' => exact absurd (op_eq'.symm.trans op_eq) reportOp_ne_enqueue
  | analysis on =>
    subst op_eq
    cases kind with
    | ytDlpIngest => cases on
    | analysis =>
      cases payload with
      | ytDlpIngest job => cases on
      | analysis job => exact .analysis job (by rw [fresh]; rfl) (by rw [fresh]; rfl)

theorem kept_step {s : System} {e : Event} {op : Op} (kept : Kept s.queue) (sent : Sent s e op) :
    Kept (s.queue.step op) := by
  refine ⟨Queue.indexed_step op kept.indexed, ?_⟩
  intro j' mem'
  rcases Queue.mem_step.mp mem' with ⟨j, mem, rfl⟩ | fresh
  · cases kept.rows j mem with
    | analysis job kind payload =>
      exact .analysis job (by rw [Queue.effect_kind, kind]) (by rw [Queue.effect_payload, payload])
    | ytdlp user url kind payload key left =>
      exact .ytdlp user url (by rw [Queue.effect_kind, kind])
        (by rw [Queue.effect_payload, payload]) (by rw [Queue.effect_dedupKey, key])
        (not_failed_of_sent kept.indexed.keyed sent mem kind left)
  · exact row_inserted sent fresh

end BVault.Ytdlp
