import BVault.Ytdlp.Pods

/-!
# How a job of yt-dlp comes to its end

A finished row shows the report that came in last. Reports come from handlers
that have uploaded the track or given up, and from users about their own jobs.
A finished job is never claimed again.
-/

namespace BVault.Ytdlp

open BVault.Jobs
open BVault.Worker (jobOwnedBy)

variable {maxRetries : Nat} {parseUuid : String → Option UserId}

/-- The row as a report leaves it. -/
structure Settled (j : Job) (r : JobReport) : Prop where
  ok : r.ok = true → j.status = .succeeded
  notOk : r.ok = false →
    j.status = .dead ∧ j.lastError = some (r.error.getD "yt-dlp ingest failed")

/-- The event is a report on the job, by its owner or from a handler. -/
inductive Reports (s : System) (id : Nat) (r : JobReport) : Event → Prop where
  | own {user : UserId} {now : Nat} (owned : ownedAt s.queue user id = true) :
    Reports s id r (.report user id r now)
  | handler {n now : Nat} {userId : String} (onTheWay : s.reports[n]? = some ⟨id, userId, r⟩) :
    Reports s id r (.deliver n now)

/-- A statement that finishes a job of yt-dlp is a report's. -/
theorem reports_of_sent {s : System} (keyed : s.queue.Keyed) {e : Event} {op : Op} (sent : Sent s e op)
    {j : Job} (mem : j ∈ s.queue.jobs) (kind : j.kind = .ytDlpIngest)
    (finishes : (∃ now, op = .complete now j.id) ∨ ∃ now error, op = .markDead now j.id error) :
    ∃ now r, op = reportOp now j.id r ∧ Reports s j.id r e := by
  have target {now id : Nat} {r : JobReport} (op_eq : op = reportOp now id r) : id = j.id := by
    rw [reportOp] at op_eq
    split at op_eq
    · rcases finishes with ⟨now', is⟩ | ⟨now', error, is⟩
      · cases op_eq.symm.trans is
        rfl
      · cases op_eq.symm.trans is
    · rcases finishes with ⟨now', is⟩ | ⟨now', error, is⟩
      · cases op_eq.symm.trans is
      · cases op_eq.symm.trans is
        rfl
  cases sent with
  | submitted user url now traceparent => rcases finishes with ⟨_, is⟩ | ⟨_, _, is⟩ <;> cases is
  | claimed now locked tie => rcases finishes with ⟨_, is⟩ | ⟨_, _, is⟩ <;> cases is
  | reported owned op_eq =>
    obtain rfl := target op_eq
    exact ⟨_, _, op_eq, .own owned⟩
  | @delivered _ n now r onTheWay op_eq =>
    obtain ⟨id, userId, report⟩ := r
    obtain rfl : id = j.id := target op_eq
    exact ⟨_, _, op_eq, .handler onTheWay⟩
  | analysis on =>
    have found := (get_eq_some_iff keyed).mpr ⟨mem, rfl⟩
    rcases finishes with ⟨_, rfl⟩ | ⟨_, _, rfl⟩ <;>
    · simp only [onAnalysis, found, Option.any_some, kind, reduceCtorEq, decide_false,
        Bool.false_eq_true] at on

theorem settled_reportOp {q : Queue} {j : Job} {now : Nat} {r : JobReport} :
    Settled (q.effect (reportOp now j.id r) j) r := by
  rw [reportOp]
  cases ok : r.ok with
  | true =>
    simp only [if_true, Queue.effect]
    exact ⟨fun _ => rfl, fun not => absurd (ok.symm.trans not) Bool.noConfusion⟩
  | false =>
    simp only [Bool.false_eq_true, if_false, Queue.effect, if_true]
    exact ⟨fun yes => absurd (ok.symm.trans yes) Bool.noConfusion, fun _ => ⟨rfl, rfl⟩⟩

/-- A finished row was finished before, and shows the same, or it has just been reported on. -/
theorem finished_of_sent {s : System} (kept : Kept s.queue) {e : Event} {op : Op} (sent : Sent s e op)
    {j : Job} (mem : j ∈ s.queue.jobs) (kind : j.kind = .ytDlpIngest)
    (finished : (s.queue.effect op j).status.terminal = true) :
    ((s.queue.effect op j).status = j.status ∧ (s.queue.effect op j).lastError = j.lastError) ∨
      ∃ r, Reports s j.id r e ∧ Settled (s.queue.effect op j) r := by
  have keyed := kept.indexed.keyed
  have made := s.queue.effect_rewrites op j
  have settles (finishes : (∃ now, op = .complete now j.id) ∨ ∃ now error, op = .markDead now j.id error) :
      ∃ r, Reports s j.id r e ∧ Settled (s.queue.effect op j) r := by
    obtain ⟨now, r, rfl, reports⟩ := reports_of_sent keyed sent mem kind finishes
    exact ⟨r, reports, settled_reportOp⟩
  generalize s.queue.effect op j = after at made finished settles
  cases made with
  | kept updated => exact Or.inl ⟨rfl, rfl⟩
  | leased picked free same => cases finished
  | extended running =>
    rw [running] at finished
    cases finished
  | completed => exact Or.inr (settles (Or.inl ⟨_, rfl⟩))
  | failed left => cases finished
  | @spent now error limit =>
    cases sent with
    | reported owned op_eq => exact absurd op_eq.symm reportOp_ne_fail
    | delivered onTheWay op_eq => exact absurd op_eq.symm reportOp_ne_fail
    | analysis on =>
      simp only [onAnalysis, (get_eq_some_iff keyed).mpr ⟨mem, rfl⟩, Option.any_some, kind,
        reduceCtorEq, decide_false, Bool.false_eq_true] at on
  | parked => exact Or.inr (settles (Or.inr ⟨_, _, rfl⟩))

/-- A row after one more event comes from one before it, or the event has submitted it. -/
theorem row_step (s : System) {e : Event} {j : Job}
    (mem : j ∈ (step maxRetries parseUuid s e).queue.jobs) :
    j ∈ s.queue.jobs ∨ ∃ op, statement parseUuid s e = some op ∧
      ((∃ j₀ ∈ s.queue.jobs, s.queue.effect op j₀ = j) ∨ j ∈ s.queue.inserted op) := by
  rw [step_queue] at mem
  cases sends : statement parseUuid s e with
  | none =>
    rw [sends] at mem
    exact Or.inl mem
  | some op =>
    rw [sends] at mem
    exact Or.inr ⟨op, rfl, Queue.mem_step.mp mem⟩

/-- Somebody reported `r` on the job in the run. -/
def Reported (maxRetries : Nat) (parseUuid : String → Option UserId) (events : List Event) (id : Nat)
    (r : JobReport) : Prop :=
  ∃ pre e post, events = pre ++ e :: post ∧ Reports (after maxRetries parseUuid pre) id r e

theorem Reported.snoc {events : List Event} {id : Nat} {r : JobReport}
    (reported : Reported maxRetries parseUuid events id r) (e : Event) :
    Reported maxRetries parseUuid (events ++ [e]) id r := by
  obtain ⟨pre, e', post, rfl, reports⟩ := reported
  exact ⟨pre, e', post ++ [e], by rw [List.append_assoc, List.cons_append], reports⟩

theorem reported_of_finished (events : List Event) {j : Job}
    (mem : j ∈ (after maxRetries parseUuid events).queue.jobs) (kind : j.kind = .ytDlpIngest)
    (finished : j.status.terminal = true) :
    ∃ r, Reported maxRetries parseUuid events j.id r ∧ Settled j r := by
  induction events using List.reverseRecOn generalizing j with
  | nil => cases mem
  | append_singleton events e ih =>
    rw [after_snoc] at mem
    rcases row_step _ mem with before | ⟨op, sends, ⟨j₀, before, rfl⟩ | fresh⟩
    · obtain ⟨r, reported, settled⟩ := ih before kind finished
      exact ⟨r, reported.snoc e, settled⟩
    · rw [Queue.effect_kind] at kind
      rw [Queue.effect_id]
      rcases finished_of_sent (sound_after events).kept (sent_of_statement sends) before kind
        finished with ⟨status, error⟩ | ⟨r, reports, settled⟩
      · rw [status] at finished
        obtain ⟨r, reported, settled⟩ := ih before kind finished
        refine ⟨r, reported.snoc e, ?_, ?_⟩
        · rw [status]
          exact settled.ok
        · rw [status, error]
          exact settled.notOk
      · exact ⟨r, ⟨events, e, [], rfl, reports⟩, settled⟩
    · obtain ⟨_, _, _, _, -, -, is, -⟩ := Queue.mem_inserted fresh
      rw [is] at finished
      cases finished

/-- A finished job of yt-dlp stays finished under every statement that is sent. -/
theorem terminal_of_sent {s : System} (kept : Kept s.queue) {e : Event} {op : Op} (sent : Sent s e op)
    {j : Job} (mem : j ∈ s.queue.jobs) (kind : j.kind = .ytDlpIngest)
    (finished : j.status.terminal = true) : (s.queue.effect op j).status.terminal = true := by
  have keyed := kept.indexed.keyed
  have left : j.status ≠ .failed := by
    intro failed
    rw [failed] at finished
    cases finished
  have stillLeft := not_failed_of_sent keyed sent mem kind left
  have made := s.queue.effect_rewrites op j
  generalize s.queue.effect op j = after at made stillLeft
  cases made with
  | kept updated => exact finished
  | leased picked free same =>
    obtain ⟨⟨hp, runnable, -⟩, -⟩ := Queue.pick_spec picked
    obtain rfl := keyed.same_row mem hp same
    rw [Queue.runnable_not_terminal runnable] at finished
    cases finished
  | extended running => exact finished
  | completed => rfl
  | failed left => exact absurd rfl stillLeft
  | spent limit => rfl
  | parked => rfl

/-- A later version of a row. -/
structure Later (j₀ j : Job) : Prop where
  columns : Queue.SameColumns j₀ j
  finished : j₀.kind = .ytDlpIngest → j₀.status.terminal = true → j.status.terminal = true

/-- Rows are never deleted. -/
theorem row_stays (pre post : List Event) {j₀ : Job}
    (mem : j₀ ∈ (after maxRetries parseUuid pre).queue.jobs) :
    ∃ j ∈ (after maxRetries parseUuid (pre ++ post)).queue.jobs, Later j₀ j := by
  induction post using List.reverseRecOn with
  | nil =>
    rw [List.append_nil]
    exact ⟨j₀, mem, ⟨rfl, rfl, rfl, rfl, rfl⟩, fun _ finished => finished⟩
  | append_singleton post e ih =>
    obtain ⟨j, there, later⟩ := ih
    rw [← List.append_assoc, after_snoc, step_queue]
    cases sends : statement parseUuid (after maxRetries parseUuid (pre ++ post)) e with
    | none => exact ⟨j, there, later⟩
    | some op =>
      refine ⟨_, Queue.mem_step.mpr (Or.inl ⟨j, there, rfl⟩), ⟨?_, ?_, ?_, ?_, ?_⟩, ?_⟩
      · rw [Queue.effect_id, later.columns.id]
      · rw [Queue.effect_kind, later.columns.kind]
      · rw [Queue.effect_dedupKey, later.columns.dedupKey]
      · rw [Queue.effect_maxAttempts, later.columns.maxAttempts]
      · rw [Queue.effect_payload, later.columns.payload]
      · intro kind finished
        exact terminal_of_sent (sound_after _).kept (sent_of_statement sends) there
          (later.columns.kind.trans kind) (later.finished kind finished)

/-- The records of the handlers stay. -/
theorem ended_mono (pre post : List Event) {x : Handler × Attempt}
    (mem : x ∈ (after maxRetries parseUuid pre).ended) :
    x ∈ (after maxRetries parseUuid (pre ++ post)).ended := by
  induction post using List.reverseRecOn with
  | nil => rwa [List.append_nil]
  | append_singleton post e ih =>
    rw [← List.append_assoc, after_snoc]
    rcases ended_step maxRetries parseUuid (after maxRetries parseUuid (pre ++ post)) e with
      ⟨same, -⟩ | ⟨_, _, _, _, _, -, -, -, more, -⟩
    · rw [same]
      exact ih
    · rw [more]
      exact List.mem_append_left _ ih

/-- The owner's name is in the payload, which never changes. -/
theorem owner_of_ownedAt {pre post : List Event} {user : UserId} {j : Job}
    (mem : j ∈ (after maxRetries parseUuid (pre ++ post)).queue.jobs)
    (owned : ownedAt (after maxRetries parseUuid pre).queue user j.id = true) :
    jobOwnedBy j user.val = true := by
  rw [ownedAt, Option.any_eq_true] at owned
  obtain ⟨j₀, found, owns⟩ := owned
  obtain ⟨mem₀, number⟩ := (get_eq_some_iff (sound_after pre).kept.indexed.keyed).mp found
  obtain ⟨j', mem', later⟩ := row_stays pre post mem₀
  obtain rfl := (sound_after _).kept.indexed.keyed.same_row mem mem' (by
    rw [later.columns.id, number])
  rw [jobOwnedBy, later.columns.payload]
  exact owns

/-- What a handler reports with its last attempt. -/
inductive Concludes (maxRetries : Nat) (h : Handler) : Attempt → JobReport → Prop where
  | uploaded : Concludes maxRetries h .uploaded ⟨true, none⟩
  | failed (error : String) (last : permanent error = true ∨ h.errors.length = maxRetries) :
    Concludes maxRetries h (.failed error) ⟨false, some error⟩

theorem concludes_of_done {q : Queue} {h : Handler} (working : Working maxRetries q h)
    {outcome : Attempt} {r : Report} (ends : h.attempted maxRetries outcome = .done (some r)) :
    r.jobId = h.jobId ∧ Concludes maxRetries h outcome r.report := by
  cases outcome with
  | uploaded =>
    cases ends
    exact ⟨rfl, .uploaded⟩
  | raised => cases ends
  | failed error =>
    rw [Handler.attempted] at ends
    split at ends
    · rename_i permanent
      cases ends
      exact ⟨rfl, .failed error (Or.inl permanent)⟩
    · split at ends
      · cases ends
      · rename_i none
        cases ends
        have few := working.few
        exact ⟨rfl, .failed error (Or.inr (by omega))⟩

/-- In every run, a job of yt-dlp that is finished shows what its owner has reported, or what a
handler of this job with its URL and user has: that the track is uploaded, or the error that the
handler gave up on. Its outcome is never that of another job. -/
theorem finished_job (events : List Event) {j : Job}
    (mem : j ∈ (after maxRetries parseUuid events).queue.jobs) (kind : j.kind = .ytDlpIngest)
    (finished : j.status.terminal = true) :
    ∃ r, Settled j r ∧
      ((∃ pre user now post, events = pre ++ .report user j.id r now :: post ∧
          jobOwnedBy j user.val = true) ∨
        ∃ h outcome, (h, outcome) ∈ (after maxRetries parseUuid events).ended ∧ h.jobId = j.id ∧
          j.payload = .ytDlpIngest ⟨h.url, h.userId⟩ ∧ Concludes maxRetries h outcome r) := by
  obtain ⟨r, ⟨pre, e, post, rfl, reports⟩, settled⟩ := reported_of_finished events mem kind finished
  refine ⟨r, settled, ?_⟩
  cases reports with
  | own owned => exact Or.inl ⟨pre, _, _, post, rfl, owner_of_ownedAt mem owned⟩
  | @handler n now userId onTheWay =>
    obtain ⟨⟨h, outcome⟩, known, ends⟩ :=
      (sound_after pre).reports _ (List.mem_of_getElem? onTheWay)
    have record := ended_mono pre (.deliver n now :: post) known
    have working := (sound_after (pre ++ .deliver n now :: post)).ended _ record
    obtain ⟨number, concludes⟩ := concludes_of_done working ends
    obtain ⟨j', mem', number', payload⟩ := working.job
    obtain rfl := (sound_after _).kept.indexed.keyed.same_row mem' mem (number'.trans number.symm)
    exact Or.inr ⟨h, outcome, record, number.symm, payload, concludes⟩

def sampleUser : UserId := ⟨"0b6e4f1c-8d0a-4c55-9f1e-2a7d35c8be10", by decide⟩

def sampleParse (text : String) : Option UserId :=
  if text = sampleUser.val then some sampleUser else none

/-- A job that fails once and is uploaded at the second attempt. -/
def secondAttempt : List Event :=
  [.submit sampleUser "https://youtu.be/a" 10 none, .acquire 0, .claim 0 11 [] 0,
    .attempt 0 0 (.failed "timed out"), .attempt 0 0 .uploaded, .deliver 0 20]

def secondAttemptRow : Job where
  id := 1
  kind := .ytDlpIngest
  dedupKey := Cli.dedupKey sampleUser.val "https://youtu.be/a"
  payload := .ytDlpIngest ⟨"https://youtu.be/a", sampleUser.val⟩
  status := .succeeded
  attempts := 1
  maxAttempts := 1
  lockedAt := some 11
  lockedUntil := none
  lastError := none
  createdAt := 10
  updatedAt := 20
  finishedAt := some 20
  traceparent := none

theorem finished_secondAttempt :
    ∃ r, Settled secondAttemptRow r ∧
      ((∃ pre user now post, secondAttempt = pre ++ .report user 1 r now :: post ∧
          jobOwnedBy secondAttemptRow user.val = true) ∨
        ∃ h outcome, (h, outcome) ∈ (after 10 sampleParse secondAttempt).ended ∧ h.jobId = 1 ∧
          secondAttemptRow.payload = .ytDlpIngest ⟨h.url, h.userId⟩ ∧ Concludes 10 h outcome r) := by
  have mem : secondAttemptRow ∈ (after 10 sampleParse secondAttempt).queue.jobs := by decide
  exact finished_job secondAttempt mem rfl rfl

end BVault.Ytdlp
