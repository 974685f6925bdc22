import BVault.Jobs.Rows

/-!
# Finished jobs

`complete`, `fail` and `mark_dead` address a row by its id and look neither at
its status nor at who holds its lease; `heartbeat` alone asks for `running`. A
report that arrives after another claimant finished the row rewrites the row.
Finished rows stay as they are exactly in the runs without such a report.
-/

namespace BVault.Jobs

/-- Once a row is succeeded or dead its status never changes again, and no later
claim serves it. -/
def FinishedStays (ops : List Op) : Prop :=
  ∀ pre mid post, ops = pre ++ mid ++ post →
    ∀ j ∈ (runQueue pre).jobs, j.status.terminal = true →
      (∃ i ∈ (runQueue (pre ++ mid)).jobs, i.id = j.id ∧ i.status = j.status) ∧
      ∀ op rest, post = op :: rest →
        ∀ r, (runQueue (pre ++ mid)).served op = some r → r.id ≠ j.id

namespace Queue

/-- A report does not rewrite a finished row: no completion of a dead row, no failure of
a succeeded row or of a row parked dead with attempts left, no parking of a succeeded row. -/
def RespectsFinished (q : Queue) : Op → Prop
  | .complete _ id => ∀ j ∈ q.jobs, j.id = id → j.status ≠ .dead
  | .fail _ id _ => ∀ j ∈ q.jobs, j.id = id →
      j.status ≠ .succeeded ∧ (j.status = .dead → j.maxAttempts ≤ j.attempts)
  | .markDead _ id _ => ∀ j ∈ q.jobs, j.id = id → j.status ≠ .succeeded
  | _ => True

/-- The status of a finished row is changed by reports only. -/
theorem RespectsFinished.status {q : Queue} (keyed : q.Keyed) {op : Op}
    (respects : q.RespectsFinished op) {j : Job} (hj : j ∈ q.jobs)
    (done : j.status.terminal = true) : (q.effect op j).status = j.status := by
  have made := q.effect_rewrites op j
  generalize q.effect op j = after at made ⊢
  cases made with
  | kept => rfl
  | leased picked free same =>
    have eligible := (pick_spec picked).1
    have row := keyed.same_row hj eligible.1 same
    have running := runnable_not_terminal eligible.2.1
    rw [← row, done] at running
    cases running
  | extended => rfl
  | completed =>
    rcases JobStatus.terminal_iff.mp done with succeeded | dead
    · exact succeeded.symm
    · exact absurd dead (respects j hj rfl)
  | failed left =>
    obtain ⟨notSucceeded, spent⟩ := respects j hj rfl
    have dead := (JobStatus.terminal_iff.mp done).resolve_left notSucceeded
    have limit := spent dead
    omega
  | spent =>
    obtain ⟨notSucceeded, _⟩ := respects j hj rfl
    exact ((JobStatus.terminal_iff.mp done).resolve_left notSucceeded).symm
  | parked =>
    exact ((JobStatus.terminal_iff.mp done).resolve_left (respects j hj rfl)).symm

theorem respectsFinished_iff {q : Queue} (keyed : q.Keyed) (op : Op) :
    q.RespectsFinished op ↔
      ∀ j ∈ q.jobs, j.status.terminal = true → (q.effect op j).status = j.status := by
  constructor
  · exact fun respects j hj done => respects.status keyed hj done
  · intro kept
    cases op with
    | enqueue => trivial
    | claim => trivial
    | heartbeat => trivial
    | complete now id =>
      intro j hj same dead
      have := kept j hj (by rw [dead]; rfl)
      simp [effect, same, dead] at this
    | fail now id error =>
      intro j hj same
      constructor
      · intro succeeded
        have := kept j hj (by rw [succeeded]; rfl)
        simp only [effect, same, if_true, succeeded] at this
        split at this <;> cases this
      · intro dead
        have := kept j hj (by rw [dead]; rfl)
        simpa [effect, same, dead] using this
    | markDead now id error =>
      intro j hj same succeeded
      have := kept j hj (by rw [succeeded]; rfl)
      simp [effect, same, succeeded] at this

/-- A finished row is not served. -/
theorem served_not_finished {q : Queue} (keyed : q.Keyed) {op : Op} {r i : Job}
    (hr : q.served op = some r) (hi : i ∈ q.jobs) (done : i.status.terminal = true) :
    r.id ≠ i.id := by
  obtain ⟨now, kind, lease, locked, tie, p, _, picked, rfl, _⟩ := served_spec hr
  intro same
  have eligible := (pick_spec picked).1
  have row := keyed.same_row eligible.1 hi same
  have running := runnable_not_terminal eligible.2.1
  rw [row, done] at running
  cases running

end Queue

open Queue in
/-- Finished rows stay finished in exactly the runs whose reports leave them alone. -/
theorem finished_stays_iff_respected (ops : List Op) :
    FinishedStays ops ↔
      Runs.EachStep ops (fun pre op => (runQueue pre).RespectsFinished op) := by
  constructor
  · intro stays pre op post split
    rw [respectsFinished_iff (keyed_run pre)]
    intro j hj done
    have later := (stays pre [op] post (by rw [split, List.append_assoc,
      List.singleton_append]) j hj done).1
    obtain ⟨i, hi, same, status⟩ := later
    rw [runQueue_snoc] at hi
    rw [← (keyed_run pre).effect_of_id hj hi same]
    exact status
  · intro respected pre mid post split j hj done
    -- the row keeps its status along `mid`, statement by statement
    have kept : ∃ i ∈ (runQueue (pre ++ mid)).jobs, i.id = j.id ∧ i.status = j.status := by
      have guarded : Runs.EachStep (pre ++ mid)
          (fun pre op => (runQueue pre).RespectsFinished op) :=
        Runs.EachStep.initial (split ▸ respected)
      clear split
      induction mid using List.reverseRecOn with
      | nil => exact ⟨j, by simpa using hj, rfl, rfl⟩
      | append_singleton mid op ih =>
        rw [← List.append_assoc] at guarded ⊢
        obtain ⟨i, hi, same, status⟩ := ih guarded.initial
        have respects := (respectsFinished_iff (keyed_run (pre ++ mid)) op).mp guarded.last
        refine ⟨(runQueue (pre ++ mid)).effect op i, ?_, ?_, ?_⟩
        · rw [runQueue_snoc]
          exact mem_step.mpr (Or.inl ⟨i, hi, rfl⟩)
        · rw [effect_id, same]
        · rw [respects i hi (by rw [status]; exact done), status]
    refine ⟨kept, ?_⟩
    intro op rest _ r served
    obtain ⟨i, hi, same, status⟩ := kept
    rw [← same]
    exact served_not_finished (keyed_run (pre ++ mid)) served hi (by rw [status]; exact done)

/-- The first claimant of a job reports its failure after the second one has finished it. -/
def lateFailure : List Op :=
  [.enqueue 1 .analysis "a1b2" (.analysis ⟨"a1b2", "a1/a1b2.mp3", none⟩) 5 none,
    .claim 2 .analysis 1 [] 0,
    .claim 2000000 .analysis 300 [] 0,
    .complete 2000001 1,
    .fail 2000002 1 "io",
    .claim 2000003 .analysis 300 [] 0]

/-- The succeeded job turns failed and is served a third time. -/
theorem lateFailure_reopens :
    (runQueue (lateFailure.take 4)).jobs.map Job.status = [.succeeded] ∧
    (runQueue (lateFailure.take 5)).jobs.map Job.status = [.failed] ∧
    (runQueue lateFailure).jobs.map Job.status = [.running] ∧
    ¬ FinishedStays lateFailure := by
  refine ⟨by decide, by decide, by decide, ?_⟩
  intro stays
  obtain ⟨j, hj, succeeded, reopened⟩ :
      ∃ j ∈ (runQueue (lateFailure.take 4)).jobs, j.status = .succeeded ∧
        ∀ i ∈ (runQueue (lateFailure.take 4 ++ [.fail 2000002 1 "io"])).jobs,
          i.status ≠ .succeeded := by decide
  obtain ⟨⟨i, hi, _, status⟩, _⟩ := stays (lateFailure.take 4) [.fail 2000002 1 "io"]
    [.claim 2000003 .analysis 300 [] 0] rfl j hj (by rw [succeeded]; rfl)
  exact reopened i hi (status.trans succeeded)

end BVault.Jobs
