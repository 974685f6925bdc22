import BVault.Jobs.Rows

/-!
# The attempt limit

`attempts` grows in `claim` and is compared with `max_attempts` in `fail` only.
A job whose worker reports every failure is parked when its attempts are spent;
a job whose workers die, or whose reports are lost, comes back through the
lease-expiry branch of `claim`, which never looks at the limit, and is parked by
nobody. The limit is therefore kept as long as the last attempt of a job is
reported, or its lease extended, before any other statement finds it run out.
-/

namespace BVault.Jobs

/-- The job a statement reports or asks more time for. -/
def Op.answers : Op → Option Nat
  | .heartbeat _ id _ => some id
  | .complete _ id => some id
  | .fail _ id _ => some id
  | .markDead _ id _ => some id
  | .enqueue .. | .claim .. => none

namespace Queue

/-- The row keeps its limit at time `now`: it was not served more often than allowed, and
once its attempts are spent it is finished, or the last of them is still under its lease. -/
structure KeepsLimit (now : Nat) (j : Job) : Prop where
  limit : j.attempts ≤ j.maxAttempts
  parked : j.maxAttempts ≤ j.attempts → j.status.terminal = true ∨
    (j.status = .running ∧ ∃ u, j.lockedUntil = some u ∧ now ≤ u)

def WithinLimit (q : Queue) (now : Nat) : Prop := ∀ j ∈ q.jobs, KeepsLimit now j

/-- The last attempt of the row is under way and its lease ran out before `now`. -/
def Overdue (now : Nat) (j : Job) : Prop :=
  j.maxAttempts ≤ j.attempts ∧ j.status = .running ∧ ∃ u, j.lockedUntil = some u ∧ u < now

/-- A statement comes in time: a row it adds may be tried at least once, and a job whose last
lease ran out without a report is reported, or given more time, by this very statement. -/
structure InTime (q : Queue) (op : Op) : Prop where
  tried : ∀ now kind key payload maxAttempts tp,
    op = .enqueue now kind key payload maxAttempts tp → q.activeRow kind key = none →
    1 ≤ maxAttempts
  reported : ∀ j ∈ q.jobs, Overdue op.now j → op.answers = some j.id

/-- What the limit leaves of a row when the time is forgotten: with its attempts spent it is
finished, or running under a lease. -/
structure Accounted (j : Job) : Prop where
  limit : j.attempts ≤ j.maxAttempts
  spent : j.maxAttempts ≤ j.attempts → j.status.terminal = true ∨
    (j.status = .running ∧ ∃ u, j.lockedUntil = some u)

theorem KeepsLimit.accounted {now : Nat} {j : Job} (kept : KeepsLimit now j) : Accounted j := by
  refine ⟨kept.limit, fun spent => ?_⟩
  rcases kept.parked spent with done | ⟨running, u, until_, _⟩
  · exact Or.inl done
  · exact Or.inr ⟨running, u, until_⟩

theorem keepsLimit_of_left {now : Nat} {j : Job} (left : j.attempts < j.maxAttempts) :
    KeepsLimit now j :=
  ⟨le_of_lt left, fun spent => absurd spent (not_le.mpr left)⟩

theorem keepsLimit_of_terminal {now : Nat} {j : Job} (limit : j.attempts ≤ j.maxAttempts)
    (done : j.status.terminal = true) : KeepsLimit now j :=
  ⟨limit, fun _ => Or.inl done⟩

theorem keepsLimit_of_leased {now u : Nat} {j : Job} (limit : j.attempts ≤ j.maxAttempts)
    (running : j.status = .running) (until_ : j.lockedUntil = some u) (live : now ≤ u) :
    KeepsLimit now j :=
  ⟨limit, fun _ => Or.inr ⟨running, u, until_, live⟩⟩

/-- An overdue row never keeps its limit. -/
theorem Overdue.not_keepsLimit {now : Nat} {j : Job} (overdue : Overdue now j) :
    ¬ KeepsLimit now j := by
  intro kept
  obtain ⟨spent, running, u, until_, past⟩ := overdue
  rcases kept.parked spent with done | ⟨_, v, until', live⟩
  · rw [running] at done
    cases done
  · have same : u = v := Option.some.inj (until_.symm.trans until')
    omega

/-- The row a statement answers is finished, given more time, or returned with attempts left. -/
theorem answered_keepsLimit {q : Queue} {op : Op} {j : Job} (row : Accounted j)
    (spent : j.maxAttempts ≤ j.attempts) (running : j.status = .running)
    (answered : op.answers = some j.id) : KeepsLimit op.now (q.effect op j) := by
  cases op with
  | enqueue => cases answered
  | claim => cases answered
  | heartbeat now id lease =>
    obtain rfl := Option.some.inj answered
    simp only [effect, if_true, running]
    exact keepsLimit_of_leased row.limit rfl rfl (Nat.le_add_right now _)
  | complete now id =>
    obtain rfl := Option.some.inj answered
    simp only [effect, if_true]
    exact keepsLimit_of_terminal row.limit rfl
  | fail now id error =>
    obtain rfl := Option.some.inj answered
    simp only [effect, if_true, spent]
    exact keepsLimit_of_terminal row.limit rfl
  | markDead now id error =>
    obtain rfl := Option.some.inj answered
    simp only [effect, if_true]
    exact keepsLimit_of_terminal row.limit rfl

/-- A row that is not overdue keeps its limit through every statement. -/
theorem effect_keepsLimit {q : Queue} {op : Op} {j : Job} (keyed : q.Keyed) (hj : j ∈ q.jobs)
    (row : Accounted j) (prompt : ¬ Overdue op.now j) : KeepsLimit op.now (q.effect op j) := by
  have made := q.effect_rewrites op j
  generalize q.effect op j = after at made ⊢
  have live : ∀ {u}, j.maxAttempts ≤ j.attempts → j.status = .running →
      j.lockedUntil = some u → op.now ≤ u := by
    intro u spent running until_
    by_contra past
    exact prompt ⟨spent, running, u, until_, not_le.mp past⟩
  cases made with
  | kept =>
    refine ⟨row.limit, fun spent => ?_⟩
    rcases row.spent spent with done | ⟨running, u, until_⟩
    · exact Or.inl done
    · exact Or.inr ⟨running, u, until_, live spent running until_⟩
  | @leased now lease _ _ _ p picked _ same =>
    obtain ⟨⟨hp, runs, _⟩, _⟩ := pick_spec picked
    obtain rfl := keyed.same_row hj hp same
    -- with no attempt left the row would be overdue, as the claim found it runnable
    have left : j.attempts < j.maxAttempts := by
      by_contra spent
      rcases row.spent (not_lt.mp spent) with done | ⟨running, u, until_⟩
      · rw [runnable_not_terminal runs] at done
        cases done
      · obtain ⟨_, pending | failed | ⟨_, v, until', past⟩⟩ := runnable_status runs
        · rw [running] at pending; cases pending
        · rw [running] at failed; cases failed
        · exact prompt ⟨not_lt.mp spent, running, v, until', past⟩
    have served : j.attempts + 1 ≤ j.maxAttempts := left
    exact keepsLimit_of_leased served rfl rfl (Nat.le_add_right now (makeInterval lease))
  | @extended now lease running =>
    exact keepsLimit_of_leased row.limit running rfl (Nat.le_add_right now (makeInterval lease))
  | completed => exact keepsLimit_of_terminal row.limit rfl
  | failed left => exact keepsLimit_of_left left
  | spent => exact keepsLimit_of_terminal row.limit rfl
  | parked => exact keepsLimit_of_terminal row.limit rfl

/-- An overdue row that a statement does not answer is overdue after it, or served once more. -/
theorem unanswered_breaks {q : Queue} {op : Op} {j : Job} (overdue : Overdue op.now j)
    (unanswered : op.answers ≠ some j.id) : ¬ KeepsLimit op.now (q.effect op j) := by
  have made := q.effect_rewrites op j
  generalize q.effect op j = after at made ⊢
  cases made with
  | kept =>
    obtain ⟨spent, running, expired⟩ := overdue
    exact Overdue.not_keepsLimit ⟨spent, running, expired⟩
  | leased =>
    intro kept
    have again : j.attempts + 1 ≤ j.maxAttempts := kept.limit
    have spent := overdue.1
    omega
  | extended => exact absurd rfl unanswered
  | completed => exact absurd rfl unanswered
  | failed => exact absurd rfl unanswered
  | spent => exact absurd rfl unanswered
  | parked => exact absurd rfl unanswered

theorem freshRow_keepsLimit_iff {id now time : Nat} {kind : JobKind} {key : String}
    {payload : Payload} {m : Int} {tp : Option String} :
    KeepsLimit time (freshRow id now kind key payload m tp) ↔ 1 ≤ m := by
  constructor
  · intro kept
    by_contra none_
    have spent : m ≤ 0 := by omega
    rcases kept.parked spent with done | ⟨running, _⟩
    · cases done
    · cases running
  · intro tried
    have left : (0 : Int) < m := by omega
    exact keepsLimit_of_left left

/-- Every row is accounted for, under its own identity value. -/
structure Tracked (q : Queue) : Prop where
  keyed : q.Keyed
  rows : ∀ j ∈ q.jobs, Accounted j

theorem withinLimit_step {q : Queue} {op : Op} (tracked : q.Tracked) :
    (q.step op).WithinLimit op.now ↔ q.InTime op := by
  constructor
  · intro after
    refine ⟨?_, fun j hj overdue => ?_⟩
    · rintro now kind key payload maxAttempts tp rfl free
      have added := after (freshRow q.nextId now kind key payload maxAttempts tp)
        (mem_step.mpr (Or.inr (by simp [inserted, free])))
      exact freshRow_keepsLimit_iff.mp added
    · by_contra unanswered
      exact unanswered_breaks overdue unanswered (after _ (mem_step.mpr (Or.inl ⟨j, hj, rfl⟩)))
  · intro inTime j' hj'
    rcases mem_step.mp hj' with ⟨j, hj, rfl⟩ | added
    · have row := tracked.rows j hj
      by_cases overdue : Overdue op.now j
      · exact answered_keepsLimit row overdue.1 overdue.2.1 (inTime.reported j hj overdue)
      · exact effect_keepsLimit tracked.keyed hj row overdue
    · obtain ⟨now, payload, m, tp, rfl, free, fresh, _⟩ := mem_inserted added
      rw [fresh]
      exact freshRow_keepsLimit_iff.mpr (inTime.tried _ _ _ _ _ _ rfl free)

theorem tracked_step {q : Queue} {op : Op} (tracked : q.Tracked)
    (within : (q.step op).WithinLimit op.now) : (q.step op).Tracked :=
  ⟨keyed_step op tracked.keyed, fun j hj => (within j hj).accounted⟩

end Queue

open Queue in
/-- In every state of a run no job was served more often than its limit allows and every job
without attempts left is finished or under its last lease, exactly when every statement of
the run comes in time. -/
theorem within_limit_iff_in_time (ops : List Op) :
    Runs.EachStep ops (fun pre op => (runQueue (pre ++ [op])).WithinLimit op.now) ↔
      Runs.EachStep ops (fun pre op => (runQueue pre).InTime op) :=
  Runs.eachStep_after_iff (P := fun q op => q.WithinLimit op.now) Tracked
    (fun _ _ => tracked_step) (fun _ _ => withinLimit_step)
    ⟨keyed_empty, by intro j hj; cases hj⟩ ops

/-- A yt-dlp job runs to its end but the report is lost. -/
def lostReport : List Op :=
  [.enqueue 1 .ytDlpIngest "u:url" (.ytDlpIngest ⟨"url", "u"⟩) 1 none,
    .claim 2 .ytDlpIngest 1800 [] 0,
    .claim 1800000003 .ytDlpIngest 1800 [] 0]

/-- Its single attempt is spent, and the expired lease serves it again. -/
theorem lostReport_exceeds_limit :
    (runQueue lostReport).jobs.map (fun j => (j.status, j.attempts, j.maxAttempts)) =
      [(.running, 2, 1)] ∧
    ¬ Runs.EachStep lostReport
      (fun pre op => (runQueue (pre ++ [op])).WithinLimit op.now) := by
  refine ⟨by decide, ?_⟩
  intro within
  have last := within (lostReport.take 2) (.claim 1800000003 .ytDlpIngest 1800 [] 0) [] rfl
  obtain ⟨j, hj, exceeds⟩ : ∃ j ∈ (runQueue lostReport).jobs, j.maxAttempts < j.attempts := by
    decide
  have limit := (last j hj).limit
  omega

end BVault.Jobs
