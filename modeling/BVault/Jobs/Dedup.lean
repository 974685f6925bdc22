import BVault.Jobs.Rows
import Mathlib.Data.List.Dedup

/-!
# At most one open row for each key

An open row is one that still has work ahead of it: pending, running, or failed
with attempts left. The index `jobs_active_dedup` covers pending and running
rows only, so `enqueue` adds a row beside a failed one and `fail` may reopen a
finished one. The runs that do neither are exactly the ones in which every key
keeps at most one open row, and there `claim` always serves the oldest row.
-/

namespace BVault.Jobs

namespace Queue

/-- The non-terminal rows of a key. -/
def openRows (q : Queue) (kind : JobKind) (dedupKey : String) : List Job :=
  q.jobs.filter (fun j => !j.status.terminal && j.kind = kind && j.dedupKey = dedupKey)

def OneOpenRow (q : Queue) : Prop :=
  ∀ kind dedupKey, (q.openRows kind dedupKey).length ≤ 1

/-- Whenever an unlocked row of the kind is runnable, `claim` returns one of the
oldest such rows, leased. -/
def ServesOldest (q : Queue) : Prop :=
  ∀ now kind lease locked tie, (∃ j, q.Eligible now kind locked j) →
    ∃ j, q.Eligible now kind locked j ∧
      (∀ i, q.Eligible now kind locked i → j.createdAt ≤ i.createdAt) ∧
      q.claim now kind lease locked tie =
        .ok (some (leaseRow now lease j), q.update j.id (leaseRow now lease))

/-- The claim scan is never stopped by the index. -/
def NeverBlocked (q : Queue) : Prop :=
  ∀ now kind lease locked tie, q.claim now kind lease locked tie ≠ .error .uniqueViolation

def DedupHolds (q : Queue) : Prop := q.OneOpenRow ∧ q.NeverBlocked ∧ q.ServesOldest

/-- A statement keeps the open rows of a key apart: nothing is enqueued beside a
failed row of the key, and no finished row is failed back into the pool while
another row of its key is open. -/
def KeepsKeysApart (q : Queue) : Op → Prop
  | .enqueue _ kind key _ _ _ =>
    ∀ j ∈ q.jobs, j.kind = kind → j.dedupKey = key → j.status ≠ .failed
  | .fail _ id _ =>
    ∀ j ∈ q.jobs, j.id = id → j.status.terminal = true → j.attempts < j.maxAttempts →
      ∀ i ∈ q.jobs, i.id ≠ id → i.sameKey j → i.status.terminal = true
  | _ => True

/-- Open rows of one key are one row. -/
def OpenRowsAgree (q : Queue) : Prop :=
  ∀ i ∈ q.jobs, ∀ j ∈ q.jobs, i.status.terminal = false → j.status.terminal = false →
    i.sameKey j → i.id = j.id

theorem oneOpenRow_iff {q : Queue} (keyed : q.Keyed) : q.OneOpenRow ↔ q.OpenRowsAgree := by
  simp only [OneOpenRow, openRows, keyed.atMostOne_iff, Bool.and_eq_true, Bool.not_eq_true',
    decide_eq_true_eq]
  constructor
  · intro one i hi j hj iOpen jOpen same
    exact one i.kind i.dedupKey i hi j hj ⟨⟨iOpen, rfl⟩, rfl⟩ ⟨⟨jOpen, same.1.symm⟩, same.2.symm⟩
  · intro agree kind key i hi j hj ⟨⟨iOpen, iKind⟩, iKey⟩ ⟨⟨jOpen, jKind⟩, jKey⟩
    exact agree i hi j hj iOpen jOpen ⟨iKind.trans jKind.symm, iKey.trans jKey.symm⟩

theorem agree_not_blocked {q : Queue} (agree : q.OpenRowsAgree) {now : Nat} {kind : JobKind}
    {locked : List Nat} {j : Job} (eligible : q.Eligible now kind locked j) :
    q.indexBlocked j = false := by
  by_contra blocked
  rw [Bool.not_eq_false, indexBlocked, List.any_eq_true] at blocked
  obtain ⟨i, hi, clash⟩ := blocked
  simp only [Bool.and_eq_true, decide_eq_true_eq] at clash
  obtain ⟨⟨other, isActive⟩, same⟩ := clash
  exact other (agree i hi j eligible.1 (JobStatus.active_not_terminal isActive)
    (runnable_not_terminal eligible.2.1) same)

theorem agree_neverBlocked {q : Queue} (agree : q.OpenRowsAgree) : q.NeverBlocked := by
  intro now kind lease locked tie stopped
  cases picked : q.pick now kind locked tie with
  | none => simp [claim, picked] at stopped
  | some p =>
    have free := agree_not_blocked agree (pick_spec picked).1
    simp [claim, picked, free] at stopped

theorem agree_servesOldest {q : Queue} (agree : q.OpenRowsAgree) : q.ServesOldest := by
  intro now kind lease locked tie some_
  obtain ⟨j, eligible⟩ := some_
  obtain ⟨p, picked⟩ := pick_exists eligible tie
  obtain ⟨chosen, least⟩ := pick_spec picked
  refine ⟨p, chosen, least, ?_⟩
  simp [claim, picked, agree_not_blocked agree chosen]

theorem dedupHolds_iff {q : Queue} (keyed : q.Keyed) : q.DedupHolds ↔ q.OpenRowsAgree := by
  constructor
  · exact fun h => (oneOpenRow_iff keyed).mp h.1
  · exact fun agree => ⟨(oneOpenRow_iff keyed).mpr agree, agree_neverBlocked agree,
      agree_servesOldest agree⟩

/-- No open row of the key is left when `enqueue` finds neither an active nor a failed one. -/
theorem no_open_row {q : Queue} {kind : JobKind} {key : String} {j : Job}
    (free : q.activeRow kind key = none) (hj : j ∈ q.jobs) (sameKind : j.kind = kind)
    (sameKey : j.dedupKey = key) (notFailed : j.status ≠ .failed) :
    j.status.terminal = true := by
  have inactive := List.find?_eq_none.mp free j hj
  simp only [sameKind, sameKey, decide_true, Bool.and_true] at inactive
  cases status : j.status with
  | pending => simp [status, JobStatus.active] at inactive
  | running => simp [status, JobStatus.active] at inactive
  | failed => exact absurd status notFailed
  | succeeded => rfl
  | dead => rfl

theorem agree_step {q : Queue} {op : Op} (keyed : q.Keyed) (agree : q.OpenRowsAgree)
    (apart : q.KeepsKeysApart op) : (q.step op).OpenRowsAgree := by
  -- The rows that a statement opens are those that `fail` puts back.
  refine oneOfKey_step (P := fun j => j.status.terminal = false)
    (E := fun j => j.status.terminal = true ∧
      ∃ now error, op = .fail now j.id error ∧ j.attempts < j.maxAttempts)
    agree ?enter ?joined ?single ?fresh
  case enter =>
    intro j hj isOpen
    cases before : j.status.terminal with
    | false => exact Or.inl rfl
    | true =>
      rcases effect_open isOpen keyed hj with wasOpen | reopened
      · rw [before] at wasOpen
        cases wasOpen
      · exact Or.inr ⟨rfl, reopened⟩
  case joined =>
    rintro i hi j hj iOpen ⟨jDone, now, error, rfl, left⟩ same
    by_contra other
    have done := apart j hj rfl jDone left i hi other same
    rw [iOpen] at done
    cases done
  case single =>
    rintro i j ⟨_, now, error, rfl, _⟩ ⟨_, now', error', same, _⟩
    exact (Op.fail.inj same).2.1
  case fresh =>
    intro i hi j hj iOpen same
    obtain ⟨now, payload, m, tp, rfl, free, _, _⟩ := mem_inserted hj
    have done := no_open_row free hi same.1 same.2 (apart i hi same.1 same.2)
    rcases effect_open iOpen keyed hi with before | ⟨_, _, fails, _⟩
    · rw [done] at before
      cases before
    · cases fails

/-- A statement that brings two open rows of one key together is visible at once. -/
theorem apart_of_agree {q : Queue} {op : Op} (keyed : q.Keyed) (agree : q.OpenRowsAgree)
    (after : (q.step op).OpenRowsAgree) : q.KeepsKeysApart op := by
  cases op with
  | enqueue now kind key payload maxAttempts tp =>
    intro j hj sameKind sameKey failed
    cases found : q.activeRow kind key with
    | some a =>
      have spec := List.find?_some found
      simp only [Bool.and_eq_true, decide_eq_true_eq] at spec
      have ha := List.mem_of_find?_eq_some found
      have same := agree a ha j hj (JobStatus.active_not_terminal spec.1.1)
        (by rw [failed]; rfl) ⟨spec.1.2.trans sameKind.symm, spec.2.trans sameKey.symm⟩
      have row := keyed.same_row ha hj same
      rw [row, failed] at spec
      exact absurd spec.1.1 (by decide)
    | none =>
      let new := freshRow q.nextId now kind key payload maxAttempts tp
      let op := Op.enqueue now kind key payload maxAttempts tp
      have hnew : new ∈ (q.step op).jobs :=
        mem_step.mpr (Or.inr (by simp [op, new, inserted, found]))
      have hold : q.effect op j ∈ (q.step op).jobs := mem_step.mpr (Or.inl ⟨j, hj, rfl⟩)
      have unchanged : q.effect op j = j := by simp [op, effect, found]
      rw [unchanged] at hold
      have same := after j hold new hnew (by rw [failed]; rfl) rfl ⟨sameKind, sameKey⟩
      have := keyed.below j hj
      simp only [new, freshRow] at same
      omega
  | fail now id error =>
    intro j hj sameId done left i hi other same
    by_contra iOpen
    rw [Bool.not_eq_true] at iOpen
    let op := Op.fail now id error
    have hi' : q.effect op i ∈ (q.step op).jobs := mem_step.mpr (Or.inl ⟨i, hi, rfl⟩)
    have hj' : q.effect op j ∈ (q.step op).jobs := mem_step.mpr (Or.inl ⟨j, hj, rfl⟩)
    have equal := after _ hi' _ hj' (by simpa [op, effect, other] using iOpen)
      (by simp [op, effect, sameId, show ¬ j.maxAttempts ≤ j.attempts by omega, JobStatus.terminal])
      (effect_sameKey.mpr same)
    rw [effect_id, effect_id, sameId] at equal
    exact other equal
  | claim => trivial
  | heartbeat => trivial
  | complete => trivial
  | markDead => trivial

end Queue

open Queue in
/-- Over every run: each key has at most one open row in every state, and every claim
serves the oldest row, exactly when every statement keeps the open rows apart. -/
theorem dedup_holds_iff_keys_apart (ops : List Op) :
    Runs.Throughout Queue.step Queue.empty ops DedupHolds ↔
      Runs.EachStep ops (fun pre op => (runQueue pre).KeepsKeysApart op) := by
  refine Runs.throughout_iff_eachStep Keyed (fun q op => keyed_step op) ?_ keyed_empty
    ((dedupHolds_iff keyed_empty).mpr (by intro i hi; cases hi)) ops
  intro q op keyed holds
  have agree := (dedupHolds_iff keyed).mp holds
  rw [dedupHolds_iff (keyed_step op keyed)]
  exact ⟨apart_of_agree keyed agree, agree_step keyed agree⟩

/-- One hash is submitted, fails once, and is submitted again before its retry. -/
def submittedDuringRetry : List Op :=
  [.enqueue 1 .analysis "a1b2" (.analysis ⟨"a1b2", "a1/a1b2.mp3", none⟩) 5 none,
    .claim 2 .analysis 300 [] 0,
    .fail 3 1 "io",
    .enqueue 4 .analysis "a1b2" (.analysis ⟨"a1b2", "a1/a1b2.mp3", none⟩) 5 none]

/-- The failed row and the new one are both open, and from then on the claim scan
picks the older of them and is stopped by the index. -/
theorem submittedDuringRetry_breaks_dedup :
    ((runQueue submittedDuringRetry).openRows .analysis "a1b2").length = 2 ∧
    (runQueue submittedDuringRetry).claim 5 .analysis 300 [] 0 = .error .uniqueViolation ∧
    ¬ Runs.Throughout Queue.step Queue.empty submittedDuringRetry Queue.DedupHolds := by
  have two : ((runQueue submittedDuringRetry).openRows .analysis "a1b2").length = 2 := by decide
  refine ⟨two, by decide, ?_⟩
  intro holds
  have one : ((runQueue submittedDuringRetry).openRows .analysis "a1b2").length ≤ 1 :=
    (holds submittedDuringRetry [] (List.append_nil _).symm).1 .analysis "a1b2"
  omega

end BVault.Jobs
