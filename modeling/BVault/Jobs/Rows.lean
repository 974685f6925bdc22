import BVault.Jobs.Queue
import Mathlib.Data.List.Nodup
import Mathlib.Data.List.Perm.Basic
import Mathlib.Order.Basic
import Mathlib.Data.List.MinMax

/-!
# What one statement does to the table

Every statement rewrites rows one by one and adds at most one row. `effect` is
the rewriting and `inserted` the addition; all later invariants are read off
`step_jobs`, which says that there is nothing else.
-/

namespace BVault.Jobs.Queue

/-- The new version of a row after a statement. -/
def effect (q : Queue) : Op → Job → Job
  | .enqueue now kind key _ _ _, j =>
    match q.activeRow kind key with
    | some i => if j.id = i.id then { j with updatedAt := now } else j
    | none => j
  | .claim now kind lease locked tie, j =>
    match q.pick now kind locked tie with
    | some p => if q.indexBlocked p then j else if j.id = p.id then leaseRow now lease j else j
    | none => j
  | .heartbeat now id lease, j =>
    if j.id = id then
      (if j.status = .running then
        { j with lockedUntil := some (now + makeInterval lease), updatedAt := now }
      else j)
    else j
  | .complete now id, j =>
    if j.id = id then
      { j with status := .succeeded, lockedUntil := none, finishedAt := some now, updatedAt := now }
    else j
  | .fail now id error, j =>
    if j.id = id then
      { j with
        status := if j.maxAttempts ≤ j.attempts then .dead else .failed
        lastError := some error
        lockedUntil := none
        finishedAt := if j.maxAttempts ≤ j.attempts then some now else none
        updatedAt := now }
    else j
  | .markDead now id error, j =>
    if j.id = id then
      { j with
        status := .dead
        lastError := some error
        lockedUntil := none
        finishedAt := some now
        updatedAt := now }
    else j

/-- The row a statement adds, if any. -/
def inserted (q : Queue) : Op → List Job
  | .enqueue now kind key payload maxAttempts tp =>
    match q.activeRow kind key with
    | some _ => []
    | none => [freshRow q.nextId now kind key payload maxAttempts tp]
  | _ => []

theorem step_jobs (q : Queue) (op : Op) :
    (q.step op).jobs = q.jobs.map (q.effect op) ++ q.inserted op := by
  cases op with
  | enqueue now kind key payload maxAttempts tp =>
    cases active : q.activeRow kind key with
    | none =>
      have same : q.effect (.enqueue now kind key payload maxAttempts tp) = id := by
        funext j; simp [effect, active]
      simp [step, enqueue, same, inserted, active]
    | some i => simp [step, enqueue, effect, inserted, active, update]
  | claim now kind lease locked tie =>
    cases picked : q.pick now kind locked tie with
    | none =>
      have same : q.effect (.claim now kind lease locked tie) = id := by
        funext j; simp [effect, picked]
      simp [step, claim, same, inserted, picked]
    | some p =>
      by_cases blocked : q.indexBlocked p = true
      · have same : q.effect (.claim now kind lease locked tie) = id := by
          funext j; simp [effect, picked, blocked]
        simp [step, claim, same, inserted, picked, blocked]
      · simp [step, claim, effect, inserted, picked, blocked, update]
  | heartbeat now id lease => simp [step, heartbeat, effect, inserted, update]
  | complete now id => simp [step, complete, effect, inserted, update]
  | fail now id error => simp [step, fail, effect, inserted, update]
  | markDead now id error => simp [step, markDead, effect, inserted, update]

theorem mem_step {q : Queue} {op : Op} {j' : Job} :
    j' ∈ (q.step op).jobs ↔ (∃ j ∈ q.jobs, q.effect op j = j') ∨ j' ∈ q.inserted op := by
  rw [step_jobs, List.mem_append, List.mem_map]

/-- Everything that a statement may do to a row. -/
inductive Rewrites (q : Queue) (j : Job) : Op → Job → Prop where
  | kept {op : Op} (updated : Nat) : Rewrites q j op { j with updatedAt := updated }
  | leased {now lease tie : Nat} {kind : JobKind} {locked : List Nat} {p : Job}
    (picked : q.pick now kind locked tie = some p) (free : q.indexBlocked p = false)
    (same : j.id = p.id) : Rewrites q j (.claim now kind lease locked tie) (leaseRow now lease j)
  | extended {now lease : Nat} (running : j.status = .running) :
    Rewrites q j (.heartbeat now j.id lease)
      { j with lockedUntil := some (now + makeInterval lease), updatedAt := now }
  | completed {now : Nat} :
    Rewrites q j (.complete now j.id)
      { j with
        status := .succeeded, lockedUntil := none, finishedAt := some now, updatedAt := now }
  | failed {now : Nat} {error : String} (left : j.attempts < j.maxAttempts) :
    Rewrites q j (.fail now j.id error)
      { j with
        status := .failed, lastError := some error, lockedUntil := none, finishedAt := none,
        updatedAt := now }
  | spent {now : Nat} {error : String} (limit : j.maxAttempts ≤ j.attempts) :
    Rewrites q j (.fail now j.id error)
      { j with
        status := .dead, lastError := some error, lockedUntil := none, finishedAt := some now,
        updatedAt := now }
  | parked {now : Nat} {error : String} :
    Rewrites q j (.markDead now j.id error)
      { j with
        status := .dead, lastError := some error, lockedUntil := none, finishedAt := some now,
        updatedAt := now }

theorem effect_rewrites (q : Queue) (op : Op) (j : Job) : q.Rewrites j op (q.effect op j) := by
  have unchanged : ∀ {op}, q.Rewrites j op j := .kept j.updatedAt
  cases op with
  | enqueue now kind key payload maxAttempts tp =>
    simp only [effect]
    split
    · split
      · exact .kept now
      · exact unchanged
    · exact unchanged
  | claim now kind lease locked tie =>
    simp only [effect]
    split
    · rename_i p picked
      split
      · exact unchanged
      · rename_i free
        split
        · rename_i same
          exact .leased picked (Bool.eq_false_iff.mpr free) same
        · exact unchanged
    · exact unchanged
  | heartbeat now id lease =>
    simp only [effect]
    split
    · rename_i same
      subst same
      split
      · rename_i running
        exact .extended running
      · exact unchanged
    · exact unchanged
  | complete now id =>
    simp only [effect]
    split
    · rename_i same
      subst same
      exact .completed
    · exact unchanged
  | fail now id error =>
    simp only [effect]
    split
    · rename_i same
      subst same
      by_cases limit : j.maxAttempts ≤ j.attempts
      · simp only [limit, if_true]
        exact .spent limit
      · simp only [limit, if_false]
        exact .failed (by omega)
    · exact unchanged
  | markDead now id error =>
    simp only [effect]
    split
    · rename_i same
      subst same
      exact .parked
    · exact unchanged

structure SameColumns (j j' : Job) : Prop where
  id : j'.id = j.id
  kind : j'.kind = j.kind
  dedupKey : j'.dedupKey = j.dedupKey
  maxAttempts : j'.maxAttempts = j.maxAttempts
  payload : j'.payload = j.payload

theorem Rewrites.columns {q : Queue} {op : Op} {j j' : Job} (made : q.Rewrites j op j') :
    SameColumns j j' := by
  cases made <;> constructor <;> rfl

section Columns
variable (q : Queue) (op : Op) (j : Job)

@[simp] theorem effect_id : (q.effect op j).id = j.id := (q.effect_rewrites op j).columns.id

@[simp] theorem effect_kind : (q.effect op j).kind = j.kind :=
  (q.effect_rewrites op j).columns.kind

@[simp] theorem effect_dedupKey : (q.effect op j).dedupKey = j.dedupKey :=
  (q.effect_rewrites op j).columns.dedupKey

@[simp] theorem effect_maxAttempts : (q.effect op j).maxAttempts = j.maxAttempts :=
  (q.effect_rewrites op j).columns.maxAttempts

@[simp] theorem effect_payload : (q.effect op j).payload = j.payload :=
  (q.effect_rewrites op j).columns.payload

end Columns

theorem mem_oldest {js : List Job} {j : Job} :
    j ∈ oldest js ↔ j ∈ js ∧ ∀ i ∈ js, j.createdAt ≤ i.createdAt := by
  simp [oldest]

theorem oldest_nonempty {js : List Job} (h : js ≠ []) : oldest js ≠ [] := by
  obtain ⟨j, hj, least⟩ : ∃ j ∈ js, ∀ i ∈ js, j.createdAt ≤ i.createdAt := by
    induction js with
    | nil => exact absurd rfl h
    | cons k js ih =>
      by_cases hjs : js = []
      · subst hjs
        exact ⟨k, List.mem_cons_self, by simp⟩
      · obtain ⟨j, hj, least⟩ := ih hjs
        by_cases older : k.createdAt ≤ j.createdAt
        · refine ⟨k, List.mem_cons_self, ?_⟩
          intro i hi
          rcases List.mem_cons.mp hi with rfl | hi
          · exact le_refl _
          · exact le_trans older (least i hi)
        · refine ⟨j, List.mem_cons_of_mem k hj, ?_⟩
          intro i hi
          rcases List.mem_cons.mp hi with rfl | hi
          · omega
          · exact least i hi
  exact List.ne_nil_of_mem (mem_oldest.mpr ⟨hj, least⟩)

/-- A row `claim` may serve: runnable and not locked by another transaction. -/
def Eligible (q : Queue) (now : Nat) (kind : JobKind) (locked : List Nat) (j : Job) : Prop :=
  j ∈ q.jobs ∧ runnable now kind j = true ∧ j.id ∉ locked

theorem mem_candidates {q : Queue} {now : Nat} {kind : JobKind} {locked : List Nat}
    {j : Job} : j ∈ q.candidates now kind locked ↔
      q.Eligible now kind locked j ∧
        ∀ i, q.Eligible now kind locked i → j.createdAt ≤ i.createdAt := by
  simp [candidates, mem_oldest, Eligible]

theorem pick_spec {q : Queue} {now : Nat} {kind : JobKind} {locked : List Nat}
    {tie : Nat} {j : Job} (h : q.pick now kind locked tie = some j) :
    q.Eligible now kind locked j ∧
      ∀ i, q.Eligible now kind locked i → j.createdAt ≤ i.createdAt :=
  mem_candidates.mp (List.mem_of_getElem? h)

theorem pick_exists {q : Queue} {now : Nat} {kind : JobKind} {locked : List Nat} {j : Job}
    (eligible : q.Eligible now kind locked j) (tie : Nat) :
    ∃ p, q.pick now kind locked tie = some p := by
  have nonempty : q.candidates now kind locked ≠ [] := by
    apply oldest_nonempty
    apply List.ne_nil_of_mem (a := j)
    simpa [Eligible] using eligible
  have inside : tie % (q.candidates now kind locked).length <
      (q.candidates now kind locked).length :=
    Nat.mod_lt _ (List.length_pos_of_ne_nil nonempty)
  exact ⟨_, List.getElem?_eq_getElem inside⟩

theorem runnable_status {now : Nat} {kind : JobKind} {j : Job} (h : runnable now kind j = true) :
    j.kind = kind ∧ (j.status = .pending ∨ j.status = .failed ∨
      (j.status = .running ∧ ∃ u, j.lockedUntil = some u ∧ u < now)) := by
  simp only [runnable, Bool.and_eq_true, Bool.or_eq_true, decide_eq_true_eq,
    Option.any_eq_true] at h
  obtain ⟨kind_eq, (pending | failed) | ⟨running, u, until_, past⟩⟩ := h
  · exact ⟨kind_eq, Or.inl pending⟩
  · exact ⟨kind_eq, Or.inr (Or.inl failed)⟩
  · exact ⟨kind_eq, Or.inr (Or.inr ⟨running, u, until_, past⟩)⟩

theorem runnable_not_terminal {now : Nat} {kind : JobKind} {j : Job}
    (h : runnable now kind j = true) : j.status.terminal = false := by
  obtain ⟨_, status | status | ⟨status, _⟩⟩ := runnable_status h <;> rw [status] <;> rfl

/-- A served row is the leased version of the picked one, and that is its new version. -/
theorem served_spec {q : Queue} {op : Op} {r : Job} (h : q.served op = some r) :
    ∃ now kind lease locked tie p, op = .claim now kind lease locked tie ∧
      q.pick now kind locked tie = some p ∧ r = leaseRow now lease p ∧ q.effect op p = r := by
  cases op with
  | claim now kind lease locked tie =>
    cases picked : q.pick now kind locked tie with
    | none => simp [served, claim, picked] at h
    | some p =>
      by_cases blocked : q.indexBlocked p = true
      · simp [served, claim, picked, blocked] at h
      · have leased : leaseRow now lease p = r := by
          simpa [served, claim, picked, blocked] using h
        exact ⟨now, kind, lease, locked, tie, p, rfl, picked, leased.symm,
          by simp [effect, picked, blocked, leased]⟩
  | enqueue => cases h
  | heartbeat => cases h
  | complete => cases h
  | fail => cases h
  | markDead => cases h

/-- Identity values are distinct and below the sequence. -/
structure Keyed (q : Queue) : Prop where
  distinct : (q.jobs.map Job.id).Nodup
  below : ∀ j ∈ q.jobs, j.id < q.nextId

theorem keyed_empty : Keyed empty := ⟨List.nodup_nil, by simp [empty]⟩

theorem Keyed.same_row {q : Queue} (keyed : q.Keyed) {i j : Job} (hi : i ∈ q.jobs)
    (hj : j ∈ q.jobs) (same : i.id = j.id) : i = j :=
  List.inj_on_of_nodup_map keyed.distinct hi hj same

theorem nextId_le_step (q : Queue) (op : Op) : q.nextId ≤ (q.step op).nextId := by
  cases op with
  | enqueue now kind key payload maxAttempts tp =>
    simp only [step, enqueue]
    split <;> simp
  | claim now kind lease locked tie =>
    simp only [step, claim]
    split
    · rename_i h
      split at h
      · cases h; exact le_refl _
      · split at h
        · cases h
        · cases h; exact le_refl _
    · exact le_refl _
  | heartbeat => exact le_refl _
  | complete => exact le_refl _
  | fail => exact le_refl _
  | markDead => exact le_refl _

theorem mem_inserted {q : Queue} {op : Op} {j : Job} (h : j ∈ q.inserted op) :
    ∃ now payload maxAttempts tp,
      op = .enqueue now j.kind j.dedupKey payload maxAttempts tp ∧
      q.activeRow j.kind j.dedupKey = none ∧
      j = freshRow q.nextId now j.kind j.dedupKey payload maxAttempts tp ∧
      (q.step op).nextId = q.nextId + 1 := by
  cases op with
  | enqueue now kind key payload maxAttempts tp =>
    simp only [inserted] at h
    split at h
    · cases h
    · rename_i active
      obtain rfl := List.mem_singleton.mp h
      refine ⟨now, payload, maxAttempts, tp, rfl, active, rfl, ?_⟩
      simp [step, enqueue, active]
  | claim => cases h
  | heartbeat => cases h
  | complete => cases h
  | fail => cases h
  | markDead => cases h

theorem keyed_step {q : Queue} (op : Op) (keyed : q.Keyed) : (q.step op).Keyed := by
  have ids : (q.jobs.map (q.effect op)).map Job.id = q.jobs.map Job.id := by
    rw [List.map_map]
    exact List.map_congr_left (fun j _ => effect_id q op j)
  constructor
  · rw [step_jobs, List.map_append, ids, List.nodup_append]
    refine ⟨keyed.distinct, ?_, ?_⟩
    · cases op with
      | enqueue => simp only [inserted]; split <;> simp
      | claim => exact List.nodup_nil
      | heartbeat => exact List.nodup_nil
      | complete => exact List.nodup_nil
      | fail => exact List.nodup_nil
      | markDead => exact List.nodup_nil
    · intro a ha b hb
      obtain ⟨i, hi, rfl⟩ := List.mem_map.mp ha
      obtain ⟨j, hj, rfl⟩ := List.mem_map.mp hb
      obtain ⟨now, payload, m, tp, _, _, fresh, _⟩ := mem_inserted hj
      have := keyed.below i hi
      rw [fresh]
      simp only [freshRow]
      omega
  · intro j hj
    have mono := nextId_le_step q op
    rcases mem_step.mp hj with ⟨i, hi, rfl⟩ | hj
    · have := keyed.below i hi
      rw [effect_id]
      omega
    · obtain ⟨now, payload, m, tp, _, _, fresh, next⟩ := mem_inserted hj
      rw [fresh]
      simp only [freshRow]
      omega

/-- A property holds of at most one row when it determines the id. -/
theorem Keyed.atMostOne_iff {q : Queue} (keyed : q.Keyed) (p : Job → Bool) :
    (q.jobs.filter p).length ≤ 1 ↔
      ∀ i ∈ q.jobs, ∀ j ∈ q.jobs, p i = true → p j = true → i.id = j.id := by
  constructor
  · intro one i hi j hj pi pj
    obtain ⟨n, hn, atN⟩ := List.getElem_of_mem (List.mem_filter.mpr ⟨hi, pi⟩)
    obtain ⟨m, hm, atM⟩ := List.getElem_of_mem (List.mem_filter.mpr ⟨hj, pj⟩)
    have first : n = m := by omega
    subst first
    exact congrArg Job.id (atN.symm.trans atM)
  · intro agree
    have distinct : (q.jobs.filter p).Nodup := (List.Nodup.of_map _ keyed.distinct).filter _
    match rows : q.jobs.filter p with
    | [] => simp
    | [_] => simp
    | i :: j :: rest =>
      obtain ⟨hi, pi⟩ := List.mem_filter.mp (show i ∈ q.jobs.filter p by simp [rows])
      obtain ⟨hj, pj⟩ := List.mem_filter.mp (show j ∈ q.jobs.filter p by simp [rows])
      have row := keyed.same_row hi hj (agree i hi j hj pi pj)
      rw [rows] at distinct
      simp [row] at distinct

/-- The version of a row after a statement is found under its id. -/
theorem Keyed.effect_of_id {q : Queue} (keyed : q.Keyed) {op : Op} {i j : Job}
    (hj : j ∈ q.jobs) (hi : i ∈ (q.step op).jobs) (same : i.id = j.id) : i = q.effect op j := by
  rcases mem_step.mp hi with ⟨k, hk, rfl⟩ | hi
  · rw [effect_id] at same
    rw [keyed.same_row hk hj same]
  · obtain ⟨_, _, _, _, _, _, fresh, _⟩ := mem_inserted hi
    have := keyed.below j hj
    rw [fresh] at same
    simp only [freshRow] at same
    omega

theorem keyed_run (ops : List Op) : (runQueue ops).Keyed :=
  Runs.run_invariant (fun _ op => keyed_step op) keyed_empty ops

/-- A row is open after a statement only if it was open, or a `fail` with attempts
left reopened it. -/
theorem effect_open {q : Queue} {op : Op} {j : Job}
    (isOpen : (q.effect op j).status.terminal = false) (keyed : q.Keyed) (hj : j ∈ q.jobs) :
    j.status.terminal = false ∨
      ∃ now error, op = .fail now j.id error ∧ j.attempts < j.maxAttempts := by
  have made := q.effect_rewrites op j
  generalize q.effect op j = after at made isOpen
  cases made with
  | kept => exact Or.inl isOpen
  | leased picked free same =>
    obtain ⟨eligible, _⟩ := pick_spec picked
    have row := keyed.same_row hj eligible.1 same
    exact Or.inl (row ▸ runnable_not_terminal eligible.2.1)
  | extended => exact Or.inl isOpen
  | completed => cases isOpen
  | failed left => exact Or.inr ⟨_, _, rfl, left⟩
  | spent => cases isOpen
  | parked => cases isOpen

theorem sameKey_symm {i j : Job} (same : i.sameKey j) : j.sameKey i := ⟨same.1.symm, same.2.symm⟩

theorem effect_sameKey_iff {q : Queue} {op : Op} {i j : Job} :
    (q.effect op i).sameKey j ↔ i.sameKey j := by
  simp [Job.sameKey]

theorem effect_sameKey {q : Queue} {op : Op} {i j : Job} :
    (q.effect op i).sameKey (q.effect op j) ↔ i.sameKey j := by
  simp [Job.sameKey]

/-- With one row of a key having `P` before a statement, there is one after it, if the rows
that come to have it are one row, and alone with it in their key. -/
theorem oneOfKey_step {q : Queue} {op : Op} {P E : Job → Prop}
    (agree : ∀ i ∈ q.jobs, ∀ j ∈ q.jobs, P i → P j → i.sameKey j → i.id = j.id)
    (enter : ∀ j ∈ q.jobs, P (q.effect op j) → P j ∨ E j)
    (joined : ∀ i ∈ q.jobs, ∀ j ∈ q.jobs, P i → E j → i.sameKey j → i.id = j.id)
    (single : ∀ i j, E i → E j → i.id = j.id)
    (fresh : ∀ i ∈ q.jobs, ∀ j ∈ q.inserted op, P (q.effect op i) → ¬ i.sameKey j) :
    ∀ i ∈ (q.step op).jobs, ∀ j ∈ (q.step op).jobs, P i → P j → i.sameKey j → i.id = j.id := by
  have kept : ∀ i ∈ q.jobs, ∀ j ∈ q.jobs, P (q.effect op i) → P (q.effect op j) →
      i.sameKey j → i.id = j.id := by
    intro i hi j hj iHas jHas same
    rcases enter i hi iHas with iBefore | iEnters
    · rcases enter j hj jHas with jBefore | jEnters
      · exact agree i hi j hj iBefore jBefore same
      · exact joined i hi j hj iBefore jEnters same
    · rcases enter j hj jHas with jBefore | jEnters
      · exact (joined j hj i hi jBefore iEnters (sameKey_symm same)).symm
      · exact single i j iEnters jEnters
  intro i' hi' j' hj' iHas jHas same
  rcases mem_step.mp hi' with ⟨i, hi, rfl⟩ | iNew
  · rcases mem_step.mp hj' with ⟨j, hj, rfl⟩ | jNew
    · rw [effect_id, effect_id]
      exact kept i hi j hj iHas jHas (effect_sameKey.mp same)
    · exact absurd (effect_sameKey_iff.mp same) (fresh i hi j' jNew iHas)
  · rcases mem_step.mp hj' with ⟨j, hj, rfl⟩ | jNew
    · exact absurd (effect_sameKey_iff.mp (sameKey_symm same)) (fresh j hj i' iNew jHas)
    · obtain ⟨_, _, _, _, rfl, _, first, _⟩ := mem_inserted iNew
      obtain ⟨_, _, _, _, _, _, second, _⟩ := mem_inserted jNew
      rw [first, second]
      rfl

end BVault.Jobs.Queue
