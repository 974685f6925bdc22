import BVault.Jobs.Rows
import Mathlib.Algebra.BigOperators.Group.List.Basic
import Mathlib.Algebra.Ring.Nat

/-!
# Batch progress

A batch stores the hashes it was submitted with; its progress is derived from
the artifact store and the dead-letter rows when it is asked for. `done` counts
hashes and `failed` counts job rows. The two counts are honest as long as no
hash is counted twice: by two dead rows, or by a bundle and a dead row.
-/

namespace BVault.Gateway

open BVault.Jobs

structure Batch where
  id : String
  name : Option String
  hashes : List String

structure BatchProgress where
  id : String
  name : Option String
  total : Nat
  done : Nat
  failed : Nat
  complete : Bool

/-- What `batch_progress` reads: the job table, and which hashes have a complete bundle. -/
structure Backend where
  queue : Queue
  artifacts : List String

namespace Backend

def empty : Backend := ⟨Queue.empty, []⟩

/-- `ArtifactStore::exists`. Hashes are content hashes, so that each has a directory of its
own. -/
def stored (b : Backend) (hash : String) : Bool := b.artifacts.contains hash

/-- `ArtifactStore::put`, a no-op on a bundle that is there. -/
def put (b : Backend) (hash : String) : Backend :=
  if b.stored hash then b else { b with artifacts := hash :: b.artifacts }

def batchProgress (b : Backend) (batch : Batch) : BatchProgress :=
  let total := batch.hashes.length
  let done := (batch.hashes.filter b.stored).length
  let failed := b.queue.countDead .analysis batch.hashes
  { id := batch.id
    name := batch.name
    total := total
    done := done
    failed := failed
    complete := total ≤ done + failed }

/-- A dead analysis row. -/
def deadRow (j : Job) : Bool := j.kind = .analysis && j.status = .dead

/-- The hash has a dead analysis job. -/
def dead (b : Backend) (hash : String) : Prop :=
  ∃ j ∈ b.queue.jobs, deadRow j = true ∧ j.dedupKey = hash

/-- The reported numbers mean what they say. -/
def Honest (b : Backend) (batch : Batch) : Prop :=
  (b.batchProgress batch).done + (b.batchProgress batch).failed ≤ (b.batchProgress batch).total ∧
    ((b.batchProgress batch).complete = true ↔
      ∀ h ∈ batch.hashes, b.stored h = true ∨ b.dead h)

/-- Honest for every batch of distinct hashes. -/
def HonestForAll (b : Backend) : Prop := ∀ batch : Batch, batch.hashes.Nodup → b.Honest batch

end Backend

/-- A statement on the queue, or a bundle written by some worker. -/
inductive Action where
  | queue (op : Op)
  | put (hash : String)

namespace Backend

def step (b : Backend) : Action → Backend
  | .queue op => { b with queue := b.queue.step op }
  | .put hash => b.put hash

/-- The statement turns a live analysis row into a dead one. -/
def Dies (op : Op) (j : Job) : Prop :=
  j.kind = .analysis ∧ j.status ≠ .dead ∧
    match op with
    | .fail _ id _ => j.id = id ∧ j.maxAttempts ≤ j.attempts
    | .markDead _ id _ => j.id = id
    | _ => False

/-- An action counts no hash twice: a row dies only for a hash that is neither stored nor
dead already, and a bundle is added only for a hash without a dead row. -/
def CountsOnce (b : Backend) : Action → Prop
  | .queue op => ∀ j ∈ b.queue.jobs, Dies op j →
      b.stored j.dedupKey = false ∧ ¬ b.dead j.dedupKey
  | .put hash => b.stored hash = false → ¬ b.dead hash

/-- How often a hash is counted. -/
def marks (b : Backend) (hash : String) : Nat :=
  (if b.stored hash then 1 else 0) +
    (b.queue.jobs.filter (fun j => deadRow j && j.dedupKey = hash)).length

/-- Counts in excess of one for each hash. -/
def surplus (b : Backend) (batch : Batch) : Nat :=
  (batch.hashes.map (fun h => b.marks h - 1)).sum

/-- Hashes still to be counted. -/
def outstanding (b : Backend) (batch : Batch) : Nat :=
  (batch.hashes.filter (fun h => b.marks h = 0)).length

theorem length_filter_contains_cons {p : Job → Bool} {h : String} {hs : List String}
    (fresh : h ∉ hs) (js : List Job) :
    (js.filter (fun j => p j && (h :: hs).contains j.dedupKey)).length =
      (js.filter (fun j => p j && j.dedupKey = h)).length +
        (js.filter (fun j => p j && hs.contains j.dedupKey)).length := by
  induction js with
  | nil => rfl
  | cons j js ih =>
    by_cases pj : p j = true
    · by_cases same : j.dedupKey = h
      · have absent : hs.contains h = false := by simpa using fresh
        have present : (h :: hs).contains h = true := by simp
        simp only [List.filter_cons, pj, same, present, absent, decide_true, Bool.and_true,
          Bool.and_false, Bool.false_eq_true, if_true, if_false, List.length_cons]
        omega
      · have unchanged : (h :: hs).contains j.dedupKey = hs.contains j.dedupKey := by
          simp [same]
        simp only [List.filter_cons, pj, unchanged, same, decide_false, Bool.true_and,
          Bool.false_eq_true, if_false]
        split
        · simp only [List.length_cons]
          omega
        · exact ih
    · rw [Bool.not_eq_true] at pj
      simp only [List.filter_cons, pj, Bool.false_and, Bool.false_eq_true, if_false]
      exact ih

theorem countDead_eq (q : Queue) (hashes : List String) :
    q.countDead .analysis hashes =
      (q.jobs.filter (fun j => deadRow j && hashes.contains j.dedupKey)).length := rfl

/-- Over distinct hashes the reported counts add up hash by hash. -/
theorem done_add_failed {b : Backend} {hashes : List String} (distinct : hashes.Nodup) :
    (hashes.filter b.stored).length + b.queue.countDead .analysis hashes =
      (hashes.map b.marks).sum := by
  induction hashes with
  | nil => simp [countDead_eq]
  | cons h hs ih =>
    obtain ⟨fresh, distinct⟩ := List.nodup_cons.mp distinct
    have rows := length_filter_contains_cons (p := deadRow) fresh b.queue.jobs
    have tail := ih distinct
    rw [countDead_eq] at tail ⊢
    rw [List.map_cons, List.sum_cons, ← tail, rows]
    simp only [marks, List.filter_cons]
    split
    · simp only [List.length_cons]
      omega
    · omega

theorem marks_balance (b : Backend) (hashes : List String) :
    (hashes.map b.marks).sum + (hashes.filter (fun h => b.marks h = 0)).length =
      hashes.length + (hashes.map (fun h => b.marks h - 1)).sum := by
  induction hashes with
  | nil => rfl
  | cons h hs ih =>
    simp only [List.map_cons, List.sum_cons, List.filter_cons, List.length_cons,
      decide_eq_true_eq]
    split
    · simp only [List.length_cons]; omega
    · omega

theorem marks_eq_zero {b : Backend} {hash : String} :
    b.marks hash = 0 ↔ ¬ (b.stored hash = true ∨ b.dead hash) := by
  simp only [marks, Nat.add_eq_zero_iff, List.length_eq_zero_iff, List.filter_eq_nil_iff, dead]
  constructor
  · rintro ⟨unstored, none_⟩ (stored | ⟨j, hj, isDead, key⟩)
    · simp [stored] at unstored
    · exact none_ j hj (by simp [isDead, key])
  · intro neither
    push Not at neither
    obtain ⟨unstored, alive⟩ := neither
    refine ⟨by simp [unstored], ?_⟩
    intro j hj both
    simp only [Bool.and_eq_true, decide_eq_true_eq] at both
    exact alive j hj both.1 both.2

/-- The numbers of a batch are honest exactly when nothing is counted twice, or when the
excess is smaller than what is still outstanding and so does not show. -/
theorem honest_iff_surplus {b : Backend} {batch : Batch} (distinct : batch.hashes.Nodup) :
    b.Honest batch ↔ b.surplus batch = 0 ∨ b.surplus batch < b.outstanding batch := by
  have counts := done_add_failed (b := b) distinct
  have balance := marks_balance b batch.hashes
  have settled : (∀ h ∈ batch.hashes, b.stored h = true ∨ b.dead h) ↔
      b.outstanding batch = 0 := by
    simp only [outstanding, List.length_eq_zero_iff, List.filter_eq_nil_iff, decide_eq_true_eq,
      marks_eq_zero, not_not]
  rw [Honest, settled]
  simp only [batchProgress, decide_eq_true_eq, surplus, outstanding]
  omega

/-- Every hash is counted at most once. -/
def CountedOnce (b : Backend) : Prop :=
  (∀ i ∈ b.queue.jobs, ∀ j ∈ b.queue.jobs, deadRow i = true → deadRow j = true →
    i.dedupKey = j.dedupKey → i.id = j.id) ∧
  ∀ h, b.stored h = true → ¬ b.dead h

theorem countedOnce_iff_marks {b : Backend} (keyed : b.queue.Keyed) :
    b.CountedOnce ↔ ∀ h, b.marks h ≤ 1 := by
  have rows : ∀ h, (b.queue.jobs.filter (fun j => deadRow j && j.dedupKey = h)).length ≤ 1 ↔
      ∀ i ∈ b.queue.jobs, ∀ j ∈ b.queue.jobs, deadRow i = true ∧ i.dedupKey = h →
        deadRow j = true ∧ j.dedupKey = h → i.id = j.id := by
    intro h
    rw [keyed.atMostOne_iff]
    simp only [Bool.and_eq_true, decide_eq_true_eq]
  constructor
  · rintro ⟨single, apart⟩ h
    have atMost := (rows h).mpr (fun i hi j hj ⟨di, ki⟩ ⟨dj, kj⟩ =>
      single i hi j hj di dj (ki.trans kj.symm))
    by_cases isStored : b.stored h = true
    · have none_ : b.queue.jobs.filter (fun j => deadRow j && j.dedupKey = h) = [] := by
        rw [List.filter_eq_nil_iff]
        intro j hj both
        simp only [Bool.and_eq_true, decide_eq_true_eq] at both
        exact apart h isStored ⟨j, hj, both⟩
      simp [marks, isStored, none_]
    · simp only [marks, isStored, Bool.false_eq_true, if_false]
      omega
  · intro bound
    constructor
    · intro i hi j hj di dj same
      refine (rows i.dedupKey).mp ?_ i hi j hj ⟨di, rfl⟩ ⟨dj, same.symm⟩
      exact le_trans (Nat.le_add_left _ _) (bound i.dedupKey)
    · rintro h isStored ⟨j, hj, dj, key⟩
      have counted : 0 < (b.queue.jobs.filter (fun j => deadRow j && j.dedupKey = h)).length :=
        List.length_pos_of_mem (List.mem_filter.mpr ⟨hj, by simp [dj, key]⟩)
      have := bound h
      simp only [marks, isStored, if_true] at this
      omega

/-- Batches of one hash already show every double count. -/
theorem honestForAll_iff {b : Backend} (keyed : b.queue.Keyed) :
    b.HonestForAll ↔ b.CountedOnce := by
  rw [countedOnce_iff_marks keyed]
  constructor
  · intro honest h
    have one := (honest_iff_surplus (List.nodup_singleton h)).mp
      (honest ⟨"", none, [h]⟩ (List.nodup_singleton h))
    simp only [surplus, outstanding, List.map_cons, List.map_nil, List.sum_cons, List.sum_nil,
      List.filter_cons, List.filter_nil, decide_eq_true_eq] at one
    split at one
    · omega
    · simp only [List.length_nil] at one
      omega
  · intro bound batch distinct
    refine (honest_iff_surplus distinct).mpr (Or.inl ?_)
    apply List.sum_eq_zero
    intro n hn
    obtain ⟨h, _, rfl⟩ := List.mem_map.mp hn
    have := bound h
    omega

theorem effect_dead {q : Queue} {op : Op} {j : Job} (h : deadRow (q.effect op j) = true) :
    deadRow j = true ∨ Dies op j := by
  by_cases before : deadRow j = true
  · exact Or.inl before
  · right
    simp only [deadRow, Queue.effect_kind, Bool.and_eq_true, decide_eq_true_eq] at h before
    obtain ⟨analysis, after⟩ := h
    have alive : j.status ≠ .dead := fun status => before ⟨analysis, status⟩
    refine ⟨analysis, alive, ?_⟩
    have made := q.effect_rewrites op j
    generalize q.effect op j = j' at made after
    cases made with
    | kept => exact absurd after alive
    | leased => cases after
    | extended => exact absurd after alive
    | completed => cases after
    | failed => cases after
    | spent limit => exact ⟨rfl, limit⟩
    | parked => rfl

/-- A dying row is dead afterwards, and the statement touches no other row. -/
theorem Dies.effect {q : Queue} {op : Op} {j : Job} (dies : Dies op j) :
    deadRow (q.effect op j) = true ∧ ∀ i, i.id ≠ j.id → q.effect op i = i := by
  obtain ⟨analysis, _, cause⟩ := dies
  cases op with
  | fail now id error =>
    obtain ⟨rfl, spent⟩ := cause
    refine ⟨by simp [deadRow, analysis, Queue.effect, spent], ?_⟩
    intro i other
    simp [Queue.effect, other]
  | markDead now id error =>
    obtain rfl := cause
    refine ⟨by simp [deadRow, analysis, Queue.effect], ?_⟩
    intro i other
    simp [Queue.effect, other]
  | enqueue => exact cause.elim
  | claim => exact cause.elim
  | heartbeat => exact cause.elim
  | complete => exact cause.elim

theorem Dies.same_id {op : Op} {i j : Job} (hi : Dies op i) (hj : Dies op j) : i.id = j.id := by
  obtain ⟨_, _, causeI⟩ := hi
  obtain ⟨_, _, causeJ⟩ := hj
  cases op with
  | fail => exact causeI.1.trans causeJ.1.symm
  | markDead => exact causeI.trans causeJ.symm
  | enqueue => exact causeI.elim
  | claim => exact causeI.elim
  | heartbeat => exact causeI.elim
  | complete => exact causeI.elim

/-- A dead row after a statement was dead before it or dies by it. -/
theorem deadRow_step {q : Queue} {op : Op} {j' : Job} (hj : j' ∈ (q.step op).jobs)
    (isDead : deadRow j' = true) :
    ∃ j ∈ q.jobs, q.effect op j = j' ∧ (deadRow j = true ∨ Dies op j) := by
  rcases Queue.mem_step.mp hj with ⟨j, before, rfl⟩ | hj
  · exact ⟨j, before, rfl, effect_dead isDead⟩
  · obtain ⟨_, _, _, _, _, _, fresh, _⟩ := Queue.mem_inserted hj
    rw [fresh] at isDead
    simp [deadRow, Queue.freshRow] at isDead

theorem countedOnce_queue_iff {b : Backend} {op : Op} (keyed : b.queue.Keyed)
    (once : b.CountedOnce) :
    (b.step (.queue op)).CountedOnce ↔ b.CountsOnce (.queue op) := by
  constructor
  · rintro ⟨single, apart⟩ j hj dies
    obtain ⟨dead', others⟩ := dies.effect (q := b.queue)
    have row : b.queue.effect op j ∈ (b.queue.step op).jobs :=
      Queue.mem_step.mpr (Or.inl ⟨j, hj, rfl⟩)
    constructor
    · rw [← Bool.not_eq_true]
      intro isStored
      exact apart j.dedupKey isStored
        ⟨b.queue.effect op j, row, dead', Queue.effect_dedupKey _ _ _⟩
    · rintro ⟨i, hi, di, key⟩
      have other : i.id ≠ j.id := by
        intro same
        rw [keyed.same_row hi hj same] at di
        simp only [deadRow, Bool.and_eq_true, decide_eq_true_eq] at di
        exact dies.2.1 di.2
      have kept : i ∈ (b.queue.step op).jobs :=
        Queue.mem_step.mpr (Or.inl ⟨i, hi, others i other⟩)
      have := single i kept _ row di dead' (key.trans (Queue.effect_dedupKey _ _ _).symm)
      exact other (this.trans (Queue.effect_id _ _ _))
  · intro guard
    constructor
    · intro i' hi' j' hj' di' dj' same
      obtain ⟨i, hi, rfl, diedI⟩ := deadRow_step hi' di'
      obtain ⟨j, hj, rfl, diedJ⟩ := deadRow_step hj' dj'
      rw [Queue.effect_dedupKey, Queue.effect_dedupKey] at same
      rw [Queue.effect_id, Queue.effect_id]
      rcases diedI with di | diesI
      · rcases diedJ with dj | diesJ
        · exact once.1 i hi j hj di dj same
        · exact absurd ⟨i, hi, di, same⟩ (guard j hj diesJ).2
      · rcases diedJ with dj | diesJ
        · exact absurd ⟨j, hj, dj, same.symm⟩ (guard i hi diesI).2
        · exact diesI.same_id diesJ
    · rintro h isStored ⟨j', hj', dj', key⟩
      obtain ⟨j, hj, rfl, died⟩ := deadRow_step hj' dj'
      rw [Queue.effect_dedupKey] at key
      rcases died with dj | dies
      · exact once.2 h isStored ⟨j, hj, dj, key⟩
      · have unstored : b.stored h = false := key ▸ (guard j hj dies).1
        have isStored : b.stored h = true := isStored
        rw [unstored] at isStored
        cases isStored

theorem stored_put (b : Backend) (hash h : String) :
    (b.put hash).stored h = true ↔ b.stored h = true ∨ h = hash := by
  simp only [put]
  split
  · rename_i present
    constructor
    · exact Or.inl
    · rintro (isStored | rfl)
      · exact isStored
      · exact present
  · simp only [stored, List.contains_cons, Bool.or_eq_true, beq_iff_eq]
    exact or_comm

theorem put_queue (b : Backend) (hash : String) : (b.put hash).queue = b.queue := by
  simp only [put]
  split <;> rfl

theorem countedOnce_put_iff {b : Backend} {hash : String} (once : b.CountedOnce) :
    (b.step (.put hash)).CountedOnce ↔ b.CountsOnce (.put hash) := by
  simp only [step, CountedOnce, CountsOnce, dead, put_queue, stored_put]
  constructor
  · rintro ⟨_, apart⟩ _
    exact apart hash (Or.inr rfl)
  · intro guard
    refine ⟨once.1, ?_⟩
    rintro h (isStored | rfl)
    · exact once.2 h isStored
    · by_cases isStored : b.stored h = true
      · exact once.2 h isStored
      · exact guard (by simpa using isStored)

theorem countedOnce_step_iff {b : Backend} {a : Action} (keyed : b.queue.Keyed)
    (once : b.CountedOnce) : (b.step a).CountedOnce ↔ b.CountsOnce a := by
  cases a with
  | queue op => exact countedOnce_queue_iff keyed once
  | put hash => exact countedOnce_put_iff once

theorem keyed_step {b : Backend} (a : Action) (keyed : b.queue.Keyed) :
    (b.step a).queue.Keyed := by
  cases a with
  | queue op => exact Queue.keyed_step op keyed
  | put hash => exact (put_queue b hash).symm ▸ keyed

theorem countedOnce_empty : empty.CountedOnce :=
  ⟨by simp [empty, Queue.empty], by simp [empty, stored]⟩

/-- Every batch is reported honestly in every state of a run exactly when no action of the
run counts a hash twice. -/
theorem batches_honest_iff_counted_once (actions : List Action) :
    Runs.Throughout step empty actions HonestForAll ↔
      Runs.EachStep actions (fun before a => (Runs.run step empty before).CountsOnce a) := by
  refine Runs.throughout_iff_eachStep (fun b => b.queue.Keyed) (fun _ a => keyed_step a) ?_
    Queue.keyed_empty ((honestForAll_iff Queue.keyed_empty).mpr countedOnce_empty) actions
  intro b a keyed honest
  rw [honestForAll_iff (keyed_step a keyed)]
  exact countedOnce_step_iff keyed ((honestForAll_iff keyed).mp honest)

/-- One hash dies, is submitted again and dies again; another is still pending. -/
def diedTwice : List Action :=
  [.queue (.enqueue 1 .analysis "a1" (.analysis ⟨"a1", "a1/a1.mp3", none⟩) 1 none),
    .queue (.claim 2 .analysis 300 [] 0),
    .queue (.fail 3 1 "io"),
    .queue (.enqueue 4 .analysis "a1" (.analysis ⟨"a1", "a1/a1.mp3", none⟩) 1 none),
    .queue (.claim 5 .analysis 300 [] 0),
    .queue (.fail 6 2 "io"),
    .queue (.enqueue 7 .analysis "b2" (.analysis ⟨"b2", "b2/b2.mp3", none⟩) 1 none)]

/-- The batch of both hashes is announced complete while the second is pending, and the
batch of the first alone has more failures than tracks. -/
theorem diedTwice_breaks_progress :
    ((Runs.run step empty diedTwice).batchProgress ⟨"b", none, ["a1", "b2"]⟩).complete = true ∧
    ((Runs.run step empty diedTwice).batchProgress ⟨"b", none, ["a1"]⟩).failed = 2 ∧
    ¬ (Runs.run step empty diedTwice).dead "b2" ∧
    ¬ Runs.Throughout step empty diedTwice HonestForAll := by
  have failures :
      ((Runs.run step empty diedTwice).batchProgress ⟨"b", none, ["a1"]⟩).failed = 2 := by
    decide
  refine ⟨by decide, failures, ?_, ?_⟩
  · rintro ⟨j, hj, isDead, key⟩
    have settled : ∀ j ∈ (Runs.run step empty diedTwice).queue.jobs,
        deadRow j = true → j.dedupKey ≠ "b2" := by decide
    exact settled j hj isDead key
  · intro holds
    have honest := (holds diedTwice [] (List.append_nil _).symm ⟨"b", none, ["a1"]⟩
      (List.nodup_singleton _)).1
    rw [failures] at honest
    have one : ((Runs.run step empty diedTwice).batchProgress ⟨"b", none, ["a1"]⟩).total = 1 := rfl
    omega

end Backend

end BVault.Gateway
