import BVault.Jobs.Rows

/-!
# Exclusive leases

A claimant is only known outside the table: the queue stores when a lease ends,
not whose it is. Events therefore carry the worker that sent them, and a lease
is held from the claim that granted it, or the heartbeat that extended it, until
its worker reports the job. The reports themselves are addressed by job id, so a
late claimant's `fail` or `heartbeat` can end the lease of the worker that now
runs the job, or put a second lease beside it.
-/

namespace BVault.Jobs

/-- A statement together with the worker or gateway that sent it. -/
structure Event where
  worker : Nat
  op : Op
  deriving DecidableEq, Repr

/-- The job a statement reports as finished or failed. -/
def Op.reports : Op → Option Nat
  | .complete _ id => some id
  | .fail _ id _ => some id
  | .markDead _ id _ => some id
  | _ => none

/-- The table after a history of events. -/
abbrev queueAfter (hist : List Event) : Queue := runQueue (hist.map Event.op)

theorem queueAfter_snoc (hist : List Event) (e : Event) :
    queueAfter (hist ++ [e]) = (queueAfter hist).step e.op := by
  simp only [queueAfter, List.map_append, List.map_cons, List.map_nil, runQueue_snoc]

/-- The event is a claim that returns job `id` with a lease until `T`. -/
def Leases (hist : List Event) (e : Event) (id T : Nat) : Prop :=
  ((queueAfter hist).served e.op).map (fun row => (row.id, row.lockedUntil)) = some (id, some T)

instance (hist : List Event) (e : Event) (id T : Nat) : Decidable (Leases hist e id T) :=
  inferInstanceAs (Decidable (_ = _))

/-- An event of worker `w` has `P`, and `w` has not reported job `id` since. -/
def Unreported (P : List Event → Event → Prop) (hist : List Event) (w id : Nat) : Prop :=
  ∃ pre e mid, hist = pre ++ e :: mid ∧ e.worker = w ∧ P pre e ∧
    ∀ e' ∈ mid, e'.worker = w → e'.op.reports ≠ some id

/-- Worker `w` was given job `id` and has not reported it since. -/
def Claimed (hist : List Event) (w id : Nat) : Prop :=
  Unreported (fun pre e => ∃ T, Leases pre e id T) hist w id

/-- The event is a heartbeat of a claimant that moves the end of its lease on job `id` to `T`. -/
def Extends (hist : List Event) (e : Event) (id T : Nat) : Prop :=
  Claimed hist e.worker id ∧ (∃ j ∈ (queueAfter hist).jobs, j.id = id ∧ j.status = .running) ∧
    ∃ now lease, e.op = .heartbeat now id lease ∧ T = now + makeInterval lease

/-- The event gives its worker job `id` until `T`, as a claim or as a heartbeat. -/
def Grants (hist : List Event) (e : Event) (id T : Nat) : Prop :=
  Leases hist e id T ∨ Extends hist e id T

/-- A claim or a heartbeat gave worker `w` job `id` until `T`, and `w` has not reported it
since. A lease that was extended is held until each of its ends. -/
def Holds (hist : List Event) (w id T : Nat) : Prop :=
  Unreported (fun pre e => Grants pre e id T) hist w id

/-- At most one worker holds an unexpired lease on a job. -/
structure ExclusiveLeases (hist : List Event) : Prop where
  /-- No claim returns a job on which a lease is held that has not run out. -/
  claims : ∀ pre e post, hist = pre ++ e :: post → ∀ id T', Leases pre e id T' →
    ∀ w T, Holds pre w id T → T < e.op.now
  /-- Two leases on a job that have not run out at a time are leases of one worker. -/
  holder : ∀ pre post, hist = pre ++ post → ∀ now, (∀ e ∈ pre, e.op.now ≤ now) →
    ∀ id w w' T T', Holds pre w id T → Holds pre w' id T' → now ≤ T → now ≤ T' → w = w'

/-- The clock readings of the statements never go back. -/
def ClockMonotone (hist : List Event) : Prop :=
  hist.Pairwise (fun a b => a.op.now ≤ b.op.now)

instance (hist : List Event) : Decidable (ClockMonotone hist) :=
  inferInstanceAs (Decidable (List.Pairwise _ hist))

/-- An event leaves the running leases of others alone: a failure that returns the job to
the pool and a heartbeat of a claimant come from the lease's own holder, and no heartbeat
shortens a running lease. -/
def Fenced (hist : List Event) (e : Event) : Prop :=
  match e.op with
  | .fail now id _ => ∀ w T, Holds hist w id T → now ≤ T →
      e.worker = w ∨ ∀ j ∈ (queueAfter hist).jobs, j.id = id → j.maxAttempts ≤ j.attempts
  | .heartbeat now id lease => ∀ w T, Holds hist w id T → now ≤ T →
      (∃ j ∈ (queueAfter hist).jobs, j.id = id ∧ j.status = .running) →
      (Claimed hist e.worker id → e.worker = w) ∧ T ≤ now + makeInterval lease
  | _ => True

theorem leases_spec {hist : List Event} {e : Event} {id T : Nat} (h : Leases hist e id T) :
    ∃ row, (queueAfter hist).served e.op = some row ∧ row.id = id ∧ row.lockedUntil = some T := by
  obtain ⟨row, served, same⟩ := Option.map_eq_some_iff.mp h
  exact ⟨row, served, congrArg Prod.fst same, congrArg Prod.snd same⟩

theorem not_unreported_nil {P : List Event → Event → Prop} {w id : Nat} :
    ¬ Unreported P [] w id := by
  rintro ⟨pre, e, mid, split, _⟩
  exact absurd split.symm (by simp)

theorem unreported_snoc {P : List Event → Event → Prop} {hist : List Event} {e : Event}
    {w id : Nat} :
    Unreported P (hist ++ [e]) w id ↔
      (Unreported P hist w id ∧ (e.worker = w → e.op.reports ≠ some id)) ∨
        (e.worker = w ∧ P hist e) := by
  constructor
  · rintro ⟨pre, c, mid, split, worker, has, silent⟩
    rcases Runs.split_snoc split with ⟨rfl, rfl, rfl⟩ | ⟨mid, rfl, rfl⟩
    · exact Or.inr ⟨worker, has⟩
    · exact Or.inl ⟨⟨pre, c, mid, rfl, worker, has,
        fun e' he' => silent e' (List.mem_append_left _ he')⟩, silent e (by simp)⟩
  · rintro (⟨⟨pre, c, mid, rfl, worker, has, silent⟩, last⟩ | ⟨worker, has⟩)
    · refine ⟨pre, c, mid ++ [e], by simp, worker, has, ?_⟩
      intro e' he'
      rcases List.mem_append.mp he' with he' | he'
      · exact silent e' he'
      · rw [List.mem_singleton.mp he']
        exact last
    · exact ⟨hist, e, [], rfl, worker, has, by simp⟩

theorem not_holds_nil (w id T : Nat) : ¬ Holds [] w id T := not_unreported_nil

theorem holds_snoc {hist : List Event} {e : Event} {w id T : Nat} :
    Holds (hist ++ [e]) w id T ↔
      (Holds hist w id T ∧ (e.worker = w → e.op.reports ≠ some id)) ∨
        (e.worker = w ∧ Grants hist e id T) :=
  unreported_snoc

/-- What a held lease keeps true of its row: it is running at least as long, or finished. -/
def Held (j : Job) (T : Nat) : Prop :=
  (j.status = .running ∧ ∃ u, j.lockedUntil = some u ∧ T ≤ u) ∨ j.status.terminal = true

theorem held_not_runnable {j : Job} {T now : Nat} (held : Held j T) (live : now ≤ T)
    (kind : JobKind) : Queue.runnable now kind j = false := by
  by_contra h
  rw [Bool.not_eq_false] at h
  rcases held with ⟨running, u, until_, bound⟩ | done
  · obtain ⟨_, pending | failed | ⟨_, v, until', past⟩⟩ := Queue.runnable_status h
    · rw [running] at pending; cases pending
    · rw [running] at failed; cases failed
    · have : u = v := Option.some.inj (until_.symm.trans until')
      omega
  · rw [Queue.runnable_not_terminal h] at done
    cases done

open Queue in
/-- A fenced event keeps the row of every lease that is still held and still running. -/
theorem held_effect {hist : List Event} {e : Event} {w id T : Nat} {j : Job}
    (holds : Holds hist w id T) (silent : e.worker = w → e.op.reports ≠ some id)
    (fenced : Fenced hist e) (live : e.op.now ≤ T) (hj : j ∈ (queueAfter hist).jobs)
    (sameId : j.id = id) (held : Held j T) : Held ((queueAfter hist).effect e.op j) T := by
  obtain ⟨worker, op⟩ := e
  subst sameId
  have made := (queueAfter hist).effect_rewrites op j
  generalize (queueAfter hist).effect op j = after at made ⊢
  cases made with
  | kept => exact held
  | @leased now _ _ kind _ p picked free same =>
    have eligible := (pick_spec picked).1
    have row := (keyed_run _).same_row hj eligible.1 same
    have idle : runnable now kind j = false := held_not_runnable held live kind
    rw [row, eligible.2.1] at idle
    cases idle
  | extended running =>
    have longer := (fenced w T holds live ⟨j, hj, rfl, running⟩).2
    exact Or.inl ⟨running, _, rfl, longer⟩
  | completed => exact Or.inr rfl
  | failed left =>
    rcases fenced w T holds live with own | spent
    · exact absurd rfl (silent own)
    · have limit := spent j hj rfl
      omega
  | spent => exact Or.inr rfl
  | parked => exact Or.inr rfl

open Queue in
/-- The row a claim leased is held from the start. -/
theorem leases_row {hist : List Event} {e : Event} {id T : Nat} (leases : Leases hist e id T) :
    ∃ j ∈ (queueAfter (hist ++ [e])).jobs, j.id = id ∧ Held j T := by
  obtain ⟨row, served, sameId, until_⟩ := leases_spec leases
  obtain ⟨now, kind, lease, locked, tie, p, _, picked, leased, version⟩ := served_spec served
  refine ⟨row, ?_, sameId, Or.inl ⟨?_, T, until_, le_refl T⟩⟩
  · rw [queueAfter_snoc]
    exact mem_step.mpr (Or.inl ⟨p, (pick_spec picked).1.1, version⟩)
  · rw [leased]; rfl

open Queue in
/-- The row a heartbeat extended is held until the new end. -/
theorem extends_row {hist : List Event} {e : Event} {id T : Nat} (extended : Extends hist e id T) :
    ∃ j ∈ (queueAfter (hist ++ [e])).jobs, j.id = id ∧ Held j T := by
  obtain ⟨worker, op⟩ := e
  obtain ⟨_, ⟨j, hj, rfl, running⟩, now, lease, rfl, rfl⟩ := extended
  refine ⟨(queueAfter hist).effect (.heartbeat now j.id lease) j, ?_, effect_id _ _ j, ?_⟩
  · rw [queueAfter_snoc]
    exact mem_step.mpr (Or.inl ⟨j, hj, rfl⟩)
  · simp only [effect, if_true, running]
    exact Or.inl ⟨rfl, _, rfl, le_refl _⟩

/-- Every lease that is held and has not run out has its row. -/
def LeasesHeld (hist : List Event) : Prop :=
  ∀ w id T, Holds hist w id T → (∀ e ∈ hist, e.op.now ≤ T) →
    ∃ j ∈ (queueAfter hist).jobs, j.id = id ∧ Held j T

open Queue in
theorem leasesHeld_step {hist : List Event} {e : Event} (leases : LeasesHeld hist)
    (fenced : Fenced hist e) : LeasesHeld (hist ++ [e]) := by
  intro w id T holds live
  rcases holds_snoc.mp holds with ⟨before, silent⟩ | ⟨_, granted | extended⟩
  · obtain ⟨j, hj, sameId, held⟩ := leases w id T before
      (fun e' he' => live e' (List.mem_append_left _ he'))
    refine ⟨(queueAfter hist).effect e.op j, ?_, by rw [effect_id, sameId], ?_⟩
    · rw [queueAfter_snoc]
      exact mem_step.mpr (Or.inl ⟨j, hj, rfl⟩)
    · exact held_effect before silent fenced (live e (by simp)) hj sameId held
  · exact leases_row granted
  · exact extends_row extended

theorem leasesHeld_run {hist : List Event} (fenced : Runs.EachStep hist Fenced) :
    LeasesHeld hist :=
  Runs.history_induction hist fenced
    (fun w id T holds _ => absurd holds (not_holds_nil w id T))
    (fun _ _ leases guard => leasesHeld_step leases guard)

open Queue in
/-- A claim returns a job only when every lease held on it has run out. -/
theorem lease_expired {hist : List Event} {e : Event} {w id T T' : Nat}
    (clock : ∀ e' ∈ hist, e'.op.now ≤ e.op.now) (rows : LeasesHeld hist)
    (leases : Leases hist e id T') (holds : Holds hist w id T) : T < e.op.now := by
  obtain ⟨row, served, sameId, _⟩ := leases_spec leases
  by_contra expired
  have live : ∀ e' ∈ hist, e'.op.now ≤ T := by
    intro e' he'
    have ordered := clock e' he'
    omega
  obtain ⟨j, hj, jid, held⟩ := rows w id T holds live
  obtain ⟨now, kind, lease, locked, tie, p, op, picked, leased, _⟩ := served_spec served
  have eligible := (pick_spec picked).1
  have pid : p.id = id := by rw [← sameId, leased]; rfl
  have row := (keyed_run _).same_row hj eligible.1 (jid.trans pid.symm)
  have running : now ≤ T := by
    rw [op] at expired
    exact not_lt.mp expired
  have idle := held_not_runnable held running kind
  rw [row, eligible.2.1] at idle
  cases idle

/-- A lease is given or extended only to the worker that holds the job, if one does. -/
theorem granted_to_holder {hist : List Event} {e : Event} {w id T T' : Nat}
    (clock : ∀ e' ∈ hist, e'.op.now ≤ e.op.now) (rows : LeasesHeld hist)
    (fenced : Fenced hist e) (holds : Holds hist w id T) (live : e.op.now ≤ T)
    (grants : Grants hist e id T') : e.worker = w := by
  rcases grants with leases | ⟨claimed, running, now, lease, op, _⟩
  · have expired := lease_expired clock rows leases holds
    omega
  · obtain ⟨worker, _⟩ := e
    subst op
    exact (fenced w T holds live running).1 claimed

/-- The leases on a job that have not run out at `now` are leases of one worker. -/
def OneHolder (hist : List Event) : Prop :=
  ∀ now, (∀ e ∈ hist, e.op.now ≤ now) → ∀ id w w' T T', Holds hist w id T →
    Holds hist w' id T' → now ≤ T → now ≤ T' → w = w'

theorem oneHolder_step {hist : List Event} {e : Event}
    (clock : ∀ e' ∈ hist, e'.op.now ≤ e.op.now) (rows : LeasesHeld hist) (one : OneHolder hist)
    (fenced : Fenced hist e) : OneHolder (hist ++ [e]) := by
  intro now past id w w' T T' holds holds' live live'
  have reached : e.op.now ≤ now := past e (by simp)
  rcases holds_snoc.mp holds with ⟨before, _⟩ | ⟨rfl, grants⟩
  · rcases holds_snoc.mp holds' with ⟨before', _⟩ | ⟨rfl, grants'⟩
    · exact one now (fun e' he' => past e' (List.mem_append_left _ he')) id w w' T T'
        before before' live live'
    · exact (granted_to_holder clock rows fenced before (le_trans reached live) grants').symm
  · rcases holds_snoc.mp holds' with ⟨before', _⟩ | ⟨rfl, _⟩
    · exact granted_to_holder clock rows fenced before' (le_trans reached live') grants
    · rfl

theorem oneHolder_run {hist : List Event} (clock : ClockMonotone hist)
    (fenced : Runs.EachStep hist Fenced) : OneHolder hist := by
  induction hist using List.reverseRecOn with
  | nil => intro _ _ id w _ T _ holds; exact absurd holds (not_holds_nil w id T)
  | append_singleton hist e ih =>
    obtain ⟨before, _, ordered⟩ := List.pairwise_append.mp clock
    exact oneHolder_step (fun e' he' => ordered e' he' e (by simp)) (leasesHeld_run fenced.initial)
      (ih before fenced.initial) fenced.last

/-- Under a clock that never goes back, a run of fenced events has exclusive leases: at most
one worker holds an unexpired lease on a job. -/
theorem fenced_leases_exclusive (hist : List Event) (clock : ClockMonotone hist)
    (fenced : Runs.EachStep hist Fenced) : ExclusiveLeases hist := by
  constructor
  · rintro pre e post rfl id T' leases w T holds
    exact lease_expired
      (fun e' he' => (List.pairwise_append.mp clock).2.2 e' he' e List.mem_cons_self)
      (leasesHeld_run fenced.initial) leases holds
  · rintro pre post rfl
    exact oneHolder_run (List.pairwise_append.mp clock).1 fenced.initial

/-- A worker extends its lease and reports its failure within it, and the job goes to the next
worker. -/
def promptFailure : List Event :=
  [⟨0, .enqueue 1 .analysis "a1b2" (.analysis ⟨"a1b2", "a1/a1b2.mp3", none⟩) 5 none⟩,
    ⟨1, .claim 2 .analysis 300 [] 0⟩,
    ⟨1, .heartbeat 3 1 600⟩,
    ⟨1, .fail 4 1 "io"⟩,
    ⟨2, .claim 5 .analysis 300 [] 0⟩]

theorem promptFailure_claimed : Claimed (promptFailure.take 2) 1 1 :=
  ⟨promptFailure.take 1, ⟨1, .claim 2 .analysis 300 [] 0⟩, [], rfl, rfl, ⟨300000002, by decide⟩,
    by simp⟩

theorem promptFailure_granted {w T : Nat} (h : Holds (promptFailure.take 2) w 1 T) :
    w = 1 ∧ T = 300000002 := by
  rcases holds_snoc.mp (show Holds (promptFailure.take 1 ++ [⟨1, .claim 2 .analysis 300 [] 0⟩])
    w 1 T from h) with ⟨first, _⟩ | ⟨worker, leases | ⟨_, _, _, _, heartbeat, _⟩⟩
  · rcases holds_snoc.mp (show Holds ([] ++ promptFailure.take 1) w 1 T from first) with
      ⟨none_, _⟩ | ⟨_, enqueued | ⟨_, _, _, _, heartbeat, _⟩⟩
    · exact absurd none_ (not_holds_nil w 1 T)
    · cases enqueued
    · cases heartbeat
  · have served : ((queueAfter (promptFailure.take 1)).served (.claim 2 .analysis 300 [] 0)).map
        (fun row => (row.id, row.lockedUntil)) = some (1, some 300000002) := by decide
    have same := Option.some.inj (leases.symm.trans served)
    exact ⟨worker.symm, Option.some.inj (congrArg Prod.snd same)⟩
  · cases heartbeat

theorem promptFailure_holds {w T : Nat} (h : Holds (promptFailure.take 3) w 1 T) : w = 1 := by
  rcases holds_snoc.mp (show Holds (promptFailure.take 2 ++ [⟨1, .heartbeat 3 1 600⟩]) w 1 T
    from h) with ⟨first, _⟩ | ⟨worker, _⟩
  · exact (promptFailure_granted first).1
  · exact worker.symm

theorem promptFailure_exclusive :
    Extends (promptFailure.take 2) ⟨1, .heartbeat 3 1 600⟩ 1 600000003 ∧
    Leases (promptFailure.take 4) ⟨2, .claim 5 .analysis 300 [] 0⟩ 1 300000005 ∧
    ExclusiveLeases promptFailure := by
  refine ⟨⟨promptFailure_claimed, by decide, 3, 600, rfl, rfl⟩, by decide,
    fenced_leases_exclusive promptFailure (by decide) ?_⟩
  refine Runs.eachStep_cons.mpr ⟨trivial, Runs.eachStep_cons.mpr ⟨trivial,
    Runs.eachStep_cons.mpr ⟨?_, Runs.eachStep_cons.mpr ⟨?_,
      Runs.eachStep_cons.mpr ⟨trivial, Runs.eachStep_nil⟩⟩⟩⟩⟩
  · intro w T holds _ _
    obtain ⟨rfl, rfl⟩ := promptFailure_granted holds
    exact ⟨fun _ => rfl, by decide⟩
  · intro w T holds _
    exact Or.inl (promptFailure_holds holds).symm

/-- A worker whose lease ran out reports its failure while the next one holds the job. -/
def lateReport : List Event :=
  [⟨0, .enqueue 1 .analysis "a1b2" (.analysis ⟨"a1b2", "a1/a1b2.mp3", none⟩) 5 none⟩,
    ⟨1, .claim 2 .analysis 1 [] 0⟩,
    ⟨2, .claim 2000000 .analysis 300 [] 0⟩,
    ⟨1, .fail 2000001 1 "io"⟩,
    ⟨3, .claim 2000002 .analysis 300 [] 0⟩]

/-- The third worker is given the job 300 seconds before the second one's lease ends. -/
theorem lateReport_breaks_exclusion :
    ClockMonotone lateReport ∧ ¬ ExclusiveLeases lateReport := by
  refine ⟨by decide, ?_⟩
  intro exclusive
  have third : Leases (lateReport.take 4) ⟨3, .claim 2000002 .analysis 300 [] 0⟩ 1 302000002 := by
    decide
  have second : Holds (lateReport.take 4) 2 1 302000000 :=
    ⟨lateReport.take 2, ⟨2, .claim 2000000 .analysis 300 [] 0⟩, [⟨1, .fail 2000001 1 "io"⟩],
      rfl, rfl, Or.inl (by decide), by decide⟩
  have early := exclusive.claims (lateReport.take 4) ⟨3, .claim 2000002 .analysis 300 [] 0⟩ [] rfl
    1 302000002 third 2 302000000 second
  exact absurd early (by decide)

end BVault.Jobs
