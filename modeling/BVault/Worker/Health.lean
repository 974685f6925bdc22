import BVault.Jobs.Rows

/-!
# Probes of the analysis workers

The claim loops of any number of workers on one queue, each with the health
state that its probes read and with the task that checks the music store. All of
a worker but the analysis and the check itself runs on one thread, so a step goes
from one `await` to the next. The database and the pods have the same clock; the
probes read it in whole seconds.
-/

namespace BVault.Worker

open BVault.Jobs

def IDLE_STALL_AFTER : Nat := 120

/-- Times in seconds; `jobStarted` is 0 while no job runs. -/
structure Health where
  lastTick : Nat
  jobStarted : Nat
  lastClaimOk : Bool
  storeOk : Bool
  lease : Nat
  deriving DecidableEq, Repr

namespace Health

def new (lease now : Nat) : Health := ⟨now, 0, false, false, lease⟩

def tick (h : Health) (now : Nat) (claimOk : Bool) : Health :=
  { h with lastTick := now, lastClaimOk := claimOk }

def startJob (h : Health) (now : Nat) : Health := { h with jobStarted := now }

def finishJob (h : Health) (now : Nat) : Health := { h with jobStarted := 0, lastTick := now }

/-- `/livez` answers 200. -/
def liveness (h : Health) (now : Nat) : Bool :=
  if h.jobStarted ≠ 0 then now - h.jobStarted < h.lease else now - h.lastTick < IDLE_STALL_AFTER

/-- `/readyz` answers 200. -/
def readiness (h : Health) : Bool := h.lastClaimOk && h.storeOk

end Health

/-- Where the claim loop waits. -/
inductive Loop where
  | claiming
  /-- The claim has come back, with a job or without; `none` is an error. -/
  | returned (result : Option (Option Job))
  | busy (job : Job)
  /-- The statement that ends the job was carried out. -/
  | settled
  | sleeping

/-- The loop of `check_store`. -/
structure Checks where
  /-- Checks on a blocking thread. -/
  running : Nat
  /-- The check that timed out, and whether it has returned since. -/
  inFlight : Option Bool
  awaiting : Bool
  deriving DecidableEq, Repr

structure Pod where
  health : Health
  loop : Loop
  checks : Checks
  /-- When the loop last came round, started a job or ended one; for the statements only. -/
  resumed : Nat

/-- The reading of a clock in seconds. -/
def secs (now : Nat) : Nat := now / 1000000

inductive CheckStep where
  | tick
  /-- The music store answers, or the check panics. -/
  | answer (ok : Bool)
  | timeout

namespace Pod

def boot (lease now : Nat) : Pod := ⟨Health.new lease (secs now), .claiming, ⟨0, none, false⟩, now⟩

/-- From the answer to a claim to the next `await`. -/
def resume (p : Pod) (now : Nat) : Pod :=
  match p.loop with
  | .returned (some (some job)) =>
    { p with
      health := (p.health.tick (secs now) true).startJob (secs now)
      loop := .busy job
      resumed := now }
  | .returned (some none) =>
    { p with health := p.health.tick (secs now) true, loop := .sleeping, resumed := now }
  | .returned none =>
    { p with health := p.health.tick (secs now) false, loop := .sleeping, resumed := now }
  | .settled =>
    { p with health := p.health.finishJob (secs now), loop := .claiming, resumed := now }
  | .sleeping => { p with loop := .claiming }
  | _ => p

def setStoreOk (p : Pod) (ok : Bool) : Pod := { p with health := { p.health with storeOk := ok } }

def check (p : Pod) : CheckStep → Pod
  | .tick =>
    if p.checks.awaiting then p
    else if p.checks.inFlight = some false then p.setStoreOk false
    else { p with checks := ⟨p.checks.running + 1, none, true⟩ }
  | .answer ok =>
    if p.checks.awaiting then
      { p.setStoreOk ok with checks := ⟨p.checks.running - 1, none, false⟩ }
    else if p.checks.inFlight = some false then
      { p with checks := ⟨p.checks.running - 1, some true, false⟩ }
    else p
  | .timeout =>
    if p.checks.awaiting then
      { p.setStoreOk false with checks := ⟨p.checks.running, some false, false⟩ }
    else p

def isBusy (p : Pod) : Bool :=
  match p.loop with
  | .busy _ | .settled => true
  | _ => false

/-- How long the loop may be away. -/
def limit (p : Pod) : Nat := if p.isBusy then p.health.lease else IDLE_STALL_AFTER

end Pod

/-- Time is in microseconds. -/
structure Cluster where
  now : Nat
  queue : Queue
  pods : Nat → Option Pod

inductive Step where
  | wait (micros : Nat)
  /-- A statement of somebody else. -/
  | statement (op : Nat → Op)
  /-- A worker starts, or starts again. -/
  | boot (i lease : Nat)
  | claim (i : Nat) (locked : List Nat) (tie : Nat)
  /-- The claim does not reach the database. -/
  | claimFails (i : Nat)
  | resume (i : Nat)
  /-- `complete`, or `fail` with an error; whether it reaches the database is not looked at. -/
  | settle (i : Nat) (error : Option String) (reached : Bool)
  | check (i : Nat) (c : CheckStep)

namespace Cluster

def start (now : Nat) : Cluster := ⟨now, Queue.empty, fun _ => none⟩

def setPod (s : Cluster) (i : Nat) (p : Pod) : Cluster :=
  { s with pods := Function.update s.pods i (some p) }

/-- The claim of a worker, and its result on the way. -/
def claim (s : Cluster) (i : Nat) (p : Pod) (locked : List Nat) (tie : Nat) : Cluster :=
  match s.queue.claim s.now .analysis p.health.lease locked tie with
  | .ok (row, queue) => { s.setPod i { p with loop := .returned (some row) } with queue := queue }
  | .error _ => s.setPod i { p with loop := .returned none }

def settle (s : Cluster) (i : Nat) (p : Pod) (job : Job) (error : Option String) (reached : Bool) :
    Cluster :=
  let op :=
    match error with
    | none => Op.complete s.now job.id
    | some text => .fail s.now job.id text
  { s.setPod i { p with loop := .settled } with
    queue := if reached then s.queue.step op else s.queue }

def step (s : Cluster) : Step → Cluster
  | .wait micros => { s with now := s.now + micros }
  | .statement op => { s with queue := s.queue.step (op s.now) }
  | .boot i lease => s.setPod i (Pod.boot lease s.now)
  | .claim i locked tie =>
    match s.pods i with
    | some p =>
      match p.loop with
      | .claiming => s.claim i p locked tie
      | _ => s
    | none => s
  | .claimFails i =>
    match s.pods i with
    | some p =>
      match p.loop with
      | .claiming => s.setPod i { p with loop := .returned none }
      | _ => s
    | none => s
  | .resume i =>
    match s.pods i with
    | some p => s.setPod i (p.resume s.now)
    | none => s
  | .settle i error reached =>
    match s.pods i with
    | some p =>
      match p.loop with
      | .busy job => s.settle i p job error reached
      | _ => s
    | none => s
  | .check i c =>
    match s.pods i with
    | some p => s.setPod i (p.check c)
    | none => s

def after (now : Nat) (steps : List Step) : Cluster := Runs.run step (start now) steps

end Cluster

/-- The lease of a claimed row began no later than `last`. -/
structure LeasedBy (lease last : Nat) (job : Job) : Prop where
  since : ∃ claimed ≤ last, job.lockedUntil = some (claimed + makeInterval lease)

/-- The state that the probes read fits what the loop does. -/
structure Pod.Sound (now : Nat) (p : Pod) : Prop where
  begun : 1000000 ≤ p.resumed
  past : p.resumed ≤ now
  started : p.health.jobStarted = if p.isBusy then secs p.resumed else 0
  ticked : p.isBusy = false → p.health.lastTick = secs p.resumed
  busy : ∀ job, p.loop = .busy job → LeasedBy p.health.lease p.resumed job
  returned : ∀ job, p.loop = .returned (some (some job)) → LeasedBy p.health.lease now job
  checks : p.checks.running = if p.checks.awaiting ∨ p.checks.inFlight = some false then 1 else 0
  blocked : p.checks.inFlight = some false → p.health.storeOk = false

namespace Pod

variable {now : Nat} {p : Pod}

theorem Sound.later (sound : Sound now p) (micros : Nat) : Sound (now + micros) p :=
  { sound with
    past := Nat.le_add_right_of_le sound.past
    returned := fun job is => by
      obtain ⟨claimed, before, until_⟩ := sound.returned job is
      exact ⟨claimed, Nat.le_add_right_of_le before, until_⟩ }

theorem sound_boot (lease : Nat) (begun : 1000000 ≤ now) : Sound now (boot lease now) where
  begun := begun
  past := Nat.le_refl now
  started := rfl
  ticked := fun _ => rfl
  busy := fun _ is => nomatch is
  returned := fun _ is => nomatch is
  checks := rfl
  blocked := nofun

/-- A claim comes back to a loop that waits for it. -/
theorem sound_returned (sound : Sound now p) (claiming : p.loop = .claiming)
    {result : Option (Option Job)}
    (leased : ∀ job, result = some (some job) → LeasedBy p.health.lease now job) :
    Sound now { p with loop := .returned result } where
  begun := sound.begun
  past := sound.past
  started := by
    have started := sound.started
    rwa [isBusy, claiming] at started
  ticked := fun _ => sound.ticked (by rw [isBusy, claiming])
  busy := fun _ is => nomatch is
  returned := fun job is => leased job (Loop.returned.inj is)
  checks := sound.checks
  blocked := sound.blocked

theorem sound_settled (sound : Sound now p) {job : Job} (busy : p.loop = .busy job) :
    Sound now { p with loop := .settled } where
  begun := sound.begun
  past := sound.past
  started := by
    have started := sound.started
    rwa [isBusy, busy] at started
  ticked := nofun
  busy := fun _ is => nomatch is
  returned := fun _ is => nomatch is
  checks := sound.checks
  blocked := sound.blocked

theorem sound_resume (sound : Sound now p) : Sound now (p.resume now) := by
  have begun : 1000000 ≤ now := Nat.le_trans sound.begun sound.past
  have idle (free : p.isBusy = false) : p.health.jobStarted = 0 := by
    rw [sound.started, free]
    rfl
  rw [resume]
  split
  · rename_i job is
    exact
      { begun := begun
        past := Nat.le_refl now
        started := rfl
        ticked := nofun
        busy := fun job' same => by
          cases same
          exact sound.returned job is
        returned := fun _ is => nomatch is
        checks := sound.checks
        blocked := sound.blocked }
  · rename_i is
    exact
      { begun := begun
        past := Nat.le_refl now
        started := idle (by rw [isBusy, is])
        ticked := fun _ => rfl
        busy := fun _ is => nomatch is
        returned := fun _ is => nomatch is
        checks := sound.checks
        blocked := sound.blocked }
  · rename_i is
    exact
      { begun := begun
        past := Nat.le_refl now
        started := idle (by rw [isBusy, is])
        ticked := fun _ => rfl
        busy := fun _ is => nomatch is
        returned := fun _ is => nomatch is
        checks := sound.checks
        blocked := sound.blocked }
  · exact
      { begun := begun
        past := Nat.le_refl now
        started := rfl
        ticked := fun _ => rfl
        busy := fun _ is => nomatch is
        returned := fun _ is => nomatch is
        checks := sound.checks
        blocked := sound.blocked }
  · rename_i is
    exact
      { begun := sound.begun
        past := sound.past
        started := idle (by rw [isBusy, is])
        ticked := fun _ => sound.ticked (by rw [isBusy, is])
        busy := fun _ is => nomatch is
        returned := fun _ is => nomatch is
        checks := sound.checks
        blocked := sound.blocked }
  · exact sound

/-- A step of the check task, which leaves the loop and its times alone. -/
theorem sound_check (sound : Sound now p) (c : CheckStep) : Sound now (p.check c) := by
  have checks := sound.checks
  cases c with
  | tick =>
    rw [check]
    split
    · exact sound
    · split
      · exact { sound with blocked := fun _ => rfl }
      · rename_i idle free
        rw [if_neg (by simp [idle, free])] at checks
        exact { sound with checks := by rw [checks]; rfl, blocked := nofun }
  | answer ok =>
    rw [check]
    split
    · rename_i awaiting
      rw [if_pos (Or.inl awaiting)] at checks
      exact { sound with checks := by rw [checks]; rfl, blocked := nofun }
    · split
      · rename_i late
        rw [if_pos (Or.inr late)] at checks
        exact { sound with checks := by rw [checks]; rfl, blocked := nofun }
      · exact sound
  | timeout =>
    rw [check]
    split
    · rename_i awaiting
      rw [if_pos (Or.inl awaiting)] at checks
      exact { sound with checks := by rw [checks]; rfl, blocked := fun _ => rfl }
    · exact sound

/-- What the liveness probe says, from when the loop was last heard of. -/
theorem liveness_eq (sound : Sound now p) :
    p.health.liveness (secs now) = decide (secs now < secs p.resumed + p.limit) := by
  have begun : 0 < secs p.resumed := Nat.div_pos sound.begun (by decide)
  have past : secs p.resumed ≤ secs now := Nat.div_le_div_right sound.past
  have started := sound.started
  rw [Health.liveness, limit]
  cases busy : p.isBusy with
  | true =>
    rw [busy, if_pos rfl] at started
    rw [started, if_pos (Nat.ne_of_gt begun), if_pos rfl]
    exact decide_eq_decide.mpr (by omega)
  | false =>
    rw [busy, if_neg Bool.false_ne_true] at started
    rw [started, if_neg (not_not.mpr rfl), sound.ticked busy, if_neg Bool.false_ne_true]
    exact decide_eq_decide.mpr (by omega)

/-- A worker that counts as stuck on its job has its lease for less than a second. -/
theorem lease_of_stuck (sound : Sound now p) {job : Job} (busy : p.loop = .busy job)
    (dead : p.health.liveness (secs now) = false) :
    ∃ until_, job.lockedUntil = some until_ ∧ until_ < now + 1000000 := by
  obtain ⟨claimed, before, is⟩ := sound.busy job busy
  refine ⟨_, is, ?_⟩
  rw [liveness_eq sound, limit, isBusy, busy, if_pos rfl] at dead
  have late := of_decide_eq_false dead
  rw [secs, secs] at late
  rw [makeInterval]
  omega

end Pod

namespace Cluster

def Sound (s : Cluster) : Prop := 1000000 ≤ s.now ∧ ∀ i p, s.pods i = some p → p.Sound s.now

variable {s : Cluster}

theorem sound_setPod (sound : s.Sound) {i : Nat} {p : Pod} (fits : p.Sound s.now) :
    (s.setPod i p).Sound := by
  refine ⟨sound.1, ?_⟩
  intro j q there
  by_cases same : j = i
  · subst same
    rw [setPod] at there
    dsimp only at there
    rw [Function.update_self] at there
    cases there
    exact fits
  · rw [setPod] at there
    dsimp only at there
    rw [Function.update_of_ne same] at there
    exact sound.2 j q there

theorem leased_of_claim {lease : Nat} {locked : List Nat} {tie : Nat} {job : Job} {q : Queue}
    (ran : s.queue.claim s.now .analysis lease locked tie = .ok (some job, q)) :
    LeasedBy lease s.now job := by
  rw [Queue.claim] at ran
  split at ran
  · cases ran
  · split at ran
    · cases ran
    · cases ran
      exact ⟨s.now, Nat.le_refl _, rfl⟩

theorem sound_step (sound : s.Sound) (e : Step) : (s.step e).Sound := by
  cases e with
  | wait micros =>
    exact ⟨Nat.le_add_right_of_le sound.1, fun i p there => (sound.2 i p there).later micros⟩
  | statement op => exact sound
  | boot i lease => exact sound_setPod sound (Pod.sound_boot lease sound.1)
  | claim i locked tie =>
    rw [step]
    split
    · rename_i p there
      split
      · rename_i claiming
        rw [claim]
        split
        · rename_i row queue ran
          refine sound_setPod sound (Pod.sound_returned (sound.2 i p there) claiming ?_)
          rintro job is
          cases is
          exact leased_of_claim ran
        · exact sound_setPod sound (Pod.sound_returned (sound.2 i p there) claiming fun _ is => nomatch is)
      · exact sound
    · exact sound
  | claimFails i =>
    rw [step]
    split
    · rename_i p there
      split
      · rename_i claiming
        exact sound_setPod sound (Pod.sound_returned (sound.2 i p there) claiming fun _ is => nomatch is)
      · exact sound
    · exact sound
  | resume i =>
    rw [step]
    split
    · rename_i p there
      exact sound_setPod sound (Pod.sound_resume (sound.2 i p there))
    · exact sound
  | settle i error reached =>
    rw [step]
    split
    · rename_i p there
      split
      · rename_i job busy
        exact sound_setPod sound (Pod.sound_settled (sound.2 i p there) busy)
      · exact sound
    · exact sound
  | check i c =>
    rw [step]
    split
    · rename_i p there
      exact sound_setPod sound (Pod.sound_check (sound.2 i p there) c)
    · exact sound

theorem sound_after {now : Nat} (begun : 1000000 ≤ now) (steps : List Step) :
    (after now steps).Sound := by
  have keeps (s : Cluster) (e : Step) (sound : s.Sound) : (s.step e).Sound := sound_step sound e
  have init : (start now).Sound := by
    refine ⟨begun, ?_⟩
    intro i p there
    cases there
  exact Runs.run_invariant keeps init steps

end Cluster

/-- A worker claims a job and is still at it when the lease is over. -/
def longJob : List Step :=
  [.boot 0 300, .statement fun now => .enqueue now .analysis "a1b2" (.analysis ⟨"a1b2", "a1/a1b2.mp3", none⟩) 3 none,
    .check 0 .tick, .claim 0 [] 0, .wait 40000, .resume 0, .wait 300000000, .check 0 .timeout]

end BVault.Worker
