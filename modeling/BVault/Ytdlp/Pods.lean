import BVault.Ytdlp.Statements

/-!
# The pods

A pod has two permits, and each is free, with its claim loop or with a handler.
A handler works on the job of a row, and what it has tried so far has failed in
ways that may pass.
-/

namespace BVault.Ytdlp

open BVault.Jobs

/-- A claim by the service is never stopped by the index, and finds a job with its URL. -/
theorem claimJob_ytdlp {q : Queue} (kept : Kept q) (now lease : Nat) (locked : List Nat)
    (tie : Nat) :
    claimJob q now .ytDlpIngest lease locked tie = .ok (none, q) ∨
    ∃ job payload, claimJob q now .ytDlpIngest lease locked tie =
        .ok (some job, q.step (.claim now .ytDlpIngest lease locked tie)) ∧
      job.payload = .ytDlpIngest payload ∧
      ∃ j ∈ (q.step (.claim now .ytDlpIngest lease locked tie)).jobs,
        j.id = job.id ∧ j.payload = job.payload := by
  cases picked : q.pick now .ytDlpIngest locked tie with
  | none => exact Or.inl (by simp only [claimJob, Queue.claim, picked])
  | some p =>
    obtain ⟨⟨mem, runnable, -⟩, -⟩ := Queue.pick_spec picked
    obtain ⟨kind, status⟩ := Queue.runnable_status runnable
    cases kept.rows p mem with
    | analysis job kind' payload =>
      rw [kind] at kind'
      cases kind'
    | ytdlp user url _ payload key left =>
      have isActive : p.status.active = true := by
        rcases status with pending | failed | ⟨running, -⟩
        · rw [pending]; rfl
        · exact absurd failed left
        · rw [running]; rfl
      have free : q.indexBlocked p = false := by
        rw [Queue.indexBlocked, List.any_eq_false]
        intro i mem' blocks
        simp only [Bool.and_eq_true, decide_eq_true_eq] at blocks
        exact blocks.1.1 (kept.indexed.agree i mem' p mem blocks.1.2 isActive blocks.2)
      have leased : q.claim now .ytDlpIngest lease locked tie =
          .ok (some (Queue.leaseRow now lease p), q.update p.id (Queue.leaseRow now lease)) := by
        simp only [Queue.claim, picked, free, Bool.false_eq_true, if_false]
      refine Or.inr ⟨⟨p.id, p.payload, p.traceparent⟩, ⟨url, user.val⟩, ?_, payload, ?_⟩
      · simp only [claimJob, Queue.step, leased]
        rfl
      · refine ⟨Queue.leaseRow now lease p, ?_, rfl, rfl⟩
        simp only [Queue.step, leased]
        exact List.mem_map.mpr ⟨p, mem, if_pos rfl⟩

variable {maxRetries : Nat} {parseUuid : String → Option UserId}

/-- The handler is for the job of a row, and its errors so far have left it attempts. -/
structure Working (maxRetries : Nat) (q : Queue) (h : Handler) : Prop where
  job : ∃ j ∈ q.jobs, j.id = h.jobId ∧ j.payload = .ytDlpIngest ⟨h.url, h.userId⟩
  few : h.errors.length ≤ maxRetries
  passing : ∀ error ∈ h.errors, permanent error = false

theorem Working.step {q : Queue} {h : Handler} (working : Working maxRetries q h) (op : Op) :
    Working maxRetries (q.step op) h := by
  obtain ⟨j, mem, number, payload⟩ := working.job
  refine ⟨⟨q.effect op j, Queue.mem_step.mpr (Or.inl ⟨j, mem, rfl⟩), ?_, ?_⟩, working.few,
    working.passing⟩
  · rw [Queue.effect_id, number]
  · rw [Queue.effect_payload, payload]

/-- A handler goes on from an error that may pass, while it has attempts left. -/
theorem Working.again {q : Queue} {h h' : Handler} {outcome : Attempt}
    (working : Working maxRetries q h) (goesOn : h.attempted maxRetries outcome = .again h') :
    Working maxRetries q h' := by
  cases outcome with
  | uploaded => cases goesOn
  | raised => cases goesOn
  | failed error =>
    rw [Handler.attempted] at goesOn
    split at goesOn
    · cases goesOn
    · rename_i passing
      split at goesOn
      · rename_i left
        cases goesOn
        refine ⟨working.job, ?_, ?_⟩
        · rw [List.length_append, List.length_singleton]
          exact left
        · intro error' mem
          rcases List.mem_append.mp mem with before | last
          · exact working.passing error' before
          · rw [List.mem_singleton.mp last]
            exact Bool.eq_false_iff.mpr passing
      · cases goesOn

/-- Everything that an event may do to a pod; the queue is the one behind it. -/
inductive Moves (maxRetries : Nat) (q : Queue) (pod : Pod) : Pod → Prop where
  | same : Moves maxRetries q pod pod
  | acquired (free : pod.free ≠ 0) (idle : pod.acquired = false) : Moves maxRetries q pod pod.acquire
  | released (held : pod.acquired = true) : Moves maxRetries q pod pod.release
  | spawned (held : pod.acquired = true) (h : Handler) (working : Working maxRetries q h) :
    Moves maxRetries q pod { pod with acquired := false, handlers := pod.handlers ++ [h] }
  | again {n : Nat} {h h' : Handler} {outcome : Attempt} (runs : pod.handlers[n]? = some h)
    (goesOn : h.attempted maxRetries outcome = .again h') :
    Moves maxRetries q pod { pod with handlers := pod.handlers.set n h' }
  | done {n : Nat} {h : Handler} (runs : pod.handlers[n]? = some h) :
    Moves maxRetries q pod { pod with free := pod.free + 1, handlers := pod.handlers.eraseIdx n }
  | restarted : Moves maxRetries q pod Pod.start

/-- The one pod of an event moves, the others stay as they are. -/
theorem moves_setPod {s : System} {q : Queue} {i : Nat} {pod : Pod}
    (moves : Moves maxRetries q (s.pods i) pod) (k : Nat) :
    Moves maxRetries q (s.pods k) ((s.setPod i pod).pods k) := by
  rw [System.setPod_pods]
  split
  · rename_i this
    rw [this]
    exact moves
  · exact .same

theorem pods_step {s : System} (kept : Kept s.queue) (e : Event) (k : Nat) :
    Moves maxRetries (step maxRetries parseUuid s e).queue (s.pods k)
      ((step maxRetries parseUuid s e).pods k) := by
  cases e with
  | submit user url now traceparent => exact .same
  | report user id r now =>
    simp only [step]
    split <;> exact .same
  | analysis op =>
    simp only [step]
    split <;> exact .same
  | acquire i =>
    simp only [step]
    split
    · exact .same
    · rename_i can
      simp only [Bool.or_eq_true, decide_eq_true_eq, not_or] at can
      exact moves_setPod (.acquired can.2 (Bool.eq_false_iff.mpr can.1)) k
  | claim i now locked tie =>
    simp only [step]
    split
    · rename_i held
      rcases claimJob_ytdlp kept now leaseSecs locked tie with
        none | ⟨job, payload, some, is, j, mem, number, same⟩
      · rw [none]
        exact moves_setPod (.released held) k
      · rw [some]
        refine moves_setPod (s := s) (i := i) ?_ k
        simp only [Pod.spawn, is]
        exact .spawned held _ ⟨⟨j, mem, number, same.trans is⟩, Nat.zero_le _,
          fun error mem => absurd mem List.not_mem_nil⟩
    · exact .same
  | claimFails i =>
    simp only [step]
    split
    · rename_i held
      exact moves_setPod (.released held) k
    · exact .same
  | strayClaim now locked tie =>
    simp only [step]
    split <;> exact .same
  | attempt i n outcome =>
    simp only [step]
    split
    · exact .same
    · rename_i h runs
      simp only [System.handled]
      split
      · rename_i h' goesOn
        exact moves_setPod (.again runs goesOn) k
      · exact moves_setPod (s := s) (.done runs) k
  | deliver n now =>
    simp only [step]
    split <;> exact .same
  | lose n => exact .same
  | restart i => exact moves_setPod .restarted k

/-- Free permits, that of the loop and those of the handlers. -/
def Pod.permits (pod : Pod) : Nat := pod.free + (if pod.acquired then 1 else 0) + pod.handlers.length

theorem Moves.permits {q : Queue} {pod pod' : Pod} (moves : Moves maxRetries q pod pod')
    (two : pod.permits = 2) : pod'.permits = 2 := by
  rw [Pod.permits] at two
  cases moves with
  | same => exact two
  | acquired free idle =>
    simp only [Pod.permits, Pod.acquire, idle, Bool.false_eq_true, if_false, if_true] at two ⊢
    omega
  | released held =>
    simp only [Pod.permits, Pod.release, held, if_true, Bool.false_eq_true, if_false] at two ⊢
    omega
  | spawned held h working =>
    simp only [Pod.permits, held, if_true, Bool.false_eq_true, if_false, List.length_append,
      List.length_singleton] at two ⊢
    omega
  | again runs goesOn =>
    simp only [Pod.permits, List.length_set]
    exact two
  | done runs =>
    obtain ⟨inside, -⟩ := List.getElem?_eq_some_iff.mp runs
    simp only [Pod.permits, List.length_eraseIdx_of_lt inside]
    omega
  | restarted => rfl

theorem Moves.working {q : Queue} {pod pod' : Pod} (moves : Moves maxRetries q pod pod')
    (working : ∀ h ∈ pod.handlers, Working maxRetries q h) :
    ∀ h ∈ pod'.handlers, Working maxRetries q h := by
  intro h mem
  cases moves with
  | same => exact working h mem
  | acquired free idle => exact working h mem
  | released held => exact working h mem
  | spawned held h' new =>
    rcases List.mem_append.mp mem with before | last
    · exact working h before
    · rw [List.mem_singleton.mp last]
      exact new
  | again runs goesOn =>
    rcases List.mem_or_eq_of_mem_set mem with before | rfl
    · exact working h before
    · exact (working _ (List.mem_of_getElem? runs)).again goesOn
  | done runs => exact working h (List.mem_of_mem_eraseIdx mem)
  | restarted => cases mem

/-- What holds of the system in every run. -/
structure Sound (maxRetries : Nat) (s : System) : Prop where
  kept : Kept s.queue
  permits : ∀ i, (s.pods i).permits = 2
  handlers : ∀ i, ∀ h ∈ (s.pods i).handlers, Working maxRetries s.queue h
  ended : ∀ e ∈ s.ended, Working maxRetries s.queue e.1
  reports : ∀ r ∈ s.reports, ∃ e ∈ s.ended, e.1.attempted maxRetries e.2 = .done (some r)

theorem sound_start : Sound maxRetries System.start where
  kept := ⟨Queue.indexed_empty, fun _ mem => absurd mem List.not_mem_nil⟩
  permits _ := rfl
  handlers _ _ mem := absurd mem List.not_mem_nil
  ended _ mem := absurd mem List.not_mem_nil
  reports _ mem := absurd mem List.not_mem_nil

theorem kept_after {s : System} (kept : Kept s.queue) (e : Event) :
    Kept (step maxRetries parseUuid s e).queue := by
  rw [step_queue]
  cases sends : statement parseUuid s e with
  | none => exact kept
  | some op => exact kept_step kept (sent_of_statement sends)

theorem working_after {s : System} {h : Handler} (working : Working maxRetries s.queue h)
    (e : Event) : Working maxRetries (step maxRetries parseUuid s e).queue h := by
  rw [step_queue]
  cases statement parseUuid s e with
  | none => exact working
  | some op => exact working.step op

variable (maxRetries parseUuid) in
/-- A handler that ends leaves its report, if it makes one, and goes on record. -/
theorem ended_step (s : System) (e : Event) :
    (step maxRetries parseUuid s e).ended = s.ended ∧
      (∀ r ∈ (step maxRetries parseUuid s e).reports, r ∈ s.reports) ∨
    ∃ i n h outcome report, e = .attempt i n outcome ∧ (s.pods i).handlers[n]? = some h ∧
      h.attempted maxRetries outcome = .done report ∧
      (step maxRetries parseUuid s e).ended = s.ended ++ [(h, outcome)] ∧
      (step maxRetries parseUuid s e).reports = s.reports ++ report.toList := by
  cases e with
  | submit user url now traceparent => exact Or.inl ⟨rfl, fun _ mem => mem⟩
  | report user id r now =>
    simp only [step]
    split <;> exact Or.inl ⟨rfl, fun _ mem => mem⟩
  | analysis op =>
    simp only [step]
    split <;> exact Or.inl ⟨rfl, fun _ mem => mem⟩
  | acquire i =>
    simp only [step]
    split <;> exact Or.inl ⟨rfl, fun _ mem => mem⟩
  | claim i now locked tie =>
    simp only [step]
    split
    · simp only [System.claimed]
      split <;> exact Or.inl ⟨rfl, fun _ mem => mem⟩
    · exact Or.inl ⟨rfl, fun _ mem => mem⟩
  | claimFails i =>
    simp only [step]
    split <;> exact Or.inl ⟨rfl, fun _ mem => mem⟩
  | strayClaim now locked tie =>
    simp only [step]
    split <;> exact Or.inl ⟨rfl, fun _ mem => mem⟩
  | attempt i n outcome =>
    simp only [step]
    cases runs : (s.pods i).handlers[n]? with
    | none => exact Or.inl ⟨rfl, fun _ mem => mem⟩
    | some h =>
      simp only [System.handled]
      cases goes : h.attempted maxRetries outcome with
      | again h' => exact Or.inl ⟨rfl, fun _ mem => mem⟩
      | done report => exact Or.inr ⟨i, n, h, outcome, report, rfl, runs, goes, rfl, rfl⟩
  | deliver n now =>
    simp only [step]
    split
    · exact Or.inl ⟨rfl, fun _ mem => mem⟩
    · exact Or.inl ⟨rfl, fun _ mem => List.mem_of_mem_eraseIdx mem⟩
  | lose n => exact Or.inl ⟨rfl, fun _ mem => List.mem_of_mem_eraseIdx mem⟩
  | restart i => exact Or.inl ⟨rfl, fun _ mem => mem⟩

theorem sound_step {s : System} (sound : Sound maxRetries s) (e : Event) :
    Sound maxRetries (step maxRetries parseUuid s e) where
  kept := kept_after sound.kept e
  permits i := (pods_step sound.kept e i).permits (sound.permits i)
  handlers i :=
    (pods_step sound.kept e i).working fun h mem => working_after (sound.handlers i h mem) e
  ended := by
    rcases ended_step maxRetries parseUuid s e with ⟨same, -⟩ | ⟨i, n, h, outcome, report, -, runs, -, more, -⟩
    · rw [same]
      exact fun x mem => working_after (sound.ended x mem) e
    · rw [more]
      intro x mem
      rcases List.mem_append.mp mem with before | last
      · exact working_after (sound.ended x before) e
      · rw [List.mem_singleton.mp last]
        exact working_after (sound.handlers i h (List.mem_of_getElem? runs)) e
  reports := by
    rcases ended_step maxRetries parseUuid s e with ⟨same, fewer⟩ | ⟨i, n, h, outcome, report, -, -, ends, more, sent⟩
    · rw [same]
      exact fun r mem => sound.reports r (fewer r mem)
    · rw [more, sent]
      intro r mem
      rcases List.mem_append.mp mem with before | last
      · obtain ⟨x, known, settles⟩ := sound.reports r before
        exact ⟨x, List.mem_append_left _ known, settles⟩
      · rw [Option.mem_toList.mp last] at ends
        exact ⟨(h, outcome), List.mem_append_right _ List.mem_cons_self, ends⟩

theorem sound_after (events : List Event) : Sound maxRetries (after maxRetries parseUuid events) := by
  have keeps (s : System) (e : Event) (sound : Sound maxRetries s) :
      Sound maxRetries (step maxRetries parseUuid s e) := sound_step sound e
  exact Runs.run_invariant keeps sound_start events

/-- In every run, each pod has its two permits, whatever its requests and attempts come to: at most
two jobs are worked on at once, and a permit is free as soon as neither the loop nor a handler has
it. A handler's job is that of a row, and it is within its attempts; and no claim of the service is
stopped by the index. -/
theorem pods_in_order (events : List Event) (i : Nat) :
    let s := after maxRetries parseUuid events
    (s.pods i).free + (if (s.pods i).acquired then 1 else 0) + (s.pods i).handlers.length = 2 ∧
      (∀ h ∈ (s.pods i).handlers, Working maxRetries s.queue h) ∧
      ∀ now lease locked tie fault,
        claimJob s.queue now .ytDlpIngest lease locked tie ≠ .error fault := by
  have sound : Sound maxRetries (after maxRetries parseUuid events) := sound_after events
  refine ⟨sound.permits i, sound.handlers i, ?_⟩
  intro now lease locked tie fault stopped
  rcases claimJob_ytdlp sound.kept now lease locked tie with none | ⟨job, payload, some, -, -⟩
  · cases none.symm.trans stopped
  · cases some.symm.trans stopped

end BVault.Ytdlp
