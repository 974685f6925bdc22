import BVault.Store.Whole
import BVault.Worker.Order
import BVault.Worker.Turns

/-!
# A succeeded analysis has its marker

A marker that is there stays, so a turn that has seen it, or has created it,
may complete its job at any later time, whoever else holds the job by then.
A report reaches no analysis job: their payloads carry no user.
-/

namespace BVault.Store.Bundle

/-- A call that syncs the marker or has returned did so over a marker that is there. -/
def Marked (b : Bundle) : Prop :=
  ∀ p ∈ b.puts, p.pc = .syncMarker ∨ p.pc = .returned → b.exists = true

/-- The directory after is at least as complete, with the same calls. -/
def Grown (b b' : Bundle) : Prop := b'.puts = b.puts ∧ (b.exists = true → b'.exists = true)

theorem Grown.refl (b : Bundle) : Grown b b := ⟨rfl, id⟩

theorem grown_setFile (b : Bundle) (name : String) (f : FileState) : Grown b (b.setFile name f) := by
  refine ⟨rfl, ?_⟩
  intro there
  unfold «exists» setFile at *
  dsimp only
  split
  · rfl
  · exact there

theorem grown_writeFile (b : Bundle) (name : String) (offset : Nat) (piece : Bytes) :
    Grown b (b.writeFile name offset piece) := by
  unfold writeFile
  split
  · exact grown_setFile b name _
  · exact Grown.refl b

theorem grown_syncFile (b : Bundle) (w : Nat) (name : String) : Grown b (b.syncFile w name) := by
  unfold syncFile
  split
  · exact grown_setFile b name _
  · exact Grown.refl b

/-- A call moves on in a directory that has grown. -/
theorem Marked.moved {b b' : Bundle} (marked : Marked b) (grown : Grown b b') {w : Nat} {pc : Pc}
    (needs : pc = .syncMarker ∨ pc = .returned → b'.exists = true) : Marked (b'.setPc w pc) := by
  intro p mem at_
  obtain ⟨v, hv⟩ := List.mem_iff_getElem?.mp mem
  obtain ⟨old, there, _, ⟨_, moved⟩ | ⟨_, rfl⟩⟩ := puts_setPc hv
  · exact needs (moved ▸ at_)
  · rw [grown.1] at there
    exact grown.2 (marked p (List.mem_of_getElem? there) at_)

theorem advance_keeps {b : Bundle} (marked : Marked b) {w : Nat} {p : Put}
    (hp : b.puts[w]? = some p) (n : Nat) :
    Marked (b.advance w p n) ∧ (b.exists = true → (b.advance w p n).exists = true) := by
  unfold advance
  cases counter : p.pc with
  | check =>
    refine ⟨marked.moved (Grown.refl b) ?_, id⟩
    intro moved
    by_contra none
    simp [none] at moved
  | createDirAll =>
    refine ⟨marked.moved (Grown.refl b) ?_, id⟩
    cases p.files <;> simp [nextFile]
  | create name bytes rest =>
    exact ⟨marked.moved (grown_setFile b name _) (by simp), (grown_setFile b name _).2⟩
  | write name bytes offset rest =>
    simp only
    split
    · split
      · exact ⟨marked.moved (Grown.refl b) (by simp), id⟩
      · exact ⟨marked.moved (grown_writeFile b name _ _) (by simp), (grown_writeFile b name _ _).2⟩
    · refine ⟨marked.moved (grown_syncFile b w name) ?_, (grown_syncFile b w name).2⟩
      cases rest <;> simp [nextFile]
  | createMarker =>
    have there : (b.createFile w MARKER).exists = true := by
      simp [«exists», createFile, setFile]
    have grown : Grown b { b.createFile w MARKER with markedBy := w :: b.markedBy } :=
      ⟨rfl, fun _ => there⟩
    exact ⟨marked.moved grown (fun _ => there), fun _ => there⟩
  | syncMarker =>
    have grown := grown_syncFile b w MARKER
    have there : b.exists = true := marked p (List.mem_of_getElem? hp) (Or.inl counter)
    exact ⟨marked.moved grown (fun _ => grown.2 there), grown.2⟩
  | returned => exact ⟨marked, id⟩
  | stopped => exact ⟨marked, id⟩

/-- Short of a power failure markers stay, and calls return over markers only. -/
theorem step_keeps {b : Bundle} (marked : Marked b) {e : Event}
    (power : ∀ left, e ≠ .powerFailure left) :
    Marked (b.step e) ∧ (b.exists = true → (b.step e).exists = true) := by
  cases e with
  | call files =>
    refine ⟨?_, id⟩
    intro p mem at_
    rcases List.mem_append.mp mem with old | new
    · exact marked p old at_
    · rw [List.mem_singleton.mp new] at at_
      rcases at_ with syncs | returned
      · cases syncs
      · cases returned
  | step w n =>
    simp only [step]
    split
    · exact advance_keeps marked ‹_› n
    · exact ⟨marked, id⟩
  | stop w =>
    simp only [step]
    split
    · split
      · exact ⟨marked, id⟩
      · exact ⟨marked.moved (Grown.refl b) (by simp), id⟩
    · exact ⟨marked, id⟩
  | powerFailure left => exact absurd rfl (power left)

end BVault.Store.Bundle

namespace BVault.Worker

open BVault.Jobs BVault.Store

/-- What the gateways enqueue: an analysis under its hash, an ingest with its user. -/
def Typed (row : Job) : Prop :=
  match row.payload with
  | .analysis job => row.kind = .analysis ∧ row.dedupKey = job.hash
  | .ytDlpIngest _ => row.kind = .ytDlpIngest

theorem inserted_row {q : Queue} {now : Nat} {kind : JobKind} {key : String} {payload : Payload}
    {maxAttempts : Int} {traceparent : Option String} {row : Job}
    (new : row ∈ q.inserted (.enqueue now kind key payload maxAttempts traceparent)) :
    row.payload = payload ∧ row.kind = kind ∧ row.dedupKey = key := by
  simp only [Queue.inserted] at new
  split at new
  · cases new
  · rw [List.mem_singleton.mp new]
    exact ⟨rfl, rfl, rfl⟩

/-- Only a `complete` of its id makes a row succeeded. -/
theorem effect_succeeded {q : Queue} {op : Op} {row : Job}
    (now : (q.effect op row).status = .succeeded) :
    row.status = .succeeded ∨ ∃ at_, op = .complete at_ row.id := by
  have made := q.effect_rewrites op row
  generalize q.effect op row = after at made now
  cases made with
  | kept => exact Or.inl now
  | extended => exact Or.inl now
  | completed => exact Or.inr ⟨_, rfl⟩
  | leased => cases now
  | failed => cases now
  | spent => cases now
  | parked => cases now

/-- The payload that a turn works on. -/
def Phase.payload : Phase → Option AnalysisJob
  | .check payload => some payload
  | .analyze payload => some payload
  | .put payload _ => some payload
  | _ => none

section
variable (root : String) (realDir : String → String)

/-- The marker is there for the payload of an analysis. -/
def HasMarker (s : Site) (payload : Payload) : Prop :=
  ∀ job, payload = .analysis job → s.analyzed root realDir job.hash = true

structure Inv (s : Site) : Prop where
  keyed : s.queue.Keyed
  typed : ∀ row ∈ s.queue.jobs, Typed row
  marked : ∀ dir, (s.bundles dir).Marked
  claimed : ∀ t ∈ s.turns, ∃ row ∈ s.queue.jobs, row.id = t.job.id ∧ row.payload = t.job.payload
  working : ∀ t ∈ s.turns, ∀ p, t.phase.payload = some p → t.job.payload = .analysis p
  completing : ∀ t ∈ s.turns, t.phase = .complete → HasMarker root realDir s t.job.payload
  reported : ∀ r ∈ s.reports, ∃ row ∈ s.queue.jobs, row.id = r.id ∧ row.kind = .ytDlpIngest
  succeeded : ∀ row ∈ s.queue.jobs, row.status = .succeeded → HasMarker root realDir s row.payload

theorem inv_start : Inv root realDir Site.start where
  keyed := Queue.keyed_empty
  typed := by simp [Site.start, Queue.empty]
  marked := by simp [Site.start, Bundle.empty, Bundle.Marked]
  claimed := by simp [Site.start]
  working := by simp [Site.start]
  completing := by simp [Site.start]
  reported := by simp [Site.start]
  succeeded := by simp [Site.start, Queue.empty]

variable {root realDir} {s : Site}

/-- A statement to the queue: new rows are typed, and what it completes has its marker. -/
theorem Inv.statement (inv : Inv root realDir s) (op : Op)
    (typed : ∀ row ∈ s.queue.inserted op, Typed row)
    (completes : ∀ now id, op = .complete now id → ∀ row ∈ s.queue.jobs, row.id = id →
      HasMarker root realDir s row.payload) :
    Inv root realDir { s with queue := s.queue.step op } where
  keyed := Queue.keyed_step op inv.keyed
  typed := by
    intro row mem
    rcases Queue.mem_step.mp mem with ⟨old, there, rfl⟩ | new
    · have before := inv.typed old there
      simpa [Typed] using before
    · exact typed row new
  marked := inv.marked
  claimed := by
    intro t mem
    obtain ⟨row, there, id, payload⟩ := inv.claimed t mem
    refine ⟨s.queue.effect op row, Queue.mem_step.mpr (Or.inl ⟨row, there, rfl⟩), ?_, ?_⟩
    · rw [Queue.effect_id, id]
    · rw [Queue.effect_payload, payload]
  working := inv.working
  completing := inv.completing
  reported := by
    intro r mem
    obtain ⟨row, there, id, kind⟩ := inv.reported r mem
    refine ⟨s.queue.effect op row, Queue.mem_step.mpr (Or.inl ⟨row, there, rfl⟩), ?_, ?_⟩
    · rw [Queue.effect_id, id]
    · rw [Queue.effect_kind, kind]
  succeeded := by
    intro row mem done
    rcases Queue.mem_step.mp mem with ⟨old, there, rfl⟩ | new
    · rw [Queue.effect_payload]
      rcases effect_succeeded done with before | ⟨now, rfl⟩
      · exact inv.succeeded old there before
      · exact completes now old.id rfl old there rfl
    · obtain ⟨_, _, _, _, _, _, fresh, _⟩ := Queue.mem_inserted new
      rw [fresh] at done
      cases done

/-- A statement that neither adds rows nor completes one. -/
theorem Inv.quiet (inv : Inv root realDir s) (op : Op) (adds : s.queue.inserted op = [])
    (completes : ∀ now id, op ≠ .complete now id) :
    Inv root realDir { s with queue := s.queue.step op } := by
  apply inv.statement op
  · rw [adds]
    intro row mem
    cases mem
  · intro now id same
    exact absurd same (completes now id)

theorem mem_setPhase {turn : Nat} {phase : Phase} {t t' : Turn} (ht : s.turns[turn]? = some t)
    (mem : t' ∈ (s.setPhase turn phase).turns) :
    t' ∈ s.turns ∨ t' = { t with phase := phase } := by
  obtain ⟨v, hv⟩ := List.mem_iff_getElem?.mp mem
  rw [Site.setPhase, List.getElem?_modify] at hv
  obtain ⟨old, there, rfl⟩ := Option.map_eq_some_iff.mp hv
  by_cases same : turn = v
  · subst same
    obtain rfl : t = old := Option.some.inj (ht.symm.trans there)
    simp
  · left
    simpa [same] using List.mem_of_getElem? there

/-- A turn moves on, with its own payload, and to its completion only over a marker. -/
theorem Inv.setPhase (inv : Inv root realDir s) {turn : Nat} {t : Turn}
    (ht : s.turns[turn]? = some t) {phase : Phase}
    (carries : ∀ p, phase.payload = some p → t.job.payload = .analysis p)
    (completes : phase = .complete → HasMarker root realDir s t.job.payload) :
    Inv root realDir (s.setPhase turn phase) := by
  have mine := List.mem_of_getElem? ht
  refine { inv with claimed := ?_, working := ?_, completing := ?_ }
  · intro t' mem
    rcases mem_setPhase ht mem with old | rfl
    · exact inv.claimed t' old
    · exact inv.claimed t mine
  · intro t' mem
    rcases mem_setPhase ht mem with old | rfl
    · exact inv.working t' old
    · exact carries
  · intro t' mem
    rcases mem_setPhase ht mem with old | rfl
    · exact inv.completing t' old
    · exact completes

/-- A turn that goes on to fail, or is over. -/
theorem Inv.leave (inv : Inv root realDir s) {turn : Nat} {t : Turn}
    (ht : s.turns[turn]? = some t) {phase : Phase} (nothing : phase.payload = none)
    (open_ : phase ≠ .complete) : Inv root realDir (s.setPhase turn phase) := by
  apply inv.setPhase ht
  · intro p some_
    rw [nothing] at some_
    cases some_
  · intro complete
    exact absurd complete open_

theorem Inv.bundleStep (inv : Inv root realDir s) (dir : String) {e : Store.Event}
    (power : ∀ left, e ≠ .powerFailure left) : Inv root realDir (s.bundleStep dir e) := by
  have stays : ∀ d, (s.bundles d).exists = true → ((s.bundleStep dir e).bundles d).exists = true := by
    intro d there
    unfold Site.bundleStep
    dsimp only
    split
    · exact (Bundle.step_keeps (inv.marked d) power).2 there
    · exact there
  have hasMarker : ∀ payload, HasMarker root realDir s payload →
      HasMarker root realDir (s.bundleStep dir e) payload :=
    fun payload has job same => stays _ (has job same)
  refine { inv with marked := ?_, completing := ?_, succeeded := ?_ }
  · intro d
    unfold Site.bundleStep
    dsimp only
    split
    · exact (Bundle.step_keeps (inv.marked d) power).1
    · exact inv.marked d
  · intro t mem complete
    exact hasMarker _ (inv.completing t mem complete)
  · intro row mem done
    exact hasMarker _ (inv.succeeded row mem done)

theorem hasMarker_of_working (inv : Inv root realDir s) {t : Turn} (mem : t ∈ s.turns)
    {p : AnalysisJob} (carries : t.phase.payload = some p) {s' : Site}
    (there : s'.analyzed root realDir p.hash = true) :
    HasMarker root realDir s' t.job.payload := by
  intro job same
  rw [inv.working t mem p carries] at same
  cases same
  exact there

theorem inv_put (inv : Inv root realDir s) {turn : Nat} {t : Turn}
    (ht : s.turns[turn]? = some t) {payload : AnalysisJob} {call : Nat}
    (phase : t.phase = .put payload call) (answer : Answer) :
    Inv root realDir (s.work root realDir turn t answer) := by
  unfold Site.work
  simp only [phase]
  have mem := List.mem_of_getElem? ht
  generalize event : (if answer.ioFails then Store.Event.stop call else .step call answer.accepted) = e
  have power : ∀ left, e ≠ .powerFailure left := by
    intro left
    rw [← event]
    split <;> simp
  have stepped := inv.bundleStep (Site.dirOf root realDir payload.hash) power
  split
  · rename_i p there
    split
    · rename_i returned
      refine stepped.setPhase ht (fun _ none => by cases none) (fun _ => ?_)
      apply hasMarker_of_working inv mem (p := payload) (by rw [phase]; rfl)
      exact stepped.marked _ p (List.mem_of_getElem? there) (Or.inr returned)
    · split
      · exact stepped.leave ht rfl (by simp)
      · exact stepped
  · exact stepped

theorem inv_work (inv : Inv root realDir s) {turn : Nat} {t : Turn}
    (ht : s.turns[turn]? = some t) (answer : Answer) :
    Inv root realDir (s.work root realDir turn t answer) := by
  have mem := List.mem_of_getElem? ht
  cases phase : t.phase with
  | check payload =>
    have mine : t.phase.payload = some payload := by rw [phase]; rfl
    unfold Site.work
    simp only [phase]
    split
    · rename_i there
      refine inv.setPhase ht (fun _ none => by cases none) (fun _ => ?_)
      exact hasMarker_of_working inv mem mine there
    · refine inv.setPhase ht (fun p some_ => ?_) (fun complete => by cases complete)
      exact inv.working t mem p (mine.trans some_)
  | analyze payload =>
    have mine : t.phase.payload = some payload := by rw [phase]; rfl
    unfold Site.work
    simp only [phase]
    split
    · refine (inv.bundleStep _ (by simp)).setPhase ht (fun p some_ => ?_)
        (fun complete => by cases complete)
      exact inv.working t mem p (mine.trans some_)
    · exact inv.leave ht rfl (by simp)
  | put payload call => exact inv_put inv ht phase answer
  | complete =>
    unfold Site.work
    simp only [phase]
    refine (inv.statement _ (by simp [Queue.inserted]) ?_).leave ht rfl (by simp)
    rintro now id ⟨⟩ row there same
    obtain ⟨row', there', id', payload⟩ := inv.claimed t mem
    obtain rfl := inv.keyed.same_row there there' (same.trans id'.symm)
    rw [payload]
    exact inv.completing t mem phase
  | fail error =>
    unfold Site.work
    simp only [phase]
    exact (inv.quiet _ rfl (by simp)).leave ht rfl (by simp)
  | ended =>
    unfold Site.work
    simp only [phase]
    exact inv

theorem inv_crash (inv : Inv root realDir s) {turn : Nat} {t : Turn}
    (ht : s.turns[turn]? = some t) : Inv root realDir (s.crash root realDir turn t) := by
  unfold Site.crash
  split
  · exact (inv.bundleStep _ (by simp)).leave ht rfl (by simp)
  · exact inv.leave ht rfl (by simp)

theorem inv_claim (inv : Inv root realDir s) (now lease : Nat) (locked : List Nat) (tie : Nat)
    (error : String) :
    Inv root realDir (s.step root realDir (.claim now lease locked tie error)) := by
  have queued := inv.quiet (.claim now .analysis lease locked tie) rfl (by simp)
  -- a new turn has the payload of its row, and looks for the marker first
  have begun : ∀ t ∈ ((s.queue.served (.claim now .analysis lease locked tie)).map
      (Site.begin · error)).toList, ∃ job, s.queue.served (.claim now .analysis lease locked tie) =
        some job ∧ t = Site.begin job error := by
    intro t mem
    obtain ⟨job, served, rfl⟩ := Option.map_eq_some_iff.mp (Option.mem_toList.mp mem)
    exact ⟨job, served, rfl⟩
  refine { queued with claimed := ?_, working := ?_, completing := ?_ }
  · intro t mem
    rcases List.mem_append.mp mem with old | new
    · exact queued.claimed t old
    · obtain ⟨job, served, rfl⟩ := begun t new
      obtain ⟨_, _, _, _, _, row, is, picked, leased, effect⟩ := Queue.served_spec served
      have there := (Queue.pick_spec picked).1.1
      refine ⟨s.queue.effect (.claim now .analysis lease locked tie) row,
        Queue.mem_step.mpr (Or.inl ⟨row, there, rfl⟩), ?_, ?_⟩
      · rw [effect]
        rfl
      · rw [effect]
        rfl
  · intro t mem p carries
    rcases List.mem_append.mp mem with old | new
    · exact queued.working t old p carries
    · obtain ⟨job, _, rfl⟩ := begun t new
      unfold Site.begin at carries ⊢
      dsimp only at carries ⊢
      cases payload : job.payload with
      | analysis job' =>
        simp only [payload, analysisJob, Phase.payload, Option.some.injEq] at carries
        rw [carries]
      | ytDlpIngest job' =>
        simp [payload, analysisJob, Phase.payload] at carries
  · intro t mem complete
    rcases List.mem_append.mp mem with old | new
    · exact queued.completing t old complete
    · obtain ⟨job, _, rfl⟩ := begun t new
      unfold Site.begin at complete
      dsimp only at complete
      split at complete
      · cases complete
      · cases complete

/-- A report that the gateway accepts is about a row of a user, which no analysis is. -/
theorem inv_reportJob (inv : Inv root realDir s) (user : String) (id : Nat) (ok : Bool)
    (error : Option String) : Inv root realDir (s.step root realDir (.reportJob user id ok error)) := by
  simp only [Site.step]
  split
  · rename_i job found
    split
    · rename_i owned
      refine { inv with reported := ?_ }
      intro r mem
      rcases List.mem_append.mp mem with old | new
      · exact inv.reported r old
      · obtain rfl := List.mem_singleton.mp new
        have there : job ∈ s.queue.jobs := List.mem_of_find?_eq_some found
        have same : job.id = id := by simpa using List.find?_some found
        refine ⟨job, there, same, ?_⟩
        have typed := inv.typed job there
        unfold Typed at typed
        cases payload : job.payload with
        | analysis job' => simp [jobOwnedBy, userIdField, payload] at owned
        | ytDlpIngest job' =>
          rw [payload] at typed
          exact typed
    · exact inv
  · exact inv

theorem inv_carryOut (inv : Inv root realDir s) (report now : Nat) :
    Inv root realDir (s.step root realDir (.carryOut report now)) := by
  simp only [Site.step]
  split
  · rename_i r found
    obtain ⟨row, there, id, kind⟩ := inv.reported r (List.mem_of_getElem? found)
    split
    · refine inv.statement _ (by simp [Queue.inserted]) ?_
      rintro _ _ ⟨⟩ row' there' same job payload
      obtain rfl := inv.keyed.same_row there there' (id.trans same.symm)
      have typed := inv.typed row there
      simp only [Typed, payload, kind] at typed
      cases typed.1
    · exact inv.quiet _ rfl (by simp)
  · exact inv

theorem inv_step (inv : Inv root realDir s) (e : Event) : Inv root realDir (s.step root realDir e) := by
  cases e with
  | enqueueAnalysis now job maxAttempts traceparent =>
    refine inv.statement _ ?_ (fun _ _ same => by cases same)
    intro row new
    obtain ⟨payload, kind, key⟩ := inserted_row new
    unfold Typed
    rw [payload]
    exact ⟨kind, key⟩
  | ingestYtdlp now user url traceparent =>
    refine inv.statement _ ?_ (fun _ _ same => by cases same)
    intro row new
    obtain ⟨payload, kind, _⟩ := inserted_row new
    unfold Typed
    rw [payload]
    exact kind
  | claim now lease locked tie error => exact inv_claim inv now lease locked tie error
  | work turn answer =>
    simp only [Site.step]
    split
    · exact inv_work inv ‹_› answer
    · exact inv
  | crash turn =>
    simp only [Site.step]
    split
    · exact inv_crash inv ‹_›
    · exact inv
  | claimJob now kind lease locked tie => exact inv.quiet _ rfl (by simp)
  | reportJob user id ok error => exact inv_reportJob inv user id ok error
  | carryOut report now => exact inv_carryOut inv report now

end

/-- Every analysis job that is succeeded has the marker of its hash. -/
def SucceededMarked (root : String) (realDir : String → String) (s : Site) : Prop :=
  ∀ row ∈ s.queue.jobs, row.kind = .analysis → row.status = .succeeded →
    ∃ job, row.payload = .analysis job ∧ row.dedupKey = job.hash ∧
      s.analyzed root realDir job.hash = true

/-- Whatever the workers, the gateways and the reporting users do, in whichever order, and
whenever workers die. -/
theorem succeeded_marked (root : String) (realDir : String → String) (events : List Event) :
    Runs.Throughout (Site.step root realDir) Site.start events (SucceededMarked root realDir) := by
  intro pre post _
  have keep : ∀ s e, Inv root realDir s → Inv root realDir (s.step root realDir e) :=
    fun _ e holds => inv_step holds e
  have inv := Runs.run_invariant keep (inv_start root realDir) pre
  intro row mem kind done
  have typed := inv.typed row mem
  have has := inv.succeeded row mem done
  unfold Typed at typed
  cases payload : row.payload with
  | analysis job =>
    rw [payload] at typed has
    exact ⟨job, rfl, typed.2, has job rfl⟩
  | ytDlpIngest job =>
    rw [payload] at typed
    rw [kind] at typed
    cases typed

end BVault.Worker
