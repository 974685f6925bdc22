import BVault.Transfer.AnyTarget
import Mathlib.Data.List.Forall2

/-!
# When the staged export is dropped

The loop goes on to the next file after a failure of one, and the cleanup behind
the loop does not ask how the files fared. So the staged export is dropped, and
the run returns, whatever failed, as long as no entry ended the loop.
-/

namespace BVault.Transfer.AnyTarget

open BVault.Hash

/-- In its turn an entry was skipped, or committed on the target. -/
def Settled (e : ManifestEntry) (turn : List Event) : Prop :=
  Event.report (.fileSkipped e.usbPath) ∈ turn ∨ Event.committed e.usbPath ∈ turn

/-- A failure of a file was reported. -/
def Reports (turn : List Event) : Prop :=
  ∃ usbPath text, Event.report (.error usbPath text) ∈ turn

/-- The entries of the manifest, where one was received. -/
def entriesOf : ManifestReply → List ManifestEntry
  | .response _ (some m) => m.entries
  | _ => []

/-- A run returns, and the staged export goes, only with every entry settled; after a
failure of a file the staged export is there. -/
structure KeepsUntilSettled (entries : List ManifestEntry) (run : Run) (arrives : Bool) :
    Prop where
  returned : run.result = .ok () → List.Forall₂ Settled entries run.turns
  dropped : stagedAfter run arrives = false → List.Forall₂ Settled entries run.turns
  failed : (∃ turn ∈ run.turns, Reports turn) → stagedAfter run arrives = true

/-- The target holds a file of the manifest's size. -/
def Skips (e : ManifestEntry) (a : Answers) : Prop := a.fileLen = .ok (some e.size)

/-- A directory, a stat or a request fails, which ends the loop. -/
def Interrupts (e : ManifestEntry) (a : Answers) : Prop :=
  a.ensureDir ≠ .ok () ∨ (∀ len, a.fileLen ≠ .ok len) ∨
    (¬ Skips e a ∧ ∀ status, a.send ≠ .ok status)

/-- Every piece of the body comes in and is written. -/
def Arrives (body : List Chunk) : Prop := ∀ c ∈ body, ∃ bytes, c = .data bytes (.ok ())

/-- The hasher after the data of a body. -/
def hashed : List Chunk → ContentHasher → ContentHasher
  | [], hasher => hasher
  | .data bytes _ :: rest, hasher => hashed rest (hasher.update bytes)
  | .networkError _ :: rest, hasher => hashed rest hasher

section
variable (xxh3_64 : Bytes → UInt64)

/-- The server answers with the file, and it is opened, written, verified and committed. -/
structure Fetches (e : ManifestEntry) (a : Answers) : Prop where
  sent : ∃ status, a.send = .ok status ∧ status.isSuccess = true
  opened : a.create = .ok ()
  arrives : Arrives a.body
  verified : verified xxh3_64 e.source (hashed a.body ContentHasher.new) = true
  committed : a.commit = .ok ()

/-- The turn of an entry goes by without the file: an HTTP status, an open, write, network,
hash or commit failure. -/
def Misses (e : ManifestEntry) (a : Answers) : Prop :=
  ¬ Interrupts e a ∧ ¬ Skips e a ∧ ¬ Fetches xxh3_64 e a

end

/-- The file is in its place and no failure was reported. -/
def Delivered (e : ManifestEntry) (turn : List Event) : Prop := Settled e turn ∧ ¬ Reports turn

/-- The file is not in its place and a failure was reported. -/
def Missed (e : ManifestEntry) (turn : List Event) : Prop := ¬ Settled e turn ∧ Reports turn

/-- Nothing but progress within a file. -/
def Quiet (events : List Event) : Prop :=
  ∀ x ∈ events, (∃ bytes, x = .report (.fileProgress bytes)) ∨
    ∃ usbPath size, x = .report (.fileStart usbPath size)

theorem settled_quiet {events rest : List Event} (quiet : Quiet events) (e : ManifestEntry) :
    Settled e (events ++ rest) ↔ Settled e rest := by
  have skipped : Event.report (.fileSkipped e.usbPath) ∉ events := by
    intro mem
    rcases quiet _ mem with ⟨_, same⟩ | ⟨_, _, same⟩ <;> cases same
  have committed : Event.committed e.usbPath ∉ events := by
    intro mem
    rcases quiet _ mem with ⟨_, same⟩ | ⟨_, _, same⟩ <;> cases same
  simp only [Settled, List.mem_append, skipped, committed, false_or]

theorem reports_quiet {events rest : List Event} (quiet : Quiet events) :
    Reports (events ++ rest) ↔ Reports rest := by
  have none_ (usbPath text : String) : Event.report (.error usbPath text) ∉ events := by
    intro mem
    rcases quiet _ mem with ⟨_, same⟩ | ⟨_, _, same⟩ <;> cases same
  simp only [Reports, List.mem_append, none_, false_or]

theorem Delivered.after {events rest : List Event} {e : ManifestEntry} (quiet : Quiet events)
    (delivered : Delivered e rest) : Delivered e (events ++ rest) := by
  rwa [Delivered, settled_quiet quiet, reports_quiet quiet]

theorem Missed.after {events rest : List Event} {e : ManifestEntry} (quiet : Quiet events)
    (missed : Missed e rest) : Missed e (events ++ rest) := by
  rwa [Missed, settled_quiet quiet, reports_quiet quiet]

/-- A reported failure with nothing but an abort behind it. -/
theorem missed_of_error (e : ManifestEntry) (text : String) {rest : List Event}
    (aborted : ∀ x ∈ rest, x = .aborted e.usbPath) :
    Missed e (.report (.error e.usbPath text) :: rest) := by
  constructor
  · rintro (skipped | committed)
    · rcases List.mem_cons.mp skipped with same | mem
      · cases same
      · cases aborted _ mem
    · rcases List.mem_cons.mp committed with same | mem
      · cases same
      · cases aborted _ mem
  · exact ⟨e.usbPath, text, List.mem_cons_self⟩

theorem receive_arrives (usbPath : String) {body : List Chunk} (arrives : Arrives body)
    (hasher : ContentHasher) : ∃ events,
    receive usbPath body hasher = (events, some (hashed body hasher)) ∧ Quiet events := by
  induction body generalizing hasher with
  | nil => exact ⟨[], rfl, fun _ mem => absurd mem List.not_mem_nil⟩
  | cons c body ih =>
    obtain ⟨bytes, rfl⟩ := arrives c List.mem_cons_self
    obtain ⟨events, received, quiet⟩ :=
      ih (fun c mem => arrives c (List.mem_cons_of_mem _ mem)) (hasher.update bytes)
    refine ⟨.report (.fileProgress bytes.length) :: events, ?_, ?_⟩
    · rw [receive, received, hashed]
    · intro x mem
      rcases List.mem_cons.mp mem with rfl | mem
      · exact Or.inl ⟨_, rfl⟩
      · exact quiet x mem

theorem receive_breaks (usbPath : String) {body : List Chunk} (broken : ¬ Arrives body)
    (hasher : ContentHasher) : ∃ events text,
    receive usbPath body hasher = (events ++ [.report (.error usbPath text)], none) ∧
      Quiet events := by
  have start : Quiet [] := fun _ mem => absurd mem List.not_mem_nil
  induction body generalizing hasher with
  | nil => exact absurd (fun _ mem => absurd mem List.not_mem_nil) broken
  | cons c body ih =>
    cases c with
    | networkError text => exact ⟨[], _, rfl, start⟩
    | data bytes written =>
      cases written with
      | error err => exact ⟨[], _, rfl, start⟩
      | ok u =>
        have later : ¬ Arrives body := by
          intro arrives
          refine broken (fun c mem => ?_)
          rcases List.mem_cons.mp mem with rfl | mem
          · exact ⟨bytes, rfl⟩
          · exact arrives c mem
        obtain ⟨events, text, received, quiet⟩ := ih later (hasher.update bytes)
        refine ⟨.report (.fileProgress bytes.length) :: events, text, ?_, ?_⟩
        · rw [receive, received]
          rfl
        · intro x mem
          rcases List.mem_cons.mp mem with rfl | mem
          · exact Or.inl ⟨_, rfl⟩
          · exact quiet x mem

section
variable (xxh3_64 : Bytes → UInt64)

theorem commit_delivers (e : ManifestEntry) : Delivered e (commit e.usbPath (.ok ())) := by
  constructor
  · exact Or.inr List.mem_cons_self
  · rintro ⟨usbPath, text, mem⟩
    simp [commit] at mem

/-- From the open writer on, the file gets into its place exactly when nothing fails. -/
theorem writeFile_delivers {e : ManifestEntry} {a : Answers} (arrives : Arrives a.body)
    (checked : verified xxh3_64 e.source (hashed a.body ContentHasher.new) = true)
    (committed : a.commit = .ok ()) : Delivered e (writeFile xxh3_64 e a) := by
  obtain ⟨events, received, quiet⟩ := receive_arrives e.usbPath arrives .new
  rw [writeFile, received]
  simp only [if_pos checked, committed]
  exact (commit_delivers e).after quiet

theorem writeFile_misses {e : ManifestEntry} {a : Answers}
    (fails : ¬ (Arrives a.body ∧
      verified xxh3_64 e.source (hashed a.body ContentHasher.new) = true ∧ a.commit = .ok ())) :
    Missed e (writeFile xxh3_64 e a) := by
  by_cases arrives : Arrives a.body
  · obtain ⟨events, received, quiet⟩ := receive_arrives e.usbPath arrives .new
    rw [writeFile, received]
    by_cases checked : verified xxh3_64 e.source (hashed a.body ContentHasher.new) = true
    · cases committed : a.commit with
      | ok u => exact absurd ⟨arrives, checked, committed⟩ fails
      | error err =>
        simp only [if_pos checked]
        exact (missed_of_error e _ (by simp)).after quiet
    · simp only [if_neg checked]
      exact (missed_of_error e _ (by simp)).after quiet
  · obtain ⟨events, text, received, quiet⟩ :=
      receive_breaks e.usbPath arrives .new
    rw [writeFile, received]
    simp only [List.append_assoc, List.singleton_append]
    exact (missed_of_error e text (by simp)).after quiet

/-- An entry whose turn ends the loop. -/
theorem reconcileEntry_interrupted {e : ManifestEntry} {a : Answers}
    (interrupts : Interrupts e a) :
    ∃ turn err, reconcileEntry xxh3_64 e a = (turn, .error err) := by
  rw [reconcileEntry]
  cases made : a.ensureDir with
  | error err => exact ⟨_, _, rfl⟩
  | ok u =>
    cases found : a.fileLen with
    | error err => exact ⟨_, _, rfl⟩
    | ok len =>
      rcases interrupts with dirs | stat | ⟨other, request⟩
      · exact absurd made dirs
      · exact absurd found (stat len)
      · have differs : len ≠ some e.size := by
          rintro rfl
          exact other found
        cases sent : a.send with
        | error err => exact ⟨_, _, if_neg differs⟩
        | ok status => exact absurd sent (request status)

/-- An entry whose turn does not end the loop: its file is in its place, or the turn misses. -/
theorem reconcileEntry_spec {e : ManifestEntry} {a : Answers} (goes : ¬ Interrupts e a) :
    ∃ turn, reconcileEntry xxh3_64 e a = (turn, .ok ()) ∧
      (¬ Misses xxh3_64 e a → Delivered e turn) ∧ (Misses xxh3_64 e a → Missed e turn) := by
  obtain ⟨made, found, request⟩ : a.ensureDir = .ok () ∧ (∃ len, a.fileLen = .ok len) ∧
      (¬ Skips e a → ∃ status, a.send = .ok status) := by
    simpa [Interrupts] using goes
  obtain ⟨len, found⟩ := found
  rw [reconcileEntry, made]
  simp only [found]
  by_cases same : len = some e.size
  · have skips : Skips e a := by rw [Skips, found, same]
    refine ⟨_, if_pos same, ?_, fun misses => absurd skips misses.2.1⟩
    intro _
    constructor
    · exact Or.inl List.mem_cons_self
    · rintro ⟨usbPath, text, mem⟩
      simp at mem
  · have other : ¬ Skips e a := by
      intro skips
      rw [Skips, found] at skips
      exact same (Except.ok.inj skips)
    obtain ⟨status, sent⟩ := request other
    have quiet : Quiet [.report (.fileStart e.usbPath e.size)] := by
      intro x mem
      exact Or.inr ⟨_, _, List.mem_singleton.mp mem⟩
    refine ⟨[.report (.fileStart e.usbPath e.size)] ++ download xxh3_64 e a status, ?_, ?_, ?_⟩
    · simp only [if_neg same, sent]
      rfl
    · intro fetched
      have fetches : Fetches xxh3_64 e a := by
        by_contra fails
        exact fetched ⟨goes, other, fails⟩
      obtain ⟨status', sent', success⟩ := fetches.sent
      rw [sent] at sent'
      cases sent'
      refine Delivered.after quiet ?_
      rw [download, if_neg (not_not.mpr success), fetches.opened]
      exact writeFile_delivers xxh3_64 fetches.arrives fetches.verified fetches.committed
    · rintro ⟨_, _, fails⟩
      refine Missed.after quiet ?_
      rw [download]
      by_cases success : status.isSuccess = true
      · rw [if_neg (not_not.mpr success)]
        cases opened : a.create with
        | error err => exact missed_of_error e _ (by simp)
        | ok u =>
          refine writeFile_misses xxh3_64 ?_
          rintro ⟨arrives, checked, committed⟩
          exact fails ⟨⟨status, sent, success⟩, opened, arrives, checked, committed⟩
      · rw [if_pos success]
        exact missed_of_error e _ (by simp)

theorem reconcileEntries_interrupted {run : List (ManifestEntry × Answers)}
    (interrupted : ∃ ea ∈ run, Interrupts ea.1 ea.2) :
    ∃ turns err, reconcileEntries xxh3_64 run = (turns, .error err) := by
  induction run with
  | nil =>
    obtain ⟨_, mem, _⟩ := interrupted
    cases mem
  | cons ea run ih =>
    obtain ⟨e, a⟩ := ea
    rw [reconcileEntries]
    by_cases here : Interrupts e a
    · obtain ⟨turn, err, ended⟩ := reconcileEntry_interrupted xxh3_64 here
      rw [ended]
      exact ⟨_, _, rfl⟩
    · obtain ⟨turn, went, _⟩ := reconcileEntry_spec xxh3_64 here
      obtain ⟨ea, mem, interrupts⟩ := interrupted
      have later : ∃ ea ∈ run, Interrupts ea.1 ea.2 := by
        rcases List.mem_cons.mp mem with rfl | mem
        · exact absurd interrupts here
        · exact ⟨ea, mem, interrupts⟩
      obtain ⟨turns, err, ended⟩ := ih later
      rw [went, ended]
      exact ⟨_, _, rfl⟩

/-- A loop that nothing interrupts returns, with every turn as its answers say. -/
theorem reconcileEntries_spec {run : List (ManifestEntry × Answers)}
    (goes : ∀ ea ∈ run, ¬ Interrupts ea.1 ea.2) :
    ∃ turns, reconcileEntries xxh3_64 run = (turns, .ok ()) ∧
      List.Forall₂ (fun ea turn => (¬ Misses xxh3_64 ea.1 ea.2 → Delivered ea.1 turn) ∧
        (Misses xxh3_64 ea.1 ea.2 → Missed ea.1 turn)) run turns := by
  induction run with
  | nil => exact ⟨[], rfl, .nil⟩
  | cons ea run ih =>
    obtain ⟨e, a⟩ := ea
    obtain ⟨turn, went, outcome⟩ := reconcileEntry_spec xxh3_64 (goes _ List.mem_cons_self)
    obtain ⟨turns, ended, outcomes⟩ := ih (fun ea mem => goes ea (List.mem_cons_of_mem _ mem))
    refine ⟨turn :: turns, ?_, .cons outcome outcomes⟩
    rw [reconcileEntries, went, ended]

theorem receive_keeps (usbPath : String) (body : List Chunk) (hasher : ContentHasher) :
    Event.deleteExport ∉ (receive usbPath body hasher).1 := by
  by_cases arrives : Arrives body
  · obtain ⟨events, received, quiet⟩ := receive_arrives usbPath arrives hasher
    rw [received]
    intro mem
    rcases quiet _ mem with ⟨_, same⟩ | ⟨_, _, same⟩ <;> cases same
  · obtain ⟨events, text, received, quiet⟩ := receive_breaks usbPath arrives hasher
    rw [received]
    intro mem
    rcases List.mem_append.mp mem with mem | mem
    · rcases quiet _ mem with ⟨_, same⟩ | ⟨_, _, same⟩ <;> cases same
    · cases List.mem_singleton.mp mem

theorem writeFile_keeps (e : ManifestEntry) (a : Answers) :
    Event.deleteExport ∉ writeFile xxh3_64 e a := by
  have keeps := receive_keeps e.usbPath a.body .new
  rw [writeFile]
  cases received : receive e.usbPath a.body .new with
  | mk events done =>
    rw [received] at keeps
    cases done with
    | none => simpa using keeps
    | some hasher =>
      by_cases checked : verified xxh3_64 e.source hasher = true
      · cases committed : a.commit with
        | error err => simpa [checked, commit] using keeps
        | ok u => simpa [checked, commit] using keeps
      · simpa [checked] using keeps

theorem download_keeps (e : ManifestEntry) (a : Answers) (status : Status) :
    Event.deleteExport ∉ download xxh3_64 e a status := by
  rw [download]
  split
  · simp
  · cases a.create with
    | error err => simp
    | ok u => exact writeFile_keeps xxh3_64 e a

theorem reconcileEntry_keeps (e : ManifestEntry) (a : Answers) :
    Event.deleteExport ∉ (reconcileEntry xxh3_64 e a).1 := by
  rw [reconcileEntry]
  cases a.ensureDir with
  | error err => simp
  | ok u =>
    cases a.fileLen with
    | error err => simp
    | ok len =>
      by_cases same : len = some e.size
      · simp [same]
      · cases a.send with
        | error err => simp [same]
        | ok status => simpa [same] using download_keeps xxh3_64 e a status

theorem reconcileEntries_keep (run : List (ManifestEntry × Answers)) :
    Event.deleteExport ∉ (reconcileEntries xxh3_64 run).1.flatten := by
  induction run with
  | nil => exact List.not_mem_nil
  | cons ea run ih =>
    obtain ⟨e, a⟩ := ea
    have keeps := reconcileEntry_keeps xxh3_64 e a
    rw [reconcileEntries]
    cases turned : reconcileEntry xxh3_64 e a with
    | mk turn result =>
      rw [turned] at keeps
      cases result with
      | error err => simpa using keeps
      | ok u =>
        rw [List.flatten_cons, List.mem_append]
        rintro (mem | mem)
        · exact keeps mem
        · exact ih mem

/-- Where a manifest was received, an entry ends the loop or every entry's file is there. -/
def NothingMissed (reply : ManifestReply) (answers : Nat → Answers) : Prop :=
  ∀ status m, reply = .response status (some m) → status.isSuccess = true →
    (∃ ea ∈ answered m answers, Interrupts ea.1 ea.2) ∨
      ∀ ea ∈ answered m answers, ¬ Misses xxh3_64 ea.1 ea.2

theorem staged_of_no_delete {run : Run} (keeps : Event.deleteExport ∉ run.events)
    (arrives : Bool) : stagedAfter run arrives = true := by
  simp [stagedAfter, keeps]

/-- A run that returns an error keeps the staged export. -/
theorem keepsUntilSettled_of_error {entries : List ManifestEntry} {run : Run} {err : String}
    (ended : run.result = .error err) (keeps : Event.deleteExport ∉ run.events)
    (arrives : Bool) : KeepsUntilSettled entries run arrives where
  returned := by
    intro returned
    rw [ended] at returned
    cases returned
  dropped := by
    intro dropped
    rw [staged_of_no_delete keeps arrives] at dropped
    cases dropped
  failed := fun _ => staged_of_no_delete keeps arrives

theorem refused_keeps (entries : List ManifestEntry) (err : String) (arrives : Bool) :
    KeepsUntilSettled entries (.refused err) arrives :=
  keepsUntilSettled_of_error rfl List.not_mem_nil arrives

theorem answered_fst (m : Manifest) (answers : Nat → Answers) :
    (answered m answers).map Prod.fst = m.entries := by
  apply List.ext_getElem
  · simp [answered]
  · intro i _ _
    simp [answered]

/-- A run that returns keeps the export until all is settled exactly when no turn missed. -/
theorem keepsUntilSettled_iff {answered : List (ManifestEntry × Answers)} {run : Run}
    (outcomes : List.Forall₂ (fun ea turn => (¬ Misses xxh3_64 ea.1 ea.2 → Delivered ea.1 turn) ∧
      (Misses xxh3_64 ea.1 ea.2 → Missed ea.1 turn)) answered run.turns)
    (ended : run.result = .ok ()) (arrives : Bool) :
    KeepsUntilSettled (answered.map Prod.fst) run arrives ↔
      ∀ ea ∈ answered, ¬ Misses xxh3_64 ea.1 ea.2 := by
  have length := outcomes.length_eq
  constructor
  · rintro keeps ea mem misses
    have settled := List.forall₂_map_left_iff.mp (keeps.returned ended)
    obtain ⟨i, inside, rfl⟩ := List.getElem_of_mem mem
    have turn : i < run.turns.length := by omega
    exact ((outcomes.get inside turn).2 misses).1 (settled.get inside turn)
  · intro nothing
    have settled : List.Forall₂ Settled (answered.map Prod.fst) run.turns := by
      rw [List.forall₂_map_left_iff, List.forall₂_iff_get]
      refine ⟨length, fun i inside turn => ?_⟩
      exact ((outcomes.get inside turn).1 (nothing _ (List.getElem_mem inside))).1
    refine ⟨fun _ => settled, fun _ => settled, ?_⟩
    rintro ⟨turn, mem, reports⟩
    obtain ⟨i, inside, rfl⟩ := List.getElem_of_mem mem
    have entry : i < answered.length := by omega
    exact absurd reports ((outcomes.get entry inside).1 (nothing _ (List.getElem_mem entry))).2

/-- Whatever the sink and the server answer: the staged export is kept until every entry is
skipped or committed exactly when no file is missed in a run that nothing interrupts. -/
theorem export_kept_iff_nothing_missed (reply : ManifestReply) (answers : Nat → Answers)
    (arrives : Bool) :
    KeepsUntilSettled (entriesOf reply) (reconcileExport xxh3_64 reply answers) arrives ↔
      NothingMissed xxh3_64 reply answers := by
  cases reply with
  | sendError =>
    refine iff_of_true (refused_keeps _ _ arrives) ?_
    intro status m received
    cases received
  | response status json =>
    by_cases accepted : status.isSuccess = true
    · cases json with
      | none =>
        refine iff_of_true ?_ ?_
        · simp only [reconcileExport, accepted, not_true_eq_false, if_false]
          exact refused_keeps _ _ arrives
        · intro status' m received
          cases received
      | some m =>
        have condition : NothingMissed xxh3_64 (.response status (some m)) answers ↔
            (∃ ea ∈ answered m answers, Interrupts ea.1 ea.2) ∨
              ∀ ea ∈ answered m answers, ¬ Misses xxh3_64 ea.1 ea.2 := by
          constructor
          · exact fun nothing => nothing status m rfl accepted
          · rintro nothing status' m' received _
            cases received
            exact nothing
        simp only [condition, reconcileExport, accepted, not_true_eq_false, if_false, entriesOf]
        by_cases interrupted : ∃ ea ∈ answered m answers, Interrupts ea.1 ea.2
        · obtain ⟨turns, err, ended⟩ := reconcileEntries_interrupted xxh3_64 interrupted
          have keeps := reconcileEntries_keep xxh3_64 (answered m answers)
          rw [ended] at keeps ⊢
          refine iff_of_true (keepsUntilSettled_of_error rfl ?_ arrives) (Or.inl interrupted)
          simpa [Run.events] using keeps
        · have goes : ∀ ea ∈ answered m answers, ¬ Interrupts ea.1 ea.2 :=
            fun ea mem interrupts => interrupted ⟨ea, mem, interrupts⟩
          obtain ⟨turns, ended, outcomes⟩ := reconcileEntries_spec xxh3_64 goes
          rw [ended, ← answered_fst m answers]
          simp only [interrupted, false_or]
          exact keepsUntilSettled_iff xxh3_64 outcomes rfl arrives
    · refine iff_of_true ?_ ?_
      · simp only [reconcileExport, accepted]
        exact refused_keeps _ _ arrives
      · intro status' m received success
        cases received
        exact absurd success accepted

end

/-- One track. -/
def oneTrack : Manifest where
  entries := [⟨"Contents/a1.mp3", 2, .staging⟩]

/-- The server does not find the file. -/
def notFound : Answers where
  ensureDir := .ok ()
  fileLen := .ok none
  send := .ok ⟨404, "404 Not Found"⟩
  create := .ok ()
  body := []
  commit := .ok ()

/-- The run returns and drops the staged export, with the only track missing. -/
theorem notFound_drops_export :
    (reconcileExport (fun _ => 0) (.response ⟨200, "200 OK"⟩ (some oneTrack))
      (fun _ => notFound)).result = .ok () ∧
    stagedAfter (reconcileExport (fun _ => 0) (.response ⟨200, "200 OK"⟩ (some oneTrack))
      (fun _ => notFound)) true = false ∧
    ¬ KeepsUntilSettled oneTrack.entries
      (reconcileExport (fun _ => 0) (.response ⟨200, "200 OK"⟩ (some oneTrack))
        (fun _ => notFound)) true := by
  refine ⟨rfl, by decide, fun keeps => ?_⟩
  have missed : Reports [Event.report (.fileStart "Contents/a1.mp3" 2),
      .report (.error "Contents/a1.mp3" "HTTP 404 Not Found")] :=
    ⟨_, _, List.mem_cons_of_mem _ List.mem_cons_self⟩
  have kept := keeps.failed ⟨_, List.mem_cons_self, missed⟩
  exact absurd kept (by decide)

end BVault.Transfer.AnyTarget
