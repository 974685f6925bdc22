import BVault.Transfer.Reconcile

/-!
# The reconcile loop over any target

The loop is agnostic to where the export is written: a mounted filesystem or an
Android tree. Here each call to the sink and to the server is answered from
outside, whatever the target, and the run is kept entry by entry. The loop over
a mounted filesystem is the case in which the target's own state answers.
-/

namespace BVault.Transfer.AnyTarget

open BVault.Hash

/-- One `res.chunk()`, and for data what writing it returned. -/
inductive Chunk where
  | data (bytes : Bytes) (written : Except String Unit)
  | networkError (text : String)

/-- How the sink and the server answer while one entry is handled. The body ends where the
list ends. -/
structure Answers where
  ensureDir : Except String Unit
  fileLen : Except String (Option Nat)
  send : Except String Status
  create : Except String Unit
  body : List Chunk
  commit : Except String Unit

inductive Event where
  | report (callback : Callback)
  | committed (usbPath : String)
  | aborted (usbPath : String)
  | deleteExport
  deriving DecidableEq

section
variable (xxh3_64 : Bytes → UInt64)

/-- The chunk loop; `none` where a write or the network failed. -/
def receive (usbPath : String) : List Chunk → ContentHasher → List Event × Option ContentHasher
  | [], hasher => ([], some hasher)
  | .networkError text :: _, _ =>
    ([.report (.error usbPath ("Network error: " ++ text))], none)
  | .data _ (.error err) :: _, _ =>
    ([.report (.error usbPath ("Write error: " ++ err))], none)
  | .data bytes (.ok ()) :: rest, hasher =>
    let (events, done) := receive usbPath rest (hasher.update bytes)
    (.report (.fileProgress bytes.length) :: events, done)

/-- The writer's commit. -/
def commit (usbPath : String) : Except String Unit → List Event
  | .error err => [.report (.error usbPath ("Commit error: " ++ err))]
  | .ok () => [.committed usbPath, .report (.fileDone usbPath)]

/-- One file from the open writer on: the loop, the check, the commit. -/
def writeFile (e : ManifestEntry) (a : Answers) : List Event :=
  match receive e.usbPath a.body ContentHasher.new with
  | (events, none) => events ++ [.aborted e.usbPath]
  | (events, some hasher) =>
    if verified xxh3_64 e.source hasher then events ++ commit e.usbPath a.commit
    else
      events ++ [.report (.error e.usbPath "Hash mismatch: file corrupted during transfer"),
        .aborted e.usbPath]

/-- One file from the server's response on. -/
def download (e : ManifestEntry) (a : Answers) (status : Status) : List Event :=
  if ¬ status.isSuccess then [.report (.error e.usbPath ("HTTP " ++ status.text))]
  else
    match a.create with
    | .error err => [.report (.error e.usbPath ("Open error: " ++ err))]
    | .ok () => writeFile xxh3_64 e a

/-- The body of the loop for one entry. -/
def reconcileEntry (e : ManifestEntry) (a : Answers) : List Event × Result :=
  match a.ensureDir with
  | .error _ => ([], .error "Failed to create directories on USB")
  | .ok () =>
    match a.fileLen with
    | .error err => ([], .error err)
    | .ok len =>
      if len = some e.size then ([.report (.fileSkipped e.usbPath)], .ok ())
      else
        match a.send with
        | .error _ =>
          ([.report (.fileStart e.usbPath e.size)], .error "Failed to start file download")
        | .ok status =>
          (.report (.fileStart e.usbPath e.size) :: download xxh3_64 e a status, .ok ())

/-- The loop over the entries, turn by turn; an error of an entry ends it. -/
def reconcileEntries : List (ManifestEntry × Answers) → List (List Event) × Result
  | [] => ([], .ok ())
  | (e, a) :: rest =>
    match reconcileEntry xxh3_64 e a with
    | (events, .error err) => ([events], .error err)
    | (events, .ok ()) =>
      let (later, result) := reconcileEntries rest
      (events :: later, result)

/-- What happened before the loop, in each turn of it, and after it. -/
structure Run where
  opening : List Event
  turns : List (List Event)
  cleanup : List Event
  result : Result

def Run.events (run : Run) : List Event := run.opening ++ run.turns.flatten ++ run.cleanup

/-- A run that ends before the loop. -/
def Run.refused (err : String) : Run := ⟨[], [], [], .error err⟩

/-- The entries of the manifest with the answers they meet. -/
def answered (m : Manifest) (answers : Nat → Answers) : List (ManifestEntry × Answers) :=
  m.entries.mapIdx (fun i e => (e, answers i))

def reconcileExport (reply : ManifestReply) (answers : Nat → Answers) : Run :=
  match reply with
  | .sendError => .refused "Failed to fetch manifest"
  | .response status json =>
    if ¬ status.isSuccess then .refused ("Failed to fetch manifest: " ++ status.text)
    else
      match json with
      | none => .refused "Failed to parse manifest JSON"
      | some m =>
        let start := Event.report
          (.start m.entries.length (m.entries.map ManifestEntry.size).sum)
        match reconcileEntries xxh3_64 (answered m answers) with
        | (turns, .error err) => ⟨[start], turns, [], .error err⟩
        | (turns, .ok ()) => ⟨[start], turns, [.deleteExport, .report .complete], .ok ()⟩

/-- The staged export after the run; the DELETE is best effort and may not arrive. -/
def stagedAfter (run : Run) (arrives : Bool) : Bool :=
  !(arrives && decide (Event.deleteExport ∈ run.events))

end

def answerOf : Recv → Chunk
  | .chunk bytes true => .data bytes (.ok ())
  | .chunk bytes false => .data bytes (.error "write error")
  | .networkError text => .networkError text

/-- What `FsWriter::commit` returns. -/
def commitAnswer (t : Target) (usbPath : String) : CommitResult → Except String Unit
  | .flushError => .error "flush error"
  | .fsyncError => .error "fsync error"
  | .renameError => .error "rename error"
  | .ok => if t usbPath = some .dir then .error "rename error" else .ok ()

/-- The answers to an entry, when the target is a mounted filesystem. -/
def fsAnswers (sink : FsSink) (t : Target) (e : ManifestEntry) (w : World) : Answers :=
  let (ops, made) := FsSink.ensureDir t (parentOf e.usbPath) w.mkdirFails
  let t := applyAll t (ops.map Effect.fs)
  { ensureDir := if made then .ok () else .error "creating directories on USB"
    fileLen := if w.stat then .ok (sink.fileLen t e.usbPath) else .error "stat on USB"
    send := if w.sent then .ok w.status else .error "error sending request"
    create :=
      if t (tmpOf e.usbPath) = some .dir ∨ ¬ w.opened then
        .error ("creating tmp file " ++ sink.root ++ "/" ++ tmpOf e.usbPath)
      else .ok ()
    body := w.body.map answerOf
    commit := commitAnswer t e.usbPath w.committed }

/-- The answers along the loop, each from the target as the entries before have left it. -/
def fsAnswered (xxh3_64 : Bytes → UInt64) (sink : FsSink) (t : Target) :
    List (ManifestEntry × World) → List (ManifestEntry × Answers)
  | [] => []
  | (e, w) :: rest => (e, fsAnswers sink t e w) ::
    fsAnswered xxh3_64 sink (applyAll t (Transfer.reconcileEntry xxh3_64 sink t e w).1) rest

/-- The progress callbacks of a filesystem run. -/
def effectReports (effects : List Effect) : List Callback :=
  effects.filterMap (fun | .report callback => some callback | _ => none)

/-- The progress callbacks of a run over any target. -/
def eventReports (events : List Event) : List Callback :=
  events.filterMap (fun | .report callback => some callback | _ => none)

@[simp] theorem effectReports_append (xs ys : List Effect) :
    effectReports (xs ++ ys) = effectReports xs ++ effectReports ys := List.filterMap_append

@[simp] theorem eventReports_append (xs ys : List Event) :
    eventReports (xs ++ ys) = eventReports xs ++ eventReports ys := List.filterMap_append

@[simp] theorem effectReports_report (callback : Callback) (xs : List Effect) :
    effectReports (.report callback :: xs) = callback :: effectReports xs := rfl

@[simp] theorem effectReports_fs (op : FsOp) (xs : List Effect) :
    effectReports (.fs op :: xs) = effectReports xs := rfl

@[simp] theorem effectReports_nil : effectReports [] = [] := rfl

@[simp] theorem eventReports_nil : eventReports [] = [] := rfl

@[simp] theorem eventReports_report (callback : Callback) (xs : List Event) :
    eventReports (.report callback :: xs) = callback :: eventReports xs := rfl

@[simp] theorem eventReports_committed (usbPath : String) (xs : List Event) :
    eventReports (.committed usbPath :: xs) = eventReports xs := rfl

@[simp] theorem eventReports_aborted (usbPath : String) (xs : List Event) :
    eventReports (.aborted usbPath :: xs) = eventReports xs := rfl

theorem effectReports_ops (ops : List FsOp) : effectReports (ops.map Effect.fs) = [] := by
  induction ops with
  | nil => rfl
  | cons op ops ih => rw [List.map_cons, effectReports_fs, ih]

theorem receive_agrees (usbPath : String) (body : List Recv) (hasher : ContentHasher) :
    effectReports (Transfer.receive usbPath body hasher).1 =
        eventReports (receive usbPath (body.map answerOf) hasher).1 ∧
      (Transfer.receive usbPath body hasher).2 =
        (receive usbPath (body.map answerOf) hasher).2 := by
  induction body generalizing hasher with
  | nil => exact ⟨rfl, rfl⟩
  | cons r body ih =>
    cases r with
    | networkError text => exact ⟨rfl, rfl⟩
    | chunk bytes written =>
      cases written with
      | false => exact ⟨rfl, rfl⟩
      | true =>
        obtain ⟨reports, done⟩ := ih (hasher.update bytes)
        constructor
        · simp [Transfer.receive, receive, answerOf, reports]
        · simp [Transfer.receive, receive, answerOf, done]

section
variable (xxh3_64 : Bytes → UInt64) (sink : FsSink)

theorem commit_agrees (t : Target) (usbPath : String) (w : World) :
    effectReports (Transfer.commit t usbPath w) =
      eventReports (commit usbPath (commitAnswer t usbPath w.committed)) := by
  rw [Transfer.commit]
  cases w.committed with
  | ok =>
    by_cases dir : t usbPath = some .dir
    · simp only [commitAnswer, if_pos dir]
      rfl
    · simp only [commitAnswer, if_neg dir]
      rfl
  | _ => rfl

theorem abort_silent (usbPath : String) (w : World) :
    effectReports (Transfer.abort usbPath w) = [] := by
  rw [Transfer.abort]
  split <;> rfl

theorem writeFile_agrees {t : Target} {e : ManifestEntry} {w : World} {a : Answers}
    (body : a.body = w.body.map answerOf) (last : a.commit = commitAnswer t e.usbPath w.committed) :
    effectReports (Transfer.writeFile xxh3_64 t e w) = eventReports (writeFile xxh3_64 e a) := by
  obtain ⟨reports, done⟩ := receive_agrees e.usbPath w.body ContentHasher.new
  rw [Transfer.writeFile, writeFile, body]
  cases fs : Transfer.receive e.usbPath w.body ContentHasher.new with
  | mk effects hasher =>
    cases any : receive e.usbPath (w.body.map answerOf) ContentHasher.new with
    | mk events hasher' =>
      rw [fs, any] at reports done
      dsimp only at reports done
      subst done
      cases hasher with
      | none => simp [reports, abort_silent]
      | some hasher =>
        by_cases same : verified xxh3_64 e.source hasher = true
        · simp only [if_pos same, effectReports_append, eventReports_append, reports, last,
            commit_agrees]
        · simp only [if_neg same, effectReports_append, eventReports_append, reports,
            effectReports_report, eventReports_report, abort_silent]
          rfl

/-- Up to what the filesystem does, an entry's turn is the same in both loops. -/
theorem reconcileEntry_agrees (t : Target) (e : ManifestEntry) (w : World) :
    effectReports (Transfer.reconcileEntry xxh3_64 sink t e w).1 =
        eventReports (reconcileEntry xxh3_64 e (fsAnswers sink t e w)).1 ∧
      (Transfer.reconcileEntry xxh3_64 sink t e w).2 =
        (reconcileEntry xxh3_64 e (fsAnswers sink t e w)).2 := by
  cases ensured : FsSink.ensureDir t (parentOf e.usbPath) w.mkdirFails with
  | mk ops made =>
    have silent := effectReports_ops ops
    simp only [Transfer.reconcileEntry, reconcileEntry, fsAnswers, ensured]
    generalize dirs : applyAll t (ops.map Effect.fs) = t'
    cases made with
    | false => exact ⟨silent, rfl⟩
    | true =>
      cases w.stat with
      | false => exact ⟨silent, rfl⟩
      | true =>
        simp only [not_true_eq_false, if_false, if_true]
        by_cases skip : sink.fileLen t' e.usbPath = some e.size
        · simp [skip, silent]
        · simp only [if_neg skip]
          cases w.sent with
          | false => simp [silent]
          | true =>
            simp only [not_true_eq_false, if_false, if_true, effectReports_append, silent,
              List.nil_append, effectReports_report, eventReports_report, and_true]
            refine congrArg (List.cons _) ?_
            rw [Transfer.download, download]
            by_cases ok : w.status.isSuccess = true
            · simp only [ok, not_true_eq_false, if_false]
              by_cases closed : t' (tmpOf e.usbPath) = some .dir ∨ ¬ w.opened = true
              · have text : "Open error: creating tmp file " =
                    "Open error: " ++ "creating tmp file " := by decide
                simp only [if_pos closed, text, String.append_assoc]
                rfl
              · simp only [if_neg closed, effectReports_fs]
                exact writeFile_agrees xxh3_64 rfl rfl
            · simp only [if_pos ok]
              rfl

/-- The loop over a mounted filesystem reports and returns what the loop over any target
does when the filesystem answers. -/
theorem reconcileEntries_agrees (t : Target) (run : List (ManifestEntry × World)) :
    effectReports (Transfer.reconcileEntries xxh3_64 sink t run).1 =
        eventReports (reconcileEntries xxh3_64 (fsAnswered xxh3_64 sink t run)).1.flatten ∧
      (Transfer.reconcileEntries xxh3_64 sink t run).2 =
        (reconcileEntries xxh3_64 (fsAnswered xxh3_64 sink t run)).2 := by
  induction run generalizing t with
  | nil => exact ⟨rfl, rfl⟩
  | cons ew run ih =>
    obtain ⟨e, w⟩ := ew
    obtain ⟨reports, result⟩ := reconcileEntry_agrees xxh3_64 sink t e w
    obtain ⟨later, final⟩ := ih (applyAll t (Transfer.reconcileEntry xxh3_64 sink t e w).1)
    rw [Transfer.reconcileEntries_cons, fsAnswered, reconcileEntries]
    cases fs : Transfer.reconcileEntry xxh3_64 sink t e w with
    | mk effects returned =>
      cases any : reconcileEntry xxh3_64 e (fsAnswers sink t e w) with
      | mk events returned' =>
        rw [fs, any] at reports result
        dsimp only at reports result
        subst result
        cases returned with
        | error err => simpa using reports
        | ok u =>
          rw [fs] at later final
          constructor
          · simpa [reports] using later
          · simpa using final

end

end BVault.Transfer.AnyTarget
