import BVault.Hash.Content
import BVault.Transfer.Target

/-!
# The reconcile loop

`reconcile_export` as a function of everything outside it: the reply to the
manifest request and, for each entry, how the disk and the server answer. It
yields the sequence of its effects (changes to the target, progress callbacks,
the final DELETE) and its result. Buffered writes appear where the loop makes
them; until the commit they concern the temporary file only.
-/

namespace BVault.Transfer

open BVault.Hash

/-- Where an entry's bytes come from during transfer. -/
inductive Source where
  | staging
  | raw (hash : String)
  deriving DecidableEq, Repr

structure ManifestEntry where
  usbPath : String
  size : Nat
  source : Source
  deriving DecidableEq, Repr

structure Manifest where
  entries : List ManifestEntry

/-- An HTTP status and its display text. -/
structure Status where
  code : Nat
  text : String

def Status.isSuccess (s : Status) : Bool := 200 ≤ s.code && s.code < 300

/-- One `res.chunk()` with data, with the result of writing it, or a network error. -/
inductive Recv where
  | chunk (bytes : Bytes) (written : Bool)
  | networkError (text : String)

inductive CommitResult where
  | ok
  | flushError
  | fsyncError
  | renameError
  deriving DecidableEq

/-- How the disk and the server answer while one entry is handled. The body ends where
the list ends. -/
structure World where
  mkdirFails : Option Nat
  stat : Bool
  sent : Bool
  status : Status
  opened : Bool
  body : List Recv
  removed : Bool
  committed : CommitResult

inductive Callback where
  | start (totalFiles totalBytes : Nat)
  | fileStart (usbPath : String) (size : Nat)
  | fileProgress (bytes : Nat)
  | fileDone (usbPath : String)
  | fileSkipped (usbPath : String)
  | error (usbPath : String) (text : String)
  | complete
  deriving DecidableEq

inductive Effect where
  | fs (op : FsOp)
  | report (callback : Callback)
  | deleteExport
  deriving DecidableEq

def Effect.apply (t : Target) : Effect → Target
  | .fs op => op.apply t
  | _ => t

/-- The target after some effects. -/
def applyAll (t : Target) (effects : List Effect) : Target := effects.foldl Effect.apply t

abbrev Result := Except String Unit

section
variable (xxh3_64 : Bytes → UInt64)

/-- The chunk loop; `none` where a write or the network failed. -/
def receive (usbPath : String) : List Recv → ContentHasher → List Effect × Option ContentHasher
  | [], hasher => ([], some hasher)
  | .networkError text :: _, _ =>
    ([.report (.error usbPath ("Network error: " ++ text))], none)
  | .chunk _ false :: _, _ => ([.report (.error usbPath "Write error: write error")], none)
  | .chunk bytes true :: rest, hasher =>
    let (effects, done) := receive usbPath rest (hasher.update bytes)
    (.fs (.append (tmpOf usbPath) bytes) :: .report (.fileProgress bytes.length) :: effects, done)

/-- A chunk that is written is appended and hashed. -/
theorem receive_chunk {usbPath : String} {bytes : Bytes} {body : List Recv} {hasher : ContentHasher}
    {effects : List Effect} {result : Option ContentHasher}
    (received : receive usbPath (.chunk bytes true :: body) hasher = (effects, result)) :
    ∃ later, receive usbPath body (hasher.update bytes) = (later, result) ∧ effects =
      .fs (.append (tmpOf usbPath) bytes) :: .report (.fileProgress bytes.length) :: later := by
  cases rest : receive usbPath body (hasher.update bytes) with
  | mk later result =>
    rw [receive, rest] at received
    cases received
    exact ⟨later, rfl, rfl⟩

/-- Hash verification for raw audio. -/
def verified (source : Source) (hasher : ContentHasher) : Bool :=
  match source with
  | .raw hash => hashHex (hasher.finalize xxh3_64) = hash
  | .staging => true

/-- `FsWriter::abort`; a file it fails to remove stays. -/
def abort (usbPath : String) (w : World) : List Effect :=
  if w.removed then [.fs (.remove (tmpOf usbPath))] else []

/-- `FsWriter::commit`: flush, sync, rename. -/
def commit (t : Target) (usbPath : String) (w : World) : List Effect :=
  match w.committed with
  | .flushError => [.report (.error usbPath "Commit error: flush error")]
  | .fsyncError => [.report (.error usbPath "Commit error: fsync error")]
  | .renameError => [.report (.error usbPath "Commit error: rename error")]
  | .ok =>
    if t usbPath = some .dir then [.report (.error usbPath "Commit error: rename error")]
    else [.fs (.rename (tmpOf usbPath) usbPath), .report (.fileDone usbPath)]

/-- One file from the open temporary file on: the loop, the check, the commit. -/
def writeFile (t : Target) (e : ManifestEntry) (w : World) : List Effect :=
  match receive e.usbPath w.body ContentHasher.new with
  | (effects, none) => effects ++ abort e.usbPath w
  | (effects, some hasher) =>
    if verified xxh3_64 e.source hasher then effects ++ commit t e.usbPath w
    else
      effects ++ .report (.error e.usbPath "Hash mismatch: file corrupted during transfer") ::
        abort e.usbPath w

/-- One file from its request on. -/
def download (sink : FsSink) (t : Target) (e : ManifestEntry) (w : World) : List Effect :=
  if ¬ w.status.isSuccess then [.report (.error e.usbPath ("HTTP " ++ w.status.text))]
  else if t (tmpOf e.usbPath) = some .dir ∨ ¬ w.opened then
    [.report (.error e.usbPath
      ("Open error: creating tmp file " ++ sink.root ++ "/" ++ tmpOf e.usbPath))]
  else .fs (.create (tmpOf e.usbPath)) :: writeFile xxh3_64 t e w

/-- The body of the loop for one entry. -/
def reconcileEntry (sink : FsSink) (t : Target) (e : ManifestEntry) (w : World) :
    List Effect × Result :=
  let (ops, made) := FsSink.ensureDir t (parentOf e.usbPath) w.mkdirFails
  let dirs := ops.map Effect.fs
  let t := applyAll t dirs
  if ¬ made then (dirs, .error "Failed to create directories on USB")
  else if ¬ w.stat then (dirs, .error "stat on USB")
  else if sink.fileLen t e.usbPath = some e.size then
    (dirs ++ [.report (.fileSkipped e.usbPath)], .ok ())
  else if ¬ w.sent then
    (dirs ++ [.report (.fileStart e.usbPath e.size)], .error "Failed to start file download")
  else
    (dirs ++ .report (.fileStart e.usbPath e.size) :: download xxh3_64 sink t e w, .ok ())

/-- The loop over the entries; an error of an entry ends it. -/
def reconcileEntries (sink : FsSink) (t : Target) :
    List (ManifestEntry × World) → List Effect × Result
  | [] => ([], .ok ())
  | (e, w) :: rest =>
    match reconcileEntry xxh3_64 sink t e w with
    | (effects, .error err) => (effects, .error err)
    | (effects, .ok ()) =>
      let (later, result) := reconcileEntries sink (applyAll t effects) rest
      (effects ++ later, result)

theorem reconcileEntries_cons (sink : FsSink) (t : Target) (e : ManifestEntry) (w : World)
    (rest : List (ManifestEntry × World)) :
    reconcileEntries xxh3_64 sink t ((e, w) :: rest) =
      match reconcileEntry xxh3_64 sink t e w with
      | (effects, .error err) => (effects, .error err)
      | (effects, .ok ()) =>
        let (later, result) := reconcileEntries xxh3_64 sink (applyAll t effects) rest
        (effects ++ later, result) := by
  rw [reconcileEntries]

/-- The reply to the manifest request. -/
inductive ManifestReply where
  | sendError
  | response (status : Status) (json : Option Manifest)

/-- Each entry with the answers it meets. -/
def Manifest.answered (m : Manifest) (answers : Nat → World) : List (ManifestEntry × World) :=
  m.entries.mapIdx (fun i e => (e, answers i))

def reconcileExport (sink : FsSink) (t : Target) (reply : ManifestReply) (answers : Nat → World) :
    List Effect × Result :=
  match reply with
  | .sendError => ([], .error "Failed to fetch manifest")
  | .response status json =>
    if ¬ status.isSuccess then ([], .error ("Failed to fetch manifest: " ++ status.text))
    else
      match json with
      | none => ([], .error "Failed to parse manifest JSON")
      | some m =>
        let start := Effect.report
          (.start m.entries.length (m.entries.map ManifestEntry.size).sum)
        match reconcileEntries xxh3_64 sink t (m.answered answers) with
        | (effects, .error err) => (start :: effects, .error err)
        | (effects, .ok ()) =>
          (start :: effects ++ [.deleteExport, .report .complete], .ok ())

end

end BVault.Transfer
