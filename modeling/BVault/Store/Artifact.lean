import BVault.Lib.Bytes
import BVault.Lib.Runs

/-!
# The artifact store, one system call at a time

A bundle directory of one hash, shared by any number of `put` calls. A call is
a program counter that advances by one file-system call per event, in any
interleaving with the others; it stops for good when its worker dies or a call
returns an error, and a power failure stops all of them and keeps only what was
synced. The directory also records which call opened a file last and whether
that call finished it, which no caller can read.
-/

namespace BVault.Store

/-- A named artifact of a bundle. -/
abbrev Artifact := String × Bytes

def MARKER : String := ".complete"

/-- A file of the bundle directory. The last two fields are history only. -/
structure FileState where
  bytes : Bytes
  synced : Bool
  opener : Nat
  finished : Bool
  deriving DecidableEq, Repr

/-- The next file-system call of a `put`. -/
inductive Pc where
  | check
  | createDirAll
  | create (name : String) (bytes : Bytes) (rest : List Artifact)
  | write (name : String) (bytes : Bytes) (offset : Nat) (rest : List Artifact)
  | createMarker
  | syncMarker
  | returned
  | stopped
  deriving DecidableEq, Repr

structure Put where
  files : List Artifact
  pc : Pc
  deriving DecidableEq, Repr

/-- The bundle directory and the calls on it; `markedBy` are the calls that created the
marker that is there now. -/
structure Bundle where
  puts : List Put
  dir : String → Option FileState
  markedBy : List Nat

inductive Event where
  /-- A worker calls `put` with a bundle. -/
  | call (files : List Artifact)
  /-- A call makes its next file-system call; a `write` accepts that many bytes. -/
  | step (put : Nat) (accepted : Nat)
  /-- The worker dies, or the pending file-system call returns an error. -/
  | stop (put : Nat)
  /-- Every worker dies; of an unsynced file anything may be left. -/
  | powerFailure (left : String → Option Bytes)

namespace Bundle

def empty : Bundle := ⟨[], fun _ => none, []⟩

/-- `ArtifactStore::exists`. -/
def «exists» (s : Bundle) : Bool := (s.dir MARKER).isSome

/-- `ArtifactStore::get`; `none` is its `NotFound`. -/
def get (s : Bundle) (name : String) : Option Bytes := (s.dir name).map FileState.bytes

def setFile (s : Bundle) (name : String) (f : FileState) : Bundle :=
  { s with dir := fun n => if n = name then some f else s.dir n }

def setPc (s : Bundle) (w : Nat) (pc : Pc) : Bundle :=
  { s with puts := s.puts.modify w (fun p => { p with pc := pc }) }

/-- `File::create` opens for writing and truncates. -/
def createFile (s : Bundle) (w : Nat) (name : String) : Bundle :=
  s.setFile name ⟨[], false, w, false⟩

/-- `write` at the caller's own offset; a gap behind a truncation reads as zeros. -/
def writeAt (old : Bytes) (offset : Nat) (piece : Bytes) : Bytes :=
  old.take offset ++ List.replicate (offset - old.length) 0 ++ piece ++
    old.drop (offset + piece.length)

def writeFile (s : Bundle) (name : String) (offset : Nat) (piece : Bytes) : Bundle :=
  match s.dir name with
  | some f => s.setFile name { f with bytes := writeAt f.bytes offset piece, synced := false }
  | none => s

/-- `sync_all` makes the whole file durable, whoever wrote it. -/
def syncFile (s : Bundle) (w : Nat) (name : String) : Bundle :=
  match s.dir name with
  | some f => s.setFile name { f with synced := true, finished := f.finished || f.opener = w }
  | none => s

/-- The loop over the bundle's files, then the marker. -/
def nextFile : List Artifact → Pc
  | [] => .createMarker
  | (name, bytes) :: rest => .create name bytes rest

/-- The next file-system call of `ArtifactStore::put`. -/
def advance (s : Bundle) (w : Nat) (p : Put) (accepted : Nat) : Bundle :=
  match p.pc with
  | .check => s.setPc w (if s.exists then .returned else .createDirAll)
  | .createDirAll => s.setPc w (nextFile p.files)
  | .create name bytes rest => (s.createFile w name).setPc w (.write name bytes 0 rest)
  | .write name bytes offset rest =>
    if offset < bytes.length then
      -- `write_all` repeats `write` and fails when nothing is accepted
      let piece := (bytes.drop offset).take accepted
      if piece = [] then s.setPc w .stopped
      else
        (s.writeFile name offset piece).setPc w (.write name bytes (offset + piece.length) rest)
    else (s.syncFile w name).setPc w (nextFile rest)
  | .createMarker =>
    let s := s.createFile w MARKER
    { s with markedBy := w :: s.markedBy }.setPc w .syncMarker
  | .syncMarker => (s.syncFile w MARKER).setPc w .returned
  | .returned => s
  | .stopped => s

/-- What a file is after a power failure. -/
def recover (left : Option Bytes) (f : FileState) : Option FileState :=
  if f.synced then some f else left.map (fun bytes => { f with bytes := bytes, synced := true })

def stopAll (puts : List Put) : List Put :=
  puts.map (fun p => if p.pc = .returned then p else { p with pc := .stopped })

def powerFailure (s : Bundle) (left : String → Option Bytes) : Bundle :=
  let dir := fun name => (s.dir name).bind (recover (left name))
  { puts := stopAll s.puts
    dir := dir
    markedBy := if (dir MARKER).isSome then s.markedBy else [] }

def step (s : Bundle) : Event → Bundle
  | .call files => { s with puts := s.puts ++ [⟨files, .check⟩] }
  | .step w accepted =>
    match s.puts[w]? with
    | some p => s.advance w p accepted
    | none => s
  | .stop w =>
    match s.puts[w]? with
    | some p => if p.pc = .returned then s else s.setPc w .stopped
    | none => s
  | .powerFailure left => s.powerFailure left

end Bundle

/-- The directory after a run of file-system calls on an empty store. -/
abbrev bundleAfter (events : List Event) : Bundle := Runs.run Bundle.step Bundle.empty events

end BVault.Store
