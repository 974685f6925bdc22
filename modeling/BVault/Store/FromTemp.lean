import BVault.Lib.Directory
import BVault.Lib.Paths
import BVault.Lib.Runs
import BVault.Store.Artifact
import BVault.Store.Raw

/-!
# Moving temporary files into the store, from another device

Any number of `store_from_temp` calls for one hash, one file-system call at a
time. The rename over the devices fails, so each call copies to a name next to
its target and renames there. All calls whose targets differ in the extension
only share that name.
-/

namespace BVault.Store

/-- A file of the store: one that was there before the calls, or the one a call created. -/
inductive Inode where
  | kept (path : String)
  | made (call : Nat)
  deriving DecidableEq, Repr

/-- The next file-system call of a `store_from_temp`. -/
inductive MovePc where
  | createDirAll
  | rename
  | create
  | copy (file : Inode) (offset : Nat)
  | renameTmp
  | removeTemp
  | returned
  | failed
  | dead
  deriving DecidableEq, Repr

/-- A call with its temporary file; `taken` counts its steps and is history only. -/
structure Move where
  ext : String
  bytes : Bytes
  pc : MovePc
  taken : Nat
  deriving DecidableEq, Repr

/-- The store's directory and the calls on it. -/
structure Mount where
  dir : Directory String Inode
  calls : List Move

inductive MoveEvent where
  /-- A gateway calls `store_from_temp` with a temporary file of this content. -/
  | call (ext : String) (bytes : Bytes)
  /-- A call makes its next file-system call; a piece of the copy has so many bytes more than
  one, as far as they are there. -/
  | step (call : Nat) (more : Nat)
  /-- The gateway dies. -/
  | die (call : Nat)
  deriving DecidableEq, Repr

namespace Move

def target (hash : String) (c : Move) : String := RawStore.relPath hash c.ext

/-- `target_path.with_extension("tmp")`. -/
def destTmp (hash : String) (c : Move) : String := Paths.withExtension (c.target hash) "tmp"

def moveTo (c : Move) (pc : MovePc) : Move := { c with pc := pc, taken := c.taken + 1 }

/-- The call has its copy open or finished, but not yet renamed. -/
def copying (c : Move) : Bool :=
  match c.pc with
  | .copy _ _ => true
  | .renameTmp => true
  | _ => false

end Move

namespace Mount

/-- A store with these files and no call. -/
def holding (files : FileSystem) : Mount where
  dir := {
    names := fun p => (files p).map (fun _ => .kept p)
    content := fun i =>
      match i with
      | .kept p => (files p).getD []
      | .made _ => [] }
  calls := []

def setPc (s : Mount) (w : Nat) (pc : MovePc) : Mount :=
  { s with calls := s.calls.modify w (fun c => c.moveTo pc) }

/-- The next file-system call of `RawStore::store_from_temp`. -/
def advance (hash : String) (s : Mount) (w : Nat) (c : Move) (more : Nat) : Mount :=
  match c.pc with
  | .createDirAll => s.setPc w .rename
  -- the temporary directory is on another device
  | .rename => s.setPc w .create
  | .create =>
    let (dir, file) := s.dir.create (c.destTmp hash) (.made w)
    { s with dir := dir }.setPc w (.copy file 0)
  | .copy file offset =>
    if offset < c.bytes.length then
      let piece := (c.bytes.drop offset).take (more + 1)
      let dir := s.dir.setContent file (Bundle.writeAt (s.dir.content file) offset piece)
      { s with dir := dir }.setPc w (.copy file (offset + piece.length))
    else s.setPc w .renameTmp
  | .renameTmp =>
    match s.dir.rename (c.destTmp hash) (c.target hash) with
    | some dir => { s with dir := dir }.setPc w .removeTemp
    | none => s.setPc w .failed
  | .removeTemp => s.setPc w .returned
  | .returned => s
  | .failed => s
  | .dead => s

def step (hash : String) (s : Mount) : MoveEvent → Mount
  | .call ext bytes => { s with calls := s.calls ++ [⟨ext, bytes, .createDirAll, 0⟩] }
  | .step w more =>
    match s.calls[w]? with
    | some c => s.advance hash w c more
    | none => s
  | .die w =>
    match s.calls[w]? with
    | some c => if c.pc = .returned ∨ c.pc = .failed then s else s.setPc w .dead
    | none => s

/-- A call's target is absent, what it was before the calls, or complete bytes of one of them. -/
def WholeAt (files : FileSystem) (s : Mount) (path : String) : Prop :=
  s.dir.read path = none ∨ s.dir.read path = files path ∨
    ∃ d ∈ s.calls, s.dir.read path = some d.bytes

/-- Every target is whole, and a call that is not dead has returned its location when it made
as many steps as its file can take. -/
def Sound (hash : String) (files : FileSystem) (s : Mount) : Prop :=
  ∀ c ∈ s.calls, s.WholeAt files (c.target hash) ∧
    (c.pc = .dead ∨ c.pc = .returned ∨ (c.pc ≠ .failed ∧ c.taken < c.bytes.length + 6))

/-- The step keeps to itself: no call moves to a name that a call copies to, and no call creates
its copy while another has a copy of that name that is not renamed. -/
def alone (hash : String) (s : Mount) : MoveEvent → Bool
  | .call ext bytes =>
    let c : Move := ⟨ext, bytes, .createDirAll, 0⟩
    (c :: s.calls).all (fun d => c.target hash ≠ d.destTmp hash ∧ d.target hash ≠ c.destTmp hash)
  | .step w _ =>
    match s.calls[w]? with
    | some c =>
      !decide (c.pc = .create) ||
        s.calls.all (fun d => !(d.copying && d.destTmp hash = c.destTmp hash))
    | none => true
  | .die _ => true

end Mount

/-- The store after a run of file-system calls. -/
abbrev mountAfter (hash : String) (files : FileSystem) (events : List MoveEvent) : Mount :=
  Runs.run (Mount.step hash) (Mount.holding files) events

end BVault.Store
