import BVault.Lib.Bytes

/-!
# A filesystem export target

The tree under the target's root, addressed by `/`-separated relative paths; a
path without a node is absent. Paths are taken as normalised: no segment of one
is empty, `.` or `..`, so that two texts are two places. The sink's calls are sequences of the primitive
operations below, so that a run can be stopped between any two of them.
-/

namespace BVault.Transfer

inductive Node where
  | file (bytes : Bytes)
  | dir
  deriving DecidableEq, Repr

abbrev Target := String → Option Node

/-- One change to the tree. -/
inductive FsOp where
  | mkdir (path : String)
  | create (path : String)
  | append (path : String) (bytes : Bytes)
  | remove (path : String)
  | rename (src dst : String)
  deriving DecidableEq, Repr

def FsOp.apply (t : Target) : FsOp → Target
  | .mkdir path => fun p => if t p = none ∧ p = path then some .dir else t p
  | .create path => fun p => if p = path then some (.file []) else t p
  | .append path bytes => fun p =>
    match t path with
    | some (.file old) => if p = path then some (.file (old ++ bytes)) else t p
    | _ => t p
  | .remove path => fun p => if p = path then none else t p
  | .rename src dst => fun p => if p = dst then t src else if p = src then none else t p

/-- The `/`-separated parent of a USB path, or `""` for a root-level file. -/
def parentOf (usbPath : String) : String :=
  String.ofList ((usbPath.toList.reverse.dropWhile (· ≠ '/')).drop 1).reverse

/-- The directories `create_dir_all` passes on the way to `rel`, the last included;
`passed` holds the characters read so far, latest first. -/
def dirsAlong (passed : List Char) : List Char → List String
  | [] => if passed = [] then [] else [String.ofList passed.reverse]
  | c :: rest =>
    if c = '/' ∧ passed ≠ [] then
      String.ofList passed.reverse :: dirsAlong (c :: passed) rest
    else dirsAlong (c :: passed) rest

def createDirAllDirs (rel : String) : List String := dirsAlong [] rel.toList

/-- The temporary file of a destination. -/
def tmpOf (dest : String) : String := dest ++ ".bvault-tmp"

/-- A mounted filesystem: where it is, and the length `metadata` reports for a directory. -/
structure FsSink where
  root : String
  dirLen : Nat

namespace FsSink

/-- `create_dir_all` on `rel`; `fails` is how many directories are made before an I/O error. -/
def ensureDir (t : Target) (rel : String) (fails : Option Nat) : List FsOp × Bool :=
  let dirs := createDirAllDirs rel
  let missing := (dirs.filter (fun d => t d = none)).map FsOp.mkdir
  if dirs.any (fun d => t d ≠ none ∧ t d ≠ some .dir) then ([], false)
  else
    match fails with
    | none => (missing, true)
    | some made => (missing.take made, false)

/-- `fs::metadata`, for a path whose parent is there. -/
def fileLen (sink : FsSink) (t : Target) (rel : String) : Option Nat :=
  match t rel with
  | none => none
  | some (.file bytes) => some bytes.length
  | some .dir => some sink.dirLen

end FsSink

end BVault.Transfer
