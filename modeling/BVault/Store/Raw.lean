import BVault.Lib.Bytes

/-!
# The raw music store

Files by their canonical path. Links and directories are the filesystem's own:
by the files that are there, it takes a path to the canonical path, if there is
one, and to the canonical path that a file renamed to it gets.
-/

namespace BVault.Store

abbrev FileSystem := String → Option Bytes

namespace FileSystem

def there (fs : FileSystem) (path : String) : Bool := (fs path).isSome

def write (fs : FileSystem) (path : String) (bytes : Bytes) : FileSystem :=
  fun p => if p = path then some bytes else fs p

theorem write_self (fs : FileSystem) (path : String) (bytes : Bytes) :
    fs.write path bytes path = some bytes := if_pos rfl

theorem write_other (fs : FileSystem) {path other : String} (ne : other ≠ path) (bytes : Bytes) :
    fs.write path bytes other = fs other := if_neg ne

/-- Which files are there after a write does not depend on what was written. -/
theorem there_write (fs : FileSystem) (path : String) (bytes : Bytes) :
    (fs.write path bytes).there = fun p => decide (p = path) || fs.there p := by
  funext p
  by_cases here : p = path
  · simp [there, write, here]
  · simp [there, write, here]

end FileSystem

inductive StoreError where
  | notFound (location : String)
  | traversal (location : String)
  | io
  deriving DecidableEq

/-- `Path::join`: an absolute path replaces the base, and a separator is put behind the base
where it has none. -/
def join (base path : String) : String :=
  if path.toList.head? = some '/' then path
  else if base = "" ∨ base.toList.getLast? = some '/' then base ++ path
  else base ++ "/" ++ path

/-- `Path::starts_with`, component by component. -/
def startsWith (path base : String) : Bool :=
  path = base || (base ++ "/").toList.isPrefixOf path.toList

/-- A music store mounted at its root. -/
structure RawStore where
  root : String
  canonicalPath : (String → Bool) → String → Option String
  /-- Where a file comes to lie that is renamed to a path, the directories above it made. -/
  place : (String → Bool) → String → String
  /-- A file is found by the path it was renamed to. -/
  placed : ∀ there path, canonicalPath (fun p => decide (p = place there path) || there p) path =
    some (place there path)

namespace RawStore

def canonicalize (raw : RawStore) (fs : FileSystem) (path : String) : Option String :=
  raw.canonicalPath fs.there path

/-- The file a store-relative location leads to, if it is under the root. -/
def resolve (raw : RawStore) (fs : FileSystem) (location : String) : Except StoreError String :=
  match raw.canonicalize fs (join raw.root location) with
  | none => .error (.notFound location)
  | some canonical =>
    match raw.canonicalize fs raw.root with
    | none => .error .io
    | some root => if startsWith canonical root then .ok canonical else .error (.traversal location)

/-- What a reader of a location gets. -/
def contents (raw : RawStore) (fs : FileSystem) (location : String) : Option Bytes :=
  match raw.resolve fs location with
  | .ok path => fs path
  | .error _ => none

/-- The file at a location, wherever it lies. -/
def holds (raw : RawStore) (fs : FileSystem) (location : String) : Option Bytes :=
  (raw.canonicalize fs (join raw.root location)).bind fs

/-- The content-addressed location of a file, relative to the root. -/
def relPath (hash ext : String) : String :=
  let pre := if 2 ≤ hash.utf8ByteSize then String.ofList (hash.toList.take 2) else "00"
  let cleanExt := String.ofList (ext.toList.dropWhile (· = '.'))
  let extStr := if cleanExt.isEmpty then "mp3" else cleanExt
  pre ++ "/" ++ hash ++ "." ++ extStr

/-- The canonical path of a file of the store. -/
def target (raw : RawStore) (fs : FileSystem) (hash ext : String) : String :=
  raw.place fs.there (join raw.root (relPath hash ext))

/-- The files after a temporary file of this content was moved into the store. -/
def storeFromTemp (raw : RawStore) (fs : FileSystem) (bytes : Bytes) (hash ext : String) :
    FileSystem × String :=
  (fs.write (raw.target fs hash ext) bytes, relPath hash ext)

/-- A store without links. -/
def linkFree : RawStore where
  root := "/music"
  canonicalPath := fun there path => if path = "/music" ∨ there path then some path else none
  place := fun _ path => path
  placed := fun there path => by simp

variable (raw : RawStore)

theorem canonicalize_congr {fs fs' : FileSystem} (same : fs.there = fs'.there) (path : String) :
    raw.canonicalize fs path = raw.canonicalize fs' path := by
  rw [canonicalize, canonicalize, same]

theorem resolve_congr {fs fs' : FileSystem} (same : fs.there = fs'.there) (location : String) :
    raw.resolve fs location = raw.resolve fs' location := by
  simp only [resolve, raw.canonicalize_congr same]

theorem canonicalize_target (fs : FileSystem) (bytes : Bytes) (hash ext : String) :
    raw.canonicalize (fs.write (raw.target fs hash ext) bytes)
      (join raw.root (relPath hash ext)) = some (raw.target fs hash ext) := by
  rw [canonicalize, FileSystem.there_write]
  exact raw.placed fs.there _

theorem holds_storeFromTemp (fs : FileSystem) (bytes : Bytes) (hash ext : String) :
    raw.holds (raw.storeFromTemp fs bytes hash ext).1 (raw.storeFromTemp fs bytes hash ext).2 =
      some bytes := by
  rw [holds, storeFromTemp, canonicalize_target, Option.bind_some]
  exact FileSystem.write_self fs _ bytes

/-- What is stored is read at its location, if the directory it lies in is under the root. -/
theorem resolve_target {fs : FileSystem} {bytes : Bytes} {hash ext path : String}
    (resolved : raw.resolve (fs.write (raw.target fs hash ext) bytes) (relPath hash ext) =
      .ok path) : path = raw.target fs hash ext := by
  rw [resolve, canonicalize_target] at resolved
  dsimp only at resolved
  split at resolved
  · cases resolved
  · split at resolved
    · exact (Except.ok.inj resolved).symm
    · cases resolved

theorem contents_eq_some {fs : FileSystem} {location : String} {bytes : Bytes} :
    raw.contents fs location = some bytes ↔
      ∃ path, raw.resolve fs location = .ok path ∧ fs path = some bytes := by
  unfold contents
  cases raw.resolve fs location with
  | error e => simp
  | ok path => simp

end RawStore

end BVault.Store
