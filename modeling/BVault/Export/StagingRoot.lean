import BVault.Export.Served
import BVault.Gateway.Library
import BVault.Lib.Publication
import BVault.Lib.Runs

/-!
# The staging root

The folders below `STAGING_ROOT`. `create_export` writes one file after the
other, `owner` last; the requests for an export look for `owner` first and read
on later; `delete_export` and the sweeper take a folder away entry by entry. All
these steps come in any order, and the service may stop and start in between.
-/

namespace BVault.Export

open BVault.Gateway BVault.Hash BVault.Meta BVault.Store BVault.Transfer Publication

@[ext] structure AuthUser where
  id : Uuid
  fits : id < 2 ^ 128

def hyphenated (digits : List Char) : List Char :=
  digits.take 8 ++ '-' :: (digits.drop 8).take 4 ++ '-' :: (digits.drop 12).take 4 ++
    '-' :: (digits.drop 16).take 4 ++ '-' :: digits.drop 20

/-- `Uuid::to_string`. -/
def uuidText (id : Uuid) : String :=
  String.ofList (hyphenated ((hashHex (UInt64.ofNat (id / 2 ^ 64))).toList ++
    (hashHex (UInt64.ofNat id)).toList))

/-- The files in the folder of an export. -/
inductive File where
  | tree (usbPath : String)
  | manifest
  | sources
  | owner
  deriving DecidableEq

/-- What a file holds. Before a record has been written to its end it is only bytes, but for the
id in `owner`. -/
inductive Content where
  | bytes (bytes : Bytes)
  | manifest (manifest : Manifest)
  | sources (sources : List (String × String))
  | owner (text : String)

/-- What is written for an export. -/
structure Package where
  user : AuthUser
  tree : List (String × Bytes)
  manifest : Manifest
  sources : List (String × String)
  distinct : (tree.map Prod.fst).Nodup

/-- The files in the order in which they are written. -/
def Package.plan (p : Package) : List (File × Content) :=
  p.tree.map (fun f => (.tree f.1, .bytes f.2)) ++
    [(.manifest, .manifest p.manifest), (.sources, .sources p.sources),
      (.owner, .owner (uuidText p.user.id))]

namespace File

/-- A new file. -/
def empty : File → Content
  | owner => .owner ""
  | _ => .bytes []

/-- Directly in the folder. -/
def isRecord : File → Bool
  | tree _ => false
  | _ => true

end File

/-- What a file can hold while it is written. -/
def Content.isPart : Content → Content → Bool
  | .owner text, .owner part => part.toList.isPrefixOf text.toList
  | .owner _, _ => false
  | _, .bytes _ => true
  | _, _ => false

/-- The folder of an export. -/
structure Folder where
  package : Package
  shelf : Shelf File Content
  there : Bool
  modified : Nat
  /-- `create_export` runs. -/
  writing : Bool
  /-- Calls of `remove_dir_all` that run. -/
  removals : Nat

/-- What happens to a folder. -/
inductive Change where
  | openNext (now : Nat)
  | fill (part : Content)
  | close
  /-- The creation ends, with an error or without. -/
  | stop
  | unlink (file : File) (now : Nat)
  | rmdir
  /-- A removal ends. -/
  | giveUp

namespace Folder

def create (p : Package) (now : Nat) : Folder := ⟨p, Shelf.start p.plan, true, now, true, 0⟩

def isEmpty (f : Folder) : Bool := f.shelf.plan.all fun e => (f.shelf.files e.1).isNone

def change (f : Folder) : Change → Folder
  | .openNext now =>
    match f.shelf.left.head? with
    | none => f
    | some (file, _) =>
      if f.writing ∧ f.there ∧ f.shelf.opened = false then
        { f with
          shelf := f.shelf.openNext file.empty
          modified := if file.isRecord then now else f.modified }
      else f
  | .fill part =>
    if f.writing ∧ f.shelf.left.head?.any (fun next => next.2.isPart part) then
      { f with shelf := f.shelf.fill part }
    else f
  | .close => if f.writing then { f with shelf := f.shelf.close } else f
  | .stop => { f with writing := false }
  | .unlink file now =>
    if 0 < f.removals ∧ (f.shelf.files file).isSome then
      { f with
        shelf := f.shelf.unlink file
        modified := if file.isRecord then now else f.modified }
    else f
  | .rmdir => if 0 < f.removals ∧ f.isEmpty then { f with there := false } else f
  | .giveUp => { f with removals := f.removals - 1 }

def remove (f : Folder) : Folder := { f with removals := f.removals + 1 }

def stale (exportTtl now : Nat) (f : Folder) : Bool := f.there && f.modified + exportTtl < now

/-- One folder in `sweep_once`. -/
def sweep (exportTtl now : Nat) (f : Folder) : Folder :=
  if f.stale exportTtl now then f.remove else f

/-- The process ends, and its writers and removals with it. -/
def restart (f : Folder) : Folder := { f with writing := false, removals := 0 }

end Folder

inductive Route where
  | manifest
  | file (usbPath : String)
  | delete
  deriving DecidableEq

structure Asked where
  user : AuthUser
  id : Uuid
  route : Route

inductive Response where
  | manifest (content : Content)
  | file (reply : Reply)
  | noContent
  | error (e : ApiError)

/-- How far a request is. -/
inductive Progress where
  /-- `owner` holds the id of the user. -/
  | passed (q : Asked)
  /-- `serve_file` has read `sources.json`. -/
  | resolved (q : Asked) (usbPath : String) (sources : List (String × String))
  | answered (q : Asked) (response : Response)

/-- What `serve_file` streams once it has the sources: audio, or a file of the tree. -/
def serveFrom (env : Environment) (tree : List Name) (staged : String → Option Bytes)
    (e : Gateway.Export) (usbPath : String) : Except ApiError Reply :=
  match e.source usbPath with
  | some location =>
    match env.raw.resolve env.files location with
    | .ok path => .ok (streamRaw env path)
    | .error _ => .error .notFound
  | none => do
    guardRelative usbPath
    match staged usbPath with
    | some bytes => .ok (streamStaged (tree ++ names usbPath) bytes)
    | none => .error .notFound

def Response.ofServe : Except ApiError Reply → Response
  | .ok reply => .file reply
  | .error e => .error e

/-- The folders ever made, by their id, and the requests by a number. -/
structure Builder where
  folders : Uuid → Option Folder
  requests : Nat → Option Progress

inductive Event where
  | create (id : Uuid) (p : Package) (now : Nat)
  | change (id : Uuid) (c : Change)
  | sweep (id : Uuid) (now : Nat)
  | ask (r : Nat) (q : Asked)
  | proceed (r : Nat)
  | restart

namespace Builder

def start : Builder := ⟨fun _ => none, fun _ => none⟩

def isDir (s : Builder) (id : Uuid) : Bool := (s.folders id).any Folder.there

/-- What is read from a file of a folder. -/
def read (s : Builder) (id : Uuid) (file : File) : Option Content :=
  (s.folders id).bind fun f => f.shelf.files file

def staged (s : Builder) (id : Uuid) (usbPath : String) : Option Bytes :=
  match s.read id (.tree usbPath) with
  | some (.bytes bytes) => some bytes
  | _ => none

def assertOwner (s : Builder) (id : Uuid) (user : AuthUser) : Except ApiError Unit :=
  match s.read id .owner with
  | some (.owner text) => if trim text ≠ uuidText user.id then .error .notFound else .ok ()
  | _ => .error .notFound

/-- A route up to the owner. -/
def allow (s : Builder) (q : Asked) : Except Response Unit :=
  match q.route with
  | .manifest => (s.assertOwner q.id q.user).mapError .error
  | .file _ =>
    if s.isDir q.id then (s.assertOwner q.id q.user).mapError .error else .error (.error .notFound)
  | .delete =>
    if s.isDir q.id then (s.assertOwner q.id q.user).mapError .error else .error .noContent

def onFolder (s : Builder) (id : Uuid) (g : Folder → Folder) : Uuid → Option Folder :=
  Function.update s.folders id ((s.folders id).map g)

def ask (s : Builder) (r : Nat) (q : Asked) : Builder :=
  match s.requests r with
  | some _ => s
  | none =>
    match s.allow q with
    | .ok () =>
      { folders := if q.route = .delete then s.onFolder q.id Folder.remove else s.folders
        requests := Function.update s.requests r (some (.passed q)) }
    | .error response =>
      { s with requests := Function.update s.requests r (some (.answered q response)) }

section
variable (env : Environment) (tree : Uuid → List Name)

/-- The next read of a request. -/
def next (s : Builder) : Progress → Progress
  | .passed q =>
    match q.route with
    | .manifest =>
      match s.read q.id .manifest with
      | some content => .answered q (.manifest content)
      | none => .answered q (.error .notFound)
    | .file usbPath =>
      match s.read q.id .sources with
      | some (.sources sources) => .resolved q usbPath sources
      | some _ => .answered q (.error .internal)
      | none => .answered q (.error .notFound)
    | .delete => .answered q (if s.isDir q.id then .error .internal else .noContent)
  | .resolved q usbPath sources =>
    .answered q
      (Response.ofServe (serveFrom env (tree q.id) (s.staged q.id) ⟨q.user.id, sources⟩ usbPath))
  | .answered q response => .answered q response

/-- The answers that were given outlast a restart. -/
def finished : Progress → Bool
  | .answered _ _ => true
  | _ => false

variable (exportTtl : Nat)

def step (s : Builder) : Event → Builder
  | .create id p now =>
    match s.folders id with
    | some _ => s
    | none => { s with folders := Function.update s.folders id (some (Folder.create p now)) }
  | .change id c => { s with folders := s.onFolder id fun f => f.change c }
  | .sweep id now => { s with folders := s.onFolder id (Folder.sweep exportTtl now) }
  | .ask r q => s.ask r q
  | .proceed r =>
    { s with requests := Function.update s.requests r ((s.requests r).map (s.next env tree)) }
  | .restart =>
    { folders := fun id => (s.folders id).map Folder.restart
      requests := fun r => (s.requests r).filter finished }

def after (events : List Event) : Builder := Runs.run (step env tree exportTtl) start events

end

end Builder

/-- The answer from a folder in which nothing is missing. -/
def Package.answer (env : Environment) (tree : List Name) (p : Package) : Route → Response
  | .manifest => .manifest (.manifest p.manifest)
  | .file usbPath =>
    Response.ofServe (serveFrom env tree (fun path => p.tree.lookup path) ⟨p.user.id, p.sources⟩ usbPath)
  | .delete => .noContent

end BVault.Export
