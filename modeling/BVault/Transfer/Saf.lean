import BVault.Lib.NamedTrees
import BVault.Lib.Paths
import BVault.Lib.Runs
import BVault.Transfer.Target

/-!
# The Android backend of an export target

Documents are addressed by opaque URIs, and the helper commands know one level
each, so a directory is resolved segment by segment and its URI is cached under
its path. The tree is the device's; how a command goes is answered from outside.
-/

namespace BVault.Transfer

variable {υ : Type*} [DecidableEq υ]

/-- How the commands for one segment go. `mkdir` says which URI a new folder gets, `printed`
whether the command prints it; `again` is the listing that looks for it otherwise. -/
structure Reply (υ : Type*) where
  ls : Except String Unit
  mkdir : Except String υ
  printed : Bool
  again : Except String Unit

/-- How `termux-saf-rm` and `termux-saf-write` go. `spawn` says which URI the file gets, and
`alt` the name in the place of one that is taken. -/
structure WriteReply (υ : Type*) where
  rm : Bool
  spawn : Except String υ
  alt : String

/-- The sink with the tree it writes to. -/
structure SafSink (υ : Type*) where
  treeUri : υ
  dirUris : String → Option υ
  tree : NamedTree String υ

namespace Saf

/-- `rel.split('/').filter(|s| !s.is_empty())`. -/
def segments (rel : String) : List String :=
  ((rel.toList.splitOn '/').filter (· ≠ [])).map String.ofList

@[simp] theorem segments_empty : segments "" = [] := by simp [segments]

/-- A segment is not empty and has no slash. -/
theorem segment_proper {seg rel : String} (mem : seg ∈ segments rel) :
    seg ≠ "" ∧ '/' ∉ seg.toList := by
  obtain ⟨part, kept, rfl⟩ := List.mem_map.mp mem
  obtain ⟨split, nonempty⟩ := List.mem_filter.mp kept
  rw [String.toList_ofList]
  refine ⟨?_, Paths.sep_not_mem_of_mem_splitOn split⟩
  intro empty
  have none_ : part = [] := by
    rw [← String.toList_ofList (l := part), empty]
    rfl
  simp [none_] at nonempty

theorem segments_segment {seg : String} (proper : seg ≠ "" ∧ '/' ∉ seg.toList) :
    segments seg = [seg] := by
  have nonempty : seg.toList ≠ [] := by simpa using proper.1
  simp [segments, List.splitOn_eq_singleton proper.2, nonempty]

theorem segments_append {parent seg : String} (proper : seg ≠ "" ∧ '/' ∉ seg.toList) :
    segments (parent ++ "/" ++ seg) = segments parent ++ [seg] := by
  have nonempty : seg.toList ≠ [] := by simpa using proper.1
  have chars : (parent ++ "/" ++ seg).toList = parent.toList ++ '/' :: seg.toList := by
    have slash : "/".toList = ['/'] := rfl
    simp [slash]
  simp [segments, chars, List.splitOn_append_cons_self, List.splitOn_eq_singleton proper.2,
    nonempty]

def splitParent (rel : String) : String × String :=
  (parentOf rel, String.ofList (rel.toList.reverse.takeWhile (· ≠ '/')).reverse)

/-- The children of a folder; what is no folder has no listing. -/
def ls (t : NamedTree String υ) (dirUri : υ) (answer : Except String Unit) :
    Except String (List (String × υ)) :=
  match answer with
  | .error e => .error e
  | .ok () =>
    match t.entries dirUri with
    | none => .error "termux-saf-ls failed: not a directory"
    | some children => .ok children

/-- A document of a taken name is given another. -/
def write (t : NamedTree String υ) (parentUri : υ) (name alt : String) (uri : υ) :
    NamedTree String υ :=
  if (t.child parentUri name).isNone then t.add parentUri name uri false
  else if (t.child parentUri alt).isNone then t.add parentUri alt uri false
  else t

end Saf

namespace SafSink

open Saf

/-- The path of a segment below `parent_rel`. -/
def childRel (parentRel seg : String) : String :=
  if parentRel = "" then seg else parentRel ++ "/" ++ seg

theorem segments_childRel {parentRel seg : String} (proper : seg ≠ "" ∧ '/' ∉ seg.toList) :
    segments (childRel parentRel seg) = segments parentRel ++ [seg] := by
  rw [childRel]
  split
  · rename_i top
    rw [top, segments_empty, segments_segment proper, List.nil_append]
  · exact segments_append proper

def cachePut (s : SafSink υ) (rel : String) (uri : υ) : SafSink υ :=
  { s with dirUris := fun r => if r = rel then some uri else s.dirUris r }

/-- The URI of a segment that is not cached: listed, printed by `mkdir`, or listed after it. -/
def segmentUri (s : SafSink υ) (parentUri : υ) (seg : String) (r : Reply υ) :
    SafSink υ × Except String υ :=
  match ls s.tree parentUri r.ls with
  | .error e => (s, .error e)
  | .ok children =>
    match children.find? (fun e => e.1 = seg) with
    | some e => (s, .ok e.2)
    | none =>
      match r.mkdir with
      | .error e => (s, .error e)
      | .ok new =>
        let made := { s with tree := s.tree.add parentUri seg new true }
        if r.printed then (made, .ok new)
        else
          match ls made.tree parentUri r.again with
          | .error e => (made, .error e)
          | .ok children =>
            match children.find? (fun e => e.1 = seg) with
            | some e => (made, .ok e.2)
            | none =>
              (made, .error ("created directory '" ++ seg ++ "' but could not resolve its URI"))

/-- The loop over the segments. -/
def walk (replies : String → Reply υ) :
    List String → String → υ → SafSink υ → SafSink υ × Except String υ
  | [], _, parentUri, s => (s, .ok parentUri)
  | seg :: segs, parentRel, parentUri, s =>
    let rel := childRel parentRel seg
    match s.dirUris rel with
    | some uri => walk replies segs rel uri s
    | none =>
      match segmentUri s parentUri seg (replies rel) with
      | (s', .error e) => (s', .error e)
      | (s', .ok uri) => walk replies segs rel uri (s'.cachePut rel uri)

def ensureDirUri (s : SafSink υ) (rel : String) (replies : String → Reply υ) :
    SafSink υ × Except String υ :=
  match s.dirUris rel with
  | some uri => (s, .ok uri)
  | none => walk replies (segments rel) "" s.treeUri s

/-- `create` up to the running `termux-saf-write`; a failed removal is ignored. -/
def create (s : SafSink υ) (rel : String) (replies : String → Reply υ) (w : WriteReply υ) :
    SafSink υ × Except String Unit :=
  let (parentRel, name) := splitParent rel
  match s.ensureDirUri parentRel replies with
  | (s', .error e) => (s', .error e)
  | (s', .ok parentUri) =>
    let tree := if w.rm then s'.tree.remove parentUri name else s'.tree
    match w.spawn with
    | .error e => ({ s' with tree := tree }, .error e)
    | .ok uri => ({ s' with tree := write tree parentUri name w.alt uri }, .ok ())

/-- A sink as it is opened: the cache is seeded with the tree. -/
def «open» (treeUri : υ) (tree : NamedTree String υ) : SafSink υ where
  treeUri := treeUri
  dirUris := fun rel => if rel = "" then some treeUri else none
  tree := tree

/-- A call of the reconcile loop, with the answers of the commands it runs. -/
inductive Call (υ : Type*) where
  | ensureDir (rel : String) (replies : String → Reply υ)
  | create (rel : String) (replies : String → Reply υ) (w : WriteReply υ)

/-- The directory a call resolves. -/
def Call.dir : Call υ → String
  | .ensureDir rel _ => rel
  | .create rel _ _ => (splitParent rel).1

def Call.replies : Call υ → String → Reply υ
  | .ensureDir _ replies => replies
  | .create _ replies _ => replies

def step (s : SafSink υ) : Call υ → SafSink υ
  | .ensureDir rel replies => (s.ensureDirUri rel replies).1
  | .create rel replies w => (s.create rel replies w).1

end SafSink

end BVault.Transfer
