import BVault.Lib.Pointwise
import Mathlib.Data.List.Induction

/-!
# Files in folders

A tree of folders, and how a path is followed in it from one of them: a segment
stays, goes up or goes down under a name. Names alone lead straight down. Files
of which none lies below another one make a tree.
-/

/-- What is at a place. -/
inductive Node (κ : Type*) where
  | file (content : κ)
  | folder

/-- One segment of a path. -/
inductive Segment (ν : Type*) where
  | stay
  | up
  | name (name : ν)

/-- A place is given by the names from the root; whatever is at a place is in a folder. -/
structure Folders (ν κ : Type*) where
  node : List ν → Option (Node κ)
  root : node [] = some .folder
  parent : ∀ place name, (node (place ++ [name])).isSome → node place = some .folder

namespace Folders

variable {ν κ : Type*}

/-- The file at a place. -/
def content (t : Folders ν κ) (place : List ν) : Option κ :=
  match t.node place with
  | some (.file content) => some content
  | _ => none

def isFolder (t : Folders ν κ) (place : List ν) : Bool :=
  match t.node place with
  | some .folder => true
  | _ => false

/-- Where a path leads from a place; only a folder leads on. -/
def follow (t : Folders ν κ) (place : List ν) : List (Segment ν) → Option (List ν)
  | [] => if (t.node place).isSome then some place else none
  | segment :: path =>
    if t.isFolder place then
      match segment with
      | .stay => t.follow place path
      | .up => t.follow place.dropLast path
      | .name name => t.follow (place ++ [name]) path
    else none

/-- The file that a path leads to, with its place. -/
def read (t : Folders ν κ) (place : List ν) (path : List (Segment ν)) : Option (List ν × κ) :=
  (t.follow place path).bind (fun found => (t.content found).map (found, ·))

theorem isFolder_iff {t : Folders ν κ} {place : List ν} :
    t.isFolder place = true ↔ t.node place = some .folder := by
  unfold isFolder
  split
  · rename_i is
    exact ⟨fun _ => is, fun _ => rfl⟩
  · rename_i not
    exact ⟨nofun, fun is => absurd is not⟩

/-- Above whatever there is are folders. -/
theorem folder_above (t : Folders ν κ) (place : List ν) {name : ν} {names : List ν}
    (there : (t.node (place ++ name :: names)).isSome) : t.node place = some .folder := by
  induction names using List.reverseRecOn with
  | nil => exact t.parent place name there
  | append_singleton names last ih =>
    rw [← List.cons_append, ← List.append_assoc] at there
    apply ih
    rw [t.parent _ last there]
    rfl

/-- Names lead straight down, or nowhere. -/
theorem follow_names (t : Folders ν κ) (place names : List ν) :
    t.follow place (names.map Segment.name) =
      if (t.node (place ++ names)).isSome then some (place ++ names) else none := by
  induction names generalizing place with
  | nil => rw [List.map_nil, List.append_nil, follow]
  | cons name names ih =>
    rw [List.map_cons, follow, ih, List.append_assoc, List.singleton_append]
    by_cases there : (t.node (place ++ name :: names)).isSome
    · rw [if_pos (isFolder_iff.mpr (t.folder_above place there))]
    · rw [if_neg there, ite_self]

theorem read_names (t : Folders ν κ) (place names : List ν) :
    t.read place (names.map Segment.name) =
      (t.content (place ++ names)).map (place ++ names, ·) := by
  rw [read, follow_names]
  split
  · rfl
  · rename_i nowhere
    have empty : t.content (place ++ names) = none := by
      rw [Option.not_isSome_iff_eq_none] at nowhere
      rw [content, nowhere]
    rw [empty]
    rfl

section
variable [DecidableEq ν] (files : List (List ν × κ))

def nodeOf (place : List ν) : Option (Node κ) :=
  match files.lookup place with
  | some content => some (.file content)
  | none => if place = [] ∨ ∃ f ∈ files, place <+: f.1 then some .folder else none

/-- No file is the root, and none lies below another one. -/
structure Apart : Prop where
  named : ∀ f ∈ files, f.1 ≠ []
  apart : ∀ f ∈ files, ∀ g ∈ files, f.1 <+: g.1 → f.1 = g.1

variable {files}

theorem mem_of_nodeOf {place : List ν} {name : ν}
    (there : (nodeOf files (place ++ [name])).isSome) : ∃ f ∈ files, place ++ [name] <+: f.1 := by
  unfold nodeOf at there
  split at there
  · rename_i content found
    obtain ⟨before, behind, rfl, _⟩ := List.lookup_eq_some_iff.mp found
    exact ⟨(place ++ [name], content), by simp, List.prefix_refl _⟩
  · split at there
    · rename_i kept
      exact kept.resolve_left (by simp)
    · cases there

/-- The folders above the files, and the files. -/
def ofFiles (apart : Apart files) : Folders ν κ where
  node := nodeOf files
  root := by
    have missing : files.lookup [] = none := by
      rw [List.lookup_eq_none_iff]
      intro f mem
      simpa using (apart.named f mem).symm
    rw [nodeOf, missing]
    simp
  parent := by
    intro place name there
    obtain ⟨f, mem, below⟩ := mem_of_nodeOf there
    have above : place <+: f.1 := List.IsPrefix.trans (List.prefix_append _ _) below
    have missing : files.lookup place = none := by
      cases found : files.lookup place with
      | none => rfl
      | some content =>
        obtain ⟨before, behind, rfl, _⟩ := List.lookup_eq_some_iff.mp found
        have same : place = f.1 := apart.apart (place, content) (by simp) f mem above
        have longer := below.length_le
        rw [← same, List.length_append, List.length_singleton] at longer
        omega
    rw [nodeOf, missing]
    exact if_pos (Or.inr ⟨f, mem, above⟩)

theorem content_ofFiles (apart : Apart files) (place : List ν) :
    (ofFiles apart).content place = files.lookup place := by
  have node : (ofFiles apart).node place = nodeOf files place := rfl
  unfold content
  rw [node, nodeOf]
  cases files.lookup place with
  | some content => rfl
  | none =>
    dsimp only
    by_cases above : place = [] ∨ ∃ f ∈ files, place <+: f.1
    · rw [if_pos above]
    · rw [if_neg above]

theorem content_ofFiles_iff (apart : Apart files) (distinct : (files.map Prod.fst).Nodup)
    {place : List ν} {c : κ} : (ofFiles apart).content place = some c ↔ (place, c) ∈ files := by
  rw [content_ofFiles]
  exact Pointwise.lookup_iff_mem distinct

end

end Folders
