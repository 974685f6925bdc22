import Mathlib.Data.List.Sort
import Mathlib.Data.List.Lex

/-!
# Walking a tree of named entries

A walk that goes through the entries of each folder in the order of their names
meets the leaves in the order of their paths, so it does not depend on the order
in which a folder lists what it holds.
-/

namespace TreeWalk

/-- What a folder holds: leaves, and folders in turn. -/
inductive Tree (ν α : Type*) where
  | leaf (name : ν) (content : α)
  | folder (name : ν) (entries : List (Tree ν α))

variable {ν α : Type*}

def Tree.name : Tree ν α → ν
  | .leaf name _ => name
  | .folder name _ => name

section
variable [LinearOrder ν] (keep : ν → α → Bool)

/-- What the entries lead to, entry by entry in the order of their names. -/
def inOrder (parts : List (ν × List (List ν))) : List (List ν) :=
  (parts.insertionSort (fun a b => a.1 ≤ b.1)).flatMap Prod.snd

mutual

/-- The paths of the leaves that are kept, as the walk meets them. -/
def walkEntry (dir : List ν) : Tree ν α → List (List ν)
  | .leaf name content => if keep name content then [dir ++ [name]] else []
  | .folder name entries => inOrder (walkParts (dir ++ [name]) entries)

def walkParts (dir : List ν) : List (Tree ν α) → List (ν × List (List ν))
  | [] => []
  | e :: entries => (e.name, walkEntry dir e) :: walkParts dir entries

end

/-- The walk through a folder. -/
def walk (dir : List ν) (entries : List (Tree ν α)) : List (List ν) :=
  inOrder (walkParts keep dir entries)

mutual

/-- The same paths as the folders list them. -/
def leavesOf (dir : List ν) : Tree ν α → List (List ν)
  | .leaf name content => if keep name content then [dir ++ [name]] else []
  | .folder name entries => leaves (dir ++ [name]) entries

def leaves (dir : List ν) : List (Tree ν α) → List (List ν)
  | [] => []
  | e :: entries => leavesOf dir e ++ leaves dir entries

end

end

mutual

/-- No folder has two entries of one name. -/
def Tree.Distinct : Tree ν α → Prop
  | .leaf _ _ => True
  | .folder _ entries => Distinct entries

def Distinct : List (Tree ν α) → Prop
  | [] => True
  | e :: entries => e.name ∉ entries.map Tree.name ∧ e.Distinct ∧ Distinct entries

end

section
variable [LinearOrder ν] {keep : ν → α → Bool}

theorem map_fst_walkParts (dir : List ν) (entries : List (Tree ν α)) :
    (walkParts keep dir entries).map Prod.fst = entries.map Tree.name := by
  induction entries with
  | nil => rfl
  | cons e entries ih => rw [walkParts, List.map_cons, List.map_cons, ih]

theorem mem_inOrder_iff {parts : List (ν × List (List ν))} {path : List ν} :
    path ∈ inOrder parts ↔ ∃ part ∈ parts, path ∈ part.2 := by
  rw [inOrder, List.mem_flatMap]
  simp only [(List.perm_insertionSort _ parts).mem_iff]

theorem perm_inOrder (parts : List (ν × List (List ν))) :
    (inOrder parts).Perm (parts.flatMap Prod.snd) :=
  (List.perm_insertionSort _ parts).flatMap_right Prod.snd

mutual

theorem below_of_mem_walkEntry {dir path : List ν} :
    (e : Tree ν α) → path ∈ walkEntry keep dir e → ∃ rest, path = dir ++ e.name :: rest
  | .leaf name content, mem => by
    rw [walkEntry] at mem
    split at mem
    · exact ⟨[], List.mem_singleton.mp mem⟩
    · cases mem
  | .folder name entries, mem => by
    rw [walkEntry, mem_inOrder_iff] at mem
    obtain ⟨part, inParts, mem⟩ := mem
    obtain ⟨rest, rfl⟩ := below_of_mem_walkParts entries inParts mem
    exact ⟨part.1 :: rest, by rw [List.append_assoc, List.singleton_append]; rfl⟩

theorem below_of_mem_walkParts {dir path : List ν} {part : ν × List (List ν)} :
    (entries : List (Tree ν α)) → part ∈ walkParts keep dir entries → path ∈ part.2 →
      ∃ rest, path = dir ++ part.1 :: rest
  | [], mem, _ => by cases mem
  | e :: entries, mem, inPart => by
    rw [walkParts, List.mem_cons] at mem
    rcases mem with rfl | later
    · exact below_of_mem_walkEntry e inPart
    · exact below_of_mem_walkParts entries later inPart

end

mutual

theorem perm_walkEntry (dir : List ν) :
    (e : Tree ν α) → (walkEntry keep dir e).Perm (leavesOf keep dir e)
  | .leaf name content => by rw [walkEntry, leavesOf]
  | .folder name entries => by
    rw [walkEntry, leavesOf]
    exact (perm_inOrder _).trans (perm_walkParts (dir ++ [name]) entries)

theorem perm_walkParts (dir : List ν) :
    (entries : List (Tree ν α)) →
      ((walkParts keep dir entries).flatMap Prod.snd).Perm (leaves keep dir entries)
  | [] => by rw [walkParts, leaves, List.flatMap_nil]
  | e :: entries => by
    rw [walkParts, leaves, List.flatMap_cons]
    exact (perm_walkEntry dir e).append (perm_walkParts dir entries)

end

/-- The walk meets each leaf that is kept once. -/
theorem perm_walk (dir : List ν) (entries : List (Tree ν α)) :
    (walk keep dir entries).Perm (leaves keep dir entries) :=
  (perm_inOrder _).trans (perm_walkParts dir entries)

/-- Parts of different names, each in order below its name, are in order one after the other. -/
theorem sorted_inOrder {dir : List ν} {parts : List (ν × List (List ν))}
    (distinct : (parts.map Prod.fst).Nodup) (each : ∀ part ∈ parts, part.2.Pairwise (· < ·))
    (below : ∀ part ∈ parts, ∀ path ∈ part.2, ∃ rest, path = dir ++ part.1 :: rest) :
    (inOrder parts).Pairwise (· < ·) := by
  have perm := List.perm_insertionSort (fun a b : ν × List (List ν) => a.1 ≤ b.1) parts
  have names : (parts.insertionSort (fun a b => a.1 ≤ b.1)).Pairwise (fun a b => a.1 < b.1) := by
    have weak := List.pairwise_insertionSort (fun a b : ν × List (List ν) => a.1 ≤ b.1) parts
    have apart : (parts.insertionSort (fun a b => a.1 ≤ b.1)).Pairwise (fun a b => a.1 ≠ b.1) :=
      List.pairwise_map.mp ((perm.map Prod.fst).nodup_iff.mpr distinct)
    exact (weak.and apart).imp fun both => lt_of_le_of_ne both.1 both.2
  rw [inOrder, List.pairwise_flatMap]
  constructor
  · intro part mem
    exact each part (perm.mem_iff.mp mem)
  · refine names.imp_of_mem ?_
    intro a b memA memB less path inA path' inB
    obtain ⟨rest, rfl⟩ := below a (perm.mem_iff.mp memA) path inA
    obtain ⟨rest', rfl⟩ := below b (perm.mem_iff.mp memB) path' inB
    exact List.append_left_lt (List.cons_lt_cons_iff.mpr (Or.inl less))

mutual

theorem sorted_walkEntry (dir : List ν) :
    (e : Tree ν α) → e.Distinct → (walkEntry keep dir e).Pairwise (· < ·)
  | .leaf name content, _ => by
    rw [walkEntry]
    split
    · exact List.pairwise_singleton _ _
    · exact List.Pairwise.nil
  | .folder name entries, distinct => by
    rw [walkEntry]
    rw [Tree.Distinct] at distinct
    exact sorted_inOrder (nodup_walkParts (dir ++ [name]) entries distinct)
      (sorted_walkParts (dir ++ [name]) entries distinct)
      fun part mem path inPart => below_of_mem_walkParts entries mem inPart

theorem sorted_walkParts (dir : List ν) :
    (entries : List (Tree ν α)) → Distinct entries →
      ∀ part ∈ walkParts keep dir entries, part.2.Pairwise (· < ·)
  | [], _, part, mem => by
    rw [walkParts] at mem
    cases mem
  | e :: entries, distinct, part, mem => by
    rw [Distinct] at distinct
    rw [walkParts, List.mem_cons] at mem
    rcases mem with rfl | later
    · exact sorted_walkEntry dir e distinct.2.1
    · exact sorted_walkParts dir entries distinct.2.2 part later

theorem nodup_walkParts (dir : List ν) :
    (entries : List (Tree ν α)) → Distinct entries →
      ((walkParts keep dir entries).map Prod.fst).Nodup
  | [], _ => by rw [walkParts]; exact List.nodup_nil
  | e :: entries, distinct => by
    rw [Distinct] at distinct
    have later := nodup_walkParts dir entries distinct.2.2
    rw [walkParts, List.map_cons, List.nodup_cons]
    rw [map_fst_walkParts] at later ⊢
    exact ⟨distinct.1, later⟩

end

/-- The walk is in the order of the paths. -/
theorem sorted_walk {entries : List (Tree ν α)} (distinct : Distinct entries) (dir : List ν) :
    (walk keep dir entries).Pairwise (· < ·) :=
  sorted_inOrder (nodup_walkParts dir entries distinct) (sorted_walkParts dir entries distinct)
    fun _ mem _ inPart => below_of_mem_walkParts entries mem inPart

/-- The walk sorts the paths that the folders list. -/
theorem walk_eq_insertionSort {entries : List (Tree ν α)} (distinct : Distinct entries)
    (dir : List ν) : walk keep dir entries = (leaves keep dir entries).insertionSort (· ≤ ·) := by
  have order : (walk keep dir entries).Pairwise (· ≤ ·) :=
    (sorted_walk distinct dir).imp fun less => le_of_lt less
  exact List.Perm.eq_of_pairwise' order (List.pairwise_insertionSort _ _)
    ((perm_walk dir entries).trans (List.perm_insertionSort _ _).symm)

end

end TreeWalk
