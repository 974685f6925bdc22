import Mathlib.Algebra.BigOperators.Group.List.Basic
import BVault.Lib.Bytes

/-!
# Where tables lie in a file

The numbering that a list of tables determines: a table is an index page with
its data pages, or with one reserved page where it has none; tables follow each
other from page 1 on. Data pages are numbered from 2 on through the whole file,
and every table has a page its chain ends in, which no other table shares.
-/

namespace BVault.Core

/-- For each table, the rows of each of its data pages. -/
abbrev Plan := List (List (List Bytes))

namespace Plan

/-- The pages a table takes up. -/
def width (chunks : List (List Bytes)) : Nat := 1 + max 1 chunks.length

/-- The first page of a table. -/
def firstPage (plan : Plan) (i : Nat) : Nat := 1 + ((plan.take i).map width).sum

def pageCount (plan : Plan) : Nat := 1 + (plan.map width).sum

/-- The sequence number of the first data page of a table. -/
def firstSequence (plan : Plan) (i : Nat) : Nat := 2 + ((plan.take i).map List.length).sum

/-- Tables with data. -/
def dataTables (plan : Plan) : Nat := plan.countP (fun chunks => !chunks.isEmpty)

/-- Where the chain of a table ends: a page of its own beyond the file, or its reserved page. -/
def candidate (plan : Plan) (i : Nat) (chunks : List (List Bytes)) : Nat :=
  if chunks.isEmpty then plan.firstPage i + 1 else plan.pageCount + dataTables (plan.take i)

variable {plan : Plan} {i j : Nat} {chunks others : List (List Bytes)}

theorem firstPage_zero : plan.firstPage 0 = 1 := rfl

theorem take_succ_of_getElem? (here : plan[i]? = some chunks) :
    plan.take (i + 1) = plan.take i ++ [chunks] := by
  rw [List.take_add_one, here]
  rfl

theorem firstPage_succ (here : plan[i]? = some chunks) :
    plan.firstPage (i + 1) = plan.firstPage i + width chunks := by
  simp [firstPage, take_succ_of_getElem? here, Nat.add_assoc]

theorem firstSequence_succ (here : plan[i]? = some chunks) :
    plan.firstSequence (i + 1) = plan.firstSequence i + chunks.length := by
  simp [firstSequence, take_succ_of_getElem? here, Nat.add_assoc]

theorem firstPage_append (plan more : Plan) (inside : i ≤ plan.length) :
    firstPage (plan ++ more) i = plan.firstPage i := by
  rw [firstPage, firstPage, List.take_append_of_le_length inside]

theorem firstSequence_append (plan more : Plan) (inside : i ≤ plan.length) :
    firstSequence (plan ++ more) i = plan.firstSequence i := by
  rw [firstSequence, firstSequence, List.take_append_of_le_length inside]

theorem pageCount_snoc (plan : Plan) (chunks : List (List Bytes)) :
    pageCount (plan ++ [chunks]) = plan.pageCount + width chunks := by
  simp [pageCount, Nat.add_assoc]

theorem firstSequence_snoc (plan : Plan) (chunks : List (List Bytes)) :
    firstSequence (plan ++ [chunks]) (plan ++ [chunks]).length =
      plan.firstSequence plan.length + chunks.length := by
  simp [firstSequence, Nat.add_assoc]

theorem firstPage_length : plan.firstPage plan.length = plan.pageCount := by
  rw [firstPage, List.take_length, pageCount]

theorem firstPage_mono (plan : Plan) (before : i ≤ j) : plan.firstPage i ≤ plan.firstPage j := by
  induction before with
  | refl => exact le_refl _
  | @step j before ih =>
    refine le_trans ih ?_
    cases here : plan[j]? with
    | none =>
      have short : plan.length ≤ j := List.getElem?_eq_none_iff.mp here
      rw [firstPage, firstPage, List.take_of_length_le short, List.take_of_length_le (by omega)]
    | some chunks =>
      rw [firstPage_succ here]
      exact Nat.le_add_right _ _

/-- A table ends where, or before, a later one begins. -/
theorem firstPage_apart (here : plan[i]? = some chunks) (before : i < j) :
    plan.firstPage i + width chunks ≤ plan.firstPage j := by
  rw [← firstPage_succ here]
  exact firstPage_mono plan before

theorem firstPage_inside (here : plan[i]? = some chunks) :
    plan.firstPage i + width chunks ≤ plan.pageCount := by
  have inside : i < plan.length := (List.getElem?_eq_some_iff.mp here).1
  rw [← firstPage_length]
  exact firstPage_apart here inside

/-- Every page behind the first one belongs to a table. -/
theorem exists_table (plan : Plan) {k : Nat} (positive : 1 ≤ k) (inside : k < plan.pageCount) :
    ∃ i chunks, plan[i]? = some chunks ∧ plan.firstPage i ≤ k ∧
      k < plan.firstPage i + width chunks := by
  have general : ∀ j ≤ plan.length, k < plan.firstPage j → ∃ i chunks,
      plan[i]? = some chunks ∧ plan.firstPage i ≤ k ∧ k < plan.firstPage i + width chunks := by
    intro j
    induction j with
    | zero =>
      intro _ below
      rw [firstPage_zero] at below
      omega
    | succ j ih =>
      intro fits below
      have here : plan[j]? = some plan[j] := List.getElem?_eq_getElem (by omega)
      rcases Nat.lt_or_ge k (plan.firstPage j) with earlier | behind
      · exact ih (by omega) earlier
      · rw [firstPage_succ here] at below
        exact ⟨j, _, here, behind, below⟩
  refine general plan.length (le_refl _) ?_
  rw [firstPage_length]
  exact inside

theorem dataTables_take_le (plan : Plan) (before : i ≤ j) :
    dataTables (plan.take i) ≤ dataTables (plan.take j) := by
  have sub : (plan.take i).Sublist (plan.take j) := by
    rw [← Nat.min_eq_left before, ← List.take_take]
    exact List.take_sublist i _
  exact sub.countP_le

theorem dataTables_take_lt (here : plan[i]? = some chunks) (data : chunks.isEmpty = false)
    (before : i < j) : dataTables (plan.take i) < dataTables (plan.take j) := by
  have next := dataTables_take_le plan before
  rw [take_succ_of_getElem? here, dataTables, List.countP_append] at next
  simp only [List.countP_singleton, data, Bool.not_false, if_true] at next
  exact next

/-- The reserved page lies in the file. -/
theorem candidate_empty (here : plan[i]? = some chunks) (empty : chunks.isEmpty = true) :
    plan.candidate i chunks = plan.firstPage i + 1 ∧ plan.candidate i chunks < plan.pageCount := by
  have inside := firstPage_inside here
  rw [width] at inside
  have same : plan.candidate i chunks = plan.firstPage i + 1 := if_pos empty
  exact ⟨same, by omega⟩

theorem candidate_data (data : chunks.isEmpty = false) :
    plan.candidate i chunks = plan.pageCount + dataTables (plan.take i) := by
  simp [candidate, data]

/-- No two tables end in the same page. -/
theorem candidate_lt (here : plan[i]? = some chunks) (there : plan[j]? = some others)
    (before : i < j) : plan.candidate i chunks ≠ plan.candidate j others := by
  have apart := firstPage_apart here before
  rw [width] at apart
  cases first : chunks.isEmpty with
  | true =>
    obtain ⟨same, inside⟩ := candidate_empty here first
    cases second : others.isEmpty with
    | true =>
      obtain ⟨same', _⟩ := candidate_empty there second
      omega
    | false =>
      rw [candidate_data second]
      omega
  | false =>
    cases second : others.isEmpty with
    | true =>
      obtain ⟨_, inside⟩ := candidate_empty there second
      rw [candidate_data first]
      omega
    | false =>
      have grown := dataTables_take_lt here first before
      rw [candidate_data first, candidate_data second]
      omega

theorem candidate_ne (here : plan[i]? = some chunks) (there : plan[j]? = some others)
    (apart : i ≠ j) : plan.candidate i chunks ≠ plan.candidate j others := by
  rcases Nat.lt_or_gt_of_ne apart with before | after
  · exact candidate_lt here there before
  · exact (candidate_lt there here after).symm

/-- This page number is above all chain ends. -/
theorem candidate_below (here : plan[i]? = some chunks) :
    plan.candidate i chunks < plan.pageCount + dataTables plan := by
  cases data : chunks.isEmpty with
  | true =>
    have inside := (candidate_empty here data).2
    omega
  | false =>
    have inside : i < plan.length := (List.getElem?_eq_some_iff.mp here).1
    have fewer := dataTables_take_lt here data inside
    rw [List.take_length] at fewer
    rw [candidate_data data]
    omega

end Plan

end BVault.Core
