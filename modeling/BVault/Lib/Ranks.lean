import Mathlib.Data.List.Sort

/-!
# Places in a stable sort

An element stands behind those that are before it in the order, and behind the
equal ones that were listed before it. The number of these is its place.
-/

namespace List

variable {α : Type*} (r : α → α → Prop) [DecidableRel r] [Std.Total r] [IsTrans α r]

omit [Std.Total r] in
/-- Those before an element form the front of a sorted list. -/
theorem takeWhile_eq_filter_of_pairwise {xs : List α} (sorted : xs.Pairwise r) (x : α) :
    xs.takeWhile (fun b => ¬ r x b) = xs.filter (fun b => ¬ r x b) := by
  induction xs with
  | nil => rfl
  | cons a xs ih =>
    obtain ⟨first, rest⟩ := pairwise_cons.mp sorted
    by_cases behind : r x a
    · have all : ∀ b ∈ xs, r x b := fun b mem => trans_of r behind (first b mem)
      simpa [behind] using all
    · simp only [decide_not] at ih
      simp [behind, ih rest]

/-- What stands before the element `x` of a list once it is sorted. -/
theorem insertionSort_split (before after : List α) (x : α) :
    ∃ front back, (before ++ x :: after).insertionSort r = front ++ x :: back ∧
      front.Perm (before.filter (fun y => r y x) ++ after.filter (fun y => ¬ r x y)) := by
  induction before with
  | nil =>
    refine ⟨_, _, insertionSort_cons_eq_take_drop r x after, ?_⟩
    rw [takeWhile_eq_filter_of_pairwise r (pairwise_insertionSort r after)]
    exact (perm_insertionSort r after).filter _
  | cons a before ih =>
    obtain ⟨front, back, sorted, those⟩ := ih
    have order : (front ++ x :: back).Pairwise r := by
      rw [← sorted]
      exact pairwise_insertionSort r _
    have below : ∀ b ∈ front, r b x :=
      fun b mem => (pairwise_append.mp order).2.2 b mem x mem_cons_self
    rw [cons_append, insertionSort_cons, sorted]
    by_cases first : r a x
    · -- it goes somewhere before `x`
      refine ⟨orderedInsert r a front, back, ?_, ?_⟩
      · clear sorted those order below
        induction front with
        | nil => simp [first]
        | cons b front ih =>
          by_cases here : r a b
          · simp [here]
          · simp [here, ih]
      · rw [filter_cons_of_pos (by simpa using first)]
        exact (perm_orderedInsert r a front).trans (those.cons a)
    · refine ⟨front, orderedInsert r a back, ?_, ?_⟩
      · clear sorted those order
        induction front with
        | nil => simp [first]
        | cons b front ih =>
          have here : ¬ r a b := fun is => first (trans_of r is (below b mem_cons_self))
          simp [here, ih (fun c mem => below c (mem_cons_of_mem b mem))]
      · rw [filter_cons_of_neg (by simpa using first)]
        exact those

/-- Which elements are among the first of a sorted list. -/
theorem mem_take_insertionSort_iff {xs : List α} {x : α} {n : Nat} :
    x ∈ (xs.insertionSort r).take n ↔ ∃ before after, xs = before ++ x :: after ∧
      before.countP (fun y => r y x) + after.countP (fun y => ¬ r x y) < n := by
  have place : ∀ before after front : List α,
      front.Perm (before.filter (fun y => r y x) ++ after.filter (fun y => ¬ r x y)) →
      front.length = before.countP (fun y => r y x) + after.countP (fun y => ¬ r x y) := by
    intro before after front those
    rw [those.length_eq, length_append, countP_eq_length_filter, countP_eq_length_filter]
  constructor
  · intro mem
    -- the first occurrence in the list is the first in the sorted one
    obtain ⟨before, after, rfl, absent⟩ :=
      eq_append_cons_of_mem ((mem_insertionSort r).mp (mem_of_mem_take mem))
    obtain ⟨front, back, sorted, those⟩ := insertionSort_split r before after x
    refine ⟨before, after, rfl, ?_⟩
    rw [← place before after front those]
    have notFront : x ∉ front := by
      intro inside
      rcases mem_append.mp (those.mem_iff.mp inside) with early | late
      · exact absent (mem_filter.mp early).1
      · have strict := (mem_filter.mp late).2
        simp [refl_of r x] at strict
    by_contra beyond
    rw [sorted, take_append_of_le_length (by omega)] at mem
    exact notFront (mem_of_mem_take mem)
  · rintro ⟨before, after, rfl, few⟩
    obtain ⟨front, back, sorted, those⟩ := insertionSort_split r before after x
    rw [← place before after front those] at few
    rw [sorted, take_append]
    obtain ⟨k, room⟩ : ∃ k, n - front.length = k + 1 := ⟨n - front.length - 1, by omega⟩
    rw [room, take_succ_cons]
    exact mem_append_right _ mem_cons_self

end List
