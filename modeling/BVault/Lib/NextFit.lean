import Mathlib.Data.List.Induction

/-!
# Next-fit packing

Items go into the open bin, and an item that spills over it opens the next bin.
The number of bins depends on the items alone: it never falls when items are
added, and it is bounded by what a bin holds at least before it spills.
-/

namespace NextFit

universe u v

section
variable {S : Type u} {α : Type v} (fresh : S) (spills : S → α → Bool) (add : S → α → S)

/-- The number of bins behind the first one, and the open bin. -/
def place (s : Nat × S) (x : α) : Nat × S :=
  if spills s.2 x then (s.1 + 1, add fresh x) else (s.1, add s.2 x)

def pack (xs : List α) : Nat × S := xs.foldl (place fresh spills add) (0, fresh)

@[simp] theorem pack_nil : pack fresh spills add [] = (0, fresh) := rfl

theorem pack_snoc (xs : List α) (x : α) :
    pack fresh spills add (xs ++ [x]) = place fresh spills add (pack fresh spills add xs) x := by
  simp [pack]

theorem pack_le_snoc (xs : List α) (x : α) :
    (pack fresh spills add xs).1 ≤ (pack fresh spills add (xs ++ [x])).1 ∧
      (pack fresh spills add (xs ++ [x])).1 ≤ (pack fresh spills add xs).1 + 1 := by
  rw [pack_snoc, place]
  split <;> simp

theorem pack_mono {xs ys : List α} (front : xs <+: ys) :
    (pack fresh spills add xs).1 ≤ (pack fresh spills add ys).1 := by
  obtain ⟨more, rfl⟩ := front
  induction more using List.reverseRecOn with
  | nil => simp
  | append_singleton more x ih =>
    rw [← List.append_assoc]
    exact Nat.le_trans ih (pack_le_snoc fresh spills add (xs ++ more) x).1

theorem pack_le_length (xs : List α) : (pack fresh spills add xs).1 ≤ xs.length := by
  induction xs using List.reverseRecOn with
  | nil => simp
  | append_singleton xs x ih =>
    have next := (pack_le_snoc fresh spills add xs x).2
    rw [List.length_append, List.length_singleton]
    omega

/-- What every added item preserves holds of the open bin. -/
theorem pack_invariant {P : S → Prop} {xs : List α} (start : P fresh)
    (step : ∀ s, ∀ x ∈ xs, P s → P (add s x)) : P (pack fresh spills add xs).2 := by
  induction xs using List.reverseRecOn with
  | nil => exact start
  | append_singleton xs x ih =>
    have here : x ∈ xs ++ [x] := List.mem_append_right xs List.mem_cons_self
    have before := ih (fun s y mem => step s y (List.mem_append_left [x] mem))
    rw [pack_snoc, place]
    split
    · exact step fresh x here start
    · exact step _ x here before

/-- Bins that only spill with `k` items in them: each closed bin takes up `k` of the items. -/
theorem pack_full {P : S → Prop} {size : S → Nat} {k : Nat} {xs : List α} (start : P fresh)
    (step : ∀ s, ∀ x ∈ xs, P s → P (add s x)) (empty : size fresh = 0)
    (one : ∀ s x, size (add s x) = size s + 1)
    (full : ∀ s, ∀ x ∈ xs, P s → spills s x = true → k ≤ size s) :
    k * (pack fresh spills add xs).1 + size (pack fresh spills add xs).2 ≤ xs.length := by
  induction xs using List.reverseRecOn with
  | nil => simp [empty]
  | append_singleton xs x ih =>
    have earlier : ∀ y ∈ xs, y ∈ xs ++ [x] := fun y mem => List.mem_append_left [x] mem
    have here : x ∈ xs ++ [x] := List.mem_append_right xs List.mem_cons_self
    have before := ih (fun s y mem => step s y (earlier y mem))
      (fun s y mem => full s y (earlier y mem))
    have holds : P (pack fresh spills add xs).2 :=
      pack_invariant fresh spills add start (fun s y mem => step s y (earlier y mem))
    rw [pack_snoc, place, List.length_append, List.length_singleton]
    split
    · rename_i spilled
      have many := full _ x here holds spilled
      simp only [one, empty, Nat.mul_add, Nat.mul_one]
      omega
    · simp only [one]
      omega

end

end NextFit
