import Mathlib.Data.List.Basic

/-!
# Filling a buffer by blocks

Blocks are appended whole as long as the buffer is below its cap. The buffer is
then the input cut off at the cap, unless the cap falls inside a block.
-/

namespace Buffers

variable {α : Type*}

/-- The blocks go behind what is there, each whole. -/
def fill (cap : Nat) : List (List α) → List α → List α
  | [], buffer => buffer
  | block :: blocks, buffer =>
    fill cap blocks (if buffer.length < cap then buffer ++ block else buffer)

theorem fill_full {cap : Nat} {buffer : List α} (full : cap ≤ buffer.length)
    (blocks : List (List α)) : fill cap blocks buffer = buffer := by
  induction blocks with
  | nil => rfl
  | cons block blocks ih => rw [fill, if_neg (by omega), ih]

/-- Where the buffer is not full yet, the block that ends at the cap comes later. -/
theorem ends_cons_iff {cap : Nat} {block : List α} {blocks : List (List α)} {buffer : List α}
    (below : buffer.length < cap) :
    (∃ pre post, block :: blocks = pre ++ post ∧ (buffer ++ pre.flatten).length = cap) ↔
      ∃ pre post, blocks = pre ++ post ∧ (buffer ++ block ++ pre.flatten).length = cap := by
  constructor
  · rintro ⟨pre, post, split, at_⟩
    cases pre with
    | nil =>
      simp only [List.flatten_nil, List.append_nil] at at_
      omega
    | cons first pre =>
      obtain ⟨rfl, rfl⟩ := List.cons.inj split
      exact ⟨pre, post, rfl, by simpa using at_⟩
  · rintro ⟨pre, post, rfl, at_⟩
    exact ⟨block :: pre, post, rfl, by simpa using at_⟩

/-- A buffer is cut off at its cap if and only if the input is no longer or a block ends there. -/
theorem fill_eq_take_iff {cap : Nat} {blocks : List (List α)} {buffer : List α}
    (room : buffer.length ≤ cap) :
    fill cap blocks buffer = (buffer ++ blocks.flatten).take cap ↔
      (buffer ++ blocks.flatten).length ≤ cap ∨
        ∃ pre post, blocks = pre ++ post ∧ (buffer ++ pre.flatten).length = cap := by
  induction blocks generalizing buffer with
  | nil =>
    simp [fill, List.take_of_length_le, room]
  | cons block blocks ih =>
    by_cases full : buffer.length = cap
    · -- a full buffer stays as it is
      constructor
      · intro _
        exact .inr ⟨[], block :: blocks, rfl, by simpa using full⟩
      · intro _
        rw [fill_full (Nat.le_of_eq full.symm), List.take_left' full]
    have below : buffer.length < cap := by omega
    have whole : buffer ++ (block :: blocks).flatten = buffer ++ block ++ blocks.flatten := by
      simp
    rw [fill, if_pos below, ends_cons_iff below, whole]
    by_cases fits : (buffer ++ block).length ≤ cap
    · exact ih fits
    · -- the cap falls inside this block
      have beyond : ∀ rest : List α, cap < (buffer ++ block ++ rest).length := by
        intro rest
        rw [List.length_append]
        omega
      rw [fill_full (by omega)]
      constructor
      · intro same
        have long := congrArg List.length same
        rw [List.length_take] at long
        omega
      · rintro (short | ⟨pre, post, rfl, at_⟩)
        · exact absurd short (Nat.not_le.mpr (beyond _))
        · exact absurd at_ (Nat.ne_of_gt (beyond _))

end Buffers
