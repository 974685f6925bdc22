import Mathlib.Data.List.Basic
import Mathlib.Tactic.Common

/-!
# Hexadecimal numbers

Reading digits of either case under a bound. What is written in base 16, padded
with zeros or put in upper case, is read back.
-/

namespace Hex

/-- The value of a digit. -/
def digit (c : Char) : Option Nat :=
  if '0' ≤ c ∧ c ≤ '9' then some (c.toNat - 48)
  else if 'a' ≤ c ∧ c ≤ 'f' then some (c.toNat - 87)
  else if 'A' ≤ c ∧ c ≤ 'F' then some (c.toNat - 55)
  else none

/-- One more digit; `none` is an invalid digit or an overflow. -/
def push (limit n : Nat) (c : Char) : Option Nat :=
  (digit c).bind fun d => if n * 16 + d < limit then some (n * 16 + d) else none

/-- The number that some digits spell, if it is below the limit. -/
def value (limit : Nat) (digits : List Char) : Option Nat := digits.foldlM (push limit) 0

/-- A way to write digits that does not change what they mean. -/
def Spells (case : Char → Char) : Prop := ∀ d < 16, digit (case (Nat.digitChar d)) = some d

theorem spells_lower : Spells id := by
  unfold Spells
  decide

theorem spells_upper : Spells Char.toUpper := by
  unfold Spells
  decide

section
variable {limit : Nat} {case : Char → Char}

theorem push_digitChar (spells : Spells case) {n d : Nat} (isDigit : d < 16)
    (small : n * 16 + d < limit) : push limit n (case (Nat.digitChar d)) = some (n * 16 + d) := by
  simp only [push, spells d isDigit, Option.bind_some, small, if_true]

theorem foldlM_zeros (positive : 0 < limit) (k : Nat) :
    (List.replicate k '0').foldlM (push limit) 0 = some 0 := by
  induction k with
  | zero => rfl
  | succ k ih =>
    have first : push limit 0 '0' = some 0 :=
      push_digitChar spells_lower (d := 0) (by omega) positive
    rw [List.replicate_succ, List.foldlM_cons, first]
    exact ih

theorem value_digits (spells : Spells case) {n : Nat} (small : n < limit) :
    value limit ((Nat.toDigits 16 n).map case) = some n := by
  unfold value
  induction n using Nat.strongRecOn with
  | ind n ih =>
    rw [Nat.toDigits_eq_if (by omega)]
    split
    · rename_i isDigit
      simp only [List.map_cons, List.map_nil, List.foldlM_cons, List.foldlM_nil]
      rw [push_digitChar spells isDigit (by omega), Nat.zero_mul, Nat.zero_add]
      rfl
    · have last : n / 16 * 16 + n % 16 = n := by omega
      have front := ih (n / 16) (by omega) (by omega)
      simp only [List.map_append, List.map_cons, List.map_nil, List.foldlM_append, front]
      change (push limit (n / 16) (case (Nat.digitChar (n % 16)))).bind some = some n
      rw [push_digitChar spells (by omega) (by omega), last, Option.bind_some]

/-- Leading zeros count for nothing. -/
theorem value_padded (spells : Spells case) {n : Nat} (small : n < limit) (zeros : Nat) :
    value limit (List.replicate zeros '0' ++ (Nat.toDigits 16 n).map case) = some n := by
  rw [value, List.foldlM_append, foldlM_zeros (by omega)]
  exact value_digits spells small

end

/-- What a number is written with. -/
theorem mem_toDigits {base n : Nat} (big : 1 < base) {c : Char} (mem : c ∈ Nat.toDigits base n) :
    ∃ d < base, c = Nat.digitChar d := by
  induction n using Nat.strongRecOn with
  | ind n ih =>
    rw [Nat.toDigits_eq_if big] at mem
    split at mem
    · rename_i isDigit
      exact ⟨n, isDigit, List.mem_singleton.mp mem⟩
    · rename_i more
      rcases List.mem_append.mp mem with high | low
      · exact ih (n / base) (Nat.div_lt_self (by omega) big) high
      · exact ⟨n % base, Nat.mod_lt n (by omega), List.mem_singleton.mp low⟩

theorem digitChar_isAlphanum : ∀ d < 16, (Nat.digitChar d).isAlphanum := by decide

theorem isAlphanum_of_mem_toString {n : Nat} {c : Char} (mem : c ∈ (toString n).toList) :
    c.isAlphanum := by
  have written : c ∈ Nat.toDigits 10 n := by simpa using mem
  obtain ⟨d, isDigit, rfl⟩ := mem_toDigits (by decide) written
  exact digitChar_isAlphanum d (by omega)

theorem digitChar_ne_plus : ∀ d < 16, Nat.digitChar d ≠ '+' := by decide

/-- A number is written without a sign. -/
theorem plus_not_mem_toDigits (n : Nat) : '+' ∉ Nat.toDigits 16 n := by
  intro mem
  obtain ⟨d, isDigit, same⟩ := mem_toDigits (by decide) mem
  exact digitChar_ne_plus d isDigit same.symm

end Hex
