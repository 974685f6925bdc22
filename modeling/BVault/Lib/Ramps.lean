import Mathlib.Data.Nat.Basic
import Mathlib.Tactic.Common
import Mathlib.Tactic.Ring

/-!
# Ramps in a word

The numbers `size * i / steps`, kept in a word of `width` values. They rise until
they leave the word and then begin again, unless the ramp is so close to whole
turns of the word that it never moves.
-/

namespace Ramps

def ramp (size steps width i : Nat) : Nat := size * i / steps % width

section
variable {size steps width n : Nat}

theorem ramp_eq (size steps width i : Nat) :
    ramp size steps width i = size % (steps * width) * i % (steps * width) / steps := by
  rw [ramp, ← Nat.mod_mul_right_div_self, Nat.mod_mul_mod]

/-- Below the first turn the word holds the ramp itself. -/
theorem ramp_of_lt {i : Nat} (below : size % (steps * width) * i < steps * width) :
    ramp size steps width i = size % (steps * width) * i / steps := by
  rw [ramp_eq, Nat.mod_eq_of_lt below]

/-- In the first turn but one. -/
theorem ramp_of_turned {i : Nat} (turned : steps * width ≤ size % (steps * width) * i)
    (once : size % (steps * width) * i < 2 * (steps * width)) :
    ramp size steps width i = (size % (steps * width) * i - steps * width) / steps := by
  rw [ramp_eq, Nat.mod_eq_sub_mod turned, Nat.mod_eq_of_lt (by omega)]

/-- What is missing to a whole turn at each step is missing once more. -/
theorem ramp_of_short {i : Nat} (positive : 0 < i)
    (some_ : 0 < steps * width - size % (steps * width))
    (short : (steps * width - size % (steps * width)) * i ≤ steps * width) :
    ramp size steps width i =
      (steps * width - (steps * width - size % (steps * width)) * i) / steps := by
  have split : size % (steps * width) * i =
      (steps * width - (steps * width - size % (steps * width)) * i) + steps * width * (i - 1) := by
    obtain ⟨k, rfl⟩ : ∃ k, i = k + 1 := ⟨i - 1, by omega⟩
    obtain ⟨miss, whole⟩ : ∃ miss, steps * width = size % (steps * width) + miss :=
      ⟨_, (Nat.add_sub_cancel' (by omega)).symm⟩
    generalize size % (steps * width) = rest at *
    generalize steps * width = turn at *
    subst whole
    have same : rest + miss - rest = miss := by omega
    rw [same] at short ⊢
    have expand : (rest + miss) * k = rest * k + miss * k := Nat.add_mul rest miss k
    rw [Nat.mul_succ] at short ⊢
    rw [Nat.mul_succ, Nat.add_sub_cancel, expand]
    omega
  have moved : 0 < (steps * width - size % (steps * width)) * i := Nat.mul_pos some_ positive
  rw [ramp_eq, split, Nat.add_mul_mod_self_left, Nat.mod_eq_of_lt (by omega)]

/-- A ramp that misses at most one step to whole turns stands at the top of the word. -/
theorem ramp_top {i : Nat} (wide : 0 < width) (positive : 0 < i)
    (some_ : 0 < steps * width - size % (steps * width))
    (short : (steps * width - size % (steps * width)) * i ≤ steps) :
    ramp size steps width i = width - 1 := by
  have moved : 0 < (steps * width - size % (steps * width)) * i := Nat.mul_pos some_ positive
  have one : steps ≤ steps * width := Nat.le_mul_of_pos_right steps wide
  rw [ramp_of_short positive some_ (Nat.le_trans short one)]
  obtain ⟨w, rfl⟩ : ∃ w, width = w + 1 := ⟨width - 1, by omega⟩
  generalize (steps * (w + 1) - size % (steps * (w + 1))) * i = miss at *
  have rest : steps * (w + 1) - miss = (steps - miss) + steps * w := by
    rw [Nat.mul_succ]
    omega
  rw [rest, Nat.add_mul_div_left _ _ (by omega), Nat.div_eq_of_lt (by omega)]
  omega

/-- One step further it stands below the top. -/
theorem ramp_below_top {i : Nat} (wide : 1 < width)
    (few : steps * width - size % (steps * width) < steps)
    (past : steps < (steps * width - size % (steps * width)) * (i + 1))
    (short : (steps * width - size % (steps * width)) * i ≤ steps) :
    ramp size steps width (i + 1) < width - 1 := by
  have two : steps * 2 ≤ steps * width := Nat.mul_le_mul_left steps wide
  have next : (steps * width - size % (steps * width)) * (i + 1) =
      (steps * width - size % (steps * width)) * i + (steps * width - size % (steps * width)) :=
    Nat.mul_succ _ i
  have some_ : 0 < steps * width - size % (steps * width) := by
    rcases Nat.eq_zero_or_pos (steps * width - size % (steps * width)) with none_ | some_
    · rw [none_, Nat.zero_mul] at past
      omega
    · exact some_
  have positive : 0 < i + 1 := Nat.succ_pos i
  rw [ramp_of_short positive some_ (by omega), Nat.div_lt_iff_lt_mul (by omega)]
  have top : (width - 1) * steps = steps * width - steps := by
    rw [Nat.mul_comm, Nat.mul_sub_one]
  rw [top]
  omega

/-- Where the ramp leaves the word it does not fall only if it misses less than one step to a
whole turn. -/
theorem missing_of_le {j : Nat} (positive : 0 < steps) (wide : 0 < width)
    (before : size % (steps * width) * j < steps * width)
    (behind : steps * width ≤ size % (steps * width) * (j + 1))
    (stays : ramp size steps width j ≤ ramp size steps width (j + 1)) :
    steps * width - size % (steps * width) < steps := by
  have small := Nat.mod_lt size (Nat.mul_pos positive wide)
  have next : size % (steps * width) * (j + 1) =
      size % (steps * width) * j + size % (steps * width) := Nat.mul_succ _ j
  have once : size % (steps * width) * (j + 1) < 2 * (steps * width) := by
    rw [next]
    omega
  rw [ramp_of_lt before, ramp_of_turned behind once] at stays
  generalize size % (steps * width) = rest at *
  generalize rest * (j + 1) = after at *
  by_contra many
  have apart : after - steps * width + steps ≤ rest * j := by omega
  have more := Nat.div_le_div_right (c := steps) apart
  rw [Nat.add_div_right _ positive] at more
  omega

theorem rising_of_lt (below : size % (steps * width) * n < steps * width) {i : Nat}
    (inside : i < n) : ramp size steps width i ≤ ramp size steps width (i + 1) := by
  have here : size % (steps * width) * i ≤ size % (steps * width) * (i + 1) :=
    Nat.mul_le_mul_left _ (Nat.le_succ i)
  have last : size % (steps * width) * (i + 1) ≤ size % (steps * width) * n :=
    Nat.mul_le_mul_left _ inside
  rw [ramp_of_lt (by omega), ramp_of_lt (by omega)]
  exact Nat.div_le_div_right here

theorem rising_of_short (positive : 0 < steps) (wide : 0 < width)
    (short : (steps * width - size % (steps * width)) * n ≤ steps) {i : Nat} (inside : i < n) :
    ramp size steps width i ≤ ramp size steps width (i + 1) := by
  have some_ : 0 < steps * width - size % (steps * width) :=
    Nat.sub_pos_of_lt (Nat.mod_lt size (Nat.mul_pos positive wide))
  have next : (steps * width - size % (steps * width)) * (i + 1) ≤ steps :=
    Nat.le_trans (Nat.mul_le_mul_left _ inside) short
  rw [ramp_top wide (Nat.succ_pos i) some_ next]
  have small : ramp size steps width i < width := Nat.mod_lt _ wide
  omega

/-- A ramp never falls in `n` steps exactly when it stays below one turn, or misses at most one
step to whole turns. -/
theorem rising_iff (positive : 0 < steps) (wide : 1 < width) :
    (∀ i < n, ramp size steps width i ≤ ramp size steps width (i + 1)) ↔
      size % (steps * width) * n < steps * width ∨
        (steps * width - size % (steps * width)) * n ≤ steps := by
  have low : 0 < width := Nat.lt_of_succ_lt wide
  constructor
  · intro rising
    by_contra neither
    rw [not_or, Nat.not_lt, Nat.not_le] at neither
    obtain ⟨turned, past⟩ := neither
    -- the step that leaves the word
    obtain ⟨j, before, behind, inside⟩ : ∃ j, size % (steps * width) * j < steps * width ∧
        steps * width ≤ size % (steps * width) * (j + 1) ∧ j < n := by
      have turns : ∃ k, steps * width ≤ size % (steps * width) * k := ⟨n, turned⟩
      have whole := Nat.mul_pos positive low
      have first := Nat.find_spec turns
      have least := Nat.find_min' turns turned
      cases found : Nat.find turns with
      | zero =>
        rw [found, Nat.mul_zero] at first
        omega
      | succ j =>
        rw [found] at first least
        have before := Nat.find_min turns (m := j) (by omega)
        exact ⟨j, Nat.not_le.mp before, first, least⟩
    have few := missing_of_le positive low before behind (rising j inside)
    have some_ : 0 < steps * width - size % (steps * width) :=
      Nat.sub_pos_of_lt (Nat.mod_lt size (Nat.mul_pos positive low))
    -- the step that leaves the top
    generalize missing : steps * width - size % (steps * width) = miss at few some_ past
    have at_ : miss * (steps / miss) ≤ steps := Nat.mul_div_le steps miss
    have next : steps < miss * (steps / miss + 1) := Nat.lt_mul_div_succ steps some_
    have start : 0 < steps / miss := Nat.div_pos (Nat.le_of_lt few) some_
    have early : steps / miss < n := by
      by_contra late
      have more : miss * n ≤ miss * (steps / miss) := Nat.mul_le_mul_left miss (Nat.not_lt.mp late)
      omega
    subst missing
    have top := ramp_top low start some_ at_
    have fallen := ramp_below_top wide few next at_
    have kept := rising _ early
    omega
  · rintro (below | short) i inside
    · exact rising_of_lt below inside
    · exact rising_of_short positive low short inside

end

end Ramps
