import BVault.Core.AnlzTags
import BVault.Lib.Ramps

/-!
# The seek index

The 400 offsets of a PVBR section are a ramp over the file, saturated at 64 bits
and cut to 32. They never leave the file, and they rise exactly when the ramp
does not turn over in its word.
-/

namespace BVault.Core

open Bytes Ramps

/-- An offset of the index, as it is read from the section. -/
def seekOffset (section_ : Bytes) (i : Nat) : Nat := readBE section_ (16 + 4 * i) 4

/-- A section that is an index into a file of this size. -/
structure IndexesFile (fileSizeBytes : UInt64) (section_ : Bytes) : Prop where
  length : section_.length = 1620
  start : seekOffset section_ 0 = 0
  inFile : ∀ i < 400, seekOffset section_ i ≤ fileSizeBytes.toNat
  rising : ∀ i < 399, seekOffset section_ i ≤ seekOffset section_ (i + 1)

/-- The last offset before the product saturates does not turn over: of the size only what is
left over whole turns of 400 words counts. -/
def Seekable (fileSizeBytes : UInt64) : Prop :=
  let size := fileSizeBytes.toNat
  let rest := size % (400 * 2 ^ 32)
  if size * 399 < 2 ^ 64 then rest * 399 < 400 * 2 ^ 32 ∨ rest + 1 = 400 * 2 ^ 32
  else rest * ((2 ^ 64 - 1) / size) < 400 * ((2 ^ 64 - 1) / 400 % 2 ^ 32 + 1)

theorem readBE_flatMap_range {n i : Nat} (f : Nat → Nat) (inside : i < n) (rest : Bytes) :
    readBE ((List.range n).flatMap (fun k => beBytes 4 (f k)) ++ rest) (4 * i) 4 =
      f i % 2 ^ 32 := by
  obtain ⟨behind, rfl⟩ : ∃ behind, n = i + (behind + 1) := ⟨n - i - 1, by omega⟩
  have front : ((List.range i).flatMap fun k => beBytes 4 (f k)).length = 4 * i := by
    rw [length_words, Nat.mul_comm]
  rw [List.range_add, List.flatMap_append, List.append_assoc, readBE_skip (by omega), front,
    Nat.sub_self, List.range_succ_eq_map, List.map_cons, List.flatMap_cons, List.append_assoc,
    readBE_front]
  rfl

variable (fileSizeBytes totalSamples : UInt64)

theorem seekOffset_eq {i : Nat} (inside : i < 400) :
    seekOffset (generatePvbrSection fileSizeBytes totalSamples) i =
      seekPoint fileSizeBytes i % 2 ^ 32 := by
  rw [seekOffset, generatePvbrSection, List.append_assoc, List.append_assoc,
    show 16 + 4 * i = 12 + (4 + 4 * i) by omega, readBE_body rfl, readBE_next]
  exact readBE_flatMap_range (seekPoint fileSizeBytes) inside _

theorem length_generatePvbrSection :
    (generatePvbrSection fileSizeBytes totalSamples).length = 1620 := by
  rw [generatePvbrSection]
  simp only [List.length_append, @length_tagHeader PVBR_TAG rfl, length_beBytes,
    length_words]

/-- A saturated product divides down to the file at most. -/
theorem seekPoint_le {i : Nat} (inside : i < 400) :
    seekPoint fileSizeBytes i ≤ fileSizeBytes.toNat := by
  have product : fileSizeBytes.toNat * i ≤ fileSizeBytes.toNat * 400 :=
    Nat.mul_le_mul_left _ (Nat.le_of_lt inside)
  rw [seekPoint]
  omega

section
variable {fileSizeBytes}

/-- While the product fits, the offset is on the ramp. -/
theorem offset_of_fits {i : Nat} (fits : fileSizeBytes.toNat * i < 2 ^ 64) :
    seekPoint fileSizeBytes i % 2 ^ 32 = ramp fileSizeBytes.toNat 400 (2 ^ 32) i := by
  rw [seekPoint, ramp, Nat.min_eq_left (by omega)]

/-- Behind that it stands still. -/
theorem offset_of_saturated {i : Nat} (saturated : 2 ^ 64 ≤ fileSizeBytes.toNat * i) :
    seekPoint fileSizeBytes i % 2 ^ 32 = (2 ^ 64 - 1) / 400 % 2 ^ 32 := by
  rw [seekPoint, Nat.min_eq_right (by omega)]

theorem rising_of_fits (fits : fileSizeBytes.toNat * 399 < 2 ^ 64) :
    (∀ i < 399, seekPoint fileSizeBytes i % 2 ^ 32 ≤ seekPoint fileSizeBytes (i + 1) % 2 ^ 32) ↔
      fileSizeBytes.toNat % (400 * 2 ^ 32) * 399 < 400 * 2 ^ 32 ∨
        fileSizeBytes.toNat % (400 * 2 ^ 32) + 1 = 400 * 2 ^ 32 := by
  have each : ∀ i ≤ 399, seekPoint fileSizeBytes i % 2 ^ 32 =
      ramp fileSizeBytes.toNat 400 (2 ^ 32) i := by
    intro i inside
    have less : fileSizeBytes.toNat * i ≤ fileSizeBytes.toNat * 399 := Nat.mul_le_mul_left _ inside
    exact offset_of_fits (by omega)
  have short : (400 * 2 ^ 32 - fileSizeBytes.toNat % (400 * 2 ^ 32)) * 399 ≤ 400 ↔
      fileSizeBytes.toNat % (400 * 2 ^ 32) + 1 = 400 * 2 ^ 32 := by
    have rest := Nat.mod_lt fileSizeBytes.toNat (show 400 * 2 ^ 32 > 0 by decide)
    omega
  rw [← short, ← Ramps.rising_iff (by decide) (by decide)]
  constructor
  · intro rising i inside
    rw [← each i (by omega), ← each (i + 1) (by omega)]
    exact rising i inside
  · intro rising i inside
    rw [each i (by omega), each (i + 1) (by omega)]
    exact rising i inside

theorem rising_of_saturates (saturates : 2 ^ 64 ≤ fileSizeBytes.toNat * 399) :
    (∀ i < 399, seekPoint fileSizeBytes i % 2 ^ 32 ≤ seekPoint fileSizeBytes (i + 1) % 2 ^ 32) ↔
      fileSizeBytes.toNat % (400 * 2 ^ 32) * ((2 ^ 64 - 1) / fileSizeBytes.toNat) <
        400 * ((2 ^ 64 - 1) / 400 % 2 ^ 32 + 1) := by
  have word := fileSizeBytes.toNat_lt
  -- the last step before the product saturates
  obtain ⟨n, last⟩ : ∃ n, n = (2 ^ 64 - 1) / fileSizeBytes.toNat := ⟨_, rfl⟩
  have below : fileSizeBytes.toNat * n ≤ 2 ^ 64 - 1 := last ▸ Nat.mul_div_le _ _
  have above : 2 ^ 64 - 1 < fileSizeBytes.toNat * (n + 1) :=
    last ▸ Nat.lt_mul_div_succ _ (by omega)
  have inside : n < 399 := by
    by_contra many
    have more : fileSizeBytes.toNat * 399 ≤ fileSizeBytes.toNat * n :=
      Nat.mul_le_mul_left _ (Nat.not_lt.mp many)
    omega
  have positive : 0 < n := last ▸ Nat.div_pos (by omega) (by omega)
  have on : ∀ i ≤ n, seekPoint fileSizeBytes i % 2 ^ 32 =
      ramp fileSizeBytes.toNat 400 (2 ^ 32) i := by
    intro i early
    have less : fileSizeBytes.toNat * i ≤ fileSizeBytes.toNat * n := Nat.mul_le_mul_left _ early
    exact offset_of_fits (by omega)
  have off : ∀ i > n, seekPoint fileSizeBytes i % 2 ^ 32 = (2 ^ 64 - 1) / 400 % 2 ^ 32 := by
    intro i late
    have more : fileSizeBytes.toNat * (n + 1) ≤ fileSizeBytes.toNat * i := Nat.mul_le_mul_left _ late
    exact offset_of_saturated (by omega)
  rw [← last]
  constructor
  · intro rising
    have upTo : ∀ i < n, ramp fileSizeBytes.toNat 400 (2 ^ 32) i ≤
        ramp fileSizeBytes.toNat 400 (2 ^ 32) (i + 1) := by
      intro i early
      rw [← on i (by omega), ← on (i + 1) early]
      exact rising i (by omega)
    have step := rising n inside
    rw [on n (Nat.le_refl n), off (n + 1) (Nat.lt_succ_self n)] at step
    rcases (Ramps.rising_iff (by decide) (by decide)).mp upTo with low | short
    · rw [ramp_of_lt low] at step
      omega
    · have rest := Nat.mod_lt fileSizeBytes.toNat (show 400 * 2 ^ 32 > 0 by decide)
      rw [ramp_top (by decide) positive (by omega) short] at step
      omega
  · intro low i _
    rcases Nat.lt_trichotomy i n with early | rfl | late
    · rw [on i (by omega), on (i + 1) early]
      exact rising_of_lt (by omega) early
    · rw [on i (Nat.le_refl i), off (i + 1) (Nat.lt_succ_self i), ramp_of_lt (by omega)]
      omega
    · rw [off i late, off (i + 1) (by omega)]

theorem rising_iff_seekable :
    (∀ i < 399, seekPoint fileSizeBytes i % 2 ^ 32 ≤ seekPoint fileSizeBytes (i + 1) % 2 ^ 32) ↔
      Seekable fileSizeBytes := by
  rw [Seekable]
  split
  · exact rising_of_fits (by assumption)
  · exact rising_of_saturates (by omega)

end

/-- The section indexes the file exactly when the ramp does not turn over. -/
theorem indexesFile_iff : IndexesFile fileSizeBytes
    (generatePvbrSection fileSizeBytes totalSamples) ↔ Seekable fileSizeBytes := by
  rw [← rising_iff_seekable]
  constructor
  · intro indexes i inside
    have rising := indexes.rising i inside
    rw [seekOffset_eq _ _ (by omega), seekOffset_eq _ _ (by omega)] at rising
    exact rising
  · intro rising
    constructor
    · exact length_generatePvbrSection fileSizeBytes totalSamples
    · rw [seekOffset_eq _ _ (by decide), seekPoint, Nat.mul_zero, Nat.zero_min,
        Nat.zero_div, Nat.zero_mod]
    · intro i inside
      rw [seekOffset_eq _ _ inside]
      exact Nat.le_trans (Nat.mod_le _ _) (seekPoint_le fileSizeBytes inside)
    · intro i inside
      rw [seekOffset_eq _ _ (by omega), seekOffset_eq _ _ (by omega)]
      exact rising i inside

/-- In a file of 5 GB the offsets begin again at the 344th of 400. -/
theorem fiveGigabytes_turn_over :
    seekOffset (generatePvbrSection 5000000000 0) 343 = 4287500000 ∧
      seekOffset (generatePvbrSection 5000000000 0) 344 = 5032704 ∧
      ¬ IndexesFile 5000000000 (generatePvbrSection 5000000000 0) := by
  have before : seekOffset (generatePvbrSection 5000000000 0) 343 = 4287500000 :=
    seekOffset_eq _ _ (by decide)
  have behind : seekOffset (generatePvbrSection 5000000000 0) 344 = 5032704 :=
    seekOffset_eq _ _ (by decide)
  refine ⟨before, behind, ?_⟩
  intro indexes
  have rising : seekOffset _ 343 ≤ seekOffset _ 344 := indexes.rising 343 (by decide)
  rw [before, behind] at rising
  omega

end BVault.Core
