import BVault.Core.Anlz
import Mathlib.Algebra.Order.Archimedean.Basic
import Mathlib.Data.Rat.Floor
import Mathlib.Tactic.Linarith
import Mathlib.Tactic.Ring

/-!
# Tempo and duration in the three writers

The device library and the beat grid round hundredths of a BPM and seconds to
the nearest integer; the row of a track in the database cuts them off. Read over
the rationals, the three agree about a track exactly when both fractions are
below one half.
-/

namespace BVault.Export

open BVault.Core Bytes

/-- `f64::round`: to the nearest integer, half away from zero. -/
def roundAway (x : ℚ) : ℤ := if 0 ≤ x then ⌊x + 1 / 2⌋ else ⌈x - 1 / 2⌉

/-- `as` to an unsigned type of this many bits: cut to an integer, saturating. -/
def asUnsigned (bits : Nat) (x : ℚ) : Nat := min ⌊x⌋.toNat (2 ^ bits - 1)

/-- `as i64` of an integer, saturating. -/
def asI64 (n : ℤ) : ℤ := max (-2 ^ 63) (min n (2 ^ 63 - 1))

theorem asUnsigned_eq_floor {bits : Nat} {x : ℚ} (nonneg : 0 ≤ x) (small : x < 2 ^ bits) :
    (asUnsigned bits x : ℤ) = ⌊x⌋ := by
  have low : 0 ≤ ⌊x⌋ := Int.floor_nonneg.mpr nonneg
  have high : ⌊x⌋ < 2 ^ bits := by
    rw [Int.floor_lt]
    exact_mod_cast small
  have cut : ⌊x⌋.toNat ≤ 2 ^ bits - 1 := by
    have word : ⌊x⌋.toNat < 2 ^ bits := by
      zify
      rw [Int.toNat_of_nonneg low]
      exact_mod_cast high
    omega
  rw [asUnsigned, Nat.min_eq_left cut, Int.toNat_of_nonneg low]

/-- The nearest integer is the one below exactly when the fraction is less than one half. -/
theorem roundAway_eq_floor_iff {x : ℚ} (nonneg : 0 ≤ x) :
    roundAway x = ⌊x⌋ ↔ Int.fract x < 1 / 2 := by
  rw [roundAway, if_pos nonneg, Int.floor_eq_iff]
  have split := Int.floor_add_fract x
  have fract := Int.fract_nonneg x
  constructor
  · rintro ⟨-, below⟩
    linarith
  · intro below
    constructor <;> linarith

theorem roundAway_bounds {x bound : ℚ} (nonneg : 0 ≤ x) {n : ℤ} (whole : bound = n)
    (under : x ≤ bound) : 0 ≤ roundAway x ∧ roundAway x ≤ n := by
  rw [roundAway, if_pos nonneg]
  constructor
  · apply Int.floor_nonneg.mpr
    linarith
  · apply Int.lt_add_one_iff.mp
    rw [Int.floor_lt]
    push_cast
    linarith

theorem asI64_eq {n : ℤ} (low : 0 ≤ n) (high : n < 2 ^ 63) : asI64 n = n := by
  rw [asI64]
  omega

/-- The tempo in the row of a track: `(bpm * 100.0) as u32`. -/
def pdbTempo (bpm : ℚ) : Nat := asUnsigned 32 (bpm * 100)

/-- The duration in the row of a track: `duration_secs as u16`. -/
def pdbDuration (durationSecs : ℚ) : Nat := asUnsigned 16 durationSecs

/-- The `bpmx100` of the device library. -/
def libraryBpmx100 (bpm : ℚ) : ℤ := asI64 (roundAway (bpm * 100))

/-- The `length` of the device library. -/
def libraryLength (durationSecs : ℚ) : ℤ := asI64 (roundAway durationSecs)

/-- A beat at a rational time. -/
structure BeatAt where
  beatNumber : UInt8
  timeMs : ℚ
  tempo100 : UInt16

/-- `while time < duration_ms`; `none` when the fuel is used up. -/
def beatsFrom (durationMs beatDurationMs : ℚ) (tempo100 : UInt16) :
    Nat → ℚ → UInt8 → Option (List BeatAt)
  | 0, _, _ => none
  | fuel + 1, time, beatInBar =>
    if time < durationMs then
      (beatsFrom durationMs beatDurationMs tempo100 fuel (time + beatDurationMs)
        (if beatInBar = 4 then 1 else beatInBar + 1)).map (⟨beatInBar, time, tempo100⟩ :: ·)
    else some []

/-- `BeatGrid::constant_tempo`. -/
def constantTempo (fuel : Nat) (bpm firstBeatMs durationMs : ℚ) : Option (List BeatAt) :=
  beatsFrom durationMs (60000 / bpm) (UInt16.ofNat (asUnsigned 16 (roundAway (bpm * 100)))) fuel
    firstBeatMs 1

/-- The grid as it is stored; `f64` takes rational times to floating-point ones. -/
def BeatAt.grid (f64 : ℚ → Float) (beats : List BeatAt) : BeatGrid :=
  ⟨beats.map fun b => ⟨b.beatNumber, f64 b.timeMs, b.tempo100⟩⟩

/-- The tempo of entry `i` of a PQTZ section. -/
def pqtzTempo (section_ : Bytes) (i : Nat) : Nat := readBE section_ (24 + i * 8 + 2) 2

/-- The writers of one export say the same about the tempo and the duration of a track: the row,
the device library, every beat of the grid from any first beat on, and its PQTZ entry. -/
structure WritersAgree (bpm durationSecs : ℚ) : Prop where
  tempo : (pdbTempo bpm : ℤ) = libraryBpmx100 bpm
  beats : ∀ firstBeatMs durationMs f64, ∃ fuel beats,
    constantTempo fuel bpm firstBeatMs durationMs = some beats ∧
      ∀ i b, beats[i]? = some b → b.tempo100.toNat = pdbTempo bpm ∧
        pqtzTempo (generatePqtzSection (BeatAt.grid f64 beats)) i = pdbTempo bpm
  duration : (pdbDuration durationSecs : ℤ) = libraryLength durationSecs

/-- With enough fuel the loop ends, and every beat has the tempo it was given. -/
theorem beatsFrom_returns {durationMs beatDurationMs : ℚ} (tempo100 : UInt16) (n : Nat) {time : ℚ}
    (beatInBar : UInt8) (near : durationMs ≤ time + n * beatDurationMs) :
    ∃ beats, beatsFrom durationMs beatDurationMs tempo100 (n + 1) time beatInBar = some beats ∧
      ∀ b ∈ beats, b.tempo100 = tempo100 := by
  induction n generalizing time beatInBar with
  | zero =>
    rw [Nat.cast_zero, zero_mul, add_zero] at near
    refine ⟨[], ?_, nofun⟩
    rw [beatsFrom, if_neg (not_lt.mpr near)]
  | succ n ih =>
    by_cases more : time < durationMs
    · have near' : durationMs ≤ time + beatDurationMs + n * beatDurationMs := by
        rw [Nat.cast_succ] at near
        linarith
      obtain ⟨beats, rest, tempi⟩ := ih (if beatInBar = 4 then 1 else beatInBar + 1) near'
      refine ⟨⟨beatInBar, time, tempo100⟩ :: beats, ?_, ?_⟩
      · rw [beatsFrom, if_pos more, rest]
        rfl
      · intro b mem
        rcases List.mem_cons.mp mem with rfl | later
        · rfl
        · exact tempi b later
    · refine ⟨[], ?_, nofun⟩
      rw [beatsFrom, if_neg more]

theorem constantTempo_returns {bpm : ℚ} (positive : 0 < bpm) (firstBeatMs durationMs : ℚ) :
    ∃ fuel beats, constantTempo fuel bpm firstBeatMs durationMs = some beats ∧
      ∀ b ∈ beats, b.tempo100 = UInt16.ofNat (asUnsigned 16 (roundAway (bpm * 100))) := by
  have step : 0 < 60000 / bpm := div_pos (by norm_num) positive
  obtain ⟨n, far⟩ := exists_nat_gt ((durationMs - firstBeatMs) / (60000 / bpm))
  rw [div_lt_iff₀ step] at far
  have near : durationMs ≤ firstBeatMs + n * (60000 / bpm) := by linarith
  obtain ⟨beats, returned, tempi⟩ := beatsFrom_returns
    (UInt16.ofNat (asUnsigned 16 (roundAway (bpm * 100)))) n 1 near
  exact ⟨n + 1, beats, returned, tempi⟩

/-- PQTZ stores the tempo of each beat of the grid. -/
theorem pqtzTempo_grid (f64 : ℚ → Float) {beats : List BeatAt} {i : Nat} {b : BeatAt}
    (here : beats[i]? = some b) :
    pqtzTempo (generatePqtzSection (BeatAt.grid f64 beats)) i = b.tempo100.toNat := by
  let stored : BeatAt → Beat := fun b => ⟨b.beatNumber, f64 b.timeMs, b.tempo100⟩
  have sizes : ∀ p ∈ (beats.map stored).map beatEntry, p.length = 8 := by
    intro p mem
    obtain ⟨beat, -, rfl⟩ := List.mem_map.mp mem
    simp [beatEntry]
  have entry : ((beats.map stored).map beatEntry)[i]? = some (beatEntry (stored b)) := by
    rw [List.getElem?_map, List.getElem?_map, here]
    rfl
  have whole := slice_pages sizes entry
  have header : ∀ m n : Nat, (tagHeader PQTZ_TAG 24 m ++ beBytes 4 0 ++ beBytes 4 0x00080000 ++
      beBytes 4 n).length = 24 := by
    intro m n
    simp [tagHeader, PQTZ_TAG]
  rw [pqtzTempo, generatePqtzSection, readBE_skip (by rw [header]; omega), header, readBE,
    List.flatMap_def]
  have inner : slice ((beats.map stored).map beatEntry).flatten (24 + i * 8 + 2 - 24) 2 =
      slice (beatEntry (stored b)) 2 2 := by
    rw [← whole, slice_slice (by omega)]
    congr 1
    omega
  have front : (beBytes 2 (stored b).beatNumber.toNat).length ≤ 2 := (length_beBytes _ _).le
  have word := readBE_front 2 (stored b).tempo100.toNat
    (beBytes 4 (stored b).timeMs.toUInt32.toNat)
  have small := (stored b).tempo100.toNat_lt
  calc beNat (slice ((beats.map stored).map beatEntry).flatten (24 + i * 8 + 2 - 24) 2)
      = readBE (beBytes 2 (stored b).beatNumber.toNat ++ (beBytes 2 (stored b).tempo100.toNat ++
          beBytes 4 (stored b).timeMs.toUInt32.toNat)) 2 2 := by
        rw [inner, beatEntry, List.append_assoc]
        rfl
    _ = (stored b).tempo100.toNat % 256 ^ 2 := by
        rw [readBE_skip front, length_beBytes]
        exact word
    _ = b.tempo100.toNat := Nat.mod_eq_of_lt small

/-- Up to 65535, cutting off and rounding agree exactly below one half. -/
theorem cut_eq_rounded_iff {bits : Nat} {x : ℚ} (wide : 16 ≤ bits) (nonneg : 0 ≤ x)
    (most : x ≤ 65535) :
    (asUnsigned bits x : ℤ) = asI64 (roundAway x) ↔ Int.fract x < 1 / 2 := by
  obtain ⟨low, high⟩ := roundAway_bounds (n := 65535) nonneg (by norm_num) most
  have room : (2 : ℚ) ^ 16 ≤ 2 ^ bits := pow_le_pow_right₀ (by norm_num) wide
  have small : x < 2 ^ bits := by
    norm_num at room
    linarith
  rw [asUnsigned_eq_floor nonneg small, asI64_eq low (by omega), eq_comm]
  exact roundAway_eq_floor_iff nonneg

/-- The `u16` of a beat holds the rounded hundredths up to 65535. -/
theorem toNat_tempo100 {x : ℚ} (nonneg : 0 ≤ x) (most : x ≤ 65535) :
    ((UInt16.ofNat (asUnsigned 16 (roundAway x))).toNat : ℤ) = asI64 (roundAway x) := by
  obtain ⟨low, high⟩ := roundAway_bounds (n := 65535) nonneg (by norm_num) most
  have cut : (asUnsigned 16 (roundAway x) : ℤ) = roundAway x := by
    have low' : (0 : ℚ) ≤ roundAway x := by exact_mod_cast low
    have high' : (roundAway x : ℚ) ≤ 65535 := by exact_mod_cast high
    rw [asUnsigned_eq_floor low' (by linarith), Int.floor_intCast]
  rw [UInt16.toNat_ofNat', Nat.mod_eq_of_lt (by omega), cut, asI64_eq low (by omega)]

/-- For every tempo up to 655.35 and every duration up to 65535 seconds: the writers agree
exactly when neither the hundredths nor the seconds have a fraction of one half or more. -/
theorem writers_agree_iff (bpm durationSecs : ℚ) (positive : 0 < bpm) (slow : bpm ≤ 655.35)
    (nonneg : 0 ≤ durationSecs) (short : durationSecs ≤ 65535) :
    WritersAgree bpm durationSecs ↔
      Int.fract (bpm * 100) < 1 / 2 ∧ Int.fract durationSecs < 1 / 2 := by
  have hundredths : 0 ≤ bpm * 100 := by linarith
  have most : bpm * 100 ≤ 65535 := by
    norm_num at slow
    linarith
  have tempi : (pdbTempo bpm : ℤ) = libraryBpmx100 bpm ↔ Int.fract (bpm * 100) < 1 / 2 :=
    cut_eq_rounded_iff (by decide) hundredths most
  have lengths : (pdbDuration durationSecs : ℤ) = libraryLength durationSecs ↔
      Int.fract durationSecs < 1 / 2 := cut_eq_rounded_iff (by decide) nonneg short
  constructor
  · rintro ⟨tempo, -, duration⟩
    exact ⟨tempi.mp tempo, lengths.mp duration⟩
  · rintro ⟨tempo, duration⟩
    have row := tempi.mpr tempo
    refine ⟨row, ?_, lengths.mpr duration⟩
    intro firstBeatMs durationMs f64
    obtain ⟨fuel, beats, returned, given⟩ := constantTempo_returns positive firstBeatMs durationMs
    refine ⟨fuel, beats, returned, ?_⟩
    intro i b here
    have same : b.tempo100.toNat = pdbTempo bpm := by
      have beat := toNat_tempo100 hundredths most
      rw [given b (List.mem_of_getElem? here)]
      exact_mod_cast beat.trans row.symm
    exact ⟨same, (pqtzTempo_grid f64 here).trans same⟩

theorem writers_at_128 : WritersAgree 128 300 := by
  have hundredths : Int.fract ((128 : ℚ) * 100) = 0 := by norm_num
  have seconds : Int.fract (300 : ℚ) = 0 := by norm_num
  refine (writers_agree_iff 128 300 (by norm_num) (by norm_num) (by norm_num) (by norm_num)).mpr ?_
  rw [hundredths, seconds]
  norm_num

/-- 128.007 BPM: 12800 in the row and 12801 in the device library. -/
theorem writers_disagree :
    ¬ ∀ bpm durationSecs : ℚ, 0 < bpm → bpm ≤ 655.35 → 0 ≤ durationSecs → durationSecs ≤ 65535 →
      WritersAgree bpm durationSecs := by
  intro always
  have tempo := (always (128007 / 1000) 300 (by norm_num) (by norm_num) (by norm_num)
    (by norm_num)).tempo
  revert tempo
  decide +kernel

end BVault.Export
