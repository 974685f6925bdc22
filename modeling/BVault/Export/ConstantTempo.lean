import BVault.Export.Quantised
import Mathlib.Algebra.Order.Floor.Semiring
import Mathlib.Tactic.FieldSimp

/-!
# The beats of a constant tempo

The loop adds one beat length after the other and counts to four. Its beats are
the multiples of the beat length from the first beat on that lie below the
duration, and the bar position of a beat depends on its number alone.
-/

namespace BVault.Export

/-- The position within the bar of beat `k`. -/
def barPosition (k : Nat) : UInt8 := UInt8.ofNat (k % 4 + 1)

/-- Beat `k` of a grid. -/
def gridBeat (firstBeatMs beatDurationMs : ℚ) (tempo100 : UInt16) (k : Nat) : BeatAt :=
  ⟨barPosition k, firstBeatMs + k * beatDurationMs, tempo100⟩

theorem toNat_barPosition (k : Nat) : (barPosition k).toNat = k % 4 + 1 := by
  have small : k % 4 < 4 := Nat.mod_lt k (by omega)
  rw [barPosition, UInt8.toNat_ofNat']
  omega

/-- The counter of the loop goes from one bar position to the next. -/
theorem barPosition_succ (k : Nat) :
    (if barPosition k = 4 then 1 else barPosition k + 1) = barPosition (k + 1) := by
  apply UInt8.toNat_inj.mp
  have here := toNat_barPosition k
  have next := toNat_barPosition (k + 1)
  split
  · rename_i last
    rw [last] at here
    have wrapped : k % 4 = 3 := by simpa using here.symm
    rw [next]
    show 1 = (k + 1) % 4 + 1
    omega
  · rename_i inside
    have more : k % 4 ≠ 3 := by
      intro third
      apply inside
      apply UInt8.toNat_inj.mp
      rw [here, third]
      rfl
    rw [UInt8.toNat_add, here, next]
    show (k % 4 + 1 + 1) % 256 = (k + 1) % 4 + 1
    omega

section
variable {firstBeatMs durationMs beatDurationMs : ℚ} (tempo100 : UInt16) {n : Nat}

/-- From beat `j` on the loop adds the beats that are left; the induction is on their number. -/
theorem beatsFrom_gridBeat (inside : ∀ k < n, firstBeatMs + k * beatDurationMs < durationMs)
    (outside : durationMs ≤ firstBeatMs + n * beatDurationMs) {m j fuel : Nat}
    (left : j + m = n) (enough : m < fuel) :
    beatsFrom durationMs beatDurationMs tempo100 fuel (firstBeatMs + j * beatDurationMs)
        (barPosition j) =
      some ((List.range' j m).map (gridBeat firstBeatMs beatDurationMs tempo100)) := by
  induction m generalizing j fuel with
  | zero =>
    obtain ⟨fuel, rfl⟩ := Nat.exists_eq_add_of_lt enough
    obtain rfl : j = n := by omega
    rw [beatsFrom, if_neg (not_lt.mpr outside)]
    rfl
  | succ m ih =>
    obtain ⟨fuel, rfl⟩ : ∃ rest, fuel = rest + 1 := ⟨fuel - 1, by omega⟩
    have time : firstBeatMs + j * beatDurationMs + beatDurationMs =
        firstBeatMs + (j + 1 : Nat) * beatDurationMs := by
      push_cast
      ring
    have enough' : m < fuel := by omega
    have rest := ih (j := j + 1) (by omega) enough'
    rw [beatsFrom, if_pos (inside j (by omega)), time, barPosition_succ, rest, List.range'_succ]
    rfl

end

/-- The beats are exactly the multiples of the beat length below the duration. -/
structure IsGrid (bpm firstBeatMs durationMs : ℚ) (beats : List BeatAt) : Prop where
  beat : ∀ (k : Nat) (b : BeatAt), beats[k]? = some b →
    b.timeMs = firstBeatMs + k * 60000 / bpm ∧ b.beatNumber.toNat = k % 4 + 1
  below : ∀ k : Nat, k < beats.length ↔ firstBeatMs + k * 60000 / bpm < durationMs
  increasing : beats.Pairwise (fun b c => b.timeMs < c.timeMs)
  empty : beats = [] ↔ durationMs ≤ firstBeatMs
  count : firstBeatMs < durationMs →
    (beats.length : ℤ) = ⌈(durationMs - firstBeatMs) * bpm / 60000⌉

/-- So many multiples of the beat length lie below the duration. -/
def beatCount (bpm firstBeatMs durationMs : ℚ) : Nat :=
  ⌈(durationMs - firstBeatMs) * bpm / 60000⌉₊

theorem lt_beatCount_iff {bpm : ℚ} (positive : 0 < bpm) (firstBeatMs durationMs : ℚ) (k : Nat) :
    k < beatCount bpm firstBeatMs durationMs ↔ firstBeatMs + k * (60000 / bpm) < durationMs := by
  have length : (k : ℚ) * (60000 / bpm) * bpm = k * 60000 := by
    field_simp
  rw [beatCount, Nat.lt_ceil, lt_div_iff₀ (by norm_num), ← length]
  constructor
  · intro below
    have := lt_of_mul_lt_mul_right below positive.le
    linarith
  · intro below
    apply mul_lt_mul_of_pos_right _ positive
    linarith

theorem isGrid_gridBeats {bpm : ℚ} (positive : 0 < bpm) (firstBeatMs durationMs : ℚ)
    (tempo100 : UInt16) :
    IsGrid bpm firstBeatMs durationMs
      ((List.range' 0 (beatCount bpm firstBeatMs durationMs)).map
        (gridBeat firstBeatMs (60000 / bpm) tempo100)) := by
  have step : 0 < 60000 / bpm := div_pos (by norm_num) positive
  have below := lt_beatCount_iff positive firstBeatMs durationMs
  constructor
  case beat =>
    intro k b here
    rw [List.getElem?_map] at here
    obtain ⟨j, number, rfl⟩ := Option.map_eq_some_iff.mp here
    obtain ⟨-, rfl⟩ := List.getElem?_eq_some_iff.mp number
    rw [List.getElem_range', Nat.zero_add, Nat.one_mul]
    refine ⟨?_, toNat_barPosition k⟩
    rw [gridBeat, mul_div_assoc]
  case below =>
    intro k
    rw [List.length_map, List.length_range', below, mul_div_assoc]
  case increasing =>
    rw [List.pairwise_map]
    refine (List.pairwise_lt_range' 1).imp ?_
    intro j k earlier
    have more : (j : ℚ) < k := by exact_mod_cast earlier
    have times := mul_lt_mul_of_pos_right more step
    show firstBeatMs + j * (60000 / bpm) < firstBeatMs + k * (60000 / bpm)
    linarith
  case empty =>
    rw [List.map_eq_nil_iff, List.range'_eq_nil_iff]
    have first := below 0
    rw [Nat.cast_zero, zero_mul, add_zero] at first
    rw [← not_lt, ← first]
    omega
  case count =>
    intro some_
    have nonneg : 0 ≤ (durationMs - firstBeatMs) * bpm / 60000 := by
      have := mul_pos (sub_pos.mpr some_) positive
      positivity
    rw [List.length_map, List.length_range', beatCount]
    exact Int.natCast_ceil_eq_ceil nonneg

/-- `constant_tempo` returns the grid for every tempo, first beat and duration. -/
theorem constantTempo_isGrid {bpm : ℚ} (positive : 0 < bpm) (firstBeatMs durationMs : ℚ) :
    ∃ beats, IsGrid bpm firstBeatMs durationMs beats ∧
      ∃ enough, ∀ fuel > enough, constantTempo fuel bpm firstBeatMs durationMs = some beats := by
  have below := lt_beatCount_iff positive firstBeatMs durationMs
  let tempo100 := UInt16.ofNat (asUnsigned 16 (roundAway (bpm * 100)))
  refine ⟨_, isGrid_gridBeats positive firstBeatMs durationMs tempo100,
    beatCount bpm firstBeatMs durationMs, ?_⟩
  intro fuel enough
  have returned := beatsFrom_gridBeat tempo100 (fun k inside => (below k).mp inside)
    (not_lt.mp (fun less => lt_irrefl _ ((below _).mpr less))) (j := 0) (Nat.zero_add _) enough
  rw [Nat.cast_zero, zero_mul, add_zero] at returned
  exact returned

/-- At 120 beats a minute and a duration of two beats: the second beat length is the boundary. -/
theorem constantTempo_two_beats : (0 : ℚ) < 120 ∧
    ∃ beats, IsGrid 120 0 1000 beats ∧
      ∃ enough, ∀ fuel > enough, constantTempo fuel 120 0 1000 = some beats :=
  ⟨by norm_num, constantTempo_isGrid (by norm_num) 0 1000⟩

end BVault.Export
