import BVault.Analysis.Tempo
import Mathlib.Algebra.BigOperators.Ring.List
import Mathlib.Algebra.Order.BigOperators.Group.List

/-!
# When the estimate is in the range

The best lag is the first one, or one whose correlation beats every earlier one
strictly; the parabola moves it by half a lag at most. So the lag is 0 only if
the first one is, which takes a sample rate up to 3 and samples that resemble
themselves best.
-/

namespace BVault.Analysis

/-- What the search knows after `k` lags. -/
structure Scanned (c : Nat → ℚ) (minLag k : Nat) (s : Search) : Prop where
  recorded : ∀ i < k, s.corr[minLag + i]? = some (c (minLag + i))
  nonneg : 0 ≤ s.bestCorr
  bounds : ∀ i < k, c (minLag + i) ≤ s.bestCorr
  first : s.bestLag = minLag → s.bestCorr ≤ max 0 (c minLag)
  later : s.bestLag ≠ minLag → minLag < s.bestLag ∧ s.bestLag < minLag + k ∧
    s.bestCorr = c s.bestLag ∧ 0 < c s.bestLag ∧ ∀ i, minLag ≤ i → i < s.bestLag → c i < c s.bestLag

theorem scanned_step {env : List ℚ} {minLag k : Nat} {s : Search}
    (scanned : Scanned (correlation env) minLag k s) (room : minLag + k < s.corr.length) :
    Scanned (correlation env) minLag (k + 1) (s.step env (minLag + k)) := by
  have recorded : ∀ i < k + 1, (s.corr.set (minLag + k) (correlation env (minLag + k)))[minLag + i]? =
      some (correlation env (minLag + i)) := by
    intro i bound
    by_cases last : i = k
    · subst last
      exact List.getElem?_set_self room
    · rw [List.getElem?_set_ne (by omega)]
      exact scanned.recorded i (by omega)
  have below : ∀ i < k + 1, i ≠ k → correlation env (minLag + i) ≤ s.bestCorr := by
    intro i bound other
    exact scanned.bounds i (by omega)
  by_cases better : s.bestCorr < correlation env (minLag + k)
  · have positive := lt_of_le_of_lt scanned.nonneg better
    simp only [Search.step, if_pos better]
    constructor
    · exact recorded
    · exact positive.le
    · intro i bound
      by_cases last : i = k
      · rw [last]
      · exact (below i bound last).trans better.le
    · intro same
      dsimp only at same
      have zero : k = 0 := by omega
      rw [zero, Nat.add_zero]
      exact le_max_right 0 _
    · intro other
      dsimp only at other ⊢
      refine ⟨by omega, by omega, rfl, positive, ?_⟩
      intro i low high
      obtain ⟨j, rfl⟩ := Nat.exists_eq_add_of_le low
      exact lt_of_le_of_lt (scanned.bounds j (by omega)) better
  · simp only [Search.step, if_neg better]
    constructor
    · exact recorded
    · exact scanned.nonneg
    · intro i bound
      by_cases last : i = k
      · rw [last]
        exact not_lt.mp better
      · exact below i bound last
    · exact scanned.first
    · intro other
      dsimp only at other ⊢
      obtain ⟨above, inside, rest⟩ := scanned.later other
      exact ⟨above, by omega, rest⟩

theorem length_corr_step (env : List ℚ) (s : Search) (lag : Nat) :
    (s.step env lag).corr.length = s.corr.length := by
  simp only [Search.step]
  split <;> exact List.length_set

/-- The whole search. -/
theorem scanned_search (env : List ℚ) (minLag hi : Nat) :
    Scanned (correlation env) minLag (hi + 1 - minLag) (search env minLag hi) := by
  have prefixes : ∀ k ≤ hi + 1 - minLag,
      Scanned (correlation env) minLag k ((List.range' minLag k).foldl (Search.step env)
        ⟨List.replicate (hi + 1) 0, minLag, 0⟩) ∧
      ((List.range' minLag k).foldl (Search.step env)
        ⟨List.replicate (hi + 1) 0, minLag, 0⟩).corr.length = hi + 1 := by
    intro k
    induction k with
    | zero =>
      intro _
      refine ⟨⟨nofun, le_refl 0, nofun, fun _ => le_max_left 0 _, fun no => absurd rfl no⟩, ?_⟩
      exact List.length_replicate
    | succ k ih =>
      intro more
      obtain ⟨scanned, length⟩ := ih (by omega)
      simp only [List.range'_1_concat, List.foldl_append, List.foldl_cons, List.foldl_nil]
      constructor
      · exact scanned_step scanned (by omega)
      · rw [length_corr_step, length]
  exact (prefixes _ (Nat.le_refl _)).1

/-- The lag is 0 exactly when the search starts there and finds nothing better. -/
theorem bestLag_eq_zero_iff (env : List ℚ) (minLag hi : Nat) :
    (search env minLag hi).bestLag = 0 ↔
      minLag = 0 ∧ ∀ i ≤ hi, correlation env i ≤ max 0 (correlation env 0) := by
  have scanned := scanned_search env minLag hi
  constructor
  · intro zero
    have start : minLag = 0 := by
      by_contra other
      have := (scanned.later (by omega)).1
      omega
    subst start
    refine ⟨rfl, ?_⟩
    intro i bound
    have best := scanned.bounds i (by omega)
    rw [Nat.zero_add] at best
    exact best.trans (scanned.first zero)
  · rintro ⟨rfl, none⟩
    by_contra other
    obtain ⟨above, inside, -, positive, earlier⟩ := scanned.later other
    rcases le_max_iff.mp (none (search env 0 hi).bestLag (by omega)) with low | low
    · exact absurd positive (not_lt.mpr low)
    · exact absurd (earlier 0 (by omega) above) (not_lt.mpr low)

/-- The peak of a parabola through a strict rise and no further rise is within half a step. -/
theorem parabola_offset {y0 y1 y2 : ℚ} (rise : y0 < y1) (level : y2 ≤ y1) :
    -(1 / 2) ≤ 1 / 2 * (y0 - y2) / (y0 - 2 * y1 + y2) := by
  have falls : y0 - 2 * y1 + y2 < 0 := by linarith
  rw [le_div_iff_of_neg falls]
  linarith

theorem refinedLag_of_first {s : Search} {minLag : Nat} (hi : Nat) (first : s.bestLag = minLag) :
    refinedLag s minLag hi = minLag := by
  rw [refinedLag, if_neg (fun inside => by omega), first]

theorem refinedLag_of_later {env : List ℚ} {minLag hi : Nat}
    (later : (search env minLag hi).bestLag ≠ minLag) :
    1 / 2 ≤ refinedLag (search env minLag hi) minLag hi := by
  have scanned := scanned_search env minLag hi
  obtain ⟨above, inside, best, -, earlier⟩ := scanned.later later
  have whole : (1 : ℚ) ≤ (search env minLag hi).bestLag := by
    exact_mod_cast (by omega : 1 ≤ (search env minLag hi).bestLag)
  have read : ∀ i, minLag ≤ i → i ≤ hi →
      (search env minLag hi).corr[i]?.getD 0 = correlation env i := by
    intro i low high
    obtain ⟨j, rfl⟩ := Nat.exists_eq_add_of_le low
    rw [scanned.recorded j (by omega)]
    rfl
  rw [refinedLag]
  split
  · rename_i peak
    have rise := earlier ((search env minLag hi).bestLag - 1) (by omega) (by omega)
    have level : correlation env ((search env minLag hi).bestLag + 1) ≤
        correlation env (search env minLag hi).bestLag := by
      have bound := scanned.bounds ((search env minLag hi).bestLag + 1 - minLag) (by omega)
      rwa [best, Nat.add_sub_cancel' (by omega)] at bound
    have offset := parabola_offset rise level
    simp only [read _ (by omega : minLag ≤ (search env minLag hi).bestLag - 1) (by omega),
      read _ (by omega : minLag ≤ (search env minLag hi).bestLag) (by omega),
      read _ (by omega : minLag ≤ (search env minLag hi).bestLag + 1) (by omega)]
    split
    · linarith
    · linarith
  · linarith

/-- The refined lag is 0 where the best one is, and positive elsewhere. -/
theorem refinedLag_cases (env : List ℚ) (minLag hi : Nat) :
    ((search env minLag hi).bestLag = 0 ∧ refinedLag (search env minLag hi) minLag hi = 0) ∨
      ((search env minLag hi).bestLag ≠ 0 ∧ 0 < refinedLag (search env minLag hi) minLag hi) := by
  by_cases first : (search env minLag hi).bestLag = minLag
  · rw [refinedLag_of_first hi first, first]
    by_cases zero : minLag = 0
    · exact .inl ⟨zero, by rw [zero, Nat.cast_zero]⟩
    · exact .inr ⟨zero, Nat.cast_pos.mpr (by omega)⟩
  · have positive := refinedLag_of_later first
    have above := ((scanned_search env minLag hi).later first).1
    exact .inr ⟨by omega, by linarith⟩

theorem chunks_ne_nil {α : Type*} {size : Nat} (some_size : 0 < size) {xs : List α}
    (nonempty : xs ≠ []) : chunks size xs ≠ [] := by
  have long := List.length_pos_of_ne_nil nonempty
  have many : 0 < (xs.length + size - 1) / size := Nat.div_pos (by omega) some_size
  intro none
  have length := congrArg List.length none
  rw [chunks, List.length_map, List.length_range, List.length_nil] at length
  omega

theorem chunks_one {α : Type*} (xs : List α) : chunks 1 xs = xs.map fun x => [x] := by
  apply List.ext_getElem?
  intro i
  rw [chunks, List.getElem?_map, List.getElem?_map, Nat.add_sub_cancel, Nat.div_one]
  by_cases inside : i < xs.length
  · rw [List.getElem?_range inside, List.getElem?_eq_getElem inside, Option.map_some,
      Option.map_some, Nat.mul_one, List.drop_eq_getElem_cons inside]
    rfl
  · rw [List.getElem?_eq_none (by rw [List.length_range]; omega),
      List.getElem?_eq_none (by omega)]
    rfl

/-- With a hop of one sample the envelope is the absolute value. -/
theorem envelope_of_hop_one (root : SquareRoot) (samples : List ℚ) :
    (chunks 1 samples).map (rms root) = samples.map fun x => |x| := by
  rw [chunks_one, List.map_map]
  apply List.map_congr_left
  intro x _
  simp [rms, root.exact]

theorem correlation_div (env : List ℚ) (m : ℚ) (lag : Nat) :
    correlation (env.map (· / m)) lag = correlation env lag / (m * m) := by
  have level : ∀ i : Nat, (env.map (· / m))[i]?.getD 0 = env[i]?.getD 0 / m := by
    intro i
    rw [List.getElem?_map]
    cases env[i]? with
    | none => simp
    | some x => rfl
  simp only [correlation, List.length_map, level]
  have term : ∀ i : Nat, env[i]?.getD 0 / m * (env[i + lag]?.getD 0 / m) =
      env[i]?.getD 0 * env[i + lag]?.getD 0 * (m * m)⁻¹ := by
    intro i
    rw [div_mul_div_comm, div_eq_mul_inv]
  simp only [term]
  rw [List.sum_map_mul_right, div_eq_mul_inv, div_eq_mul_inv, div_eq_mul_inv]
  ring

/-- Normalising keeps the order of correlations. -/
theorem correlation_normalize_le_iff (env : List ℚ) (a b : Nat) :
    correlation (normalize env) a ≤ correlation (normalize env) b ↔
      correlation env a ≤ correlation env b := by
  simp only [normalize]
  split
  · rename_i positive
    rw [correlation_div, correlation_div, div_le_div_iff_of_pos_right (mul_pos positive positive)]
  · rfl

theorem correlation_self_nonneg (env : List ℚ) : 0 ≤ correlation env 0 := by
  apply div_nonneg
  · apply List.sum_nonneg
    intro x mem
    obtain ⟨i, -, rfl⟩ := List.mem_map.mp mem
    exact mul_self_nonneg _
  · exact Nat.cast_nonneg _

/-- Below 4 samples a second the lags start at 0; from there on they do not. -/
theorem minLag_of_low {sampleRate : UInt32} (low : sampleRate.toNat < 4) :
    hopOf sampleRate = 1 ∧ ⌊(sampleRate.toNat : ℚ) * 60 / 200⌋.toNat = 0 ∧
      ⌊(sampleRate.toNat : ℚ) * 60 / 60⌋.toNat = sampleRate.toNat := by
  refine ⟨by rw [hopOf]; omega, ?_, ?_⟩
  · have small : (sampleRate.toNat : ℚ) < 4 := by exact_mod_cast low
    have below : ⌊(sampleRate.toNat : ℚ) * 60 / 200⌋ < 2 := by
      rw [Int.floor_lt]
      push_cast
      linarith
    have rate : sampleRate.toNat ≤ 3 := by omega
    have under : (sampleRate.toNat : ℚ) ≤ 3 := by exact_mod_cast rate
    have zero : ⌊(sampleRate.toNat : ℚ) * 60 / 200⌋ < 1 := by
      rw [Int.floor_lt]
      push_cast
      linarith
    omega
  · rw [mul_div_assoc, div_self (by norm_num), mul_one, Int.floor_natCast]
    rfl

theorem minLag_pos {sampleRate : UInt32} (enough : 4 ≤ sampleRate.toNat) :
    ⌊(sampleRate.toNat : ℚ) / hopOf sampleRate * 60 / 200⌋.toNat ≠ 0 := by
  have hop : 0 < hopOf sampleRate := by rw [hopOf]; omega
  have ratio : 4 * hopOf sampleRate ≤ sampleRate.toNat := by rw [hopOf]; omega
  have rate : (4 : ℚ) ≤ sampleRate.toNat / hopOf sampleRate := by
    rw [le_div_iff₀ (by exact_mod_cast hop)]
    exact_mod_cast ratio
  have one : (1 : ℤ) ≤ ⌊(sampleRate.toNat : ℚ) / hopOf sampleRate * 60 / 200⌋ := by
    rw [Int.le_floor]
    push_cast
    linarith
  omega

theorem lagOf_of_high (env : List ℚ) {sampleRate : UInt32} (enough : 4 ≤ sampleRate.toNat) :
    0 < lagOf env (sampleRate.toNat / hopOf sampleRate) := by
  rcases refinedLag_cases env ⌊(sampleRate.toNat : ℚ) / hopOf sampleRate * 60 / 200⌋.toNat _
    with ⟨zero, -⟩ | ⟨-, positive⟩
  · have start := ((bestLag_eq_zero_iff _ _ _).mp zero).1
    exact absurd start (minLag_pos enough)
  · exact positive

/-- The samples resemble themselves more at some lag than at none. -/
def Echoes (samples : List ℚ) (sampleRate : UInt32) : Prop :=
  let levels := samples.map fun x => |x|
  ∃ lag < levels.length, 0 < lag ∧ lag ≤ sampleRate.toNat ∧
    correlation levels 0 < correlation levels lag

instance (samples : List ℚ) (sampleRate : UInt32) : Decidable (Echoes samples sampleRate) :=
  inferInstanceAs (Decidable (∃ lag < (samples.map fun x => |x|).length, 0 < lag ∧
    lag ≤ sampleRate.toNat ∧ correlation (samples.map fun x => |x|) 0 <
      correlation (samples.map fun x => |x|) lag))

theorem lagOf_of_low (root : SquareRoot) {samples : List ℚ} (nonempty : samples ≠ [])
    {sampleRate : UInt32} (low : sampleRate.toNat < 4) :
    let env := normalize ((chunks (hopOf sampleRate) samples).map (rms root))
    (lagOf env (sampleRate.toNat / hopOf sampleRate) = 0 ∧ ¬ Echoes samples sampleRate) ∨
      (0 < lagOf env (sampleRate.toNat / hopOf sampleRate) ∧ Echoes samples sampleRate) := by
  obtain ⟨hop, first, last⟩ := minLag_of_low low
  rw [hop, envelope_of_hop_one, Nat.cast_one, div_one]
  intro env
  have length : env.length = samples.length := by
    simp only [env, normalize]
    split <;> simp
  have some_sample := List.length_pos_of_ne_nil nonempty
  have quiet : (search env 0 (min sampleRate.toNat (env.length - 1))).bestLag = 0 ↔
      ¬ Echoes samples sampleRate := by
    rw [bestLag_eq_zero_iff, max_eq_right (correlation_self_nonneg env)]
    constructor
    · rintro ⟨-, none⟩ ⟨lag, inside, positive, bound, louder⟩
      rw [List.length_map] at inside
      have under := none lag (by omega)
      rw [correlation_normalize_le_iff] at under
      exact absurd louder (not_lt.mpr under)
    · intro silent
      refine ⟨rfl, ?_⟩
      intro lag bound
      rw [correlation_normalize_le_iff]
      by_contra louder
      apply silent
      refine ⟨lag, by rw [List.length_map]; omega, ?_, by omega, not_le.mp louder⟩
      rcases Nat.eq_zero_or_pos lag with rfl | positive
      · exact absurd (le_refl _) louder
      · exact positive
  rw [lagOf, first, last]
  rcases refinedLag_cases env 0 (min sampleRate.toNat (env.length - 1)) with
    ⟨best, zero⟩ | ⟨best, positive⟩
  · exact .inl ⟨zero, quiet.mp best⟩
  · exact .inr ⟨positive, not_not.mp (mt quiet.mpr best)⟩

theorem divide_pos {a b : ℚ} (ha : 0 < a) (hb : 0 < b) :
    ∃ q : ℚ, divide a b = ↑q ∧ 0 < q :=
  ⟨a / b, if_neg hb.ne', div_pos ha hb⟩

/-- The lag is positive, or infinity is an estimate in the range. -/
def Foldable (heard : List ℚ) (sampleRate : UInt32) (range : BpmRange) : Prop :=
  if 4 ≤ sampleRate.toNat ∨ Echoes heard sampleRate then range.min ≠ ⊤ else range.max = ⊤

theorem folded_iff (root : SquareRoot) {heard : List ℚ} (nonempty : heard ≠ [])
    {sampleRate : UInt32} (running : 0 < sampleRate) {range : BpmRange} (octave : range.Octave) :
    (∃ fuel bpm, foldInto range fuel (divide ((sampleRate.toNat : ℚ) / hopOf sampleRate * 60)
        (lagOf (normalize ((chunks (hopOf sampleRate) heard).map (rms root)))
          (sampleRate.toNat / hopOf sampleRate))) = .bpm bpm ∧
      range.min ≤ bpm ∧ bpm ≤ range.max) ↔ Foldable heard sampleRate range := by
  have hop : 0 < hopOf sampleRate := by rw [hopOf]; omega
  have rate : 0 < sampleRate.toNat := UInt32.lt_iff_toNat_lt.mp running
  have numerator : 0 < (sampleRate.toNat : ℚ) / hopOf sampleRate * 60 := by positivity
  have finite : ∀ {lag : ℚ}, 0 < lag →
      ((∃ fuel bpm, foldInto range fuel
          (divide ((sampleRate.toNat : ℚ) / hopOf sampleRate * 60) lag) = .bpm bpm ∧
        range.min ≤ bpm ∧ bpm ≤ range.max) ↔ range.min ≠ ⊤) := by
    intro lag positive
    obtain ⟨q, is, some_q⟩ := divide_pos numerator positive
    rw [is]
    exact foldInto_finite octave some_q
  by_cases enough : 4 ≤ sampleRate.toNat
  · rw [Foldable, if_pos (.inl enough)]
    exact finite (lagOf_of_high _ enough)
  · rcases lagOf_of_low root nonempty (not_le.mp enough) with ⟨zero, silent⟩ | ⟨positive, echoes⟩
    · rw [Foldable, if_neg (not_or.mpr ⟨enough, silent⟩), zero, divide, if_pos rfl]
      exact foldInto_infinite range
    · rw [Foldable, if_pos (.inr echoes)]
      exact finite positive

/-- What `detect_bpm` needs: the product of rate and 30 fits `u32` and the rate is 4 or more or
the first half minute echoes; or, without overflow checks, the wrapped product is not 0. -/
def Estimable (checks : Bool) (samples : List ℚ) (sampleRate : UInt32) (range : BpmRange) : Prop :=
  if sampleRate.toNat * 30 < 2 ^ 32 then
    Foldable (samples.take (sampleRate.toNat * 30)) sampleRate range
  else
    checks = false ∧
      if sampleRate.toNat = 2 ^ 31 then range.min ≤ ↑(120 : ℚ) ∧ ↑(120 : ℚ) ≤ range.max
      else range.min ≠ ⊤

theorem take_min_length {α : Type*} (xs : List α) (n : Nat) :
    xs.take (min xs.length n) = xs.take n := by
  rcases Nat.le_total xs.length n with short | long
  · rw [Nat.min_eq_left short, List.take_length, List.take_of_length_le short]
  · rw [Nat.min_eq_right long]

theorem detectBpm_of_limit {checks : Bool} {samples : List ℚ} {sampleRate : UInt32} {limit : Nat}
    (nonempty : samples ≠ []) (product : mulU32 checks sampleRate.toNat 30 = some limit)
    (some_limit : limit ≠ 0) (root : SquareRoot) (fuel : Nat) (range : BpmRange) :
    samples.take limit ≠ [] ∧ detectBpm checks root fuel samples sampleRate range =
      foldInto range fuel (divide ((sampleRate.toNat : ℚ) / hopOf sampleRate * 60)
        (lagOf (normalize ((chunks (hopOf sampleRate) (samples.take limit)).map (rms root)))
          (sampleRate.toNat / hopOf sampleRate))) := by
  have heard : samples.take limit ≠ [] := by
    intro none
    rcases List.take_eq_nil_iff.mp none with zero | empty
    · exact some_limit zero
    · exact nonempty empty
  have hop : 0 < hopOf sampleRate := by rw [hopOf]; omega
  refine ⟨heard, ?_⟩
  rw [detectBpm, if_neg nonempty, product]
  simp only [take_min_length]
  rw [if_neg]
  exact fun none => chunks_ne_nil hop heard (List.map_eq_nil_iff.mp none)

/-- A product that wraps to 0: no sample is heard, and the default is returned. -/
theorem detectBpm_of_zero {checks : Bool} {samples : List ℚ} {sampleRate : UInt32}
    (nonempty : samples ≠ []) (product : mulU32 checks sampleRate.toNat 30 = some 0)
    (root : SquareRoot) (fuel : Nat) (range : BpmRange) :
    detectBpm checks root fuel samples sampleRate range = .bpm ↑(120 : ℚ) := by
  have hop : 0 < hopOf sampleRate := by rw [hopOf]; omega
  have silent : chunks (hopOf sampleRate) ([] : List ℚ) = [] := by
    rw [chunks, List.length_nil, Nat.zero_add, Nat.div_eq_of_lt (by omega)]
    rfl
  rw [detectBpm, if_neg nonempty, product]
  simp only [Nat.min_zero, List.take_zero, silent, List.map_nil, if_true]

/-- With overflow checks a product that does not fit panics. -/
theorem not_detectsInRange_of_overflow {samples : List ℚ} {sampleRate : UInt32}
    (nonempty : samples ≠ []) (large : ¬ sampleRate.toNat * 30 < 2 ^ 32) (root : SquareRoot)
    (range : BpmRange) : ¬ DetectsInRange true root samples sampleRate range := by
  have product : mulU32 true sampleRate.toNat 30 = none := by
    rw [mulU32, if_neg large, if_pos rfl]
  rintro ⟨fuel, bpm, returned, -⟩
  rw [detectBpm, if_neg nonempty, product] at returned
  cases returned

/-- For every buffer, rate and range an octave wide, in builds with and without overflow checks:
`detect_bpm` terminates with a value in the range exactly when the input is estimable. -/
theorem detectBpm_in_range_iff (checks : Bool) (root : SquareRoot) (samples : List ℚ)
    (sampleRate : UInt32) (range : BpmRange) (nonempty : samples ≠ []) (running : 0 < sampleRate)
    (octave : range.Octave) :
    DetectsInRange checks root samples sampleRate range ↔
      Estimable checks samples sampleRate range := by
  have rate : 0 < sampleRate.toNat := UInt32.lt_iff_toNat_lt.mp running
  rw [Estimable]
  by_cases small : sampleRate.toNat * 30 < 2 ^ 32
  · have product : mulU32 checks sampleRate.toNat 30 = some (sampleRate.toNat * 30) := if_pos small
    have run := detectBpm_of_limit nonempty product (by omega) root
    rw [if_pos small, ← folded_iff root (run 0 range).1 running octave, DetectsInRange]
    simp only [(run _ range).2]
  · rw [if_neg small]
    cases checks with
    | true =>
      exact iff_of_false (not_detectsInRange_of_overflow nonempty small root range)
        (fun estimable => Bool.noConfusion estimable.1)
    | false =>
      have product : mulU32 false sampleRate.toNat 30 = some (sampleRate.toNat * 30 % 2 ^ 32) := by
        rw [mulU32, if_neg small, if_neg Bool.false_ne_true]
      have word := sampleRate.toNat_lt
      rw [DetectsInRange]
      simp only [true_and]
      by_cases half : sampleRate.toNat = 2 ^ 31
      · have zero : sampleRate.toNat * 30 % 2 ^ 32 = 0 := by rw [half]; rfl
        rw [zero] at product
        rw [if_pos half]
        simp only [detectBpm_of_zero nonempty product root, Outcome.bpm.injEq]
        constructor
        · rintro ⟨-, bpm, rfl, inside⟩
          exact inside
        · intro inside
          exact ⟨0, _, rfl, inside⟩
      · have some_limit : sampleRate.toNat * 30 % 2 ^ 32 ≠ 0 := by omega
        have run := detectBpm_of_limit nonempty product some_limit root
        have fold := folded_iff root (run 0 range).1 running octave
        rw [Foldable, if_pos (.inl (by omega))] at fold
        rw [if_neg half, ← fold]
        simp only [(run _ range).2]

theorem BpmRange.standard_octave : BpmRange.standard.Octave where
  positive := WithTop.coe_pos.mpr (by norm_num)
  wide := WithTop.coe_le_coe.mpr (by norm_num)

/-- Four samples a second, with the range of techno. -/
theorem detectBpm_at_four : DetectsInRange true ratSqrt [1, 0, 1, 0] 4 BpmRange.standard := by
  have estimable : Estimable true [1, 0, 1, 0] 4 BpmRange.standard := by
    rw [Estimable, if_pos (by decide), Foldable, if_pos (Or.inl (by decide))]
    exact WithTop.coe_ne_top
  exact (detectBpm_in_range_iff true ratSqrt [1, 0, 1, 0] 4 BpmRange.standard (by decide)
    (by decide) BpmRange.standard_octave).mpr estimable

/-- A single sample at one sample a second: the lag is 0, and halving infinity never ends. -/
theorem detectBpm_hangs :
    ¬ ∀ (checks : Bool) (root : SquareRoot) (samples : List ℚ) (sampleRate : UInt32)
      (range : BpmRange), samples ≠ [] → 0 < sampleRate → range.Octave →
      DetectsInRange checks root samples sampleRate range := by
  intro always
  have ends := always true ratSqrt [1] 1 BpmRange.standard (by decide) (by decide)
    BpmRange.standard_octave
  have one : (1 : UInt32).toNat = 1 := rfl
  have product : mulU32 true (1 : UInt32).toNat 30 = some 30 := rfl
  have sample : ([1] : List ℚ) ≠ [] := List.cons_ne_nil 1 []
  have whole : List.take 30 ([1] : List ℚ) = [1] := rfl
  have run := detectBpm_of_limit sample product (by decide) ratSqrt
  rw [whole] at run
  rw [DetectsInRange] at ends
  simp only [(run _ _).2] at ends
  rw [folded_iff ratSqrt sample (by decide) BpmRange.standard_octave, Foldable, if_neg] at ends
  · exact WithTop.coe_ne_top ends
  · rintro (enough | ⟨lag, inside, positive, -⟩)
    · omega
    · simp at inside
      omega

end BVault.Analysis
