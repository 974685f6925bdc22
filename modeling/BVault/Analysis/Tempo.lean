import Mathlib.Algebra.Order.Archimedean.Basic
import Mathlib.Algebra.Order.Ring.WithTop
import Mathlib.Data.Rat.Floor
import Mathlib.Data.Rat.Sqrt
import Mathlib.Tactic.Linarith
import Mathlib.Tactic.Ring
import Mathlib.Tactic.FieldSimp

/-!
# Tempo estimation

`detect_bpm` over the rationals, with infinity for a division by zero. The lag
of the best autocorrelation is 0 only at sample rates up to 3; the estimate is
then infinite and halving never brings it into the range.
-/

namespace BVault.Analysis

/-- A rational number or infinity. -/
abbrev Bpm := WithTop ℚ

/-- BPM octave-folding range. -/
structure BpmRange where
  min : Bpm
  max : Bpm

/-- Techno, house and most other material. -/
def BpmRange.standard : BpmRange := ⟨(90 : ℚ), (180 : ℚ)⟩

/-- A square root, exact on squares. -/
structure SquareRoot where
  sqrt : ℚ → ℚ
  exact : ∀ x, sqrt (x * x) = |x|

def ratSqrt : SquareRoot := ⟨Rat.sqrt, Rat.sqrt_eq⟩

/-- `slice::chunks`. -/
def chunks {α : Type*} (size : Nat) (xs : List α) : List (List α) :=
  (List.range ((xs.length + size - 1) / size)).map fun k => (xs.drop (k * size)).take size

def rms (root : SquareRoot) (c : List ℚ) : ℚ :=
  root.sqrt ((c.map fun s => s * s).sum / c.length)

def normalize (env : List ℚ) : List ℚ :=
  let maxEnv := env.foldl max 0
  if 0 < maxEnv then env.map (· / maxEnv) else env

def correlation (env : List ℚ) (lag : Nat) : ℚ :=
  let count := env.length - lag
  ((List.range count).map fun i => env[i]?.getD 0 * env[i + lag]?.getD 0).sum / count

structure Search where
  corr : List ℚ
  bestLag : Nat
  bestCorr : ℚ

def Search.step (env : List ℚ) (s : Search) (lag : Nat) : Search :=
  let c := correlation env lag
  let s := { s with corr := s.corr.set lag c }
  if s.bestCorr < c then { s with bestCorr := c, bestLag := lag } else s

def search (env : List ℚ) (minLag hi : Nat) : Search :=
  (List.range' minLag (hi + 1 - minLag)).foldl (Search.step env)
    ⟨List.replicate (hi + 1) 0, minLag, 0⟩

/-- Parabolic interpolation around the integer peak. -/
def refinedLag (s : Search) (minLag hi : Nat) : ℚ :=
  if minLag < s.bestLag ∧ s.bestLag < hi then
    let y0 := s.corr[s.bestLag - 1]?.getD 0
    let y1 := s.corr[s.bestLag]?.getD 0
    let y2 := s.corr[s.bestLag + 1]?.getD 0
    let denom := y0 - 2 * y1 + y2
    if 1 / 10 ^ 9 < |denom| then s.bestLag + 1 / 2 * (y0 - y2) / denom else s.bestLag
  else s.bestLag

/-- A positive number divided as IEEE does. -/
def divide (a b : ℚ) : Bpm := if b = 0 then ⊤ else ↑(a / b)

def Bpm.scale (k : ℚ) (bpm : Bpm) : Bpm := bpm.map (· * k)

/-- `while bpm < range.min`; `none` when the fuel is used up. -/
def doubleWhile (min : Bpm) : Nat → Bpm → Option Bpm
  | 0, _ => none
  | fuel + 1, bpm => if bpm < min then doubleWhile min fuel (bpm.scale 2) else some bpm

/-- `while bpm > range.max`. -/
def halveWhile (max : Bpm) : Nat → Bpm → Option Bpm
  | 0, _ => none
  | fuel + 1, bpm => if max < bpm then halveWhile max fuel (bpm.scale (1 / 2)) else some bpm

inductive Outcome where
  /-- A multiplication panics. -/
  | overflow
  /-- The loops need more fuel. -/
  | unfinished
  | bpm (value : Bpm)

/-- `a * b` on `u32`: a build with overflow checks panics, one without them wraps. -/
def mulU32 (checks : Bool) (a b : Nat) : Option Nat :=
  if a * b < 2 ^ 32 then some (a * b) else if checks then none else some (a * b % 2 ^ 32)

def hopOf (sampleRate : UInt32) : Nat := max (sampleRate.toNat / 250) 1

/-- The refined lag, over lags spanning 60 to 200 BPM. -/
def lagOf (env : List ℚ) (envRate : ℚ) : ℚ :=
  let minLag := ⌊envRate * 60 / 200⌋.toNat
  let maxLag := ⌊envRate * 60 / 60⌋.toNat
  let hi := min maxLag (env.length - 1)
  refinedLag (search env minLag hi) minLag hi

def foldInto (range : BpmRange) (fuel : Nat) (bpm : Bpm) : Outcome :=
  match (doubleWhile range.min fuel bpm).bind (halveWhile range.max fuel) with
  | none => .unfinished
  | some bpm => .bpm bpm

def detectBpm (checks : Bool) (root : SquareRoot) (fuel : Nat) (samples : List ℚ)
    (sampleRate : UInt32) (range : BpmRange) : Outcome :=
  if samples = [] then .bpm ↑(120 : ℚ)
  else
    match mulU32 checks sampleRate.toNat 30 with
    | none => .overflow
    | some limit =>
      let samples := samples.take (min samples.length limit)
      let hop := hopOf sampleRate
      let env := (chunks hop samples).map (rms root)
      if env = [] then .bpm ↑(120 : ℚ)
      else
        let envRate : ℚ := sampleRate.toNat / hop
        foldInto range fuel (divide (envRate * 60) (lagOf (normalize env) envRate))

/-- With enough fuel the estimate is in the range. -/
def DetectsInRange (checks : Bool) (root : SquareRoot) (samples : List ℚ) (sampleRate : UInt32)
    (range : BpmRange) : Prop :=
  ∃ fuel bpm, detectBpm checks root fuel samples sampleRate range = .bpm bpm ∧
    range.min ≤ bpm ∧ bpm ≤ range.max

theorem scale_coe (k q : ℚ) : Bpm.scale k ↑q = ↑(q * k) := rfl

theorem scale_top (k : ℚ) : Bpm.scale k ⊤ = ⊤ := rfl

/-- Doubling reaches a finite bound, and does not overshoot it twofold. -/
theorem doubleWhile_returns {min : ℚ} (n : Nat) {q : ℚ} (positive : 0 < q)
    (near : min ≤ q * 2 ^ n) :
    ∃ v : ℚ, (∀ fuel > n, doubleWhile min fuel q = some ↑v) ∧ 0 < v ∧ min ≤ v ∧
      (v = q ∨ v < 2 * min) := by
  induction n generalizing q with
  | zero =>
    rw [pow_zero, mul_one] at near
    refine ⟨q, ?_, positive, near, .inl rfl⟩
    intro fuel more
    cases fuel with
    | zero => omega
    | succ fuel => rw [doubleWhile, if_neg (not_lt.mpr (WithTop.coe_le_coe.mpr near))]
  | succ n ih =>
    by_cases below : q < min
    · have near' : min ≤ q * 2 * 2 ^ n := by
        rw [pow_succ] at near
        linarith
      obtain ⟨v, runs, pos, reached, origin⟩ := ih (by linarith : 0 < q * 2) near'
      refine ⟨v, ?_, pos, reached, ?_⟩
      · intro fuel more
        cases fuel with
        | zero => omega
        | succ fuel =>
          rw [doubleWhile, if_pos (WithTop.coe_lt_coe.mpr below), scale_coe]
          exact runs fuel (by omega)
      · rcases origin with rfl | under
        · exact .inr (by linarith)
        · exact .inr under
    · refine ⟨q, ?_, positive, not_lt.mp below, .inl rfl⟩
      intro fuel more
      cases fuel with
      | zero => omega
      | succ fuel => rw [doubleWhile, if_neg (mt WithTop.coe_lt_coe.mp below)]

/-- Halving reaches a positive bound, and does not undershoot it twofold. -/
theorem halveWhile_returns {max : ℚ} (n : Nat) {q : ℚ} (near : q ≤ max * 2 ^ n) :
    ∃ v : ℚ, (∀ fuel > n, halveWhile max fuel q = some ↑v) ∧ v ≤ max ∧
      (v = q ∨ max < 2 * v) := by
  induction n generalizing q with
  | zero =>
    rw [pow_zero, mul_one] at near
    refine ⟨q, ?_, near, .inl rfl⟩
    intro fuel more
    cases fuel with
    | zero => omega
    | succ fuel => rw [halveWhile, if_neg (not_lt.mpr (WithTop.coe_le_coe.mpr near))]
  | succ n ih =>
    by_cases above : max < q
    · have near' : q * (1 / 2) ≤ max * 2 ^ n := by
        rw [pow_succ] at near
        linarith
      obtain ⟨v, runs, reached, origin⟩ := ih near'
      refine ⟨v, ?_, reached, ?_⟩
      · intro fuel more
        cases fuel with
        | zero => omega
        | succ fuel =>
          rw [halveWhile, if_pos (WithTop.coe_lt_coe.mpr above), scale_coe]
          exact runs fuel (by omega)
      · rcases origin with rfl | high
        · exact .inr (by linarith)
        · exact .inr high
    · refine ⟨q, ?_, not_lt.mp above, .inl rfl⟩
      intro fuel more
      cases fuel with
      | zero => omega
      | succ fuel => rw [halveWhile, if_neg (mt WithTop.coe_lt_coe.mp above)]

theorem doubleWhile_infinite_bound (fuel : Nat) (q : ℚ) : doubleWhile ⊤ fuel q = none := by
  induction fuel generalizing q with
  | zero => rfl
  | succ fuel ih =>
    rw [doubleWhile, if_pos (WithTop.coe_lt_top q), scale_coe]
    exact ih _

theorem halveWhile_infinite {max : ℚ} (fuel : Nat) : halveWhile max fuel ⊤ = none := by
  induction fuel with
  | zero => rfl
  | succ fuel ih =>
    rw [halveWhile, if_pos (WithTop.coe_lt_top max), scale_top]
    exact ih

/-- The range is one to fold into: an octave wide at least. -/
structure BpmRange.Octave (range : BpmRange) : Prop where
  positive : 0 < range.min
  wide : range.min.scale 2 ≤ range.max

/-- A positive estimate is folded into the range if the range has a finite lower end. -/
theorem foldInto_finite {range : BpmRange} (octave : range.Octave) {q : ℚ} (positive : 0 < q) :
    (∃ fuel bpm, foldInto range fuel q = .bpm bpm ∧ range.min ≤ bpm ∧ bpm ≤ range.max) ↔
      range.min ≠ ⊤ := by
  obtain ⟨least, greatest⟩ := range
  obtain ⟨low, wide⟩ := octave
  simp only at low wide ⊢
  constructor
  · rintro ⟨fuel, bpm, returned, -⟩ rfl
    rw [foldInto, doubleWhile_infinite_bound] at returned
    cases returned
  · intro finite
    obtain ⟨min, rfl⟩ := WithTop.ne_top_iff_exists.mp finite
    have minPositive : 0 < min := WithTop.coe_pos.mp low
    rw [scale_coe] at wide
    obtain ⟨n, far⟩ := pow_unbounded_of_one_lt (min / q) (one_lt_two)
    have near : min ≤ q * 2 ^ n := by
      rw [div_lt_iff₀ positive] at far
      linarith
    obtain ⟨v, doubled, pos, reached, origin⟩ := doubleWhile_returns n positive near
    by_cases open_ : greatest = ⊤
    · subst open_
      refine ⟨n + 1, v, ?_, WithTop.coe_le_coe.mpr reached, le_top⟩
      rw [foldInto, doubled (n + 1) (by omega), Option.bind_some, halveWhile,
        if_neg not_top_lt]
    · obtain ⟨max, rfl⟩ := WithTop.ne_top_iff_exists.mp open_
      have wide : min * 2 ≤ max := WithTop.coe_le_coe.mp wide
      have maxPositive : 0 < max := by linarith
      obtain ⟨m, far'⟩ := pow_unbounded_of_one_lt (v / max) (one_lt_two)
      have near' : v ≤ max * 2 ^ m := by
        rw [div_lt_iff₀ maxPositive] at far'
        linarith
      obtain ⟨w, halved, under, origin'⟩ := halveWhile_returns m near'
      refine ⟨n + m + 1, w, ?_, ?_, WithTop.coe_le_coe.mpr under⟩
      · rw [foldInto, doubled (n + m + 1) (by omega), Option.bind_some,
          halved (n + m + 1) (by omega)]
      · apply WithTop.coe_le_coe.mpr
        rcases origin' with rfl | high
        · exact reached
        · linarith

/-- An infinite estimate is in the range only if the range has no upper end. -/
theorem foldInto_infinite (range : BpmRange) :
    (∃ fuel bpm, foldInto range fuel ⊤ = .bpm bpm ∧ range.min ≤ bpm ∧ bpm ≤ range.max) ↔
      range.max = ⊤ := by
  obtain ⟨least, greatest⟩ := range
  have kept : ∀ fuel, doubleWhile least (fuel + 1) ⊤ = some ⊤ := by
    intro fuel
    rw [doubleWhile, if_neg not_top_lt]
  constructor
  · rintro ⟨fuel, bpm, returned, -⟩
    by_contra bounded
    obtain ⟨max, is⟩ := WithTop.ne_top_iff_exists.mp bounded
    simp only at is
    subst is
    cases fuel with
    | zero => cases returned
    | succ fuel =>
      rw [foldInto, kept, Option.bind_some, halveWhile_infinite] at returned
      cases returned
  · intro is
    simp only at is
    subst is
    refine ⟨1, ⊤, ?_, le_top, le_top⟩
    rw [foldInto, kept, Option.bind_some, halveWhile, if_neg not_top_lt]

end BVault.Analysis
