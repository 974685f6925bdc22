import BVault.Core.Track
import Mathlib.Data.Int.Log
import Mathlib.Data.Rat.Floor

/-!
# The detail waveform

`generate_detail` makes 150 entries for a second of the track. One loop pushes a
silent entry for each window behind the samples, and a second one the measured
windows. Where the samples end before the track does, the silent entries come
first and the measured ones are shown too late.
-/

namespace BVault.Analysis

open BVault.Core

deriving instance DecidableEq for WaveformColorEntry

instance : Inhabited WaveformColorEntry := ⟨⟨0, 0, 0, 0⟩⟩

/-- An `f64`; a finite one is the number it stands for. -/
inductive F64 where
  | finite (value : ℚ)
  | infinite (negative : Bool)
  | nan

/-- The nearest integer, an even one where two are. -/
def roundTiesEven (x : ℚ) : ℤ :=
  let below := ⌊x⌋
  if x - below < 1 / 2 then below
  else if 1 / 2 < x - below then below + 1
  else if below % 2 = 0 then below else below + 1

/-- The distance of the `f64` values around a number. -/
def ulp (x : ℚ) : ℚ := 2 ^ max (Int.log 2 |x| - 52) (-1074)

/-- The `f64` nearest to a number. -/
def toF64 (x : ℚ) : F64 :=
  let nearest := roundTiesEven (x / ulp x) * ulp x
  if 2 ^ 1024 ≤ |nearest| then .infinite (nearest < 0) else .finite nearest

/-- `x * 150.0`. -/
def F64.times150 : F64 → F64
  | .finite value => toF64 (value * 150)
  | x => x

/-- `x.ceil() as usize`, which saturates. -/
def F64.ceilUsize : F64 → Nat
  | .finite value => min ⌈value⌉.toNat (2 ^ 64 - 1)
  | .infinite negative => if negative then 0 else 2 ^ 64 - 1
  | .nan => 0

/-- 150 entries per second, and one at least. -/
def numEntries (durationSecs : F64) : Nat := max durationSecs.times150.ceilUsize 1

example : numEntries (.finite 300) = 45000 := by decide +kernel

section
variable {Sample Raw : Type}

/-- Samples per waveform entry. -/
def samplesPerEntry (sampleRate : UInt32) : Nat := sampleRate.toNat / 150

/-- Energies and amplitude of the window that starts at a sample are measured by `measure`. -/
def pushWindow (measure : List Sample → Nat → Raw) (perEntry : Nat) (samples : List Sample)
    (s : List WaveformColorEntry × List Raw) (entryIdx : Nat) :
    List WaveformColorEntry × List Raw :=
  let sampleStart := entryIdx * perEntry
  if samples.length ≤ sampleStart then (s.1 ++ [default], s.2)
  else (s.1, s.2 ++ [measure samples sampleStart])

/-- Generate the detail waveform; `normalise` scales a window by the percentiles of all. Limits
of memory are left out: the vectors take any number of entries. -/
def generateDetail (measure : List Sample → Nat → Raw)
    (normalise : List Raw → Raw → WaveformColorEntry) (sampleRate : UInt32)
    (samples : List Sample) (durationSecs : F64) : List WaveformColorEntry :=
  let count := numEntries durationSecs
  if samples.isEmpty then List.replicate count default
  else if samplesPerEntry sampleRate = 0 then List.replicate count default
  else
    let (entries, raw) := (List.range count).foldl
      (pushWindow measure (samplesPerEntry sampleRate) samples) ([], [])
    entries ++ raw.map (normalise raw)

/-- The window of an entry starts inside the samples. -/
def Inside (perEntry : Nat) (samples : List Sample) (i : Nat) : Prop :=
  i * perEntry < samples.length

instance (perEntry : Nat) (samples : List Sample) (i : Nat) : Decidable (Inside perEntry samples i) :=
  inferInstanceAs (Decidable (_ < _))

/-- The measured windows, in the order of time. -/
def windows (measure : List Sample → Nat → Raw) (perEntry : Nat) (samples : List Sample)
    (count : Nat) : List Raw :=
  ((List.range count).filter (Inside perEntry samples)).map
    (fun i => measure samples (i * perEntry))

/-- Every entry shows its own time: the window that starts there, or silence behind the end. -/
structure InTime (measure : List Sample → Nat → Raw)
    (normalise : List Raw → Raw → WaveformColorEntry) (sampleRate : UInt32)
    (samples : List Sample) (durationSecs : F64) (detail : List WaveformColorEntry) : Prop where
  length : detail.length = numEntries durationSecs
  shows : ∀ i < numEntries durationSecs, detail[i]? = some
    (if Inside (samplesPerEntry sampleRate) samples i then
      normalise (windows measure (samplesPerEntry sampleRate) samples (numEntries durationSecs))
        (measure samples (i * samplesPerEntry sampleRate))
    else default)

/-- Equal entries in front of others, or behind them. -/
theorem replicate_append_eq_iff {α : Type} (n : Nat) (a : α) (xs : List α) :
    List.replicate n a ++ xs = xs ++ List.replicate n a ↔ n = 0 ∨ ∀ x ∈ xs, x = a := by
  constructor
  · intro same
    rcases Nat.eq_zero_or_pos n with none_ | positive
    · exact Or.inl none_
    · right
      induction xs with
      | nil => nofun
      | cons x xs ih =>
        obtain ⟨k, rfl⟩ := Nat.exists_eq_succ_of_ne_zero positive.ne'
        rw [List.replicate_succ, List.cons_append, List.cons_append] at same
        obtain ⟨rfl, tail⟩ := List.cons.inj same
        have shifted : List.replicate (k + 1) a ++ xs = xs ++ List.replicate (k + 1) a := by
          rw [List.replicate_succ', List.append_assoc, List.singleton_append, tail,
            ← List.replicate_succ', List.replicate_succ]
        intro x mem
        rcases List.mem_cons.mp mem with rfl | mem
        · rfl
        · exact ih shifted x mem
  · rintro (rfl | all)
    · exact (List.append_nil _).symm
    · have same := List.eq_replicate_of_mem all
      rw [same, List.replicate_append_replicate, List.replicate_append_replicate, Nat.add_comm]

/-- The entries behind the first ones without a property. -/
theorem map_range_eq {α : Type} (p : Nat → Prop) [DecidablePred p] (closed : ∀ i j, i ≤ j → p j → p i)
    (f : Nat → α) (a : α) (n : Nat) :
    (List.range n).map (fun i => if p i then f i else a) =
      ((List.range n).filter p).map f ++
        List.replicate ((List.range n).filter (fun i => ¬ p i)).length a := by
  induction n with
  | zero => rfl
  | succ n ih =>
    rw [List.range_succ, List.map_append, ih, List.filter_append, List.filter_append]
    by_cases last : p n
    · have none_ : (List.range n).filter (fun i => ¬ p i) = [] := by
        rw [List.filter_eq_nil_iff]
        intro i mem
        have before := closed i n (List.mem_range.mp mem).le last
        simpa using before
      rw [none_]
      simp [last]
    · simp [last, List.replicate_succ']

variable (measure : List Sample → Nat → Raw) (normalise : List Raw → Raw → WaveformColorEntry)
  (sampleRate : UInt32) (samples : List Sample) (durationSecs : F64)

/-- The windows behind the samples. -/
def behind (perEntry : Nat) (count : Nat) : List Nat :=
  (List.range count).filter (fun i => ¬ Inside perEntry samples i)

theorem behind_succ (perEntry count : Nat) :
    behind samples perEntry (count + 1) = behind samples perEntry count ++
      if Inside perEntry samples count then [] else [count] := by
  rw [behind, List.range_succ, List.filter_append, ← behind]
  by_cases last : Inside perEntry samples count <;> simp [last]

theorem windows_succ (perEntry count : Nat) :
    windows measure perEntry samples (count + 1) = windows measure perEntry samples count ++
      if Inside perEntry samples count then [measure samples (count * perEntry)] else [] := by
  rw [windows, List.range_succ, List.filter_append, List.map_append, ← windows]
  by_cases last : Inside perEntry samples count <;> simp [last]

/-- The first loop: a silent entry for each window behind the samples, and the measured ones. -/
theorem loop_eq (perEntry count : Nat) :
    (List.range count).foldl (pushWindow measure perEntry samples) ([], []) =
      (List.replicate (behind samples perEntry count).length default,
        windows measure perEntry samples count) := by
  induction count with
  | zero => rfl
  | succ count ih =>
    rw [List.range_succ, List.foldl_append, ih, behind_succ, windows_succ]
    by_cases last : Inside perEntry samples count
    · have inside := not_le.mpr last
      simp [pushWindow, last, inside]
    · have outside := not_lt.mp last
      simp [pushWindow, last, outside, List.replicate_succ']

/-- Silence first, then what was measured. -/
theorem generateDetail_eq (some_ : samples ≠ []) (rate : 150 ≤ sampleRate) :
    generateDetail measure normalise sampleRate samples durationSecs =
      List.replicate
        (behind samples (samplesPerEntry sampleRate) (numEntries durationSecs)).length default ++
      (windows measure (samplesPerEntry sampleRate) samples (numEntries durationSecs)).map
        (normalise (windows measure (samplesPerEntry sampleRate) samples
          (numEntries durationSecs))) := by
  have whole : samplesPerEntry sampleRate ≠ 0 := by
    have rate := UInt32.le_iff_toNat_le.mp rate
    have bound : (150 : UInt32).toNat = 150 := rfl
    unfold samplesPerEntry
    omega
  rw [generateDetail, if_neg (by simpa using some_), if_neg whole, loop_eq]

/-- What is wanted: first what was measured, then silence. -/
theorem inTime_iff (detail : List WaveformColorEntry) :
    InTime measure normalise sampleRate samples durationSecs detail ↔
      detail = (windows measure (samplesPerEntry sampleRate) samples (numEntries durationSecs)).map
          (normalise (windows measure (samplesPerEntry sampleRate) samples
            (numEntries durationSecs))) ++
        List.replicate
          (behind samples (samplesPerEntry sampleRate) (numEntries durationSecs)).length default := by
  have closed : ∀ i j, i ≤ j → Inside (samplesPerEntry sampleRate) samples j →
      Inside (samplesPerEntry sampleRate) samples i := by
    intro i j le inside
    exact lt_of_le_of_lt (Nat.mul_le_mul_right _ le) inside
  have wanted := map_range_eq (Inside (samplesPerEntry sampleRate) samples) closed
    (fun i => normalise (windows measure (samplesPerEntry sampleRate) samples
      (numEntries durationSecs)) (measure samples (i * samplesPerEntry sampleRate)))
    default (numEntries durationSecs)
  have split : ((List.range (numEntries durationSecs)).filter
      (Inside (samplesPerEntry sampleRate) samples)).map
        (fun i => normalise (windows measure (samplesPerEntry sampleRate) samples
          (numEntries durationSecs)) (measure samples (i * samplesPerEntry sampleRate))) =
      (windows measure (samplesPerEntry sampleRate) samples (numEntries durationSecs)).map
        (normalise (windows measure (samplesPerEntry sampleRate) samples
          (numEntries durationSecs))) := by
    conv_rhs => arg 2; rw [windows]
    rw [List.map_map]
    rfl
  rw [split] at wanted
  rw [behind, ← wanted]
  constructor
  · rintro ⟨length, shows⟩
    apply List.ext_getElem?
    intro i
    by_cases inside : i < numEntries durationSecs
    · rw [shows i inside]
      simp [inside]
    · rw [List.getElem?_eq_none (by omega), List.getElem?_eq_none (by simp; omega)]
  · rintro rfl
    constructor
    · simp
    · intro i inside
      simp [inside]

/-- Exactly where the samples reach into the last window, there are none, or all that is
measured is silent, every entry shows its own time. -/
theorem detail_inTime_iff (rate : 150 ≤ sampleRate) :
    InTime measure normalise sampleRate samples durationSecs
        (generateDetail measure normalise sampleRate samples durationSecs) ↔
      samples = [] ∨
      (numEntries durationSecs - 1) * samplesPerEntry sampleRate < samples.length ∨
      ∀ raw ∈ windows measure (samplesPerEntry sampleRate) samples (numEntries durationSecs),
        normalise (windows measure (samplesPerEntry sampleRate) samples
          (numEntries durationSecs)) raw = default := by
  rw [inTime_iff]
  by_cases none_ : samples = []
  · subst none_
    have silent (perEntry count : Nat) :
        windows measure perEntry ([] : List Sample) count = [] ∧
          (behind ([] : List Sample) perEntry count).length = count := by
      simp [windows, behind, Inside]
    obtain ⟨nothing, all⟩ := silent (samplesPerEntry sampleRate) (numEntries durationSecs)
    simp [generateDetail, nothing, all]
  · rw [generateDetail_eq _ _ _ _ _ none_ rate, replicate_append_eq_iff, List.forall_mem_map]
    have reaches : (behind samples (samplesPerEntry sampleRate)
        (numEntries durationSecs)).length = 0 ↔
          (numEntries durationSecs - 1) * samplesPerEntry sampleRate < samples.length := by
      rw [List.length_eq_zero_iff, behind, List.filter_eq_nil_iff]
      have one : 1 ≤ numEntries durationSecs := le_max_right _ _
      constructor
      · intro inside
        have last : Inside (samplesPerEntry sampleRate) samples (numEntries durationSecs - 1) := by
          simpa using inside (numEntries durationSecs - 1) (List.mem_range.mpr (by omega))
        exact last
      · intro last i mem
        have before : i ≤ numEntries durationSecs - 1 := by
          have small := List.mem_range.mp mem
          omega
        have inside : Inside (samplesPerEntry sampleRate) samples i :=
          lt_of_le_of_lt (Nat.mul_le_mul_right _ before) last
        simpa using inside
    rw [reaches]
    simp [none_]

end

/-- Samples that cover both windows. -/
theorem coveredTrack_inTime :
    InTime (fun (s : List Nat) i => s[i]?) (fun _ r => ⟨0, 0, 0, UInt8.ofNat (r.getD 0)⟩) 300
      [5, 0, 9, 0] (.finite (1 / 128))
      (generateDetail (fun (s : List Nat) i => s[i]?) (fun _ r => ⟨0, 0, 0, UInt8.ofNat (r.getD 0)⟩)
        300 [5, 0, 9, 0] (.finite (1 / 128))) := by
  rw [detail_inTime_iff _ _ _ _ _ (by decide)]
  right
  left
  decide +kernel

/-- The samples of a track that was capped, 12.5 million of them. -/
def capped : List Unit := List.replicate 12500000 ()

/-- Of five minutes at 44.1 kHz every measured window is loud, and the first entry is silent. -/
theorem cappedTrack_shifted :
    ¬ InTime (fun (_ : List Unit) _ => ()) (fun _ _ => ⟨7, 3, 2, 18⟩) 44100 capped (.finite 300)
      (generateDetail (fun (_ : List Unit) _ => ()) (fun _ _ => ⟨7, 3, 2, 18⟩) 44100 capped
        (.finite 300)) := by
  intro inTime
  have count : numEntries (.finite 300) = 45000 := by decide +kernel
  have perEntry : samplesPerEntry 44100 = 294 := by decide
  have length : capped.length = 12500000 := List.length_replicate
  have first := inTime.shows 0 (by rw [count]; decide)
  have inside : Inside (samplesPerEntry 44100) capped 0 := by
    rw [Inside, length, Nat.zero_mul]
    decide
  have nonempty : capped ≠ [] := by
    intro none_
    rw [none_] at length
    cases length
  have late : 44999 ∈ behind capped (samplesPerEntry 44100) (numEntries (.finite 300)) := by
    rw [behind, List.mem_filter, count, perEntry]
    simp [Inside, length]
  obtain ⟨k, shifted⟩ := Nat.exists_eq_succ_of_ne_zero (List.length_pos_of_mem late).ne'
  rw [if_pos inside, generateDetail_eq _ _ _ _ _ nonempty (by decide), shifted,
    List.replicate_succ] at first
  have silent : (default : WaveformColorEntry) = ⟨7, 3, 2, 18⟩ := Option.some.inj first
  exact absurd silent (by decide)

end BVault.Analysis
