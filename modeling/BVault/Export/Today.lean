import BVault.Export.Device
import BVault.Lib.Calendar
import Mathlib.Order.Monotone.Basic

/-!
# The date of an export

`today_iso` takes a day apart by divisions into cycles of 400 years, years that
begin in March, and months of 153 days in five. With every subtraction checked it
computes the date that many days after 1970-01-01.
-/

namespace BVault.Export

open Calendar

theorem epoch_inYear : 1 ≤ 1 ∧ 1 ≤ 12 := by decide

theorem epoch_inMonth : 1 ≤ 1 ∧ 1 ≤ daysIn 1970 1 := by decide

/-- The first day of the count. -/
def epoch : Date := ⟨1970, 1, 1, epoch_inYear, epoch_inMonth⟩

/-- `a - b`; `none` where that is negative. -/
def minus (a b : Int) : Option Int := if b ≤ a then some (a - b) else none

/-- The year, month and day of `today_iso`, on signed numbers. -/
def civil (days : Int) : Option (Int × Int × Int) := do
  let z := days + 719468
  let era := (if 0 ≤ z then z else z - 146096).tdiv 146097
  let doe ← minus z (era * 146097)
  let reduced ← minus doe (doe.tdiv 1460)
  let reduced ← minus (reduced + doe.tdiv 36524) (doe.tdiv 146096)
  let yoe := reduced.tdiv 365
  let y := yoe + era * 400
  let leaps ← minus (365 * yoe + yoe.tdiv 4) (yoe.tdiv 100)
  let doy ← minus doe leaps
  let mp := (5 * doy + 2).tdiv 153
  let d := (← minus doy ((153 * mp + 2).tdiv 5)) + 1
  let m ← if mp < 10 then some (mp + 3) else minus mp 9
  some (if m ≤ 2 then y + 1 else y, m, d)

/-- The days of a cycle with the leap days taken out. -/
def withoutLeaps (doe : Nat) : Nat := doe - doe / 1460 + doe / 36524 - doe / 146096

theorem withoutLeaps_mono : Monotone withoutLeaps := by
  apply monotone_nat_of_le_succ
  intro doe
  unfold withoutLeaps
  have last : (doe + 1) % 146096 = 0 → (doe + 1) % 36524 = 0 := by omega
  omega

/-- At both ends of a year of the cycle the quotient is that year. -/
theorem withoutLeaps_ends : ∀ yoe < 400, 365 * yoe ≤ withoutLeaps (beforeYear yoe) ∧
    withoutLeaps (beforeYear yoe + if IsLeap (yoe + 1) then 365 else 364) < 365 * (yoe + 1) := by
  decide +kernel

theorem yearOfCycle {yoe doy : Nat} (inCycle : yoe < 400)
    (inYear : doy < if IsLeap (yoe + 1) then 366 else 365) :
    withoutLeaps (beforeYear yoe + doy) / 365 = yoe := by
  obtain ⟨first, last⟩ := withoutLeaps_ends yoe inCycle
  have low : withoutLeaps (beforeYear yoe) ≤ withoutLeaps (beforeYear yoe + doy) :=
    withoutLeaps_mono (Nat.le_add_right _ _)
  have high : withoutLeaps (beforeYear yoe + doy) ≤
      withoutLeaps (beforeYear yoe + if IsLeap (yoe + 1) then 365 else 364) := by
    apply withoutLeaps_mono
    split_ifs at inYear ⊢ <;> omega
  omega

theorem monthOfYear {mp doy : Nat} (low : beforeMonth mp ≤ doy) (high : doy < beforeMonth (mp + 1)) :
    (5 * doy + 2) / 153 = mp := by
  unfold beforeMonth at low high
  omega

/-- Every cycle of 400 years is as long. -/
theorem beforeYear_cycle (era yoe : Nat) :
    beforeYear (400 * era + yoe) = 146097 * era + beforeYear yoe := by
  unfold beforeYear
  have four : (400 * era + yoe) / 4 = 100 * era + yoe / 4 := by omega
  have century : (400 * era + yoe) / 100 = 4 * era + yoe / 100 := by omega
  have cycle : (400 * era + yoe) / 400 = era + yoe / 400 := by omega
  have fewer : yoe / 100 ≤ yoe := Nat.div_le_self yoe 100
  rw [four, century, cycle]
  omega

theorem isLeap_cycle (era yoe : Nat) : IsLeap (400 * era + yoe) ↔ IsLeap yoe := by
  unfold IsLeap
  omega

theorem minus_eq {a b c : Int} (sum : a = b + c) (nonneg : 0 ≤ c) : minus a b = some c := by
  have difference : a - b = c := by omega
  rw [minus, if_pos (by omega), difference]

/-- The day of a cycle is what is left of the day by whole cycles. -/
theorem minus_cycles {day era doe : Nat} (split : day = 146097 * era + doe) (inCycle : doe < 146097) :
    (day : Int).tdiv 146097 = era ∧ minus day (era * 146097) = some (doe : Int) := by
  constructor
  · rw [Int.natCast_tdiv_eq_ediv]
    omega
  · exact minus_eq (by omega) (by omega)

/-- No subtraction of the leap days goes below zero. -/
theorem minus_leaps (doe : Nat) : minus doe ((doe : Int).tdiv 1460) = some (doe - doe / 1460 : Int) ∧
    minus ((doe - doe / 1460 : Int) + (doe : Int).tdiv 36524) ((doe : Int).tdiv 146096) =
      some (withoutLeaps doe : Int) := by
  simp only [Int.natCast_tdiv_eq_ediv]
  constructor
  · exact minus_eq (by omega) (by omega)
  · refine minus_eq ?_ (by omega)
    unfold withoutLeaps
    omega

theorem minus_years {yoe doy : Nat} (inCycle : yoe < 400) :
    minus (365 * (yoe : Int) + (yoe : Int).tdiv 4) ((yoe : Int).tdiv 100) =
        some (beforeYear yoe : Int) ∧
      minus ((beforeYear yoe + doy : Nat) : Int) (beforeYear yoe) = some (doy : Int) := by
  simp only [Int.natCast_tdiv_eq_ediv]
  constructor
  · refine minus_eq ?_ (by omega)
    unfold beforeYear
    omega
  · exact minus_eq (by omega) (by omega)

theorem minus_months {mp doy day : Nat} (positive : 0 < day)
    (split : doy = beforeMonth mp + (day - 1)) :
    minus doy ((153 * (mp : Int) + 2).tdiv 5) = some (day - 1 : Int) := by
  refine minus_eq ?_ (by omega)
  rw [Int.tdiv_eq_ediv_of_nonneg (by omega), split]
  unfold beforeMonth
  omega

/-- A date in its cycle of 400 years, as the divisions take it apart. -/
structure InCycle (d : Date) (era yoe : Nat) : Prop where
  inCycle : yoe < 400
  marchYear : d.marchYear = 400 * era + yoe
  number : d.number = 146097 * era + (beforeYear yoe + d.dayOfYear)
  dayOfCycle : beforeYear yoe + d.dayOfYear < 146097
  yearOfCycle : withoutLeaps (beforeYear yoe + d.dayOfYear) / 365 = yoe
  monthOfYear : (5 * d.dayOfYear + 2) / 153 = d.sinceMarch

theorem exists_inCycle (d : Date) (positive : 0 < d.year) : ∃ era yoe, InCycle d era yoe := by
  obtain ⟨era, yoe, split, inCycle⟩ : ∃ era yoe, d.marchYear = 400 * era + yoe ∧ yoe < 400 :=
    ⟨d.marchYear / 400, d.marchYear % 400, (Nat.div_add_mod _ _).symm, Nat.mod_lt _ (by decide)⟩
  have short := d.dayOfYear_inYear positive
  rw [split, Nat.add_assoc] at short
  simp only [isLeap_cycle] at short
  refine ⟨era, yoe, inCycle, split, ?_, ?_, yearOfCycle inCycle short,
    monthOfYear (Nat.le_add_right _ _) d.dayOfYear_lt⟩
  · rw [d.number_eq, split, beforeYear_cycle, Nat.add_assoc]
  · have next := beforeYear_succ yoe
    have cycle : beforeYear (yoe + 1) ≤ 146097 := by
      unfold beforeYear
      omega
    omega

/-- The divisions take the number of a day apart into its date. -/
theorem civil_number (d : Date) (positive : 0 < d.year) :
    civil ((d.number : Int) - 719468) = some ((d.year : Int), (d.month : Int), (d.day : Int)) := by
  have inYear := d.inYear
  obtain ⟨era, yoe, parts⟩ := exists_inCycle d positive
  have split := parts.marchYear
  obtain ⟨eras, cycle⟩ := minus_cycles parts.number parts.dayOfCycle
  obtain ⟨leaps, without⟩ := minus_leaps (beforeYear yoe + d.dayOfYear)
  obtain ⟨years, days⟩ := @minus_years yoe d.dayOfYear parts.inCycle
  have year : (withoutLeaps (beforeYear yoe + d.dayOfYear) : Int).tdiv 365 = yoe := by
    have quotient := parts.yearOfCycle
    rw [Int.natCast_tdiv_eq_ediv]
    omega
  have month : (5 * (d.dayOfYear : Int) + 2).tdiv 153 = d.sinceMarch := by
    have quotient := parts.monthOfYear
    rw [Int.tdiv_eq_ediv_of_nonneg (by omega)]
    omega
  have first : minus d.dayOfYear ((153 * (d.sinceMarch : Int) + 2).tdiv 5) = some (d.day - 1 : Int) :=
    minus_months d.inMonth.1 rfl
  have whole : (d.number : Int) - 719468 + 719468 = d.number := by omega
  have day : (d.day : Int) - 1 + 1 = d.day := by omega
  simp only [civil, whole, Int.natCast_nonneg, if_true, eras, cycle, leaps, without, year, years,
    days, month, first, day, Option.bind_eq_bind, Option.bind_some]
  rcases Nat.lt_or_ge 2 d.month with late | early
  · have months : d.sinceMarch = d.month - 3 := if_pos late
    have same : d.marchYear = d.year := if_pos late
    have here : (d.sinceMarch : Int) + 3 = d.month := by omega
    have sum : (yoe : Int) + era * 400 = d.year := by omega
    rw [if_pos (by omega), here, if_neg (by omega), sum]
  · -- January and February belong to the year that began in March before
    have months : d.sinceMarch = d.month + 9 := if_neg (Nat.not_lt.mpr early)
    have before : d.marchYear = d.year - 1 := if_neg (Nat.not_lt.mpr early)
    have here : minus (d.sinceMarch : Int) 9 = some (d.month : Int) :=
      minus_eq (by omega) (by omega)
    have sum : (yoe : Int) + era * 400 + 1 = d.year := by omega
    rw [if_neg (by omega), here, Option.bind_some, if_pos (by omega), sum]

/-- The text of a date. -/
def iso (d : Date) : String :=
  zeroPadded 4 d.year ++ "-" ++ zeroPadded 2 d.month ++ "-" ++ zeroPadded 2 d.day

theorem todayIso_number {secs : Nat} {d : Date} (positive : 0 < d.year)
    (today : secs / 86400 + 719468 = d.number) : todayIso secs = iso d := by
  have inYear := d.inYear
  have inMonth := d.inMonth.1
  obtain ⟨era, yoe, parts⟩ := exists_inCycle d positive
  have split := parts.marchYear
  have inCycle := parts.inCycle
  have number := parts.number
  have short := parts.dayOfCycle
  have eras : d.number / 146097 = era := by omega
  have cycle : d.number - era * 146097 = beforeYear yoe + d.dayOfYear := by omega
  have year := parts.yearOfCycle
  have days : beforeYear yoe + d.dayOfYear - (365 * yoe + yoe / 4 - yoe / 100) = d.dayOfYear := by
    unfold beforeYear
    omega
  have day : d.dayOfYear - (153 * d.sinceMarch + 2) / 5 + 1 = d.day := by
    unfold Date.dayOfYear beforeMonth
    omega
  unfold withoutLeaps at year
  simp only [todayIso, today, eras, cycle, year, days, parts.monthOfYear, day, iso]
  rcases Nat.lt_or_ge 2 d.month with late | early
  · have months : d.sinceMarch = d.month - 3 := if_pos late
    have same : d.marchYear = d.year := if_pos late
    have spring : d.sinceMarch < 10 := by omega
    have here : d.sinceMarch + 3 = d.month := by omega
    have sum : yoe + era * 400 = d.year := by omega
    rw [if_pos spring, here, if_neg (Nat.not_le.mpr late), sum]
  · have months : d.sinceMarch = d.month + 9 := if_neg (Nat.not_lt.mpr early)
    have before : d.marchYear = d.year - 1 := if_neg (Nat.not_lt.mpr early)
    have winter : ¬ d.sinceMarch < 10 := by omega
    have here : d.sinceMarch - 9 = d.month := by omega
    have sum : yoe + era * 400 + 1 = d.year := by omega
    rw [if_neg winter, here, if_pos early, sum]

/-- After any number of seconds the date is the one that many whole days after 1970-01-01, and
no subtraction on the way is negative. -/
theorem today_is_date (secs : UInt64) :
    civil (secs.toNat / 86400 : Nat) =
        some (((epoch.later (secs.toNat / 86400)).year : Int),
          ((epoch.later (secs.toNat / 86400)).month : Int),
          ((epoch.later (secs.toNat / 86400)).day : Int)) ∧
      todayIso secs.toNat = iso (epoch.later (secs.toNat / 86400)) := by
  have positive : 0 < (epoch.later (secs.toNat / 86400)).year :=
    Nat.lt_of_lt_of_le (by decide) (year_le_later epoch _)
  have number : (epoch.later (secs.toNat / 86400)).number = secs.toNat / 86400 + 719468 := by
    rw [number_later epoch (by decide), Nat.add_comm]
    rfl
  constructor
  · have days : ((secs.toNat / 86400 : Nat) : Int) =
        ((epoch.later (secs.toNat / 86400)).number : Int) - 719468 := by omega
    rw [days]
    exact civil_number _ positive
  · exact todayIso_number positive number.symm

end BVault.Export
