import Mathlib.Data.Nat.Basic
import Mathlib.Tactic.Common
import Mathlib.Tactic.IntervalCases

/-!
# The Gregorian calendar

Dates with their month and day in range, the day after one, and the number of a
day counted from the first of March of the year 0. Counted so, the leap day is
the last of its year, and the months are as good as equally long.
-/

namespace Calendar

def IsLeap (year : Nat) : Prop := year % 4 = 0 ∧ (year % 100 ≠ 0 ∨ year % 400 = 0)

instance (year : Nat) : Decidable (IsLeap year) := inferInstanceAs (Decidable (_ ∧ _))

def daysIn (year month : Nat) : Nat :=
  if month = 2 then if IsLeap year then 29 else 28
  else if month = 4 ∨ month = 6 ∨ month = 9 ∨ month = 11 then 30
  else 31

theorem daysIn_pos (year month : Nat) : 1 ≤ daysIn year month := by
  rw [daysIn]
  split_ifs <;> decide

@[ext]
structure Date where
  year : Nat
  month : Nat
  day : Nat
  inYear : 1 ≤ month ∧ month ≤ 12
  inMonth : 1 ≤ day ∧ day ≤ daysIn year month

namespace Date

/-- The day after. -/
def next (d : Date) : Date :=
  if later : d.day < daysIn d.year d.month then
    ⟨d.year, d.month, d.day + 1, d.inYear, Nat.succ_pos d.day, later⟩
  else if within : d.month < 12 then
    ⟨d.year, d.month + 1, 1, ⟨Nat.succ_pos d.month, within⟩, le_refl 1, daysIn_pos _ _⟩
  else ⟨d.year + 1, 1, 1, by decide, le_refl 1, daysIn_pos _ _⟩

/-- The date some days later. -/
def later (d : Date) : Nat → Date
  | 0 => d
  | n + 1 => (d.later n).next

/-- The year that began in March. -/
def marchYear (d : Date) : Nat := if 2 < d.month then d.year else d.year - 1

/-- The months since March. -/
def sinceMarch (d : Date) : Nat := if 2 < d.month then d.month - 3 else d.month + 9

end Date

/-- The days before the first of March of a year. -/
def beforeYear (year : Nat) : Nat := 365 * year + year / 4 - year / 100 + year / 400

/-- The days from the first of March to the first day of a month. -/
def beforeMonth (months : Nat) : Nat := (153 * months + 2) / 5

/-- The days since the first of March of the year 0. -/
def Date.number (d : Date) : Nat := beforeYear d.marchYear + beforeMonth d.sinceMarch + (d.day - 1)

/-- A year begins one day later after a leap day. -/
theorem beforeYear_succ (year : Nat) :
    beforeYear (year + 1) = beforeYear year + if IsLeap (year + 1) then 366 else 365 := by
  have four : (year + 1) / 4 = year / 4 + if (year + 1) % 4 = 0 then 1 else 0 := by
    split <;> omega
  have century : (year + 1) / 100 = year / 100 + if (year + 1) % 100 = 0 then 1 else 0 := by
    split <;> omega
  have cycle : (year + 1) / 400 = year / 400 + if (year + 1) % 400 = 0 then 1 else 0 := by
    split <;> omega
  have fewer : year / 100 ≤ year := Nat.div_le_self year 100
  have some_ : (year + 1) % 100 = 0 → (year + 1) % 4 = 0 := by omega
  have more : (year + 1) % 400 = 0 → (year + 1) % 100 = 0 := by omega
  unfold beforeYear
  rw [four, century, cycle]
  by_cases byFour : (year + 1) % 4 = 0
  · by_cases byHundred : (year + 1) % 100 = 0
    · by_cases byCycle : (year + 1) % 400 = 0
      · simp only [IsLeap, byFour, byHundred, byCycle, or_true, and_self, if_true]
        omega
      · simp only [IsLeap, byFour, byHundred, byCycle, ne_eq, not_true, or_self, and_false, if_true,
          if_false]
        omega
    · have byCycle : ¬ (year + 1) % 400 = 0 := mt more byHundred
      simp only [IsLeap, byFour, byHundred, byCycle, ne_eq, not_false_eq_true, true_or, and_self,
        if_true, if_false]
      omega
  · have byHundred : ¬ (year + 1) % 100 = 0 := mt some_ byFour
    have byCycle : ¬ (year + 1) % 400 = 0 := mt more byHundred
    simp only [IsLeap, byFour, byHundred, byCycle, false_and, if_false]
    omega

/-- From March on a month begins where the one before ends. -/
theorem beforeMonth_succ {month : Nat} (year : Nat) (late : 3 ≤ month) (inYear : month ≤ 12) :
    beforeMonth (month - 3 + 1) = beforeMonth (month - 3) + daysIn year month := by
  interval_cases month <;> rfl

/-- January follows December, and February January, in the year that began in March. -/
theorem beforeMonth_winter (year : Nat) :
    beforeMonth 10 = beforeMonth 9 + daysIn year 12 ∧ beforeMonth 11 = beforeMonth 10 + daysIn year 1 :=
  ⟨rfl, rfl⟩

/-- A year from March has the days up to February and those of February. -/
theorem beforeMonth_february (year : Nat) :
    beforeMonth 11 + daysIn year 2 = if IsLeap year then 366 else 365 := by
  rw [daysIn, if_pos rfl]
  split_ifs <;> rfl

theorem number_next (d : Date) (positive : 0 < d.year) : d.next.number = d.number + 1 := by
  obtain ⟨year, month, day, ⟨low, high⟩, first, last⟩ := d
  obtain ⟨before, rfl⟩ : ∃ before, year = before + 1 := ⟨year - 1, by simp only at positive; omega⟩
  unfold Date.next
  split
  · simp only [Date.number, Date.marchYear, Date.sinceMarch]
    omega
  · rename_i ends
    obtain rfl : day = daysIn (before + 1) month := by simp only at ends; omega
    rcases Nat.lt_or_ge 2 month with late | early
    · rcases Nat.lt_or_ge month 12 with within | december
      · have follows := beforeMonth_succ (before + 1) late high
        have same : month + 1 - 3 = month - 3 + 1 := by omega
        simp only [dif_pos within, Date.number, Date.marchYear, Date.sinceMarch, if_pos late,
          if_pos (Nat.lt_succ_of_lt late), same, follows]
        omega
      · obtain rfl : month = 12 := Nat.le_antisymm high december
        have follows := (beforeMonth_winter (before + 1)).1
        simp [Date.number, Date.marchYear, Date.sinceMarch, follows]
        omega
    · obtain rfl | rfl : month = 1 ∨ month = 2 := by omega
      · have follows := (beforeMonth_winter (before + 1)).2
        simp [Date.number, Date.marchYear, Date.sinceMarch, follows]
        omega
      · -- the leap day ends the year that began in March
        have follows := beforeYear_succ before
        have start : beforeMonth 0 = 0 := rfl
        have some_ := daysIn_pos (before + 1) 2
        rw [← beforeMonth_february] at follows
        simp [Date.number, Date.marchYear, Date.sinceMarch, follows, start]
        omega

theorem year_le_next (d : Date) : d.year ≤ d.next.year := by
  unfold Date.next
  split_ifs
  · exact Nat.le_refl _
  · exact Nat.le_refl _
  · exact Nat.le_succ _

theorem year_le_later (d : Date) (n : Nat) : d.year ≤ (d.later n).year := by
  induction n with
  | zero => exact Nat.le_refl _
  | succ n ih => exact Nat.le_trans ih (year_le_next (d.later n))

/-- Days are counted without gaps. -/
theorem number_later (d : Date) (positive : 0 < d.year) (n : Nat) :
    (d.later n).number = d.number + n := by
  induction n with
  | zero => rfl
  | succ n ih =>
    rw [Date.later, number_next _ (Nat.lt_of_lt_of_le positive (year_le_later d n)), ih,
      Nat.add_assoc]

/-- The days of the year before this one. -/
def Date.dayOfYear (d : Date) : Nat := beforeMonth d.sinceMarch + (d.day - 1)

theorem Date.number_eq (d : Date) : d.number = beforeYear d.marchYear + d.dayOfYear :=
  Nat.add_assoc _ _ _

/-- A day lies between the first of its month and that of the next one. -/
theorem Date.dayOfYear_lt (d : Date) : d.dayOfYear < beforeMonth (d.sinceMarch + 1) := by
  obtain ⟨year, month, day, ⟨low, high⟩, first, last⟩ := d
  rw [dayOfYear, sinceMarch]
  simp only
  rcases Nat.lt_or_ge 2 month with late | early
  · have follows := beforeMonth_succ year late high
    rw [if_pos late, follows]
    omega
  · rw [if_neg (Nat.not_lt.mpr early)]
    obtain rfl | rfl : month = 1 ∨ month = 2 := by omega
    · change beforeMonth 10 + (day - 1) < beforeMonth 11
      rw [(beforeMonth_winter year).2]
      omega
    · change beforeMonth 11 + (day - 1) < beforeMonth 12
      have start : beforeMonth 11 = 337 := rfl
      have whole : beforeMonth 12 = 367 := rfl
      have february : daysIn year 2 ≤ 29 := by
        rw [daysIn, if_pos rfl]
        split_ifs <;> decide
      omega

/-- A day lies in its year. -/
theorem Date.dayOfYear_inYear (d : Date) (positive : 0 < d.year) :
    d.dayOfYear < if IsLeap (d.marchYear + 1) then 366 else 365 := by
  have bounded := d.dayOfYear_lt
  obtain ⟨year, month, day, ⟨low, high⟩, first, last⟩ := d
  by_cases february : month = 2
  · subst february
    have same : year - 1 + 1 = year := Nat.sub_add_cancel positive
    simp only [dayOfYear, sinceMarch, marchYear, Nat.lt_irrefl, if_false, same]
    rw [← beforeMonth_february]
    change beforeMonth 11 + (day - 1) < beforeMonth 11 + daysIn year 2
    omega
  · have early : beforeMonth (Date.sinceMarch ⟨year, month, day, ⟨low, high⟩, first, last⟩ + 1) ≤
        beforeMonth 11 := by
      have months : ∀ k ≤ 11, beforeMonth k ≤ beforeMonth 11 := by decide
      apply months
      simp only [sinceMarch]
      split <;> omega
    have winter : beforeMonth 11 = 337 := rfl
    split_ifs <;> omega

end Calendar
