/-
Berth.Calendar.Civil — days and dates of the Gregorian calendar.

A day is its number, counted from the first of January 1970. Dates are
counted in years that begin in March, so that the day a leap year adds is
the last of its year: the months before it always have the same lengths,
and a year is 365 days and what the years before it have added.

Every day has a date that exists, and the date gives the day back.
-/
import Mathlib.Tactic.Ring

namespace Berth.Calendar

structure Date where
  year : Int
  month : Nat
  day : Nat
  deriving DecidableEq, Repr

/-- A year with a 29th of February. -/
def isLeap (year : Int) : Bool := year % 4 == 0 && (year % 100 != 0 || year % 400 == 0)

def daysIn (year : Int) (month : Nat) : Nat :=
  if month = 2 then (if isLeap year then 29 else 28)
  else if month = 4 ∨ month = 6 ∨ month = 9 ∨ month = 11 then 30
  else 31

/-- The date exists. -/
structure Date.Valid (d : Date) : Prop where
  month_pos : 1 ≤ d.month
  month_le : d.month ≤ 12
  day_pos : 1 ≤ d.day
  day_le : d.day ≤ daysIn d.year d.month

instance (d : Date) : Decidable d.Valid :=
  decidable_of_iff (1 ≤ d.month ∧ d.month ≤ 12 ∧ 1 ≤ d.day ∧ d.day ≤ daysIn d.year d.month)
    ⟨fun ⟨a, b, c, e⟩ => ⟨a, b, c, e⟩, fun h => ⟨h.month_pos, h.month_le, h.day_pos, h.day_le⟩⟩

/-! ## Years that begin in March -/

/-- The days before year `y`, counted from the first of March of year 0. -/
def beforeYear (y : Int) : Int := 365 * y + y / 4 - y / 100 + y / 400

/-- The year of a day, counted from the first of March of year 0: the
fours, hundreds and four hundreds of years that have passed, then the
years. The last of four years, or of four hundreds, has a day more. -/
def yearOf (days : Int) : Int :=
  let era := days / 146097
  let d := days % 146097
  let century := min (d / 36524) 3
  let d := d - 36524 * century
  let four := d / 1461
  let d := d % 1461
  400 * era + 100 * century + 4 * four + min (d / 365) 3

/-- The years of an era, a century and a four, and the years after them. -/
theorem beforeYear_split {e c f g : Int} (hc : 0 ≤ c ∧ c ≤ 3) (hf : 0 ≤ f ∧ f ≤ 24)
    (hg : 0 ≤ g ∧ g ≤ 3) :
    beforeYear (400 * e + 100 * c + 4 * f + g) =
      146097 * e + 36524 * c + 1461 * f + 365 * g := by
  have h4 : (400 * e + 100 * c + 4 * f + g) / 4 = 100 * e + 25 * c + f := by omega
  have h100 : (400 * e + 100 * c + 4 * f + g) / 100 = 4 * e + c := by omega
  have h400 : (400 * e + 100 * c + 4 * f + g) / 400 = e := by omega
  rw [beforeYear, h4, h100, h400]
  ring

/-- What the year after has before it: a year has 365 days, and one more at
the end of a four, unless a century ends there that is not the last of its
era. -/
theorem beforeYear_succ {e c f g : Int} (hc : 0 ≤ c ∧ c ≤ 3) (hf : 0 ≤ f ∧ f ≤ 24)
    (hg : 0 ≤ g ∧ g ≤ 3) :
    beforeYear (400 * e + 100 * c + 4 * f + g + 1) =
      146097 * e + 36524 * c + 1461 * f + 365 * g + 365 +
        (if g = 3 ∧ (f < 24 ∨ c = 3) then 1 else 0) := by
  by_cases hg3 : g < 3
  · have h := beforeYear_split (e := e) hc hf (g := g + 1) (by omega)
    rw [if_neg (by omega), show 400 * e + 100 * c + 4 * f + g + 1 =
      400 * e + 100 * c + 4 * f + (g + 1) by ring, h]
    ring
  obtain rfl : g = 3 := by omega
  by_cases hf24 : f < 24
  · have h := beforeYear_split (e := e) hc (f := f + 1) (g := 0) (by omega) (by omega)
    rw [if_pos (by omega), show 400 * e + 100 * c + 4 * f + 3 + 1 =
      400 * e + 100 * c + 4 * (f + 1) + 0 by ring, h]
    ring
  obtain rfl : f = 24 := by omega
  by_cases hc3 : c < 3
  · have h := beforeYear_split (e := e) (c := c + 1) (f := 0) (g := 0) (by omega) (by omega)
      (by omega)
    rw [if_neg (by omega), show 400 * e + 100 * c + 4 * 24 + 3 + 1 =
      400 * e + 100 * (c + 1) + 4 * 0 + 0 by ring, h]
    ring
  obtain rfl : c = 3 := by omega
  have h := beforeYear_split (e := e + 1) (c := 0) (f := 0) (g := 0) (by omega) (by omega)
    (by omega)
  rw [if_pos (by omega), show 400 * e + 100 * 3 + 4 * 24 + 3 + 1 =
    400 * (e + 1) + 100 * 0 + 4 * 0 + 0 by ring, h]
  ring

/-- A day is in its year. -/
theorem beforeYear_yearOf (days : Int) :
    beforeYear (yearOf days) ≤ days ∧ days < beforeYear (yearOf days + 1) := by
  have hc : 0 ≤ min (days % 146097 / 36524) 3 ∧ min (days % 146097 / 36524) 3 ≤ 3 := by omega
  have hf : 0 ≤ (days % 146097 - 36524 * min (days % 146097 / 36524) 3) / 1461 ∧
      (days % 146097 - 36524 * min (days % 146097 / 36524) 3) / 1461 ≤ 24 := by omega
  have hg : 0 ≤ min ((days % 146097 - 36524 * min (days % 146097 / 36524) 3) % 1461 / 365) 3 ∧
      min ((days % 146097 - 36524 * min (days % 146097 / 36524) 3) % 1461 / 365) 3 ≤ 3 := by omega
  unfold yearOf
  rw [beforeYear_split hc hf hg, beforeYear_succ hc hf hg]
  split <;> omega

/-- A year has its leap day if the February at its end has one. -/
theorem beforeYear_add_one (y : Int) :
    beforeYear (y + 1) = beforeYear y + 365 + (if isLeap (y + 1) then 1 else 0) := by
  have h4 : (y + 1) / 4 = y / 4 + (if (y + 1) % 4 = 0 then 1 else 0) := by split <;> omega
  have h100 : (y + 1) / 100 = y / 100 + (if (y + 1) % 100 = 0 then 1 else 0) := by split <;> omega
  have h400 : (y + 1) / 400 = y / 400 + (if (y + 1) % 400 = 0 then 1 else 0) := by split <;> omega
  have hleap : isLeap (y + 1) = true ↔
      (y + 1) % 4 = 0 ∧ ((y + 1) % 100 ≠ 0 ∨ (y + 1) % 400 = 0) := by simp [isLeap]
  unfold beforeYear
  rw [h4, h100, h400]
  by_cases h : isLeap (y + 1) = true
  · rw [if_pos h]
    have := hleap.mp h
    split <;> split <;> split <;> omega
  · rw [if_neg h]
    have : ¬ ((y + 1) % 4 = 0 ∧ ((y + 1) % 100 ≠ 0 ∨ (y + 1) % 400 = 0)) := fun h' =>
      h (hleap.mpr h')
    split <;> split <;> split <;> omega

/-! ## Months that begin with March -/

/-- The days of the year before month `m`, March being 0. -/
def beforeMonth (m : Nat) : Nat := (153 * m + 2) / 5

/-- The first of January 1970. -/
def epoch : Int := 719468

def Date.toDays (d : Date) : Int :=
  beforeYear (if d.month ≤ 2 then d.year - 1 else d.year) + beforeMonth ((d.month + 9) % 12) +
    (d.day - 1) - epoch

/-- The date of a day of a year. -/
def dateOf (y : Int) (day : Nat) : Date :=
  let m := (5 * day + 2) / 153
  let month := if m < 10 then m + 3 else m - 9
  { year := if month ≤ 2 then y + 1 else y, month := month, day := day - beforeMonth m + 1 }

def ofDays (days : Int) : Date :=
  let y := yearOf (days + epoch)
  dateOf y (days + epoch - beforeYear y).toNat

/-- The day of the year is in its month. -/
theorem month_of_day {day : Nat} (h : day ≤ 365) :
    beforeMonth ((5 * day + 2) / 153) ≤ day ∧ (5 * day + 2) / 153 ≤ 11 ∧
      day < beforeMonth ((5 * day + 2) / 153 + 1) := by
  unfold beforeMonth
  omega

theorem toDays_dateOf {y : Int} {day : Nat} (h : day ≤ 365) :
    (dateOf y day).toDays = beforeYear y + day - epoch := by
  obtain ⟨hle, hm, _⟩ := month_of_day h
  unfold dateOf Date.toDays
  simp only
  generalize (5 * day + 2) / 153 = m at *
  by_cases hm' : m < 10
  · have hmonth : (m + 3 + 9) % 12 = m := by omega
    simp only [if_pos hm', if_neg (show ¬ m + 3 ≤ 2 by omega), hmonth]
    omega
  · have hmonth : (m - 9 + 9) % 12 = m := by omega
    have hy : y + 1 - 1 = y := by omega
    simp only [if_neg hm', if_pos (show m - 9 ≤ 2 by omega), hmonth, hy]
    omega

theorem valid_dateOf {y : Int} {day : Nat} (h : (day : Int) < beforeYear (y + 1) - beforeYear y) :
    (dateOf y day).Valid := by
  have hyear := beforeYear_add_one y
  have hday : day ≤ 365 := by split at hyear <;> omega
  obtain ⟨hle, hm, hlt⟩ := month_of_day hday
  -- only the last month depends on the year
  have hlen : ∀ m ≤ 11, beforeMonth (m + 1) - beforeMonth m ≤
      (if m = 11 then 30 else daysIn 0 (if m < 10 then m + 3 else m - 9)) := by decide
  have hdays : ∀ year month, month ≠ 2 → daysIn year month = daysIn 0 month := by
    intro year month hne
    simp [daysIn, hne]
  have hlen' := hlen _ hm
  unfold dateOf
  simp only
  generalize (5 * day + 2) / 153 = m at *
  by_cases hm11 : m = 11
  · subst hm11
    refine ⟨by simp, by simp, Nat.le_add_left _ _, ?_⟩
    have hstart : beforeMonth 11 = 337 := rfl
    simp only [Nat.reduceLT, if_false, Nat.reduceSub, Nat.reduceLeDiff, if_true, daysIn, hstart]
    by_cases hleap : isLeap (y + 1) = true
    · rw [if_pos hleap]
      omega
    · rw [if_neg hleap] at hyear
      rw [if_neg hleap]
      omega
  · refine ⟨?_, ?_, Nat.le_add_left _ _, ?_⟩
    · simp only
      split <;> omega
    · simp only
      split <;> omega
    · simp only
      rw [hdays _ _ (by split <;> omega)]
      rw [if_neg hm11] at hlen'
      omega

theorem toDays_ofDays (days : Int) : (ofDays days).toDays = days := by
  obtain ⟨hle, hlt⟩ := beforeYear_yearOf (days + epoch)
  have hyear := beforeYear_add_one (yearOf (days + epoch))
  rw [ofDays, toDays_dateOf (by split at hyear <;> omega)]
  omega

theorem valid_ofDays (days : Int) : (ofDays days).Valid := by
  obtain ⟨hle, hlt⟩ := beforeYear_yearOf (days + epoch)
  exact valid_dateOf (by omega)

end Berth.Calendar
