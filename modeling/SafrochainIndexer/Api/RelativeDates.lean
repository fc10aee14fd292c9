import SafrochainIndexer.Api.DateFilterService

/-!
# Relative dates

A relative date of months or years keeps the number of the day. Where the month it
goes back to has that day, the date is in this month; where it has not, the date
runs into the month after. It is before now and moves back with the number of
months in either case, as long as there is a `Date` for it.
-/

namespace SafrochainIndexer.Api

open Calendar (monthOf monthStart monthLength dayOfMonth dateOf)

def monthOfTime (time : Int) : Int := monthOf (time / msPerDay)

def dayOfTime (time : Int) : Int := dayOfMonth (time / msPerDay)

/-- The instant with the same number of the day and time of the day, `months` before. -/
def monthsBefore (now months : Int) : Int :=
  msPerDay * dateOf (monthOfTime now - months) (dayOfTime now) + now % msPerDay

def RelativeDateUnit.inMonths : RelativeDateUnit → Option Nat
  | .months => some 1
  | .years => some 12
  | _ => none

/-- The date `value` units before now is in the month that is `value` units before
the one of now, is before now, and is not after the dates of smaller values. -/
structure MovesBack (now : Int) (unit : RelativeDateUnit) (months value : Nat) (time : Int) :
    Prop where
  month : monthOfTime time = monthOfTime now - months * value
  before : time < now
  nonincreasing : ∀ smaller, 1 ≤ smaller → smaller ≤ value →
    ∃ time', calculateRelativeDate now smaller unit = some time' ∧ time ≤ time'

-- ---------------------------------------------------------------------------
-- Dates some months before
-- ---------------------------------------------------------------------------

theorem calculateRelativeDate_inMonths {unit : RelativeDateUnit} {months : Nat} (now : Int)
    (value : Nat) (h : unit.inMonths = some months) :
    calculateRelativeDate now value unit = timeClip (monthsBefore now (months * value)) := by
  cases unit <;> simp [RelativeDateUnit.inMonths] at h <;> subst h <;>
    simp [calculateRelativeDate, backMonths, monthsBefore, monthOfTime, dayOfTime]

theorem monthsBefore_zero (now : Int) : monthsBefore now 0 = now := by
  unfold monthsBefore monthOfTime dayOfTime
  rw [sub_zero, Calendar.dateOf_monthOf]
  exact Int.mul_ediv_add_emod now msPerDay

theorem monthsBefore_strictAnti (now : Int) : StrictAnti (monthsBefore now) := by
  intro months months' hlt
  have hstart : monthStart (monthOfTime now - months') < monthStart (monthOfTime now - months) :=
    Calendar.monthStart_strictMono (by omega)
  unfold monthsBefore dateOf msPerDay
  omega

theorem monthsBefore_div (now months : Int) :
    monthsBefore now months / msPerDay = dateOf (monthOfTime now - months) (dayOfTime now) := by
  unfold monthsBefore msPerDay
  omega

theorem one_le_dayOfTime (now : Int) : 1 ≤ dayOfTime now :=
  (Calendar.dayOfMonth_bounds (now / msPerDay)).1

theorem monthOfTime_monthsBefore (now months : Int) :
    monthOfTime (monthsBefore now months) = monthOfTime now - months ↔
      dayOfTime now ≤ monthLength (monthOfTime now - months) := by
  rw [show monthOfTime (monthsBefore now months) =
    monthOf (dateOf (monthOfTime now - months) (dayOfTime now)) by
      rw [monthOfTime, monthsBefore_div]]
  exact Calendar.monthOf_dateOf_iff (one_le_dayOfTime now)

theorem calculateRelativeDate_antitone {unit : RelativeDateUnit} {months : Nat} {now : Int}
    (hunit : unit.inMonths = some months) (hnow : now ≤ maxTime) {value smaller : Nat}
    {time : Int} (hsmaller : 1 ≤ smaller) (hle : smaller ≤ value)
    (htime : calculateRelativeDate now value unit = some time) :
    ∃ time', calculateRelativeDate now smaller unit = some time' ∧ time ≤ time' ∧ time' < now := by
  have hmonths : 1 ≤ months := by
    cases unit <;> simp [RelativeDateUnit.inMonths] at hunit <;> omega
  rw [calculateRelativeDate_inMonths now value hunit, timeClip_eq_some] at htime
  obtain ⟨⟨hlow, -⟩, rfl⟩ := htime
  have hback : monthsBefore now (months * value) ≤ monthsBefore now (months * smaller) :=
    (monthsBefore_strictAnti now).antitone (by exact_mod_cast Nat.mul_le_mul_left months hle)
  have hbefore : monthsBefore now (months * smaller) < now := by
    have hpos : (0 : Int) < months * smaller := by positivity
    calc monthsBefore now (months * smaller) < monthsBefore now 0 :=
          monthsBefore_strictAnti now hpos
      _ = now := monthsBefore_zero now
  refine ⟨_, ?_, hback, hbefore⟩
  rw [calculateRelativeDate_inMonths now smaller hunit, timeClip_eq_some]
  exact ⟨⟨hlow.trans hback, hbefore.le.trans hnow⟩, rfl⟩

-- ---------------------------------------------------------------------------
-- Where the month is met
-- ---------------------------------------------------------------------------

/-- The month of the first of all dates, April 20 of -271821. -/
def firstMonth : Int := 12 * (-271821) + 3

/-- The month this many months before now has the day of now, and this day is not
before the first of all dates. -/
def HasDay (now months : Int) : Prop :=
  dayOfTime now ≤ monthLength (monthOfTime now - months) ∧
    (firstMonth < monthOfTime now - months ∨
      firstMonth = monthOfTime now - months ∧ 20 ≤ dayOfTime now)

instance (now months : Int) : Decidable (HasDay now months) :=
  inferInstanceAs (Decidable (_ ∧ _))

theorem neg_maxTime_le_monthsBefore {now months : Int}
    (hday : dayOfTime now ≤ monthLength (monthOfTime now - months)) :
    -maxTime ≤ monthsBefore now months ↔ firstMonth < monthOfTime now - months ∨
      firstMonth = monthOfTime now - months ∧ 20 ≤ dayOfTime now := by
  have hdays : -maxTime ≤ monthsBefore now months ↔
      -100000000 ≤ dateOf (monthOfTime now - months) (dayOfTime now) := by
    unfold monthsBefore maxTime msPerDay
    omega
  have hfirst : monthStart firstMonth = -100000019 := by decide
  have hone := one_le_dayOfTime now
  rw [hdays, dateOf]
  rcases lt_trichotomy firstMonth (monthOfTime now - months) with hlt | heq | hgt
  · have hstart := Calendar.monthStart_strictMono.monotone (Int.add_one_le_iff.mpr hlt)
    rw [Calendar.monthStart_succ, hfirst, show monthLength firstMonth = 30 by decide] at hstart
    exact iff_of_true (by omega) (Or.inl hlt)
  · rw [← heq, hfirst]
    omega
  · have hstart := Calendar.monthStart_strictMono.monotone (Int.add_one_le_iff.mpr hgt)
    rw [Calendar.monthStart_succ, hfirst] at hstart
    exact iff_of_false (by omega) (by omega)

theorem movesBack_iff {unit : RelativeDateUnit} {months : Nat} {now : Int}
    (hunit : unit.inMonths = some months) (hnow : now ≤ maxTime) {value : Nat} (hvalue : 1 ≤ value) :
    (∃ time, calculateRelativeDate now value unit = some time ∧
      MovesBack now unit months value time) ↔ HasDay now (months * value) := by
  constructor
  · rintro ⟨time, htime, hmoves⟩
    rw [calculateRelativeDate_inMonths now value hunit, timeClip_eq_some] at htime
    obtain ⟨⟨hlow, -⟩, rfl⟩ := htime
    have hday := (monthOfTime_monthsBefore now _).mp hmoves.month
    exact ⟨hday, (neg_maxTime_le_monthsBefore hday).mp hlow⟩
  · rintro ⟨hday, hfirst⟩
    have hlow := (neg_maxTime_le_monthsBefore hday).mpr hfirst
    have hclip : monthsBefore now (months * value) ≤ maxTime := by
      calc monthsBefore now (months * value) ≤ monthsBefore now 0 :=
            (monthsBefore_strictAnti now).antitone (by positivity)
        _ = now := monthsBefore_zero now
        _ ≤ maxTime := hnow
    have htime :
        calculateRelativeDate now value unit = some (monthsBefore now (months * value)) := by
      rw [calculateRelativeDate_inMonths now value hunit, timeClip_eq_some]
      exact ⟨⟨hlow, hclip⟩, rfl⟩
    refine ⟨_, htime, (monthOfTime_monthsBefore now _).mpr hday, ?_, ?_⟩
    · obtain ⟨time', heq, -, hlt⟩ :=
        calculateRelativeDate_antitone hunit hnow hvalue le_rfl htime
      rw [htime, Option.some.injEq] at heq
      rwa [heq]
    · intro smaller hsmaller hle
      obtain ⟨time', heq, hback, -⟩ :=
        calculateRelativeDate_antitone hunit hnow hsmaller hle htime
      exact ⟨time', heq, hback⟩

def MonthsAndYears (now : Int) (value : Nat) : Prop :=
  (∃ time, calculateRelativeDate now value .months = some time ∧
      MovesBack now .months 1 value time) ∧
    ∃ time, calculateRelativeDate now value .years = some time ∧
      MovesBack now .years 12 value time

/-- The dates of a value meet the calendar exactly when both months have the day of
now. They are before now and move back with the value in any case. -/
theorem monthsAndYears_iff (now : Int) (hnow : timeClip now = some now) (value : Nat)
    (hvalue : 1 ≤ value) :
    (MonthsAndYears now value ↔ HasDay now value ∧ HasDay now (12 * value)) ∧
      ∀ unit ∈ [RelativeDateUnit.months, .years], ∀ smaller time, 1 ≤ smaller → smaller ≤ value →
        calculateRelativeDate now value unit = some time →
        ∃ time', calculateRelativeDate now smaller unit = some time' ∧ time ≤ time' ∧
          time' < now := by
  have hmax : now ≤ maxTime := (timeClip_eq_some.mp hnow).1.2
  constructor
  · have hinMonths : RelativeDateUnit.inMonths .months = some 1 := rfl
    have hinYears : RelativeDateUnit.inMonths .years = some 12 := rfl
    have hmonths := movesBack_iff hinMonths hmax hvalue
    have hyears := movesBack_iff hinYears hmax hvalue
    rw [Nat.cast_one, one_mul] at hmonths
    exact and_congr hmonths hyears
  · intro unit hunit smaller time hsmaller hle htime
    obtain ⟨months, hmonths⟩ : ∃ months, unit.inMonths = some months := by
      rcases List.mem_pair.mp hunit with rfl | rfl
      · exact ⟨1, rfl⟩
      · exact ⟨12, rfl⟩
    exact calculateRelativeDate_antitone hmonths hmax hsmaller hle htime

/-- May 30, 2026 has its day in April and in May of the year before. -/
theorem monthsAndYears_iff_may : MonthsAndYears 1780099200000 1 :=
  (monthsAndYears_iff 1780099200000 rfl 1 le_rfl).1.mpr (by decide)

/-- One month before March 31, 2026 is March 3. -/
theorem not_monthsAndYears : ¬ MonthsAndYears 1774915200000 1 := by
  rintro ⟨⟨time, htime, hmoves⟩, -⟩
  have hmarch : calculateRelativeDate 1774915200000 1 .months = some 1772496000000 := by decide
  rw [hmarch, Option.some.injEq] at htime
  subst htime
  exact absurd hmoves.month (by decide)

end SafrochainIndexer.Api
