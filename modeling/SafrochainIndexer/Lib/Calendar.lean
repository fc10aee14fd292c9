import Mathlib.Data.Int.ConditionallyCompleteOrder
import Mathlib.Order.Monotone.Basic
import Mathlib.Tactic.IntervalCases
import Mathlib.Tactic.Linarith

/-!
# The Gregorian calendar

Days count from 1970-01-01 and months from January of year 0, both in either
direction, so that a month has one number for its year and its name. A date is a
month and a day in it; `monthStart` says where a month begins, and `monthOf` finds
the month of a day (`monthOf_eq_iff`).
-/

namespace SafrochainIndexer.Calendar

def isLeap (year : Int) : Bool := decide (year % 4 = 0 ∧ (year % 100 ≠ 0 ∨ year % 400 = 0))

def monthLength (month : Int) : Int :=
  match (month % 12).toNat with
  | 1 => if isLeap (month / 12) then 29 else 28
  | 3 | 5 | 8 | 10 => 30
  | _ => 31

/-- The days before March 1 of a year, from that of year 0 on. -/
def marchStart (year : Int) : Int := 365 * year + year / 4 - year / 100 + year / 400

/-- The first day of a month. Years go from March to February here, so that the
leap day is the last one. -/
def monthStart (month : Int) : Int :=
  marchStart ((month - 2) / 12) + (153 * ((month - 2) % 12) + 2) / 5 - 719468

/-- A month that is at most one month away from the day. -/
def monthNear (day : Int) : Int := (day + 719468) * 4800 / 146097 + 2

def monthOf (day : Int) : Int :=
  let near := monthNear day
  if day < monthStart near then near - 1
  else if day < monthStart (near + 1) then near
  else near + 1

/-- The days of a month count from one. -/
def dayOfMonth (day : Int) : Int := day - monthStart (monthOf day) + 1

/-- The day with this number in a month, which may be one of another month. -/
def dateOf (month dayOfMonth : Int) : Int := monthStart month + dayOfMonth - 1

-- ---------------------------------------------------------------------------
-- Months
-- ---------------------------------------------------------------------------

theorem ediv_succ (n : Int) {k : Int} (hk : 0 < k) :
    (n + 1) / k = n / k + if (n + 1) % k = 0 then 1 else 0 := by
  have hn := Int.mul_ediv_add_emod n k
  have hn' := Int.mul_ediv_add_emod (n + 1) k
  have hmod := Int.emod_nonneg n hk.ne'
  have hmod' := Int.emod_nonneg (n + 1) hk.ne'
  have hlt := Int.emod_lt_of_pos n hk
  have hlt' := Int.emod_lt_of_pos (n + 1) hk
  split
  · rename_i hzero
    rw [hzero, add_zero] at hn'
    refine le_antisymm ?_ ?_
    · exact Int.lt_add_one_iff.mp (by nlinarith)
    · exact Int.add_one_le_iff.mpr (by nlinarith)
  · rename_i hne
    have hpos : 1 ≤ (n + 1) % k := by omega
    rw [add_zero]
    refine le_antisymm ?_ ?_
    · exact Int.lt_add_one_iff.mp (by nlinarith)
    · exact Int.lt_add_one_iff.mp (by nlinarith)

theorem marchStart_succ (year : Int) :
    marchStart (year + 1) = marchStart year + if isLeap (year + 1) then 366 else 365 := by
  have h4 := ediv_succ year (show (0 : Int) < 4 by decide)
  have h100 := ediv_succ year (show (0 : Int) < 100 by decide)
  have h400 := ediv_succ year (show (0 : Int) < 400 by decide)
  unfold marchStart isLeap
  rw [h4, h100, h400]
  by_cases hfour : (year + 1) % 4 = 0
  · by_cases hhundred : (year + 1) % 100 = 0
    · by_cases hfourhundred : (year + 1) % 400 = 0
      · simp [hfour, hhundred, hfourhundred]
        omega
      · simp [hfour, hhundred, hfourhundred]
        omega
    · have hne : (year + 1) % 400 ≠ 0 := by omega
      simp [hfour, hhundred, hne]
      omega
  · have hhundred : (year + 1) % 100 ≠ 0 := by omega
    have hne : (year + 1) % 400 ≠ 0 := by omega
    simp [hfour, hhundred, hne]
    omega

theorem monthStart_succ (month : Int) :
    monthStart (month + 1) = monthStart month + monthLength month := by
  obtain ⟨year, r, hr, hlt, hmonth⟩ : ∃ year r : Int, 0 ≤ r ∧ r < 12 ∧ month - 2 = 12 * year + r :=
    ⟨(month - 2) / 12, (month - 2) % 12, by omega, by omega, by omega⟩
  have hdiv : (month - 2) / 12 = year := by omega
  have hmod : (month - 2) % 12 = r := by omega
  by_cases hlast : r = 11
  · have hdiv' : (month + 1 - 2) / 12 = year + 1 := by omega
    have hmod' : (month + 1 - 2) % 12 = 0 := by omega
    have hname : (month % 12).toNat = 1 := by omega
    have hyear : month / 12 = year + 1 := by omega
    unfold monthStart monthLength
    rw [hdiv, hmod, hdiv', hmod', hname, hyear, marchStart_succ, hlast]
    split <;> simp <;> omega
  · have hdiv' : (month + 1 - 2) / 12 = year := by omega
    have hmod' : (month + 1 - 2) % 12 = r + 1 := by omega
    unfold monthStart monthLength
    rw [hdiv, hmod, hdiv', hmod']
    have hname : (month % 12).toNat = (if r < 10 then r + 2 else r - 10).toNat := by
      split <;> omega
    rw [hname]
    clear hdiv hmod hdiv' hmod' hname hmonth
    interval_cases r <;> simp <;> omega

theorem monthLength_bounds (month : Int) : 28 ≤ monthLength month ∧ monthLength month ≤ 31 := by
  unfold monthLength
  split
  · split <;> decide
  all_goals decide

theorem monthStart_strictMono : StrictMono monthStart := by
  refine strictMono_int_of_lt_succ fun month => ?_
  have hlength := (monthLength_bounds month).1
  rw [monthStart_succ]
  omega

-- ---------------------------------------------------------------------------
-- The month of a day
-- ---------------------------------------------------------------------------

theorem monthNear_bounds (day : Int) :
    monthStart (monthNear day - 1) ≤ day ∧ day < monthStart (monthNear day + 2) := by
  have hnear : ∃ near, monthNear day = near + 2 ∧ 146097 * near ≤ (day + 719468) * 4800 ∧
      (day + 719468) * 4800 < 146097 * (near + 1) :=
    ⟨(day + 719468) * 4800 / 146097, rfl, by omega, by omega⟩
  obtain ⟨near, hnear, hlow, hhigh⟩ := hnear
  have hyear : ∀ year : Int, 400 * marchStart year ≤ 146097 * year + 396 ∧
      146097 * year - 699 ≤ 400 * marchStart year := by
    intro year
    unfold marchStart
    omega
  have hstart : ∀ month : Int, 4800 * (monthStart month + 719468) ≤ 146097 * (month - 2) + 15285 ∧
      146097 * (month - 2) - 10308 ≤ 4800 * (monthStart month + 719468) := by
    intro month
    obtain ⟨hle, hge⟩ := hyear ((month - 2) / 12)
    unfold monthStart
    omega
  have hbefore := (hstart (near + 1)).1
  have hafter := (hstart (near + 4)).2
  rw [hnear, show near + 2 - 1 = near + 1 by omega, show near + 2 + 2 = near + 4 by omega]
  constructor
  · omega
  · omega

theorem monthOf_spec (day : Int) :
    monthStart (monthOf day) ≤ day ∧ day < monthStart (monthOf day + 1) := by
  obtain ⟨hlow, hhigh⟩ := monthNear_bounds day
  unfold monthOf
  dsimp only
  split
  · rename_i hbefore
    exact ⟨hlow, by rwa [sub_add_cancel]⟩
  · rename_i hstart
    split
    · rename_i hend
      exact ⟨not_lt.mp hstart, hend⟩
    · rename_i hend
      exact ⟨not_lt.mp hend, by rwa [add_assoc]⟩

theorem monthOf_eq_iff {day month : Int} :
    monthOf day = month ↔ monthStart month ≤ day ∧ day < monthStart (month + 1) := by
  constructor
  · rintro rfl
    exact monthOf_spec day
  · rintro ⟨hlow, hhigh⟩
    obtain ⟨hlow', hhigh'⟩ := monthOf_spec day
    have hle := monthStart_strictMono.lt_iff_lt.mp (lt_of_le_of_lt hlow hhigh')
    have hge := monthStart_strictMono.lt_iff_lt.mp (lt_of_le_of_lt hlow' hhigh)
    omega

theorem dayOfMonth_bounds (day : Int) :
    1 ≤ dayOfMonth day ∧ dayOfMonth day ≤ monthLength (monthOf day) := by
  obtain ⟨hlow, hhigh⟩ := monthOf_spec day
  rw [monthStart_succ] at hhigh
  unfold dayOfMonth
  omega

@[simp] theorem dateOf_monthOf (day : Int) : dateOf (monthOf day) (dayOfMonth day) = day := by
  unfold dateOf dayOfMonth
  omega

theorem monthOf_dateOf_iff {month dayOfMonth : Int} (h : 1 ≤ dayOfMonth) :
    monthOf (dateOf month dayOfMonth) = month ↔ dayOfMonth ≤ monthLength month := by
  rw [monthOf_eq_iff, monthStart_succ, dateOf]
  omega

end SafrochainIndexer.Calendar
