import SafrochainIndexer.Api.DateSerializer
import SafrochainIndexer.Lib.Calendar

/-!
# Filters by date

`applyDateFilters` and `calculateRelativeDate` of `date-filter.service.ts`. A
request that supplies several filters has the conditions of all of them; the
columns are of the type `TIMESTAMP`, and the server and the database run in UTC.
-/

namespace SafrochainIndexer.Api

open Calendar (monthOf monthStart dayOfMonth dateOf)

inductive RelativeDateUnit
  | minutes
  | hours
  | days
  | weeks
  | months
  | years
  deriving DecidableEq, Repr

structure DateFilterDto where
  dateFrom : Option String := none
  dateTo : Option String := none
  dateExact : Option String := none
  year : Option Nat := none
  month : Option Nat := none
  day : Option Nat := none
  dayOfWeek : Option Nat := none
  hour : Option Nat := none
  minute : Option Nat := none
  second : Option Nat := none
  timeFrom : Option String := none
  timeTo : Option String := none
  relativeValue : Option Nat := none
  relativeUnit : Option RelativeDateUnit := none
  businessDaysOnly : Option Bool := none
  weekdays : Option String := none
  months : Option String := none
  years : Option String := none
  quarters : Option String := none
  season : Option String := none
  fiscalYear : Option Int := none
  fiscalQuarter : Option Nat := none
  leapYearsOnly : Option Bool := none
  customRanges : Option String := none
  dateOffset : Option String := none
  validDatesOnly : Option Bool := none
  deriving DecidableEq, Repr

-- ---------------------------------------------------------------------------
-- Dates of JavaScript
-- ---------------------------------------------------------------------------

/-- What the engine parses: the milliseconds of a date, which the empty text is
not, and an integer at the front of a text. -/
structure Engine where
  dateParse : String → Option Int
  parseInt : String → Option Int
  dateParse_empty : dateParse "" = none

def msPerDay : Int := 86400000

/-- A `Date` of more milliseconds is invalid. -/
def maxTime : Int := 8640000000000000

def timeClip (time : Int) : Option Int :=
  if -maxTime ≤ time ∧ time ≤ maxTime then some time else none

@[simp] theorem timeClip_eq_some {time time' : Int} :
    timeClip time = some time' ↔ (-maxTime ≤ time ∧ time ≤ maxTime) ∧ time = time' := by
  simp [timeClip]

def newDate (engine : Engine) (text : String) : Option Int := (engine.dateParse text).bind timeClip

/-- `new Date(year, month, day)`, with a month from zero on. A year of two digits
is one of the twentieth century. -/
def newDateOf (year month day : Int) : Option Int :=
  let fullYear := if 0 ≤ year ∧ year ≤ 99 then 1900 + year else year
  timeClip (msPerDay * dateOf (12 * fullYear + month) day)

/-- `date.setHours(..)` to a time of the day. -/
def setTime (time timeOfDay : Int) : Option Int :=
  timeClip (msPerDay * (time / msPerDay) + timeOfDay)

/-- `date.setMonth(date.getMonth() - months)`. The number of the day stays, also if
the month has fewer days. -/
def backMonths (time months : Int) : Option Int :=
  let day := time / msPerDay
  timeClip (msPerDay * dateOf (monthOf day - months) (dayOfMonth day) + time % msPerDay)

/-- `now` is `new Date()`. -/
def calculateRelativeDate (now : Int) (value : Nat) : RelativeDateUnit → Option Int
  | .minutes => timeClip (now - 60000 * value)
  | .hours => timeClip (now - 3600000 * value)
  | .days => timeClip (now - msPerDay * value)
  | .weeks => timeClip (now - msPerDay * (value * 7))
  | .months => backMonths now value
  | .years => backMonths now (12 * value)

-- ---------------------------------------------------------------------------
-- Conditions
-- ---------------------------------------------------------------------------

/-- On a timestamp, which counts microseconds. -/
abbrev Condition := Int → Bool

inductive QueryError
  | invalidDate
  | outOfRange
  | syntaxError
  deriving DecidableEq, Repr

/-- November 24 of 4714 BC: Postgres has no timestamp before. -/
def firstTimestamp : Int := -210866803200000000

def parameter : Option Int → Except QueryError Int
  | some time => if 1000 * time < firstTimestamp then .error .outOfRange else .ok (1000 * time)
  | none => .error .invalidDate

def notBefore (date : Option Int) : Except QueryError Condition := do
  let bound ← parameter date
  pure fun t => decide (bound ≤ t)

def notAfter (date : Option Int) : Except QueryError Condition := do
  let bound ← parameter date
  pure fun t => decide (t ≤ bound)

def dayOfTimestamp (t : Int) : Int := t / 86400000000

/-- There is no year 0: the year before 1 is -1. -/
def extractYear (t : Int) : Int :=
  let year := monthOf (dayOfTimestamp t) / 12
  if 0 < year then year else year - 1

inductive DateField
  | year
  | month
  | day
  | dow
  | hour
  | minute
  | second
  | quarter
  deriving DecidableEq, Repr

/-- `EXTRACT(field FROM timestamp)`; only seconds have a fractional part. -/
def extract (t : Int) : DateField → Rat
  | .year => extractYear t
  | .month => (monthOf (dayOfTimestamp t) % 12 + 1 : Int)
  | .day => dayOfMonth (dayOfTimestamp t)
  | .dow => ((dayOfTimestamp t + 4) % 7 : Int)
  | .hour => (t / 3600000000 % 24 : Int)
  | .minute => (t / 60000000 % 60 : Int)
  | .second => (t % 60000000 : Int) / (1000000 : Rat)
  | .quarter => (monthOf (dayOfTimestamp t) % 12 / 3 + 1 : Int)

/-- `EXTRACT(field FROM timestamp) IN (..)`; an empty list is no list of SQL. -/
def among (field : DateField) : List Int → Except QueryError Condition
  | [] => .error .syntaxError
  | numbers => .ok fun t => decide (extract t field ∈ numbers.map fun n : Int => (n : Rat))

/-- What is no number is NaN, which no field is equal to. -/
def amongTexts (engine : Engine) (field : DateField) (texts : String) : Condition := fun t =>
  decide (extract t field ∈ ((Text.splitAt texts ',').filterMap fun text =>
    engine.parseInt (Text.trim text)).map fun n : Int => (n : Rat))

def getSeasonMonths (season : String) : List Int :=
  match toLowerCase season with
  | "spring" => [3, 4, 5]
  | "summer" => [6, 7, 8]
  | "fall" | "autumn" => [9, 10, 11]
  | "winter" => [12, 1, 2]
  | _ => []

def getFiscalQuarterMonths : Nat → List Int
  | 1 => [4, 5, 6]
  | 2 => [7, 8, 9]
  | 3 => [10, 11, 12]
  | 4 => [1, 2, 3]
  | _ => []

def rangesOf (engine : Engine) : List String → List (Int × Int)
  | start :: stop :: texts =>
    match newDate engine (Text.trim start), newDate engine (Text.trim stop) with
    | some start, some stop => (start, stop) :: rangesOf engine texts
    | _, _ => rangesOf engine texts
  | _ => []

def parseCustomRanges (engine : Engine) (customRanges : String) : List (Int × Int) :=
  rangesOf engine (Text.splitAt customRanges ',')

-- ---------------------------------------------------------------------------
-- Filters
-- ---------------------------------------------------------------------------

inductive DateFilter
  | dateFrom (text : String)
  | dateTo (text : String)
  | dateExact (text : String)
  | year (n : Nat)
  | month (n : Nat)
  | day (n : Nat)
  | dayOfWeek (n : Nat)
  | hour (n : Nat)
  | minute (n : Nat)
  | second (n : Nat)
  | timeFrom (text : String)
  | timeTo (text : String)
  | relative (value : Nat) (unit : RelativeDateUnit)
  | businessDaysOnly (b : Bool)
  | weekdays (texts : String)
  | months (texts : String)
  | years (texts : String)
  | quarters (texts : String)
  | season (text : String)
  | fiscalYear (year : Int)
  | fiscalQuarter (n : Nat)
  | leapYearsOnly (b : Bool)
  | customRanges (texts : String)
  | dateOffset (text : String)
  | validDatesOnly (b : Bool)
  deriving DecidableEq, Repr

/-- In the order of `applyDateFilters`. -/
def DateFilterDto.supplied (filters : DateFilterDto) : List DateFilter :=
  [filters.dateFrom.map .dateFrom, filters.dateTo.map .dateTo, filters.dateExact.map .dateExact,
    filters.year.map .year, filters.month.map .month, filters.day.map .day,
    filters.dayOfWeek.map .dayOfWeek, filters.hour.map .hour, filters.minute.map .minute,
    filters.second.map .second, filters.timeFrom.map .timeFrom, filters.timeTo.map .timeTo,
    filters.relativeValue.bind fun value => filters.relativeUnit.map (.relative value),
    filters.businessDaysOnly.map .businessDaysOnly, filters.weekdays.map .weekdays,
    filters.months.map .months, filters.years.map .years, filters.quarters.map .quarters,
    filters.season.map .season, filters.fiscalYear.map .fiscalYear,
    filters.fiscalQuarter.map .fiscalQuarter, filters.leapYearsOnly.map .leapYearsOnly,
    filters.customRanges.map .customRanges, filters.dateOffset.map .dateOffset,
    filters.validDatesOnly.map .validDatesOnly].reduceOption

/-- `if (filter) {..}`: nothing is added for a falsy value. -/
def whenTruthy (truthy : Prop) [Decidable truthy] (conditions : Except QueryError (List Condition)) :
    Except QueryError (List Condition) :=
  if truthy then conditions else .ok []

/-- `EXTRACT(field FROM timestamp) = n`. -/
def equals (field : DateField) (n : Nat) : Except QueryError (List Condition) :=
  .ok [fun t => decide (extract t field = n)]

/-- What `applyDateFilters` adds to the query for a filter. Postgres has no
function `TIME`. -/
def DateFilter.conditions (engine : Engine) (now : Int) :
    DateFilter → Except QueryError (List Condition)
  | .dateFrom text => whenTruthy (text ≠ "") do pure [← notBefore (newDate engine text)]
  | .dateTo text => whenTruthy (text ≠ "") do pure [← notAfter (newDate engine text)]
  | .dateExact text => whenTruthy (text ≠ "") do
    let exactDate := newDate engine text
    let startOfDay := exactDate.bind fun time => setTime time 0
    let endOfDay := exactDate.bind fun time => setTime time 86399999
    pure [← notBefore startOfDay, ← notAfter endOfDay]
  | .year n => whenTruthy (n ≠ 0) (equals .year n)
  | .month n => whenTruthy (n ≠ 0) (equals .month n)
  | .day n => whenTruthy (n ≠ 0) (equals .day n)
  | .dayOfWeek n => equals .dow n
  | .hour n => equals .hour n
  | .minute n => equals .minute n
  | .second n => equals .second n
  | .timeFrom text => whenTruthy (text ≠ "") (.error .syntaxError)
  | .timeTo text => whenTruthy (text ≠ "") (.error .syntaxError)
  | .relative value unit => whenTruthy (value ≠ 0) do
    pure [← notBefore (calculateRelativeDate now value unit)]
  | .businessDaysOnly b => whenTruthy (b = true) (.ok [fun t => decide (extract t .dow ∉ [0, 6])])
  | .weekdays texts => whenTruthy (texts ≠ "") (.ok [amongTexts engine .dow texts])
  | .months texts => whenTruthy (texts ≠ "") (.ok [amongTexts engine .month texts])
  | .years texts => whenTruthy (texts ≠ "") (.ok [amongTexts engine .year texts])
  | .quarters texts => whenTruthy (texts ≠ "") (.ok [amongTexts engine .quarter texts])
  | .season text => whenTruthy (text ≠ "") do pure [← among .month (getSeasonMonths text)]
  | .fiscalYear y => whenTruthy (y ≠ 0) do
    let fiscalYearStart := newDateOf y 3 1
    let fiscalYearEnd := newDateOf (y + 1) 2 31
    pure [← notBefore fiscalYearStart, ← notAfter fiscalYearEnd]
  | .fiscalQuarter n => whenTruthy (n ≠ 0) do pure [← among .month (getFiscalQuarterMonths n)]
  | .leapYearsOnly b => whenTruthy (b = true) (.ok [
      fun t => decide (extractYear t % 4 = 0),
      fun t => decide (extractYear t % 100 ≠ 0 ∨ extractYear t % 400 = 0)])
  | .customRanges texts => whenTruthy (texts ≠ "") do
    let conditions ← (parseCustomRanges engine texts).mapM fun range => do
      pure (← notBefore (some range.1), ← notAfter (some range.2))
    if conditions.isEmpty then pure []
    else pure [fun t => conditions.any fun condition => condition.1 t && condition.2 t]
  | .dateOffset text => whenTruthy (text ≠ "") do
    let offsetDate := (engine.parseInt text).bind fun offsetDays =>
      timeClip (now + msPerDay * offsetDays)
    pure [← notBefore offsetDate]
  | .validDatesOnly b => whenTruthy (b = true) (.ok [fun t => decide (t ≠ 0)])

def applyAll (engine : Engine) (now : Int) (filters : List DateFilter) :
    Except QueryError (List Condition) := do
  let conditions ← filters.mapM (DateFilter.conditions engine now)
  pure conditions.flatten

def applyDateFilters (engine : Engine) (now : Int) (filters : DateFilterDto) :
    Except QueryError (List Condition) :=
  applyAll engine now filters.supplied

end SafrochainIndexer.Api
