import SafrochainIndexer.Lib.Effect
import SafrochainIndexer.Lib.Script

/-!
# Serialized dates

`serializeDates` walks over a response and makes texts of its dates. A field whose
name looks like that of a date goes to `serializeDate`, which has null for
anything but a date. `serializeDates_iff`: exactly which values keep everything
that is not a date.
-/

namespace SafrochainIndexer.Api

/-- What a response is made of before it becomes JSON. The time of a date counts
milliseconds, `none` is that of `Invalid Date`. No object has two fields of one
name. -/
inductive JsValue
  | undefined
  | null
  | bool (b : Bool)
  | number (n : Rat)
  | string (s : String)
  | date (time : Option Int)
  | array (elements : List JsValue)
  | object (fields : List (String × JsValue))

-- ---------------------------------------------------------------------------
-- ISO texts
-- ---------------------------------------------------------------------------

/-- Year, month and day of a day that is counted from 1970-01-01. The count goes
in eras of 400 years which begin in March, so that a leap day is the last. -/
def civil (day : Int) : Int × Int × Int :=
  let era := (day + 719468) / 146097
  let dayOfEra := (day + 719468) % 146097
  let yearOfEra := (dayOfEra - dayOfEra / 1460 + dayOfEra / 36524 - dayOfEra / 146096) / 365
  let dayOfYear := dayOfEra - (365 * yearOfEra + yearOfEra / 4 - yearOfEra / 100)
  let fromMarch := (5 * dayOfYear + 2) / 153
  let month := if fromMarch < 10 then fromMarch + 3 else fromMarch - 9
  let year := era * 400 + yearOfEra + if month ≤ 2 then 1 else 0
  (year, month, dayOfYear - (153 * fromMarch + 2) / 5 + 1)

def padded (width : Nat) (n : Int) : String :=
  let digits := toString n.natAbs
  .ofList (List.replicate (width - digits.length) '0') ++ digits

/-- Years beyond four digits have a sign and six digits. -/
def yearText (year : Int) : String :=
  if 0 ≤ year ∧ year ≤ 9999 then padded 4 year
  else (if year < 0 then "-" else "+") ++ padded 6 year

def isoText (time : Int) : String :=
  let (year, month, day) := civil (time / 86400000)
  let ms := time % 86400000
  yearText year ++ "-" ++ padded 2 month ++ "-" ++ padded 2 day ++ "T" ++
    padded 2 (ms / 3600000) ++ ":" ++ padded 2 (ms / 60000 % 60) ++ ":" ++
    padded 2 (ms / 1000 % 60) ++ "." ++ padded 3 (ms % 1000) ++ "Z"

def toISOString : Option Int → Except ScriptError String
  | some time => .ok (isoText time)
  | none => .error (.error "Invalid time value")

-- ---------------------------------------------------------------------------
-- Serialization
-- ---------------------------------------------------------------------------

def dateWords : List String := ["date", "time", "timestamp", "created", "updated", "jailed_until"]

/-- Of ASCII letters: no other letter has one of a word as its lower case. -/
def toLowerCase (s : String) : String := .ofList (s.toList.map Char.toLower)

def dateLike (key : String) : Bool :=
  dateWords.any fun word => Text.contains (toLowerCase key) word

section
-- `Date.parse`, which accepts more formats than the standard names
variable (dateParse : String → Option Int)

def serializeDate : JsValue → Except ScriptError JsValue
  | .string s =>
    if s = "" then .ok .null
    else
      match dateParse s with
      | some time => (toISOString (some time)).map .string
      | none => .ok .null
  | .date time => (toISOString time).map .string
  | _ => .ok .null

mutual

def serializeDates : JsValue → Except ScriptError JsValue
  | .date time => (toISOString time).map .string
  | .array elements => (serializeElements elements).map .array
  | .object fields => (serializeFields fields).map .object
  | .undefined => .ok .undefined
  | .null => .ok .null
  | .bool b => .ok (.bool b)
  | .number n => .ok (.number n)
  | .string s => .ok (.string s)

def serializeElements : List JsValue → Except ScriptError (List JsValue)
  | [] => .ok []
  | element :: elements => do
    let element ← serializeDates element
    let elements ← serializeElements elements
    .ok (element :: elements)

/-- An assignment to `__proto__` adds no field. -/
def serializeFields : List (String × JsValue) → Except ScriptError (List (String × JsValue))
  | [] => .ok []
  | (key, value) :: fields => do
    let value ← if dateLike key then serializeDate dateParse value else serializeDates value
    let fields ← serializeFields fields
    .ok (if key = "__proto__" then fields else (key, value) :: fields)

end

-- ---------------------------------------------------------------------------
-- What should come out
-- ---------------------------------------------------------------------------

def parsed : JsValue → Option Int
  | .string s => if s = "" then none else dateParse s
  | _ => none

mutual

/-- Dates become texts, and so do texts of dates under the name of a date. All
else stays. -/
def expected : JsValue → JsValue
  | .date (some time) => .string (isoText time)
  | .date none => .date none
  | .array elements => .array (expectedElements elements)
  | .object fields => .object (expectedFields fields)
  | .undefined => .undefined
  | .null => .null
  | .bool b => .bool b
  | .number n => .number n
  | .string s => .string s

def expectedElements : List JsValue → List JsValue
  | [] => []
  | element :: elements => expected element :: expectedElements elements

def expectedFields : List (String × JsValue) → List (String × JsValue)
  | [] => []
  | (key, value) :: fields =>
    (key,
      match if dateLike key then parsed dateParse value else none with
      | some time => .string (isoText time)
      | none => expected value) :: expectedFields fields

end

-- ---------------------------------------------------------------------------
-- When it does
-- ---------------------------------------------------------------------------

def DateValue (value : JsValue) : Prop :=
  match value with
  | .null => True
  | .date time => time.isSome
  | value => (parsed dateParse value).isSome

mutual

/-- Fields with the name of a date have dates, and no date is invalid. -/
def Kept : JsValue → Prop
  | .date time => time.isSome
  | .array elements => KeptElements elements
  | .object fields => KeptFields fields
  | .undefined | .null | .bool _ | .number _ | .string _ => True

def KeptElements : List JsValue → Prop
  | [] => True
  | element :: elements => Kept element ∧ KeptElements elements

def KeptFields : List (String × JsValue) → Prop
  | [] => True
  | (key, value) :: fields =>
    key ≠ "__proto__" ∧ (if dateLike key then DateValue dateParse value else Kept value) ∧
      KeptFields fields

end

-- ---------------------------------------------------------------------------
-- Results
-- ---------------------------------------------------------------------------

variable {dateParse}

@[simp] theorem map_ok_iff {α β : Type} {x : Except ScriptError α} {f : α → β} {b : β} :
    x.map f = .ok b ↔ ∃ a, x = .ok a ∧ f a = b := by
  cases x <;> simp [Except.map]

/-- Under the name of a date, null, dates and texts of dates are kept. -/
theorem serializeDate_iff (value : JsValue) :
    (serializeDate dateParse value = .ok (match parsed dateParse value with
      | some time => .string (isoText time)
      | none => expected dateParse value)) ↔ DateValue dateParse value := by
  cases value with
  | string s =>
    by_cases hs : s = ""
    · simp [serializeDate, parsed, DateValue, expected, hs]
    · cases hparse : dateParse s with
      | none => simp [serializeDate, parsed, DateValue, expected, hs, hparse]
      | some time => simp [serializeDate, parsed, DateValue, toISOString, hs, hparse]
  | date time => cases time <;> simp [serializeDate, parsed, DateValue, expected, toISOString]
  | undefined => simp [serializeDate, parsed, DateValue, expected]
  | null => simp [serializeDate, parsed, DateValue, expected]
  | bool b => simp [serializeDate, parsed, DateValue, expected]
  | number n => simp [serializeDate, parsed, DateValue, expected]
  | array elements => simp [serializeDate, parsed, DateValue, expected]
  | object fields => simp [serializeDate, parsed, DateValue, expected]

theorem serializeElements_cons {element : JsValue} {elements serialized : List JsValue} :
    serializeElements dateParse (element :: elements) = .ok serialized ↔
      ∃ first rest, serializeDates dateParse element = .ok first ∧
        serializeElements dateParse elements = .ok rest ∧ first :: rest = serialized := by
  simp only [serializeElements, Eff.bind_ok, Except.ok.injEq, exists_and_left]

theorem serializeFields_cons {key : String} {value : JsValue}
    {fields serialized : List (String × JsValue)} :
    serializeFields dateParse ((key, value) :: fields) = .ok serialized ↔
      ∃ first rest,
        (if dateLike key then serializeDate dateParse value else serializeDates dateParse value) =
          .ok first ∧
        serializeFields dateParse fields = .ok rest ∧
        (if key = "__proto__" then rest else (key, first) :: rest) = serialized := by
  rw [serializeFields]
  cases dateLike key <;> simp [Eff.bind_ok]

theorem length_serializeFields {fields serialized : List (String × JsValue)}
    (h : serializeFields dateParse fields = .ok serialized) :
    serialized.length ≤ fields.length := by
  induction fields generalizing serialized with
  | nil =>
    rw [serializeFields] at h
    cases h
    exact Nat.le_refl 0
  | cons field fields ih =>
    obtain ⟨key, value⟩ := field
    obtain ⟨first, rest, -, hrest, rfl⟩ := serializeFields_cons.mp h
    have hlength := ih hrest
    split
    · exact Nat.le_succ_of_le hlength
    · exact Nat.succ_le_succ hlength

theorem length_expectedFields (fields : List (String × JsValue)) :
    (expectedFields dateParse fields).length = fields.length := by
  induction fields with
  | nil => rfl
  | cons field fields ih => simp [expectedFields, ih]

theorem serializeField_iff (key : String) {value : JsValue}
    (hvalue : serializeDates dateParse value = .ok (expected dateParse value) ↔
      Kept dateParse value) :
    (if dateLike key then serializeDate dateParse value else serializeDates dateParse value) =
        .ok (match if dateLike key then parsed dateParse value else none with
          | some time => .string (isoText time)
          | none => expected dateParse value) ↔
      if dateLike key then DateValue dateParse value else Kept dateParse value := by
  cases dateLike key with
  | true => exact serializeDate_iff value
  | false => exact hvalue

mutual

theorem value_iff : ∀ value : JsValue,
    serializeDates dateParse value = .ok (expected dateParse value) ↔ Kept dateParse value
  | .undefined => by simp [serializeDates, expected, Kept]
  | .null => by simp [serializeDates, expected, Kept]
  | .bool _ => by simp [serializeDates, expected, Kept]
  | .number _ => by simp [serializeDates, expected, Kept]
  | .string _ => by simp [serializeDates, expected, Kept]
  | .date none => by simp [serializeDates, expected, Kept, toISOString]
  | .date (some _) => by simp [serializeDates, expected, Kept, toISOString]
  | .array elements => by simp [serializeDates, expected, Kept, elements_iff elements]
  | .object fields => by simp [serializeDates, expected, Kept, fields_iff fields]

theorem elements_iff : ∀ elements : List JsValue,
    serializeElements dateParse elements = .ok (expectedElements dateParse elements) ↔
      KeptElements dateParse elements
  | [] => by simp [serializeElements, expectedElements, KeptElements]
  | element :: elements => by
    simp [serializeElements_cons, expectedElements, KeptElements, value_iff element,
      elements_iff elements]

theorem fields_iff : ∀ fields : List (String × JsValue),
    serializeFields dateParse fields = .ok (expectedFields dateParse fields) ↔
      KeptFields dateParse fields
  | [] => by simp [serializeFields, expectedFields, KeptFields]
  | (key, value) :: fields => by
    have hfield := serializeField_iff key (value_iff value)
    have hfields := fields_iff fields
    rw [serializeFields_cons, expectedFields, KeptFields]
    constructor
    · rintro ⟨first, rest, hfirst, hrest, hserialized⟩
      by_cases hproto : key = "__proto__"
      · -- one field fewer than there were
        have hlength := length_serializeFields hrest
        rw [if_pos hproto] at hserialized
        rw [hserialized, List.length_cons, length_expectedFields] at hlength
        exact absurd hlength (Nat.not_succ_le_self _)
      · rw [if_neg hproto, List.cons.injEq, Prod.mk.injEq] at hserialized
        obtain ⟨⟨-, rfl⟩, rfl⟩ := hserialized
        exact ⟨hproto, hfield.mp hfirst, hfields.mp hrest⟩
    · rintro ⟨hproto, hkept, hrest⟩
      exact ⟨_, _, hfield.mpr hkept, hfields.mpr hrest, if_neg hproto⟩

end

/-- `serializeDates` makes texts of the dates and keeps all else, exactly if
every field with the name of a date is null, a date or the text of one. -/
theorem serializeDates_iff (dateParse : String → Option Int) (value : JsValue) :
    serializeDates dateParse value = .ok (expected dateParse value) ↔ Kept dateParse value :=
  value_iff value

end

def transferResponse (timestamp timeoutHeight : JsValue) : JsValue :=
  .object [
    ("timestamp", timestamp),
    ("messages", .array [.object [
      ("index", .number 0),
      ("value", .object [
        ("@type", .string "/ibc.applications.transfer.v1.MsgTransfer"),
        ("source_port", .string "transfer"),
        ("timeout_height", timeoutHeight)])]])]

def timeoutHeight : JsValue :=
  .object [("revision_number", .string "1"), ("revision_height", .string "1000")]

def newYear : String → Option Int
  | "2024-01-01T00:00:00.000Z" => some 1704067200000
  | _ => none

theorem isoText_newYear : isoText 1704067200000 = "2024-01-01T00:00:00.000Z" := by decide

/-- The timestamp becomes a text, the height at which the transfer times out
becomes null. -/
theorem timeout_height_lost :
    serializeDates newYear (transferResponse (.date (some 1704067200000)) timeoutHeight) =
        .ok (transferResponse (.string "2024-01-01T00:00:00.000Z") .null) ∧
      transferResponse (.string "2024-01-01T00:00:00.000Z") .null ≠
        expected newYear (transferResponse (.date (some 1704067200000)) timeoutHeight) := by
  rw [← isoText_newYear]
  refine ⟨rfl, fun h => ?_⟩
  change _ = transferResponse (.string (isoText 1704067200000)) timeoutHeight at h
  rw [isoText_newYear] at h
  simp [transferResponse, timeoutHeight] at h

end SafrochainIndexer.Api
