import SafrochainIndexer.Lib.Script
import Mathlib.Data.List.Sort

/-!
# Objects and big integers of a JavaScript program

What a program that adds up texts in an object `{}` uses: `BigInt(value)`,
`String(value)` for the key of a property, the properties that the object inherits,
and the order of `Object.entries`.
-/

namespace SafrochainIndexer

-- ---------------------------------------------------------------------------
-- Big integers
-- ---------------------------------------------------------------------------

def digitValue (c : Char) : Option Nat :=
  if c.isDigit then some (c.toNat - '0'.toNat)
  else if 'a' ≤ c ∧ c ≤ 'f' then some (c.toNat - 'a'.toNat + 10)
  else if 'A' ≤ c ∧ c ≤ 'F' then some (c.toNat - 'A'.toNat + 10)
  else none

def digitsFrom (base : Nat) : Nat → List Char → Option Nat
  | n, [] => some n
  | n, c :: cs =>
    match digitValue c with
    | none => none
    | some d => if d < base then digitsFrom base (base * n + d) cs else none

def digits (base : Nat) : List Char → Option Nat
  | [] => none
  | cs => digitsFrom base 0 cs

/-- `StringToBigInt`, after the white space: only decimal digits may have a sign. -/
def integerLiteral : List Char → Option Int
  | [] => some 0
  | '0' :: 'x' :: cs | '0' :: 'X' :: cs => (digits 16 cs).map Int.ofNat
  | '0' :: 'o' :: cs | '0' :: 'O' :: cs => (digits 8 cs).map Int.ofNat
  | '0' :: 'b' :: cs | '0' :: 'B' :: cs => (digits 2 cs).map Int.ofNat
  | '+' :: cs => (digits 10 cs).map Int.ofNat
  | '-' :: cs => (digits 10 cs).map fun n => -(n : Int)
  | cs => (digits 10 cs).map Int.ofNat

def notBigInt : ScriptError := .error "Cannot convert to a BigInt"

def textToBigInt (s : String) : Except ScriptError Int :=
  match integerLiteral (Text.trim s).toList with
  | some n => .ok n
  | none => .error notBigInt

namespace Json

mutual

/-- `String(value)`, with the text of a number as a parameter. An object whose own
`toString` is no function has no text. -/
def text (print : Rat → String) : Json → Except ScriptError String
  | .null => .ok "null"
  | .bool b => .ok (toString b)
  | .number n => .ok (print n)
  | .string s => .ok s
  | .array elements => do
    let texts ← elementTexts print elements
    pure (",".intercalate texts)
  | .object fields =>
    if "toString" ∈ fields.map Prod.fst then
      .error (.error "Cannot convert object to primitive value")
    else .ok "[object Object]"

def elementTexts (print : Rat → String) : List Json → Except ScriptError (List String)
  | [] => .ok []
  | element :: elements => do
    let text ← match element with
      | .null => pure ""
      | element => element.text print
    let texts ← elementTexts print elements
    pure (text :: texts)

end

def bigInt (print : Rat → String) : Json → Except ScriptError Int
  | .null | .object _ => .error notBigInt
  | .bool b => .ok (if b then 1 else 0)
  | .number n => if n.den = 1 then .ok n.num else .error notBigInt
  | .string s => textToBigInt s
  | .array elements => do
    let text ← (Json.array elements).text print
    textToBigInt text

end Json

theorem digitsFrom_toDigits {cs : List Char} (hd : ∀ c ∈ cs, c.isDigit = true) (n : Nat) :
    digitsFrom 10 n cs = some (Nat.ofDigitChars 10 cs n) := by
  induction cs generalizing n with
  | nil => rfl
  | cons c cs ih =>
    obtain ⟨hc, hcs⟩ := List.forall_mem_cons.mp hd
    have hten : c.toNat - '0'.toNat < 10 := by
      have hle : c.toNat ≤ '9'.toNat := (Char.isDigit_iff_toNat.mp hc).2
      have hvalues : '9'.toNat = 57 ∧ '0'.toNat = 48 := ⟨rfl, rfl⟩
      omega
    rw [digitsFrom, digitValue, if_pos hc]
    simp only [if_pos hten]
    rw [ih hcs, Nat.ofDigitChars_cons]

theorem not_isWhiteSpace {c : Char} (hd : c.isDigit = true) : Text.isWhiteSpace c = false := by
  have hle : c ≤ '9' := (Char.isDigit_iff_toNat.mp hd).2
  rw [Text.isWhiteSpace, decide_eq_false_iff_not]
  rintro (rfl | ⟨hspace, -⟩)
  · exact absurd hd (by decide)
  · rcases of_decide_eq_true hspace with hmem | ⟨hlow, -⟩
    · have hnone : ['\t', '\n', '\u000B', '\u000C', '\r', ' ', '\u0085', '\u00A0', '\u1680',
          '\u2028', '\u2029', '\u202F', '\u205F', '\u3000'].filter Char.isDigit = [] := rfl
      exact List.filter_eq_nil_iff.mp hnone c hmem hd
    · exact absurd (Char.le_trans hlow hle) (by decide)

theorem trim_digits {s : String} (hd : ∀ c ∈ s.toList, c.isDigit = true) : Text.trim s = s := by
  have hkeep : ∀ cs : List Char, (∀ c ∈ cs, c.isDigit = true) →
      cs.dropWhile Text.isWhiteSpace = cs := by
    intro cs hcs
    cases cs with
    | nil => rfl
    | cons c cs =>
      rw [List.dropWhile_cons_of_neg]
      rw [not_isWhiteSpace (hcs c (by simp))]
      exact Bool.false_ne_true
  unfold Text.trim
  rw [hkeep _ hd, hkeep _ fun c hc => hd c (List.mem_reverse.mp hc), List.reverse_reverse,
    String.ofList_toList]

theorem integerLiteral_digits {cs : List Char} (hne : cs ≠ [])
    (hd : ∀ c ∈ cs, c.isDigit = true) :
    integerLiteral cs = some ((Nat.ofDigitChars 10 cs 0 : Nat) : Int) := by
  unfold integerLiteral
  split
  case h_1 => exact absurd rfl hne
  case h_10 =>
    cases cs with
    | nil => exact absurd rfl hne
    | cons c cs => rw [digits, digitsFrom_toDigits hd] <;> simp
  all_goals exact absurd hd (by simp [Char.isDigit])

theorem textToBigInt_natural (n : Nat) : textToBigInt (toString n) = .ok n := by
  have hchars : (toString n).toList = Nat.toDigits 10 n := by
    rw [Nat.toString_eq_ofList_toDigits, String.toList_ofList]
  have hd : ∀ c ∈ (toString n).toList, c.isDigit = true := by
    rw [hchars]
    exact fun c hc => Nat.isDigit_of_mem_toDigits (by decide) (by decide) hc
  have hne : (toString n).toList ≠ [] := by
    rw [hchars]
    exact Nat.toDigits_ne_nil
  rw [textToBigInt, trim_digits hd, integerLiteral_digits hne hd, hchars,
    Nat.ofDigitChars_toDigits (by decide) (by decide)]

-- ---------------------------------------------------------------------------
-- Objects
-- ---------------------------------------------------------------------------

/-- The properties that `{}` inherits. -/
def inheritedProperties : List String := [
  "__defineGetter__", "__defineSetter__", "__lookupGetter__", "__lookupSetter__", "__proto__",
  "constructor", "hasOwnProperty", "isPrototypeOf", "propertyIsEnumerable", "toLocaleString",
  "toString", "valueOf"]

def arrayIndex (key : String) : Option Nat :=
  let n := Text.decimal key
  if toString n = key ∧ n < 2 ^ 32 - 1 then some n else none

/-- The order of properties that were added in the order of `keys`: array indexes come
first, the lowest in front. -/
def ownKeys (keys : List String) : List String :=
  ((keys.filter fun key => (arrayIndex key).isSome).insertionSort
      fun a b => Text.decimal a ≤ Text.decimal b) ++
    keys.filter fun key => (arrayIndex key).isNone

section
variable {α : Type}

/-- `object[key] = value`, for the own properties in the order they were added. -/
def put (key : String) (value : α) : List (String × α) → List (String × α)
  | [] => [(key, value)]
  | entry :: object =>
    if entry.1 = key then (key, value) :: object else entry :: put key value object

/-- `Object.entries(object)`. -/
def entries (object : List (String × α)) : List (String × α) :=
  (ownKeys (object.map Prod.fst)).filterMap fun key =>
    (object.lookup key).map fun value => (key, value)

end

@[simp] theorem mem_ownKeys {key : String} {keys : List String} :
    key ∈ ownKeys keys ↔ key ∈ keys := by
  rw [ownKeys, List.mem_append, List.mem_insertionSort, List.mem_filter, List.mem_filter]
  cases arrayIndex key with
  | none => simp
  | some n => simp

theorem head?_entries {α : Type} (object : List (String × α)) :
    (entries object).head? = (ownKeys (object.map Prod.fst)).head?.bind fun key =>
      (object.lookup key).map fun value => (key, value) := by
  unfold entries
  cases hkeys : ownKeys (object.map Prod.fst) with
  | nil => rfl
  | cons key keys =>
    have hmem : key ∈ ownKeys (object.map Prod.fst) := by simp [hkeys]
    obtain ⟨entry, hentry, rfl⟩ := List.mem_map.mp (mem_ownKeys.mp hmem)
    obtain ⟨value, hvalue⟩ := Option.isSome_iff_exists.mp
      (List.lookup_isSome_iff.mpr ⟨entry, hentry, beq_self_eq_true entry.1⟩)
    simp [hvalue]

end SafrochainIndexer
