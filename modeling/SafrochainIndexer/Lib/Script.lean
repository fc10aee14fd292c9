import SafrochainIndexer.Lib.Text
import Mathlib.Data.List.Forall2
import Mathlib.Data.Rat.Defs

/-!
# Values of a JavaScript program

JSON values with the operations a program uses on values it knows nothing
about: truthiness, property access, spreading, and the distinct elements of an
array (`[...new Set(xs)]`).
-/

namespace SafrochainIndexer

/-- A value that `JSON.parse` returns. No object has two fields of one name. -/
inductive Json
  | null
  | bool (b : Bool)
  | number (n : Rat)
  | string (s : String)
  | array (elements : List Json)
  | object (fields : List (String × Json))

/-- What a program throws: an `Error` with a message, or a `TypeError`. -/
inductive ScriptError
  | error (message : String)
  | cannotRead (property : String)
  | notFunction (expression : String)
  | notIterable
  deriving DecidableEq, Repr

namespace Json

def truthy : Json → Bool
  | .null => false
  | .bool b => b
  | .number n => decide (n ≠ 0)
  | .string s => decide (s ≠ "")
  | .array _ => true
  | .object _ => true

/-- `value.property`, for a property that no builtin value has; `none` is
`undefined`. -/
def get (property : String) : Json → Except ScriptError (Option Json)
  | .null => .error (.cannotRead property)
  | .object fields => .ok (fields.lookup property)
  | _ => .ok none

/-- `value.property`, or nothing if it is falsy. -/
def getTruthy (property : String) (value : Json) : Except ScriptError (Option Json) :=
  (value.get property).map fun field => field.filter truthy

/-- `...value` in a call. -/
def spread : Json → Except ScriptError (List Json)
  | .array elements => .ok elements
  | .string s => .ok (s.toList.map fun c => .string (.singleton c))
  | _ => .error .notIterable

end Json

-- ---------------------------------------------------------------------------
-- Sets
-- ---------------------------------------------------------------------------

/-- `[...new Set(xs)]`: the first of equal elements stays. -/
def distinct {α : Type} [DecidableEq α] : List α → List α
  | [] => []
  | a :: as => a :: (distinct as).filter fun b => b ≠ a

section
variable {α β : Type} [DecidableEq α] [DecidableEq β]

@[simp] theorem mem_distinct {a : α} {as : List α} : a ∈ distinct as ↔ a ∈ as := by
  induction as with
  | nil => simp [distinct]
  | cons b bs ih =>
    by_cases h : a = b
    · simp [distinct, h]
    · simp [distinct, h, ih]

theorem distinct_concat (as : List α) (b : α) :
    distinct (as ++ [b]) = if b ∈ as then distinct as else distinct as ++ [b] := by
  induction as with
  | nil => simp [distinct]
  | cons a as ih =>
    rw [List.cons_append, distinct, ih, distinct]
    by_cases hb : b ∈ as
    · simp [hb]
    · by_cases hab : b = a
      · subst hab
        simp [hb, List.filter_append]
      · simp [hb, hab, List.filter_append]

theorem distinct_map {f : α → β} (hf : ∀ a b, f a = f b → a = b) (as : List α) :
    distinct (as.map f) = (distinct as).map f := by
  induction as with
  | nil => rfl
  | cons a as ih =>
    have hsame : ((fun b => decide (b ≠ f a)) ∘ f) = fun b => decide (b ≠ a) := by
      funext b
      have hiff : f b = f a ↔ b = a := ⟨hf b a, congrArg f⟩
      simp [hiff]
    simp only [List.map_cons, distinct, ih, List.filter_map, hsame]

end

-- ---------------------------------------------------------------------------
-- Arrays
-- ---------------------------------------------------------------------------

theorem mapM_ok_iff {α β ε : Type} {f : α → Except ε β} {as : List α} {bs : List β} :
    as.mapM f = .ok bs ↔ List.Forall₂ (fun a b => f a = .ok b) as bs := by
  induction as generalizing bs with
  | nil => cases bs <;> simp [pure, Except.pure]
  | cons a as ih =>
    rw [List.mapM_cons]
    cases ha : f a with
    | error e => simp [bind, Except.bind, List.forall₂_cons_left_iff, ha]
    | ok b =>
      cases has : as.mapM f with
      | error e =>
        have hnone : ∀ cs, ¬ List.Forall₂ (fun a b => f a = .ok b) as cs := by
          intro cs hcs
          rw [ih.mpr hcs] at has
          cases has
        simp [bind, Except.bind, List.forall₂_cons_left_iff, ha, hnone]
      | ok cs =>
        have hrest : ∀ ds, List.Forall₂ (fun a b => f a = .ok b) as ds ↔ cs = ds := by
          intro ds
          rw [← ih, has, Except.ok.injEq]
        simp [bind, Except.bind, pure, Except.pure, List.forall₂_cons_left_iff, ha, hrest, eq_comm]

theorem mapM_ok_map {α β ε : Type} {f : α → Except ε β} {g : α → β} {as : List α}
    (h : ∀ a ∈ as, f a = .ok (g a)) : as.mapM f = .ok (as.map g) :=
  mapM_ok_iff.mpr (List.forall₂_map_right_iff.mpr (List.forall₂_same.mpr h))

theorem mapM_returns_iff {α β ε : Type} {f : α → Except ε β} {as : List α} :
    (∃ bs, as.mapM f = .ok bs) ↔ ∀ a ∈ as, ∃ b, f a = .ok b := by
  simp only [mapM_ok_iff]
  induction as with
  | nil => simp
  | cons a as ih =>
    rw [List.forall_mem_cons, ← ih]
    constructor
    · rintro ⟨_, hall⟩
      cases hall with
      | cons ha has => exact ⟨⟨_, ha⟩, ⟨_, has⟩⟩
    · rintro ⟨⟨b, ha⟩, ⟨bs, has⟩⟩
      exact ⟨b :: bs, .cons ha has⟩

theorem map_eq_of_forall₂ {α β γ : Type} {R : α → β → Prop} {p : α → γ} {q : β → γ} {as : List α}
    {bs : List β} (h : List.Forall₂ R as bs) (hpq : ∀ a b, R a b → p a = q b) :
    as.map p = bs.map q := by
  induction h with
  | nil => rfl
  | cons hab _ ih => rw [List.map_cons, List.map_cons, hpq _ _ hab, ih]

theorem forall_mem_of_forall₂ {α β : Type} {R : α → β → Prop} {P : β → Prop} {as : List α}
    {bs : List β} (h : List.Forall₂ R as bs) (hP : ∀ a b, R a b → P b) : ∀ b ∈ bs, P b := by
  induction h with
  | nil => exact fun _ hb => absurd hb List.not_mem_nil
  | cons hab _ ih => exact List.forall_mem_cons.mpr ⟨hP _ _ hab, ih⟩

theorem exists_of_mem_forall₂ {α β : Type} {R : α → β → Prop} {as : List α} {bs : List β}
    (h : List.Forall₂ R as bs) : ∀ a ∈ as, ∃ b ∈ bs, R a b := by
  induction h with
  | nil => simp
  | @cons _ b _ _ hab _ ih =>
    refine List.forall_mem_cons.mpr ⟨⟨b, by simp, hab⟩, fun a ha => ?_⟩
    obtain ⟨c, hc, hac⟩ := ih a ha
    exact ⟨c, List.mem_cons_of_mem _ hc, hac⟩

theorem countP_eq_one {α β : Type} {f : α → β} {p : α → Bool} {as : List α} {a : α}
    (hnodup : (as.map f).Nodup) (ha : a ∈ as) (hp : p a = true)
    (huniq : ∀ b ∈ as, p b = true → f b = f a) : as.countP p = 1 := by
  induction as with
  | nil => cases ha
  | cons b as ih =>
    obtain ⟨hb, has⟩ := List.nodup_cons.mp hnodup
    obtain ⟨hub, huas⟩ := List.forall_mem_cons.mp huniq
    obtain rfl | ha := List.mem_cons.mp ha
    · have hrest : as.countP p = 0 :=
        List.countP_eq_zero.mpr fun c hc hpc => hb (huas c hc hpc ▸ List.mem_map_of_mem hc)
      rw [List.countP_cons_of_pos hp, hrest]
    · have hpb : ¬p b = true := fun h => hb (hub h ▸ List.mem_map_of_mem ha)
      rw [List.countP_cons_of_neg hpb, ih has ha huas]

-- ---------------------------------------------------------------------------
-- Texts
-- ---------------------------------------------------------------------------

namespace Text

def replaceFirst (old new : List Char) : List Char → List Char
  | [] => []
  | c :: cs =>
    if old.isPrefixOf (c :: cs) then new ++ (c :: cs).drop old.length
    else c :: replaceFirst old new cs

/-- `s.replace(old, new)` of a text that is not empty. -/
def replace (s old new : String) : String := .ofList (replaceFirst old.toList new.toList s.toList)

/-- What JavaScript takes for white space. -/
def isWhiteSpace (c : Char) : Bool := decide (c = '\uFEFF' ∨ (isSpace c = true ∧ c ≠ '\u0085'))

def trim (s : String) : String :=
  .ofList (((s.toList.dropWhile isWhiteSpace).reverse.dropWhile isWhiteSpace).reverse)

end Text

end SafrochainIndexer
