import Mathlib.Data.List.Flatten

/-!
# Listings that name their next page

A client asks for one page after the other: each page carries the key of the
next one, the last page none. `collect` stops at the first page that cannot be
had, so it ends with the whole listing if all its pages can be had, and with an
error otherwise (`collect_linked`).
-/

namespace SafrochainIndexer.Pages

variable {κ π α ε : Type}

/-- The keys of a listing from one of its pages on. -/
inductive Linked (page : κ → π) (next : π → Option κ) : κ → List κ → Prop
  | last {key : κ} : next (page key) = none → Linked page next key [key]
  | more {key key' : κ} {keys : List κ} : next (page key) = some key' →
      Linked page next key' keys → Linked page next key (key :: keys)

/-- At most `rounds` requests; `none` if the last of them still has a next page. -/
def collect (query : κ → Except ε π) (next : π → Option κ) (items : π → List α) :
    Nat → κ → List α → Option (Except ε (List α))
  | 0, _, _ => none
  | rounds + 1, key, collected =>
    match query key with
    | .error err => some (.error err)
    | .ok res =>
      match next res with
      | none => some (.ok (collected ++ items res))
      | some key' => collect query next items rounds key' (collected ++ items res)

/-- The items of the pages under `keys`. -/
def listed (page : κ → π) (items : π → List α) (keys : List κ) : List α :=
  keys.flatMap fun key => items (page key)

def fails (query : κ → Except ε π) (key : κ) : Bool :=
  match query key with
  | .error _ => true
  | .ok _ => false

variable {query : κ → Except ε π} {page : κ → π} {next : π → Option κ}
  {key : κ} {keys : List κ} {rounds : Nat}

/-- A page that can be had is the one of the listing. -/
def Answers (query : κ → Except ε π) (page : κ → π) : Prop :=
  ∀ key, query key = .ok (page key) ∨ ∃ err, query key = .error err

theorem Answers.of_not_fails (h : Answers query page) (hf : fails query key = false) :
    query key = .ok (page key) := by
  refine (h key).resolve_right ?_
  rintro ⟨err, herr⟩
  simp [fails, herr] at hf

theorem error_of_fails (h : fails query key = true) : ∃ err, query key = .error err := by
  cases hq : query key with
  | error err => exact ⟨err, rfl⟩
  | ok res => simp [fails, hq] at h

theorem collect_linked (hl : Linked page next key keys) (ha : Answers query page)
    (hr : keys.length ≤ rounds) (items : π → List α) (collected : List α) :
    (keys.any (fails query) = false ∧
      collect query next items rounds key collected =
        some (.ok (collected ++ listed page items keys))) ∨
    (keys.any (fails query) = true ∧
      ∃ err, collect query next items rounds key collected = some (.error err)) := by
  induction hl generalizing rounds collected with
  | @last key hnext =>
    obtain ⟨rounds, rfl⟩ := Nat.exists_eq_succ_of_ne_zero (Nat.ne_of_gt hr)
    cases hf : fails query key with
    | true =>
      obtain ⟨err, herr⟩ := error_of_fails hf
      exact .inr ⟨by simp [hf], err, by simp [collect, herr]⟩
    | false =>
      have hok := ha.of_not_fails hf
      exact .inl ⟨by simp [hf], by simp [collect, hok, hnext, listed]⟩
  | @more key key' keys hnext hl ih =>
    have hpos : 0 < rounds := Nat.lt_of_lt_of_le (Nat.succ_pos _) hr
    obtain ⟨rounds, rfl⟩ := Nat.exists_eq_succ_of_ne_zero (Nat.ne_of_gt hpos)
    cases hf : fails query key with
    | true =>
      obtain ⟨err, herr⟩ := error_of_fails hf
      exact .inr ⟨by simp [hf], err, by simp [collect, herr]⟩
    | false =>
      have hok := ha.of_not_fails hf
      have hstep : collect query next items (rounds + 1) key collected =
          collect query next items rounds key' (collected ++ items (page key)) := by
        simp [collect, hok, hnext]
      rw [hstep, List.any_cons, hf, Bool.false_or]
      have hrest := ih (Nat.le_of_succ_le_succ hr) (collected ++ items (page key))
      rw [List.append_assoc] at hrest
      exact hrest

end SafrochainIndexer.Pages
