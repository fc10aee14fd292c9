import Mathlib.Logic.Basic

/-!
# Two machines in lockstep

`step` and `spec` take the same inputs. If a relation survives an input exactly
when a condition holds before it, the relation holds throughout a run exactly
when every input of the run meets the condition (`throughout_iff`).
-/

namespace SafrochainIndexer.Lockstep

variable {σ β α : Type} (step : σ → α → σ) (spec : β → α → β)

/-- `P` holds of the two states at the start and after every input. -/
def Throughout (P : σ → β → Prop) : σ → β → List α → Prop
  | s, b, [] => P s b
  | s, b, a :: as => P s b ∧ Throughout P (step s a) (spec b a) as

/-- `C` holds of the two states before every input. -/
def Each (C : σ → β → α → Prop) : σ → β → List α → Prop
  | _, _, [] => True
  | s, b, a :: as => C s b a ∧ Each C (step s a) (spec b a) as

variable {step spec} {P Q : σ → β → Prop} {C D : σ → β → α → Prop} {s : σ} {b : β} {as : List α}

theorem Throughout.start (h : Throughout step spec P s b as) : P s b := by
  cases as with
  | nil => exact h
  | cons a as => exact h.1

theorem Each.and (hc : Each step spec C s b as) (hd : Each step spec D s b as) :
    Each step spec (fun s b a => C s b a ∧ D s b a) s b as := by
  induction as generalizing s b with
  | nil => trivial
  | cons a as ih =>
    obtain ⟨hc, hcs⟩ := hc
    obtain ⟨hd, hds⟩ := hd
    exact ⟨⟨hc, hd⟩, ih hcs hds⟩

theorem Each.of_forall {D : α → Prop} (h : ∀ a ∈ as, D a) :
    Each step spec (fun _ _ a => D a) s b as := by
  induction as generalizing s b with
  | nil => trivial
  | cons a as ih =>
    obtain ⟨ha, has⟩ := List.forall_mem_cons.mp h
    exact ⟨ha, ih has⟩

theorem Each.invariant (hstep : ∀ s b a, P s b → C s b a → P (step s a) (spec b a))
    (hc : Each step spec C s b as) (h : P s b) : Each step spec (fun s b _ => P s b) s b as := by
  induction as generalizing s b with
  | nil => trivial
  | cons a as ih =>
    obtain ⟨hc, hcs⟩ := hc
    exact ⟨h, ih hcs (hstep s b a h hc)⟩

theorem throughout_iff (hstep : ∀ s b a, P s b → C s b a → (P (step s a) (spec b a) ↔ D s b a))
    (hc : Each step spec C s b as) (h : P s b) :
    Throughout step spec P s b as ↔ Each step spec D s b as := by
  induction as generalizing s b with
  | nil => exact ⟨fun _ => trivial, fun _ => h⟩
  | cons a as ih =>
    obtain ⟨hc, hcs⟩ := hc
    have hiff := hstep s b a h hc
    constructor
    · rintro ⟨-, hrest⟩
      have hnext := hrest.start
      exact ⟨hiff.mp hnext, (ih hcs hnext).mp hrest⟩
    · rintro ⟨hd, hds⟩
      have hnext := hiff.mpr hd
      exact ⟨h, (ih hcs hnext).mpr hds⟩

end SafrochainIndexer.Lockstep
