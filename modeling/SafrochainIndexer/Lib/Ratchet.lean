import SafrochainIndexer.Lib.Relation

/-!
# Tables that never go back

Along `Ratchets`, whose steps write rows of `P` only, a key that has a row keeps one, of
the same stamp or a larger one; a row larger than all of `P` stays; and a row that was
not there is of `P`. A guarded upsert is such a step, and such steps compose.
-/

namespace SafrochainIndexer

section
variable {ρ κ τ : Type} [LinearOrder τ] {key : ρ → κ} {stamp : ρ → τ} {P : ρ → Prop}
  {t u v : Table key}

structure Table.Ratchets (stamp : ρ → τ) (P : ρ → Prop) (t u : Table key) : Prop where
  onward : ∀ row ∈ t.rows, ∃ row' ∈ u.rows, key row' = key row ∧ stamp row ≤ stamp row'
  kept : ∀ row ∈ t.rows, (∀ x, P x → stamp x < stamp row) → row ∈ u.rows
  sourced : ∀ row ∈ u.rows, row ∈ t.rows ∨ P row

theorem Table.Ratchets.refl : t.Ratchets stamp P t where
  onward row hrow := ⟨row, hrow, rfl, le_rfl⟩
  kept _ hrow _ := hrow
  sourced _ hrow := .inl hrow

theorem Table.Ratchets.trans (h : t.Ratchets stamp P u) (h' : u.Ratchets stamp P v) :
    t.Ratchets stamp P v where
  onward row hrow := by
    obtain ⟨next, hnext, hkey, hle⟩ := h.onward row hrow
    obtain ⟨last, hlast, hkey', hle'⟩ := h'.onward next hnext
    exact ⟨last, hlast, hkey'.trans hkey, hle.trans hle'⟩
  kept row hrow hlarger := h'.kept row (h.kept row hrow hlarger) hlarger
  sourced row hrow := by
    rcases h'.sourced row hrow with hthere | hwritten
    · exact h.sourced row hthere
    · exact .inr hwritten

/-- A register never goes back. -/
theorem Register.le_hold {o r : ρ} {rs : List ρ} (h : Register.hold stamp (some o) rs = some r) :
    stamp o ≤ stamp r :=
  (Register.newest_of_hold ((Register.hold_some stamp o rs).symm.trans h)).le o List.mem_cons_self

variable [DecidableEq κ] {c : Conflict key} {rows : List ρ}

theorem Conflict.Guards.ratchets (hc : c.Guards stamp) (hrows : ∀ row ∈ rows, P row) :
    t.Ratchets stamp P (rows.foldl (Table.upsert c) t) where
  onward row hrow := by
    have hfind := hc.find_upserts t rows (key row)
    rw [Table.find_of_mem hrow] at hfind
    cases hheld : Register.hold stamp (some row) (rows.filter fun r => key r = key row) with
    | none =>
      rw [Register.hold_some] at hheld
      obtain ⟨x, hx⟩ : ∃ x, Register.hold stamp none (row :: rows.filter fun r => key r = key row) =
          some x := Register.exists_hold none (List.cons_ne_nil row _)
      exact absurd (hheld.symm.trans hx) (by simp)
    | some row' =>
      rw [hheld] at hfind
      exact ⟨row', Table.mem_of_find hfind, Table.find_key hfind, Register.le_hold hheld⟩
  kept row hrow hlarger := by
    refine Table.mem_rows_iff.mpr ?_
    rw [hc.find_upserts, Table.find_of_mem hrow]
    refine Register.hold_of_lt fun x hx => ?_
    exact hlarger _ (hrows x (List.mem_filter.mp hx).1)
  sourced row hrow := (hc.mem_of_upserts hrow).imp_right (hrows row)

variable {σ : Type} {R : Relation σ key}

/-- A command whose rows have stamps in `P`, whether it succeeds or not, for any relation
on states that has a ratchet of this one table. -/
theorem Conflict.Guards.insert_along {Onward : σ → σ → Prop} (hc : c.Guards stamp)
    (hrows : ∀ row ∈ rows, P row) (hrefl : ∀ s, Onward s s)
    (hwrite : ∀ s u, (R.read s).Ratchets stamp P u → Onward s (R.write u s)) :
    Eff.Along Onward (R.insert c rows) := by
  intro s
  obtain hsame | hreturns := R.insert_atomic c rows s
  · rw [hsame]
    exact hrefl s
  · rw [Relation.insert_write hreturns]
    exact hwrite s _ (hc.ratchets hrows)

end

end SafrochainIndexer
