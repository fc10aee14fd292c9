import SafrochainIndexer.Lib.Relation

/-!
# Unique indexes

A table that has a unique index besides its key takes a batch of upserts as a
whole or not at all. It takes one in which rows of equal values have equal keys
(`keepsUnique_of_agree`), and none that brings a value under a second key
(`not_keepsUnique`).
-/

namespace SafrochainIndexer

variable {σ ρ κ υ τ : Type} [LinearOrder τ] [DecidableEq κ] [DecidableEq υ] {key : ρ → κ}
  {u : ρ → υ} {stamp : ρ → τ} {c : Conflict key}

namespace Table

variable {t : Table key} {rs : List ρ}

/-- Rows that have the same value only if they have the same key. -/
def Agree (key : ρ → κ) (u : ρ → υ) (rows : List ρ) : Prop :=
  ∀ x ∈ rows, ∀ y ∈ rows, u x = u y → key x = key y

omit [DecidableEq κ] [DecidableEq υ] in
theorem Agree.nodup (h : Agree key u t.rows) : (t.rows.map u).Nodup := by
  refine List.Nodup.map_on (fun x hx y hy hxy => ?_) t.keys_nodup.of_map
  exact List.inj_on_of_nodup_map t.keys_nodup hx hy (h x hx y hy hxy)

theorem keepsUnique_of_agree (hc : c.Guards stamp) (h : Agree key u (t.rows ++ rs)) :
    t.keepsUnique c u rs = true := by
  induction rs generalizing t with
  | nil => rfl
  | cons r rs ih =>
    have hsub : ∀ x ∈ (t.upsert c r).rows ++ rs, x ∈ t.rows ++ r :: rs := by
      intro x hx
      rcases List.mem_append.mp hx with hx | hx
      · have hx' : x ∈ ([r].foldl (upsert c) t).rows := hx
        rcases hc.mem_of_upserts hx' with hold | hnew
        · exact List.mem_append_left _ hold
        · exact List.mem_append_right _ (List.mem_cons.mpr (.inl (List.mem_singleton.mp hnew)))
      · exact List.mem_append_right _ (List.mem_cons_of_mem _ hx)
    have hagree : Agree key u ((t.upsert c r).rows ++ rs) :=
      fun x hx y hy => h x (hsub x hx) y (hsub y hy)
    have hhead : Agree key u (t.upsert c r).rows := fun x hx y hy =>
      hagree x (List.mem_append_left _ hx) y (List.mem_append_left _ hy)
    simp [keepsUnique, hhead.nodup, ih hagree]

theorem keepsUnique_final (hne : rs ≠ []) (h : t.keepsUnique c u rs = true) :
    ((rs.foldl (upsert c) t).rows.map u).Nodup := by
  induction rs generalizing t with
  | nil => exact absurd rfl hne
  | cons r rs ih =>
    simp only [keepsUnique, Bool.and_eq_true, decide_eq_true_eq] at h
    cases rs with
    | nil => exact h.1
    | cons next rs => exact ih (by simp) h.2

/-- A value that stays under one key cannot come under another. -/
theorem not_keepsUnique (hn : (rs.map key).Nodup) {r x : ρ} (hr : r ∈ rs) (hx : x ∈ t.rows)
    (hother : key x ∉ rs.map key) (hnew : t.find (key r) = none) (hu : u x = u r) :
    t.keepsUnique c u rs = false := by
  by_contra h
  have hfinal := keepsUnique_final (List.ne_nil_of_mem hr) (Bool.eq_true_of_not_eq_false h)
  have hfirst : (rs.foldl (upsert c) t).find (key r) = some r := by
    rw [find_foldl_upsert_of_mem c t hn hr, hnew, Conflict.resolve_none]
  have hsecond : (rs.foldl (upsert c) t).find (key x) = some x := by
    rw [find_foldl_upsert_of_not_mem c t hother]
    exact find_of_mem hx
  obtain rfl := List.inj_on_of_nodup_map hfinal (mem_of_find hsecond) (mem_of_find hfirst) hu
  exact hother (List.mem_map_of_mem hr)

end Table

theorem Relation.insertUnique_fails {R : Relation σ key} {s : σ} {rows : List ρ} (name : String)
    (h : (R.read s).keepsUnique c u rows = false) :
    Eff.Fails (R.insertUnique name u c rows) s s := by
  refine Eff.fails_bind.mpr (.inr ⟨s, s, Eff.returns_get.mpr ⟨rfl, rfl⟩, ?_⟩)
  simp [h]

end SafrochainIndexer
