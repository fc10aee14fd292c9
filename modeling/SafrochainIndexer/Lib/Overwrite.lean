import SafrochainIndexer.Lib.Table

/-!
# Clauses without a guard

A conflict clause that always overwrites what `view` shows of a row, and keeps
the rest. What a table shows under a key is then what the last upsert under that
key showed: a batch changes nothing if and only if, for every key, the last of
its rows shows what is stored already (`upserts_eq_self_iff`).
-/

namespace SafrochainIndexer

variable {ρ κ ν : Type} {key : ρ → κ} {view : ρ → ν}

structure Conflict.Overwrites (c : Conflict key) (view : ρ → ν) : Prop where
  guard : ∀ stored excluded, c.guard stored excluded = true
  set_set : ∀ stored r excluded, c.set (c.set stored r) excluded = c.set stored excluded
  set_eq_iff : ∀ stored excluded, key stored = key excluded →
    (c.set stored excluded = stored ↔ view stored = view excluded)

theorem Conflict.Overwrites.merge_eq {c : Conflict key} (hc : c.Overwrites view) (stored r : ρ) :
    c.merge stored r = c.set stored r := by
  simp [merge, hc.guard]

namespace Table

variable [DecidableEq κ] {c : Conflict key}

-- ---------------------------------------------------------------------------
-- Keys
-- ---------------------------------------------------------------------------

theorem keys_upsert (c : Conflict key) {t : Table key} {r : ρ} (h : key r ∈ t.rows.map key) :
    (t.upsert c r).rows.map key = t.rows.map key := by
  unfold upsert
  rw [dif_pos h, List.map_map]
  refine List.map_congr_left fun s _ => ?_
  simp only [Function.comp_apply]
  split
  · exact c.key_merge ..
  · rfl

theorem keys_foldl_upsert (c : Conflict key) {rs : List ρ} {t : Table key}
    (h : ∀ r ∈ rs, key r ∈ t.rows.map key) :
    (rs.foldl (upsert c) t).rows.map key = t.rows.map key := by
  induction rs generalizing t with
  | nil => rfl
  | cons r rs ih =>
    have hr := keys_upsert c (h r (by simp))
    rw [List.foldl_cons, ih, hr]
    rw [hr]
    exact fun s hs => h s (List.mem_cons_of_mem _ hs)

theorem rows_eq_filterMap_find (t : Table key) :
    t.rows = (t.rows.map key).filterMap fun k => t.find k := by
  have hfind : t.rows.filterMap (fun r => t.find (key r)) = t.rows.filterMap some :=
    List.filterMap_congr fun r hr => find_of_mem hr
  rw [List.filterMap_map, Function.comp_def, hfind, List.filterMap_some]

theorem Same.eq {t u : Table key} (h : t.Same u) (hk : t.rows.map key = u.rows.map key) :
    t = u := by
  refine Table.ext ?_
  rw [rows_eq_filterMap_find t, rows_eq_filterMap_find u, hk]
  exact List.filterMap_congr fun k _ => h k

-- ---------------------------------------------------------------------------
-- Batches
-- ---------------------------------------------------------------------------

section
variable (hc : c.Overwrites view)
include hc

/-- A stored row ends up as the last row under its key sets it. -/
theorem find_overwritten {t : Table key} {k : κ} {o : ρ} (ho : t.find k = some o) (rs : List ρ) :
    (rs.foldl (upsert c) t).find k =
      some (((rs.filter fun r => key r = k).getLast?.map (c.set o)).getD o) := by
  rw [find_foldl_upsert, ho]
  generalize (rs.filter fun r => decide (key r = k)) = own
  clear ho
  induction own generalizing o with
  | nil => rfl
  | cons r own ih =>
    rw [List.foldl_cons, Conflict.resolve_some, hc.merge_eq, ih]
    cases own with
    | nil => rfl
    | cons r' own => simp [List.getLast?_eq_some_getLast, hc.set_set]

theorem view_of_upserts_eq {t : Table key} {rs : List ρ} (h : rs.foldl (upsert c) t = t) {k : κ}
    {r : ρ} (hr : r ∈ (rs.filter fun r => key r = k).getLast?) :
    ∃ o ∈ t.find k, view o = view r := by
  obtain ⟨hmem, hk⟩ := List.mem_filter.mp (List.mem_of_getLast? hr)
  obtain rfl := of_decide_eq_true hk
  have hsome : ((rs.foldl (upsert c) t).find (key r)).isSome := find_foldl_upsert_isSome hmem
  rw [h] at hsome
  obtain ⟨o, ho⟩ := Option.isSome_iff_exists.mp hsome
  have hfind := find_overwritten hc ho rs
  rw [h, ho, Option.mem_def.mp hr] at hfind
  have hset : c.set o r = o := (Option.some.inj hfind).symm
  exact ⟨o, ho, (hc.set_eq_iff o r (find_key ho)).mp hset⟩

theorem find_upserts_stored {t : Table key} {k : κ} {o : ρ} (ho : t.find k = some o) {rs : List ρ}
    (h : ∀ r ∈ (rs.filter fun r => key r = k).getLast?, view o = view r) :
    (rs.foldl (upsert c) t).find k = some o := by
  rw [find_overwritten hc ho]
  cases hlast : (rs.filter fun r => key r = k).getLast? with
  | none => rfl
  | some r =>
    have hr := of_decide_eq_true (List.mem_filter.mp (List.mem_of_getLast? hlast)).2
    have hset := (hc.set_eq_iff o r ((find_key ho).trans hr.symm)).mpr (h r hlast)
    exact congrArg some hset

theorem upserts_eq_self_iff (t : Table key) (rs : List ρ) :
    rs.foldl (upsert c) t = t ↔
      ∀ k, ∀ r ∈ (rs.filter fun r => key r = k).getLast?, ∃ o ∈ t.find k, view o = view r := by
  constructor
  · intro h k r hr
    exact view_of_upserts_eq hc h hr
  · intro h
    have hkeys : ∀ r ∈ rs, key r ∈ t.rows.map key := by
      intro r hr
      have hne : (rs.filter fun s => key s = key r) ≠ [] :=
        List.ne_nil_of_mem (List.mem_filter.mpr ⟨hr, by simp⟩)
      obtain ⟨o, ho, -⟩ := h (key r) _ (List.getLast?_eq_some_getLast hne)
      exact List.mem_map.mpr ⟨o, mem_of_find ho, find_key ho⟩
    have hsame := keys_foldl_upsert c hkeys
    refine Same.eq (fun k => ?_) hsame
    cases ho : t.find k with
    | none =>
      have hk := find_eq_none_iff.mp ho
      exact find_eq_none_iff.mpr fun hm => hk (hsame ▸ hm)
    | some o =>
      refine find_upserts_stored hc ho fun r hr => ?_
      obtain ⟨_, ho', hview⟩ := h k r hr
      obtain rfl := Option.some.inj (ho.symm.trans ho')
      exact hview

end

end Table

end SafrochainIndexer
