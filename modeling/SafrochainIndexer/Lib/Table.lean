import Mathlib.Data.List.Nodup
import Mathlib.Data.List.Perm.Basic

/-!
# Keyed tables

A table is a list of rows in which no two rows have the same key. The
statements are the ones a keyed SQL store offers: `INSERT` of one or of
several rows with `ON CONFLICT (key) DO UPDATE SET .. WHERE ..`, `UPDATE` and
`DELETE`. Row order means nothing; `Same` compares two tables by what they
store under each key.
-/

namespace SafrochainIndexer

/-- The rows of a table, unique by `key`. -/
structure Table {ρ κ : Type} (key : ρ → κ) where
  rows : List ρ
  keys_nodup : (rows.map key).Nodup

/-- `ON CONFLICT (key) DO UPDATE SET set WHERE guard`: `set` and `guard` get
the stored row and the row proposed for insertion (`excluded`). -/
structure Conflict {ρ κ : Type} (key : ρ → κ) where
  set : ρ → ρ → ρ
  guard : ρ → ρ → Bool
  key_set : ∀ stored excluded, key (set stored excluded) = key stored

namespace Conflict

variable {ρ κ : Type} {key : ρ → κ}

/-- `ON CONFLICT DO NOTHING`. -/
def ignore : Conflict key where
  set stored _ := stored
  guard _ _ := false
  key_set _ _ := rfl

def merge (c : Conflict key) (stored excluded : ρ) : ρ :=
  if c.guard stored excluded then c.set stored excluded else stored

/-- What an insert leaves under the key of `excluded`. -/
def resolve (c : Conflict key) (stored : Option ρ) (excluded : ρ) : ρ :=
  match stored with
  | none => excluded
  | some r => c.merge r excluded

/-- Whether an insert writes a row at all. -/
def writes (c : Conflict key) (stored : Option ρ) (excluded : ρ) : Bool :=
  match stored with
  | none => true
  | some r => c.guard r excluded

theorem key_merge (c : Conflict key) (stored excluded : ρ) :
    key (c.merge stored excluded) = key stored := by
  unfold merge
  split
  · exact c.key_set ..
  · rfl

@[simp] theorem resolve_none (c : Conflict key) (r : ρ) : c.resolve none r = r := rfl

@[simp] theorem resolve_some (c : Conflict key) (stored r : ρ) :
    c.resolve (some stored) r = c.merge stored r := rfl

theorem key_resolve (c : Conflict key) {stored : Option ρ} {r : ρ}
    (h : ∀ o, stored = some o → key o = key r) : key (c.resolve stored r) = key r := by
  cases stored with
  | none => rfl
  | some o => exact (c.key_merge o r).trans (h o rfl)

@[simp] theorem merge_ignore (stored excluded : ρ) :
    (ignore : Conflict key).merge stored excluded = stored := rfl

end Conflict

namespace Table

variable {ρ κ : Type} {key : ρ → κ}

def empty : Table key := ⟨[], List.nodup_nil⟩

instance : Inhabited (Table key) := ⟨empty⟩

theorem ext {t u : Table key} (h : t.rows = u.rows) : t = u := by
  cases t; cases u; congr

-- ---------------------------------------------------------------------------
-- Statements
-- ---------------------------------------------------------------------------

variable [DecidableEq κ]

def find (t : Table key) (k : κ) : Option ρ := t.rows.find? fun r => key r = k

/-- `INSERT` of one row. -/
def upsert (c : Conflict key) (t : Table key) (r : ρ) : Table key :=
  if h : key r ∈ t.rows.map key then
    ⟨t.rows.map fun s => if key s = key r then c.merge s r else s, by
      have hk : (t.rows.map fun s => if key s = key r then c.merge s r else s).map key =
          t.rows.map key := by
        rw [List.map_map]
        apply List.map_congr_left
        intro s _
        simp only [Function.comp_apply]
        split
        · exact c.key_merge ..
        · rfl
      rw [hk]
      exact t.keys_nodup⟩
  else
    ⟨t.rows ++ [r], by
      rw [List.map_append]
      exact List.nodup_append.mpr ⟨t.keys_nodup, List.nodup_singleton _, by
        intro a ha b hb
        simp only [List.map_cons, List.map_nil, List.mem_singleton] at hb
        subst hb
        exact fun he => h (he ▸ ha)⟩⟩

/-- `INSERT .. ON CONFLICT DO NOTHING` of one row; `clash` compares by the
unique constraints other than the key. -/
def insertNew (clash : ρ → ρ → Bool) (t : Table key) (r : ρ) : Table key :=
  if t.rows.any (clash r) then t else t.upsert .ignore r

/-- `INSERT .. ON CONFLICT DO UPDATE` of several rows by one command. A key may
be written only once; otherwise the command fails. The second component lists
the keys written. -/
def insertAll (c : Conflict key) : Table key → List κ → List ρ → Option (Table key × List κ)
  | t, written, [] => some (t, written)
  | t, written, r :: rs =>
    if key r ∈ written then none
    else insertAll c (t.upsert c r)
      (if c.writes (t.find (key r)) r then key r :: written else written) rs

/-- `UPDATE .. SET set WHERE p`; `set` may not change the key. -/
def update (p : ρ → Bool) (set : ρ → ρ) (hset : ∀ r, key (set r) = key r) (t : Table key) :
    Table key :=
  ⟨t.rows.map fun r => if p r then set r else r, by
    have hk : (t.rows.map fun r => if p r then set r else r).map key = t.rows.map key := by
      rw [List.map_map]
      apply List.map_congr_left
      intro r _
      simp only [Function.comp_apply]
      split
      · exact hset r
      · rfl
    rw [hk]
    exact t.keys_nodup⟩

/-- `DELETE .. WHERE p`. -/
def delete (p : ρ → Bool) (t : Table key) : Table key :=
  ⟨t.rows.filter fun r => !p r, t.keys_nodup.sublist (List.filter_sublist.map key)⟩

-- ---------------------------------------------------------------------------
-- Lookups
-- ---------------------------------------------------------------------------

@[simp] theorem find_empty (k : κ) : (empty : Table key).find k = none := rfl

theorem find_key {t : Table key} {k : κ} {r : ρ} (h : t.find k = some r) : key r = k := by
  simpa using List.find?_some h

theorem mem_of_find {t : Table key} {k : κ} {r : ρ} (h : t.find k = some r) : r ∈ t.rows :=
  List.mem_of_find?_eq_some h

theorem find_of_mem {t : Table key} {r : ρ} (h : r ∈ t.rows) : t.find (key r) = some r := by
  obtain ⟨rows, hn⟩ := t
  induction rows with
  | nil => simp at h
  | cons s rows ih =>
    have hn' := List.nodup_cons.mp hn
    rcases List.mem_cons.mp h with rfl | h
    · simp [find]
    · have hne : key s ≠ key r := fun he => hn'.1 (he ▸ List.mem_map.mpr ⟨r, h, rfl⟩)
      simpa [find, List.find?_cons, hne] using ih hn'.2 h

theorem mem_rows_iff {t : Table key} {r : ρ} : r ∈ t.rows ↔ t.find (key r) = some r :=
  ⟨find_of_mem, mem_of_find⟩

theorem find_eq_none_iff {t : Table key} {k : κ} : t.find k = none ↔ k ∉ t.rows.map key := by
  simp [find, List.find?_eq_none]

theorem find_eq_none_of_filter {t : Table key} {p : ρ → Bool} (h : t.rows.filter p = []) {k : κ}
    (hp : ∀ r, key r = k → p r = true) : t.find k = none := by
  refine find_eq_none_iff.mpr fun hm => ?_
  obtain ⟨r, hr, hk⟩ := List.mem_map.mp hm
  exact List.filter_eq_nil_iff.mp h r hr (hp r hk)

theorem find_upsert_same (c : Conflict key) (t : Table key) (r : ρ) :
    (t.upsert c r).find (key r) = some (c.resolve (t.find (key r)) r) := by
  unfold upsert
  split
  · rename_i hm
    obtain ⟨s, hs, hk⟩ := List.mem_map.mp hm
    have hf : t.find (key r) = some s := hk ▸ find_of_mem hs
    rw [hf, Conflict.resolve_some]
    have hk' : key (c.merge s r) = key r := (c.key_merge s r).trans hk
    refine (congrArg _ hk'.symm).trans (find_of_mem ?_)
    exact List.mem_map.mpr ⟨s, hs, by simp [hk]⟩
  · rename_i hm
    rw [find_eq_none_iff.mpr hm, Conflict.resolve_none]
    exact find_of_mem (by simp)

theorem find_upsert_ne (c : Conflict key) (t : Table key) {r : ρ} {k : κ} (h : k ≠ key r) :
    (t.upsert c r).find k = t.find k := by
  unfold upsert
  split
  · have hp : ((fun s => decide (key s = k)) ∘ fun s => if key s = key r then c.merge s r else s) =
        fun s => decide (key s = k) := by
      funext s
      simp only [Function.comp_apply]
      split
      · rw [c.key_merge]
      · rfl
    have hf : ∀ s, key s = k → (if key s = key r then c.merge s r else s) = s := by
      intro s hs
      rw [if_neg fun he => h (hs.symm.trans he)]
    simp only [find, List.find?_map, hp]
    cases hs : t.rows.find? fun s => decide (key s = k) with
    | none => rfl
    | some s => simp [hf s (by simpa using List.find?_some hs)]
  · simp [find, List.find?_append, Ne.symm h]

theorem find_upsert (c : Conflict key) (t : Table key) (r : ρ) (k : κ) :
    (t.upsert c r).find k = if k = key r then some (c.resolve (t.find k) r) else t.find k := by
  split
  · rename_i h
    subst h
    exact find_upsert_same c t r
  · rename_i h
    exact find_upsert_ne c t h

theorem mem_insertNew {clash : ρ → ρ → Bool} {t : Table key} {r x : ρ}
    (h : x ∈ (t.insertNew clash r).rows) : x ∈ t.rows ∨ x = r := by
  unfold insertNew at h
  split at h
  · exact .inl h
  · rw [mem_rows_iff, find_upsert] at h
    split at h
    · cases hfound : t.find (key x) with
      | none =>
        rw [hfound] at h
        exact .inr (Option.some.inj h).symm
      | some stored =>
        rw [hfound] at h
        exact .inl (Option.some.inj h ▸ mem_of_find hfound)
    · exact .inl (mem_of_find h)

theorem find_insertNew_isSome {clash : ρ → ρ → Bool} {t : Table key} {r : ρ} {k : κ}
    (h : (t.find k).isSome = true) : ((t.insertNew clash r).find k).isSome = true := by
  unfold insertNew
  split
  · exact h
  · rw [find_upsert]
    split
    · rfl
    · exact h

theorem find_update {p : ρ → Bool} {set : ρ → ρ} {hset : ∀ r, key (set r) = key r} (t : Table key)
    (k : κ) : (t.update p set hset).find k = (t.find k).map fun r => if p r then set r else r := by
  have hp : ((fun s => decide (key s = k)) ∘ fun r => if p r then set r else r) =
      fun s => decide (key s = k) := by
    funext s
    simp only [Function.comp_apply]
    split <;> simp [hset]
  simp only [find, update, List.find?_map, hp]

theorem find_delete {p : ρ → Bool} (t : Table key) (k : κ) :
    (t.delete p).find k = (t.find k).filter fun r => !p r := by
  cases hf : t.find k with
  | none =>
    have hk := find_eq_none_iff.mp hf
    exact find_eq_none_iff.mpr fun hm =>
      hk ((List.filter_sublist.map key).subset hm)
  | some r =>
    have hk := find_key hf
    have hr := mem_of_find hf
    subst hk
    cases hp : p r with
    | false =>
      have hm : r ∈ (t.delete p).rows := List.mem_filter.mpr ⟨hr, by simp [hp]⟩
      simp [find_of_mem hm, Option.filter, hp]
    | true =>
      simp only [Option.filter, hp, Bool.not_true, Bool.false_eq_true, if_false]
      refine find_eq_none_iff.mpr fun hm => ?_
      obtain ⟨s, hs, he⟩ := List.mem_map.mp hm
      obtain ⟨hs, hps⟩ := List.mem_filter.mp hs
      have hsr : t.find (key r) = some s := he ▸ find_of_mem hs
      have : s = r := Option.some.inj (hsr.symm.trans hf)
      subst this
      simp [hp] at hps

theorem upsert_ignore_of_mem {t : Table key} {r : ρ} (h : key r ∈ t.rows.map key) :
    t.upsert .ignore r = t := by
  apply ext
  simp [upsert, h]

theorem insertNew_of_mem (clash : ρ → ρ → Bool) {t : Table key} {r : ρ}
    (h : key r ∈ t.rows.map key) : t.insertNew clash r = t := by
  unfold insertNew
  split
  · rfl
  · exact upsert_ignore_of_mem h

@[simp] theorem insertNew_no_clash (t : Table key) (r : ρ) :
    t.insertNew (fun _ _ => false) r = t.upsert .ignore r := by
  simp [insertNew]

-- ---------------------------------------------------------------------------
-- Batches
-- ---------------------------------------------------------------------------

theorem insertAll_eq_foldl (c : Conflict key) {rs : List ρ} (t : Table key) {written : List κ}
    (hn : (rs.map key).Nodup) (hw : ∀ r ∈ rs, key r ∉ written) :
    (t.insertAll c written rs).map Prod.fst = some (rs.foldl (upsert c) t) := by
  induction rs generalizing t written with
  | nil => rfl
  | cons r rs ih =>
    have hn' := List.nodup_cons.mp hn
    rw [insertAll, if_neg (hw r (by simp)), List.foldl_cons]
    apply ih _ hn'.2
    intro s hs hm
    have hs' : key s ∉ written := hw s (List.mem_cons_of_mem _ hs)
    have hne : key s ≠ key r := fun he => hn'.1 (he ▸ List.mem_map.mpr ⟨s, hs, rfl⟩)
    split at hm
    · rcases List.mem_cons.mp hm with he | hm
      · exact hne he
      · exact hs' hm
    · exact hs' hm

theorem find_foldl_upsert (c : Conflict key) (rs : List ρ) (t : Table key) (k : κ) :
    (rs.foldl (upsert c) t).find k =
      (rs.filter fun r => key r = k).foldl (fun o r => some (c.resolve o r)) (t.find k) := by
  induction rs generalizing t with
  | nil => rfl
  | cons r rs ih =>
    rw [List.foldl_cons, ih, find_upsert]
    by_cases h : key r = k
    · simp [h]
    · simp [h, Ne.symm h]

theorem insertAll_foldl {c : Conflict key} {rs : List ρ} {t u : Table key} {ws ws' : List κ}
    (h : t.insertAll c ws rs = some (u, ws')) : u = rs.foldl (upsert c) t := by
  induction rs generalizing t ws with
  | nil =>
    simp only [insertAll, Option.some.injEq, Prod.mk.injEq] at h
    exact h.1.symm
  | cons r rs ih =>
    rw [insertAll] at h
    split at h
    · cases h
    · exact ih h

theorem filter_key_eq_singleton {rs : List ρ} {r : ρ} (hn : (rs.map key).Nodup) (hr : r ∈ rs) :
    (rs.filter fun s => key s = key r) = [r] := by
  have hnd : (rs.filter fun s => key s = key r).Nodup := hn.of_map.filter _
  refine List.perm_singleton.mp ((List.perm_ext_iff_of_nodup hnd (List.nodup_singleton r)).mpr ?_)
  intro s
  simp only [List.mem_filter, decide_eq_true_eq, List.mem_singleton]
  constructor
  · rintro ⟨hs, hk⟩
    exact List.inj_on_of_nodup_map hn hs hr hk
  · rintro rfl
    exact ⟨hr, rfl⟩

theorem find_foldl_upsert_of_mem (c : Conflict key) {rs : List ρ} (t : Table key) {r : ρ}
    (hn : (rs.map key).Nodup) (hr : r ∈ rs) :
    (rs.foldl (upsert c) t).find (key r) = some (c.resolve (t.find (key r)) r) := by
  rw [find_foldl_upsert, filter_key_eq_singleton hn hr]
  rfl

theorem find_foldl_upsert_of_not_mem (c : Conflict key) {rs : List ρ} (t : Table key) {k : κ}
    (hk : k ∉ rs.map key) : (rs.foldl (upsert c) t).find k = t.find k := by
  have hnone : (rs.filter fun r => key r = k) = [] := by
    rw [List.filter_eq_nil_iff]
    intro r hr he
    exact hk (List.mem_map.mpr ⟨r, hr, by simpa using he⟩)
  rw [find_foldl_upsert, hnone]
  rfl

theorem find_foldl_upsert_isSome {c : Conflict key} {t : Table key} {rs : List ρ} {r : ρ}
    (h : r ∈ rs) : ((rs.foldl (upsert c) t).find (key r)).isSome := by
  have hne : (rs.filter fun s => key s = key r) ≠ [] :=
    List.ne_nil_of_mem (List.mem_filter.mpr ⟨h, by simp⟩)
  rw [find_foldl_upsert, ← List.dropLast_append_getLast hne, List.foldl_append]
  rfl

theorem insertAll_written {c : Conflict key} {rs : List ρ} {t u : Table key} {ws ws' : List κ}
    (hn : (rs.map key).Nodup) (h : t.insertAll c ws rs = some (u, ws')) :
    ∀ k ∈ ws', k ∈ ws ∨ ∃ r ∈ rs, key r = k ∧ c.writes (t.find k) r = true := by
  induction rs generalizing t ws with
  | nil =>
    simp only [insertAll, Option.some.injEq, Prod.mk.injEq] at h
    intro k hk
    exact .inl (h.2 ▸ hk)
  | cons r rs ih =>
    have hn' := List.nodup_cons.mp hn
    rw [insertAll] at h
    split at h
    · cases h
    · intro k hk
      rcases ih hn'.2 h k hk with hm | ⟨s, hs, rfl, hw⟩
      · split at hm
        · rename_i hw
          rcases List.mem_cons.mp hm with rfl | hm
          · exact .inr ⟨r, by simp, rfl, hw⟩
          · exact .inl hm
        · exact .inl hm
      · have hne : key s ≠ key r := fun he => hn'.1 (he ▸ List.mem_map.mpr ⟨s, hs, rfl⟩)
        rw [find_upsert_ne c t hne] at hw
        exact .inr ⟨s, List.mem_cons_of_mem _ hs, rfl, hw⟩

theorem insertAll_written_subset {c : Conflict key} {rs : List ρ} {t u : Table key}
    {ws ws' : List κ} (h : t.insertAll c ws rs = some (u, ws')) : ws ⊆ ws' := by
  induction rs generalizing t ws with
  | nil =>
    simp only [insertAll, Option.some.injEq, Prod.mk.injEq] at h
    exact h.2 ▸ List.Subset.refl ws
  | cons r rs ih =>
    rw [insertAll] at h
    split at h
    · cases h
    · have hsub := ih h
      split at hsub
      · exact List.Subset.trans (List.subset_cons_self _ _) hsub
      · exact hsub

theorem insertAll_unwritten {c : Conflict key} {rs : List ρ} {t u : Table key} {ws ws' : List κ}
    (h : t.insertAll c ws rs = some (u, ws')) {k : κ} (hk : k ∉ ws') : u.find k = t.find k := by
  induction rs generalizing t ws with
  | nil =>
    simp only [insertAll, Option.some.injEq, Prod.mk.injEq] at h
    rw [h.1]
  | cons r rs ih =>
    rw [insertAll] at h
    split at h
    · cases h
    · rw [ih h, find_upsert]
      split
      · rename_i hkey
        have hsub := insertAll_written_subset h
        cases hf : t.find k with
        | none =>
          simp only [← hkey, hf, Conflict.writes, if_true] at hsub
          exact absurd (hsub List.mem_cons_self) hk
        | some stored =>
          cases hg : c.guard stored r with
          | true =>
            simp only [← hkey, hf, Conflict.writes, hg, if_true] at hsub
            exact absurd (hsub List.mem_cons_self) hk
          | false => simp [Conflict.merge, hg]
      · rfl

theorem find_upsert_unwritten {c : Conflict key} {t : Table key} {r : ρ}
    (h : c.writes (t.find (key r)) r = false) (k : κ) : (t.upsert c r).find k = t.find k := by
  rw [find_upsert]
  split
  · rename_i hkey
    subst hkey
    cases hf : t.find (key r) with
    | none => simp [hf, Conflict.writes] at h
    | some stored =>
      have hg : c.guard stored r = false := by simpa [hf, Conflict.writes] using h
      simp [Conflict.merge, hg]
  · rfl

/-- A command succeeds if no row comes after one of its key that was written. -/
theorem insertAll_isSome_iff {c : Conflict key} {rs : List ρ} {t : Table key} {ws : List κ} :
    (t.insertAll c ws rs).isSome = true ↔ (∀ r ∈ rs, key r ∉ ws) ∧
      rs.Pairwise fun a b => c.writes (t.find (key a)) a = true → key b ≠ key a := by
  induction rs generalizing t ws with
  | nil => simp [insertAll]
  | cons r rs ih =>
    rw [insertAll, List.forall_mem_cons, List.pairwise_cons]
    by_cases hin : key r ∈ ws
    · simp [hin]
    · rw [if_neg hin, ih]
      cases hw : c.writes (t.find (key r)) r with
      | false => simp [hin, find_upsert_unwritten hw]
      | true =>
        have hother : ∀ a ∈ rs, key a ≠ key r → (t.upsert c r).find (key a) = t.find (key a) :=
          fun a _ hne => find_upsert_ne c t hne
        simp only [if_true, List.mem_cons, not_or, forall_const, hin, not_false_eq_true, true_and]
        constructor
        · rintro ⟨hkeys, hpairs⟩
          refine ⟨fun a ha => (hkeys a ha).2, fun a ha => (hkeys a ha).1, ?_⟩
          exact hpairs.imp_of_mem fun ha _ h => by rwa [hother _ ha (hkeys _ ha).1] at h
        · rintro ⟨hws, hne, hpairs⟩
          refine ⟨fun a ha => ⟨hne a ha, hws a ha⟩, ?_⟩
          exact hpairs.imp_of_mem fun ha _ h => by rwa [hother _ ha (hne _ ha)]

theorem mem_insertAll {c : Conflict key} {rs : List ρ} {t u : Table key} {ws ws' : List κ}
    (h : t.insertAll c ws rs = some (u, ws')) {k : κ} :
    k ∈ ws' ↔ k ∈ ws ∨ ∃ r ∈ rs, key r = k ∧ c.writes (t.find k) r = true := by
  induction rs generalizing t ws with
  | nil =>
    simp only [insertAll, Option.some.injEq, Prod.mk.injEq] at h
    simp [h.2]
  | cons r rs ih =>
    have hsome : (t.insertAll c ws (r :: rs)).isSome = true := by simp [h]
    obtain ⟨hfirst, -⟩ := List.pairwise_cons.mp (insertAll_isSome_iff.mp hsome).2
    rw [insertAll] at h
    split at h
    · cases h
    · rw [ih h]
      cases hw : c.writes (t.find (key r)) r with
      | false =>
        simp only [Bool.false_eq_true, if_false, find_upsert_unwritten hw, List.exists_mem_cons_iff]
        refine or_congr_right ⟨.inr, fun hor => hor.resolve_left ?_⟩
        rintro ⟨rfl, hwrites⟩
        rw [hw] at hwrites
        cases hwrites
      | true =>
        simp only [if_true, List.mem_cons, exists_eq_or_imp]
        have hrest : (∃ x ∈ rs, key x = k ∧ c.writes ((t.upsert c r).find k) x = true) ↔
            ∃ x ∈ rs, key x = k ∧ c.writes (t.find k) x = true := by
          refine exists_congr fun x => and_congr_right fun hx => and_congr_right fun hk => ?_
          subst hk
          rw [find_upsert_ne c t (hfirst x hx hw)]
        rw [hrest, or_assoc, or_left_comm]
        refine or_congr_right (or_congr_left ⟨?_, ?_⟩)
        · rintro rfl
          exact ⟨rfl, hw⟩
        · rintro ⟨hk, -⟩
          exact hk.symm

theorem find_insertAll_of_writes {c : Conflict key} {rs : List ρ} {t u : Table key} {ws ws' : List κ}
    (h : t.insertAll c ws rs = some (u, ws')) {r : ρ} (hr : r ∈ rs)
    (hw : c.writes (t.find (key r)) r = true) :
    u.find (key r) = some (c.resolve (t.find (key r)) r) := by
  induction rs generalizing t ws with
  | nil => cases hr
  | cons x rs ih =>
    have hsome : (t.insertAll c ws (x :: rs)).isSome = true := by simp [h]
    obtain ⟨hfirst, -⟩ := List.pairwise_cons.mp (insertAll_isSome_iff.mp hsome).2
    have hfold := insertAll_foldl h
    rw [insertAll] at h
    split at h
    · cases h
    · rcases List.mem_cons.mp hr with rfl | hr
      · have hlater : key r ∉ rs.map key := by
          intro hmem
          obtain ⟨a, ha, hkey⟩ := List.mem_map.mp hmem
          exact hfirst a ha hw hkey
        rw [hfold, List.foldl_cons, find_foldl_upsert_of_not_mem c _ hlater, find_upsert_same]
      · have hsame : (t.upsert c x).find (key r) = t.find (key r) := by
          by_cases hkey : key r = key x
          · refine find_upsert_unwritten ?_ _
            exact Bool.eq_false_iff.mpr fun hx => hfirst r hr hx hkey
          · exact find_upsert_ne c t hkey
        rw [ih h hr (hsame ▸ hw), hsame]

theorem foldl_upsert_fresh (c : Conflict key) {rs : List ρ} {t : Table key}
    (hn : ((t.rows ++ rs).map key).Nodup) : (rs.foldl (upsert c) t).rows = t.rows ++ rs := by
  induction rs generalizing t with
  | nil => simp
  | cons r rs ih =>
    have hfresh : key r ∉ t.rows.map key := by
      rw [List.map_append] at hn
      exact fun hm => (List.nodup_append.mp hn).2.2 _ hm _ (by simp) rfl
    have hrows : (t.upsert c r).rows = t.rows ++ [r] := by
      unfold upsert
      rw [dif_neg hfresh]
    have hstep := ih (t := t.upsert c r) (by simpa [hrows] using hn)
    simpa [hrows] using hstep

theorem foldl_insertNew_fresh (clash : ρ → ρ → Bool) {rs : List ρ} {t : Table key}
    (hn : ((t.rows ++ rs).map key).Nodup)
    (hc : (t.rows ++ rs).Pairwise fun stored r => clash r stored = false) :
    (rs.foldl (insertNew clash) t).rows = t.rows ++ rs := by
  induction rs generalizing t with
  | nil => simp
  | cons r rs ih =>
    have hclash : t.rows.any (clash r) = false := by
      refine List.any_eq_false.mpr fun stored hs => ?_
      rw [(List.pairwise_append.mp hc).2.2 stored hs r (by simp)]
      exact Bool.false_ne_true
    have hfirst : ((t.rows ++ [r]).map key).Nodup :=
      hn.sublist (List.Sublist.map _ (List.Sublist.append_left (by simp) _))
    have hrows : (t.insertNew clash r).rows = t.rows ++ [r] := by
      unfold insertNew
      rw [hclash]
      exact foldl_upsert_fresh .ignore hfirst
    have hstep := ih (t := t.insertNew clash r) (by simpa [hrows] using hn)
      (by simpa [hrows] using hc)
    simpa [hrows] using hstep

/-- Each of the single inserts leaves the values of `u` distinct. -/
def keepsUnique {υ : Type} [DecidableEq υ] (c : Conflict key) (u : ρ → υ) :
    Table key → List ρ → Bool
  | _, [] => true
  | t, r :: rs => decide ((t.upsert c r).rows.map u).Nodup && keepsUnique c u (t.upsert c r) rs

theorem keepsUnique_fresh {υ : Type} [DecidableEq υ] (c : Conflict key) {u : ρ → υ} {rs : List ρ}
    {t : Table key} (hn : ((t.rows ++ rs).map key).Nodup) (hu : ((t.rows ++ rs).map u).Nodup) :
    t.keepsUnique c u rs = true := by
  induction rs generalizing t with
  | nil => rfl
  | cons r rs ih =>
    have hfirst : ((t.rows ++ [r]).map key).Nodup :=
      hn.sublist (List.Sublist.map _ (List.Sublist.append_left (by simp) _))
    have hrows : (t.upsert c r).rows = t.rows ++ [r] := foldl_upsert_fresh c hfirst
    have hhead : ((t.upsert c r).rows.map u).Nodup := by
      rw [hrows]
      exact hu.sublist (List.Sublist.map _ (List.Sublist.append_left (by simp) _))
    have hrest := ih (t := t.upsert c r) (by simpa [hrows] using hn) (by simpa [hrows] using hu)
    simp [keepsUnique, hhead, hrest]

-- ---------------------------------------------------------------------------
-- Tables that store the same
-- ---------------------------------------------------------------------------

/-- The two tables store the same row, or none, under every key. -/
def Same (t u : Table key) : Prop := ∀ k, t.find k = u.find k

theorem Same.perm {t u : Table key} (h : t.Same u) : t.rows.Perm u.rows := by
  refine (List.perm_ext_iff_of_nodup t.keys_nodup.of_map u.keys_nodup.of_map).mpr fun r => ?_
  rw [mem_rows_iff, mem_rows_iff, h]

theorem same_iff_perm {t u : Table key} : t.Same u ↔ t.rows.Perm u.rows := by
  constructor
  · exact Same.perm
  · intro h k
    cases hf : t.find k with
    | none =>
      have hk := find_eq_none_iff.mp hf
      exact (find_eq_none_iff.mpr fun hm => hk ((h.map key).mem_iff.mpr hm)).symm
    | some r =>
      have hm := h.mem_iff.mp (mem_of_find hf)
      rw [← find_key hf]
      exact (find_of_mem hm).symm

/-- A table with at most one row, by its lookups. -/
theorem rows_eq_toList_iff {t : Table key} {o : Option ρ} :
    t.rows = o.toList ↔ ∀ k, t.find k = o.filter fun r => key r = k := by
  let u : Table key := ⟨o.toList, by cases o <;> simp⟩
  have hu : ∀ k, u.find k = o.filter fun r => key r = k := by
    intro k
    cases o with
    | none => rfl
    | some r => by_cases hk : key r = k <;> simp [u, find, Option.filter, hk]
  have hperm : (∀ k, t.find k = o.filter fun r => key r = k) ↔ t.rows.Perm u.rows := by
    rw [← same_iff_perm]
    exact forall_congr' fun k => by rw [hu]
  rw [hperm]
  constructor
  · exact fun h => .of_eq h
  · intro h
    cases o with
    | none => exact List.perm_nil.mp h
    | some r => exact List.perm_singleton.mp h

end Table

end SafrochainIndexer
