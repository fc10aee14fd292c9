import SafrochainIndexer.Lib.Effect
import SafrochainIndexer.Lib.Table
import SafrochainIndexer.Lib.Register

/-!
# Statements on the tables of a database

A `Relation` is one table of a database state, with the constraints a row has
to meet. Its statements are calls on that state: they succeed and write the
table, or fail and write nothing.

A conflict clause that `Guards` by a stamp makes every key of the table a
register of that stamp (`find_upserts`).
-/

namespace SafrochainIndexer

/-- A table of the database state `σ`. `violation` is the constraint, if any,
that a row breaks given the other tables. -/
structure Relation (σ : Type) {ρ κ : Type} (key : ρ → κ) where
  read : σ → Table key
  write : Table key → σ → σ
  read_write : ∀ t s, read (write t s) = t
  violation : σ → ρ → Option String

/-- The clause replaces the whole row, unless the stored one has a larger
stamp. -/
structure Conflict.Guards {ρ κ τ : Type} [LE τ] {key : ρ → κ} (c : Conflict key)
    (stamp : ρ → τ) : Prop where
  set_eq : ∀ stored excluded, key stored = key excluded → c.set stored excluded = excluded
  guard_iff : ∀ stored excluded, c.guard stored excluded = true ↔ stamp stored ≤ stamp excluded

namespace Relation

variable {σ ρ κ β : Type} {key : ρ → κ} [DecidableEq κ]

/-- The first constraint broken by a row of `t` that the statement wrote. -/
def broken (R : Relation σ key) (s : σ) (t : Table key) (written : List κ) : Option String :=
  written.findSome? fun k => (t.find k).bind (R.violation s)

/-- `INSERT INTO .. VALUES rows ON CONFLICT .. DO UPDATE`. -/
def insert (R : Relation σ key) (c : Conflict key) (rows : List ρ) : Eff σ Unit := do
  let s ← get
  match (R.read s).insertAll c [] rows with
  | none => Eff.fail "pq: ON CONFLICT DO UPDATE command cannot affect row a second time"
  | some (t, written) =>
    match R.broken s t written with
    | some message => Eff.fail message
    | none => modify (R.write t)

/-- The same into a table with a unique index `name` on `u` besides its key. -/
def insertUnique {υ : Type} [DecidableEq υ] (R : Relation σ key) (name : String) (u : ρ → υ)
    (c : Conflict key) (rows : List ρ) : Eff σ Unit := do
  let s ← get
  if (R.read s).keepsUnique c u rows then R.insert c rows
  else Eff.fail s!"pq: duplicate key value violates unique constraint \"{name}\""

/-- `INSERT INTO .. VALUES rows ON CONFLICT DO NOTHING`. -/
def insertNew (R : Relation σ key) (clash : ρ → ρ → Bool) (rows : List ρ) : Eff σ Unit :=
  modify fun s => R.write (rows.foldl (Table.insertNew clash) (R.read s)) s

/-- `UPDATE .. SET set WHERE p`. -/
def update (R : Relation σ key) (p : ρ → Bool) (set : ρ → ρ) (hset : ∀ r, key (set r) = key r) :
    Eff σ Unit :=
  modify fun s => R.write ((R.read s).update p set hset) s

/-- `DELETE FROM .. WHERE p`. -/
def delete (R : Relation σ key) (p : ρ → Bool) : Eff σ Unit :=
  modify fun s => R.write ((R.read s).delete p) s

/-- The same where rows of other tables may refer to the deleted ones:
`referenced` is the foreign key, if any, that holds a row back. -/
def deleteUnreferenced (R : Relation σ key) (referenced : σ → ρ → Option String) (p : ρ → Bool) :
    Eff σ Unit := do
  let s ← get
  match ((R.read s).rows.filter p).findSome? (referenced s) with
  | some message => Eff.fail message
  | none => R.delete p

end Relation

-- ---------------------------------------------------------------------------
-- Parameters
-- ---------------------------------------------------------------------------

/-- The protocol counts the parameters of a statement in 16 bits. -/
def maxParameters : Nat := 65535

section
variable {σ α β : Type} {n : Nat} {statement : Eff σ α}

/-- A statement with `n` parameters; one with too many is not even sent. -/
def sending (n : Nat) (statement : Eff σ α) : Eff σ α :=
  if maxParameters < n then
    Eff.fail s!"pq: got {n} parameters but PostgreSQL only supports {maxParameters} parameters"
  else statement

theorem sending_of_le (h : n ≤ maxParameters) : sending n statement = statement :=
  if_neg (Nat.not_lt.mpr h)

@[simp] theorem returns_sending {a : α} {s t : σ} :
    Eff.Returns (sending n statement) s a t ↔
      n ≤ maxParameters ∧ Eff.Returns statement s a t := by
  by_cases h : n ≤ maxParameters
  · simp [sending_of_le h, h]
  · simp [sending, Nat.not_le.mp h]

theorem sending_fails {s : σ} (h : maxParameters < n) : Eff.Fails (sending n statement) s s := by
  rw [sending, if_pos h]
  exact Eff.fails_fail.mpr rfl

theorem sending_fixes {f : σ → β} (h : Eff.Fixes f statement) : Eff.Fixes f (sending n statement) := by
  unfold sending
  split
  · exact .fail
  · exact h

theorem sending_quiet (h : Eff.Quiet statement) : Eff.Quiet (sending n statement) := by
  unfold sending
  split
  · exact .fail
  · exact h

theorem sending_along {R : σ → σ → Prop} (hrefl : ∀ s, R s s) (h : Eff.Along R statement) :
    Eff.Along R (sending n statement) := by
  unfold sending
  split
  · exact hrefl
  · exact h

end

namespace Relation

variable {σ ρ κ β : Type} {key : ρ → κ} [DecidableEq κ]
variable {R : Relation σ key} {c : Conflict key} {rows : List ρ} {s t : σ}

-- ---------------------------------------------------------------------------
-- Frames
-- ---------------------------------------------------------------------------

section
variable {f : σ → β} (hf : ∀ u s, f (R.write u s) = f s)
include hf

theorem insert_fixes : Eff.Fixes f (R.insert c rows) := by
  refine .bind .get fun s => ?_
  split
  · exact .fail
  · split
    · exact .fail
    · exact .modify fun _ => hf ..

theorem insertNew_fixes {clash : ρ → ρ → Bool} : Eff.Fixes f (R.insertNew clash rows) :=
  .modify fun _ => hf ..

omit [DecidableEq κ] in
theorem delete_fixes {p : ρ → Bool} : Eff.Fixes f (R.delete p) := .modify fun _ => hf ..

end

theorem insert_quiet : Eff.Quiet (R.insert c rows) := by
  refine .bind .get fun s => ?_
  split
  · exact .fail
  · split
    · exact .fail
    · exact .modify

theorem insertNew_quiet {clash : ρ → ρ → Bool} : Eff.Quiet (R.insertNew clash rows) := .modify

-- ---------------------------------------------------------------------------
-- Success
-- ---------------------------------------------------------------------------

theorem insert_returns : Eff.Returns (R.insert c rows) s () t ↔
    ∃ u written, (R.read s).insertAll c [] rows = some (u, written) ∧
      R.broken s u written = none ∧ R.write u s = t := by
  simp only [insert, Eff.returns_bind, Eff.returns_get]
  constructor
  · rintro ⟨_, _, ⟨rfl, rfl⟩, h⟩
    split at h
    · simp at h
    · rename_i u written hu
      split at h
      · simp at h
      · rename_i hb
        exact ⟨u, written, hu, hb, by simpa using h⟩
  · rintro ⟨u, written, hu, hb, rfl⟩
    exact ⟨s, s, ⟨rfl, rfl⟩, by simp [hu, hb]⟩

/-- A statement that fails writes nothing. -/
theorem insert_atomic (R : Relation σ key) (c : Conflict key) (rows : List ρ) (s : σ) :
    (Eff.exec (R.insert c rows) s).2 = s ∨
      Eff.Returns (R.insert c rows) s () (Eff.exec (R.insert c rows) s).2 := by
  unfold insert
  rw [Eff.exec_bind, Eff.exec_get]
  dsimp only
  split
  · exact .inl rfl
  · split
    · exact .inl rfl
    · rename_i t written hu _ hb
      exact .inr (insert_returns.mpr ⟨t, written, hu, hb, rfl⟩)

theorem insert_fails (h : Eff.Fails (R.insert c rows) s t) : t = s := by
  obtain hs | hr := R.insert_atomic c rows s
  · rw [← h.state, hs]
  · exact absurd h hr.not_fails

theorem sending_insert_fails {n : Nat} (h : Eff.Fails (sending n (R.insert c rows)) s t) : t = s := by
  by_cases hn : n ≤ maxParameters
  · rw [sending_of_le hn] at h
    exact insert_fails h
  · exact (h.state.symm.trans (sending_fails (Nat.not_le.mp hn)).state)

theorem insert_write (h : Eff.Returns (R.insert c rows) s () t) :
    t = R.write (rows.foldl (Table.upsert c) (R.read s)) s := by
  obtain ⟨u, written, hu, -, rfl⟩ := insert_returns.mp h
  rw [Table.insertAll_foldl hu]

theorem insert_read (h : Eff.Returns (R.insert c rows) s () t) :
    R.read t = rows.foldl (Table.upsert c) (R.read s) := by
  rw [insert_write h, R.read_write]

theorem insert_valid (h : Eff.Returns (R.insert c rows) s () t) {r : ρ} (hr : r ∈ (R.read t).rows) :
    r ∈ (R.read s).rows ∨ R.violation s r = none := by
  obtain ⟨u, written, hu, hb, rfl⟩ := insert_returns.mp h
  rw [R.read_write] at hr
  have hfind := Table.find_of_mem hr
  by_cases hk : key r ∈ written
  · have hnone := List.findSome?_eq_none_iff.mp hb (key r) hk
    exact .inr (by simpa [hfind] using hnone)
  · rw [Table.insertAll_unwritten hu hk] at hfind
    exact .inl (Table.mem_of_find hfind)

theorem find_exec_insert {k : κ} (hk : k ∉ rows.map key) :
    (R.read (Eff.exec (R.insert c rows) s).2).find k = (R.read s).find k := by
  obtain hsame | hreturns := R.insert_atomic c rows s
  · rw [hsame]
  · rw [insert_read hreturns, Table.find_foldl_upsert_of_not_mem c (R.read s) hk]

/-- When the constraints look at the key only, a command succeeds if no row
comes after a written one of its key and the written rows break none of them. -/
theorem insert_succeeds_iff
    (hkey : ∀ x y, key x = key y → R.violation s x = R.violation s y) :
    (∃ t, Eff.Returns (R.insert c rows) s () t) ↔
      (rows.Pairwise fun a b => c.writes ((R.read s).find (key a)) a = true → key b ≠ key a) ∧
        ∀ r ∈ rows, c.writes ((R.read s).find (key r)) r = true → R.violation s r = none := by
  have hiff : ((R.read s).insertAll c [] rows).isSome = true ↔ _ := Table.insertAll_isSome_iff
  simp only [List.not_mem_nil, not_false_eq_true, implies_true, true_and] at hiff
  simp only [insert_returns]
  constructor
  · rintro ⟨_, u, written, hu, hb, -⟩
    refine ⟨hiff.mp (by simp [hu]), fun r hr hw => ?_⟩
    have hin : key r ∈ written := (Table.mem_insertAll hu).mpr (.inr ⟨r, hr, rfl, hw⟩)
    have hnone := List.findSome?_eq_none_iff.mp hb (key r) hin
    obtain ⟨x, hx⟩ := Option.isSome_iff_exists.mp
      (Table.find_foldl_upsert_isSome (c := c) (t := R.read s) hr)
    rw [Table.insertAll_foldl hu, hx, Option.bind_some] at hnone
    rw [← hkey x r (Table.find_key hx), hnone]
  · rintro ⟨hpairs, hvalid⟩
    obtain ⟨⟨u, written⟩, hu⟩ := Option.isSome_iff_exists.mp (hiff.mpr hpairs)
    refine ⟨_, u, written, hu, List.findSome?_eq_none_iff.mpr fun k hk => ?_, rfl⟩
    obtain hnil | ⟨r, hr, rfl, hw⟩ := (Table.mem_insertAll hu).mp hk
    · cases hnil
    · cases hx : u.find (key r) with
      | none => rfl
      | some x => exact (hkey x r (Table.find_key hx)).trans (hvalid r hr hw)

theorem insert_ok (hn : (rows.map key).Nodup)
    (hv : ∀ r ∈ rows, c.writes ((R.read s).find (key r)) r = true →
      R.violation s (c.resolve ((R.read s).find (key r)) r) = none) :
    Eff.Returns (R.insert c rows) s () (R.write (rows.foldl (Table.upsert c) (R.read s)) s) := by
  have hall : ((R.read s).insertAll c [] rows).map Prod.fst = _ :=
    Table.insertAll_eq_foldl c (R.read s) hn (by simp)
  obtain ⟨⟨u, written⟩, hu, hfold⟩ := Option.map_eq_some_iff.mp hall
  rw [← hfold]
  refine insert_returns.mpr ⟨u, written, hu, ?_, rfl⟩
  refine List.findSome?_eq_none_iff.mpr fun k hk => ?_
  rcases Table.insertAll_written hn hu k hk with h | ⟨r, hr, rfl, hw⟩
  · simp at h
  · rw [Table.insertAll_foldl hu, Table.find_foldl_upsert_of_mem c _ hn hr]
    exact hv r hr hw

@[simp] theorem insertNew_returns {clash : ρ → ρ → Bool} :
    Eff.Returns (R.insertNew clash rows) s () t ↔
      R.write (rows.foldl (Table.insertNew clash) (R.read s)) s = t := Eff.returns_modify

theorem insertUnique_ok {υ : Type} [DecidableEq υ] {u : ρ → υ} (name : String)
    (hu : (R.read s).keepsUnique c u rows = true) (h : Eff.Returns (R.insert c rows) s () t) :
    Eff.Returns (R.insertUnique name u c rows) s () t :=
  Eff.returns_bind.mpr ⟨s, s, by simp, by simpa [hu] using h⟩

omit [DecidableEq κ] in
@[simp] theorem update_returns {p : ρ → Bool} {set : ρ → ρ} {hset : ∀ r, key (set r) = key r} :
    Eff.Returns (R.update p set hset) s () t ↔ R.write ((R.read s).update p set hset) s = t :=
  Eff.returns_modify

omit [DecidableEq κ] in
@[simp] theorem delete_returns {p : ρ → Bool} :
    Eff.Returns (R.delete p) s () t ↔ R.write ((R.read s).delete p) s = t := Eff.returns_modify

omit [DecidableEq κ] in
theorem exec_deleteUnreferenced (R : Relation σ key) (referenced : σ → ρ → Option String)
    (p : ρ → Bool) (s : σ) :
    Eff.exec (R.deleteUnreferenced referenced p) s =
      match ((R.read s).rows.filter p).findSome? (referenced s) with
      | some message => (.error (.error message), s)
      | none => (.ok (), R.write ((R.read s).delete p) s) := by
  unfold deleteUnreferenced
  rw [Eff.exec_bind, Eff.exec_get]
  dsimp only
  split <;> rfl

end Relation

-- ---------------------------------------------------------------------------
-- Stamps
-- ---------------------------------------------------------------------------

section
variable {ρ κ τ : Type} [LinearOrder τ] {key : ρ → κ} {stamp : ρ → τ} {c : Conflict key}

theorem Conflict.Guards.resolve_eq (hc : c.Guards stamp) {stored : Option ρ} {r : ρ}
    (hk : ∀ o, stored = some o → key o = key r) :
    c.resolve stored r = Register.offer stamp stored r := by
  cases stored with
  | none => rfl
  | some o =>
    have hg := hc.guard_iff o r
    by_cases hle : stamp o ≤ stamp r
    · simp [merge, hg.mpr hle, hle, hc.set_eq o r (hk o rfl)]
    · simp [merge, hg, hle]

theorem Conflict.Guards.resolve_of_writes (hc : c.Guards stamp) {stored : Option ρ} {r : ρ}
    (hk : ∀ o, stored = some o → key o = key r) (hw : c.writes stored r = true) :
    c.resolve stored r = r := by
  cases stored with
  | none => rfl
  | some o =>
    have hg : c.guard o r = true := hw
    simp [merge, hg, hc.set_eq o r (hk o rfl)]

theorem Conflict.Guards.find_upsert [DecidableEq κ] (hc : c.Guards stamp) (t : Table key) {r : ρ} {k : κ}
    (hk : key r = k) : (t.upsert c r).find k = some (Register.offer stamp (t.find k) r) := by
  subst hk
  rw [Table.find_upsert_same, hc.resolve_eq fun _ ho => Table.find_key ho]

theorem Conflict.Guards.insert_ok {σ : Type} [DecidableEq κ] {R : Relation σ key} {rows : List ρ}
    {s : σ} (hc : c.Guards stamp) (hn : (rows.map key).Nodup)
    (hv : ∀ r ∈ rows, R.violation s r = none) :
    Eff.Returns (R.insert c rows) s () (R.write (rows.foldl (Table.upsert c) (R.read s)) s) := by
  refine Relation.insert_ok hn fun r hr hw => ?_
  rw [hc.resolve_of_writes (fun _ => Table.find_key) hw]
  exact hv r hr

/-- Under a guarded clause each key of the table is a register of the stamp. -/
theorem Conflict.Guards.find_upserts [DecidableEq κ] (hc : c.Guards stamp) (t : Table key)
    (rs : List ρ) (k : κ) :
    (rs.foldl (Table.upsert c) t).find k =
      Register.hold stamp (t.find k) (rs.filter fun r => key r = k) := by
  induction rs generalizing t with
  | nil => rfl
  | cons r rs ih =>
    rw [List.foldl_cons, ih, Table.find_upsert]
    by_cases h : key r = k
    · subst h
      have hr := hc.resolve_eq (r := r) fun o ho => Table.find_key (t := t) ho
      simp [hr, Register.hold]
    · simp [h, Ne.symm h]

theorem Conflict.Guards.mem_of_upserts [DecidableEq κ] (hc : c.Guards stamp) {t : Table key}
    {rs : List ρ} {r : ρ} (h : r ∈ (rs.foldl (Table.upsert c) t).rows) : r ∈ t.rows ∨ r ∈ rs := by
  have hf := Table.find_of_mem h
  rw [hc.find_upserts] at hf
  rcases Register.mem_of_hold hf with hold | hnew
  · exact .inl (Table.mem_of_find hold)
  · exact .inr (List.mem_filter.mp hnew).1

theorem Conflict.Guards.le_of_mem_upsert [DecidableEq κ] (hc : c.Guards stamp) {t : Table key}
    {r : ρ} (h : r ∈ (t.upsert c r).rows) : ∀ o ∈ t.find (key r), stamp o ≤ stamp r := by
  intro o ho
  have hfind := Table.find_of_mem h
  rw [Table.find_upsert_same, Option.mem_def.mp ho,
    hc.resolve_eq fun x hx => Option.some.inj hx ▸ Table.find_key ho] at hfind
  by_contra hlt
  have hkept : Register.offer stamp (some o) r = o := by simp [Register.offer, hlt]
  rw [hkept] at hfind
  exact hlt (Option.some.inj hfind ▸ le_rfl)

theorem Conflict.Guards.mem_upserts [DecidableEq κ] (hc : c.Guards stamp) {t : Table key}
    {rs : List ρ} {r : ρ} (hr : r ∈ rs) (hall : ∀ x ∈ rs, key x = key r → x = r)
    (hold : ∀ o ∈ t.find (key r), stamp o ≤ stamp r) :
    r ∈ (rs.foldl (Table.upsert c) t).rows := by
  refine Table.mem_rows_iff.mpr ((hc.find_upserts t rs (key r)).trans ?_)
  refine Register.hold_of_all_eq ?_ (fun x hx => ?_) hold
  · exact List.ne_nil_of_mem (List.mem_filter.mpr ⟨hr, by simp⟩)
  · obtain ⟨hx, hk⟩ := List.mem_filter.mp hx
    exact hall x hx (of_decide_eq_true hk)

theorem Conflict.Guards.find_upserts_of_mem [DecidableEq κ] (hc : c.Guards stamp) {t : Table key}
    {rs : List ρ} {r : ρ} (hn : (rs.map key).Nodup) (hr : r ∈ rs)
    (hold : ∀ o ∈ t.find (key r), stamp o ≤ stamp r) :
    (rs.foldl (Table.upsert c) t).find (key r) = some r := by
  refine Table.find_of_mem (hc.mem_upserts hr (fun x hx hkey => ?_) hold)
  exact List.inj_on_of_nodup_map hn hx hr hkey

end

end SafrochainIndexer
