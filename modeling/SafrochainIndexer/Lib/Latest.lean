import SafrochainIndexer.Lib.Relation

/-!
# Tables of latest records

A call saves a batch of records into a table whose clause is guarded by a
stamp. After any sequence of calls the table stores, under every key, the
newest of all the records that were saved for it (`MaxRegister`).
-/

namespace SafrochainIndexer

variable {σ α ρ κ τ : Type} [LinearOrder τ] [DecidableEq κ] {key : ρ → κ}

/-- Each call is valid in the state that the calls before it leave. -/
def Admissible (save : α → Eff σ Unit) (Valid : σ → α → Prop) : σ → List α → Prop
  | _, [] => True
  | s, call :: calls => Valid s call ∧ Admissible save Valid (Eff.exec (save call) s).2 calls

/-- All records ever stored under `k`, in the order they came. -/
def historyOf (stored : Table key) (saved : List ρ) (k : κ) : List ρ :=
  (stored.find k).toList ++ saved.filter fun r => key r = k

/-- Under every key the table `final` stores the newest record of its history. -/
def Latest (stamp : ρ → τ) (stored : Table key) (saved : List ρ) (final : Table key) : Prop :=
  ∀ k r, final.find k = some r ↔ Register.Newest stamp (historyOf stored saved k) r

/-- From `s`, calls valid one after the other succeed and leave the newest records. If
no two records of one key have the same stamp, another order of the calls ends in the
same table. -/
def MaxRegister (R : Relation σ key) (stamp : ρ → τ) (save : α → Eff σ Unit) (rows : α → List ρ)
    (Valid : σ → α → Prop) (s : σ) : Prop :=
  ∀ calls, Admissible save Valid s calls →
    ∃ t, Eff.Returns (calls.forM save) s () t ∧
      Latest stamp (R.read s) (calls.flatMap rows) (R.read t) ∧
      ∀ calls' t', calls.Perm calls' → Eff.Returns (calls'.forM save) s () t' →
        (∀ k, ((historyOf (R.read s) (calls.flatMap rows) k).map stamp).Nodup) →
        (R.read t).Same (R.read t')

section
variable {R : Relation σ key} {c : Conflict key} {stamp : ρ → τ} {save : α → Eff σ Unit}
  {rows : α → List ρ} {Valid : σ → α → Prop}

theorem forM_upserts
    (hsave : ∀ call s t, Eff.Returns (save call) s () t →
      R.read t = (rows call).foldl (Table.upsert c) (R.read s))
    {calls : List α} {s t : σ} (h : Eff.Returns (calls.forM save) s () t) :
    R.read t = (calls.flatMap rows).foldl (Table.upsert c) (R.read s) := by
  induction calls generalizing s with
  | nil =>
    have hs := Eff.returns_forM_nil.mp h
    subst hs
    rfl
  | cons call calls ih =>
    obtain ⟨u, hu, ht⟩ := Eff.returns_forM_cons.mp h
    rw [ih ht, hsave call s u hu, List.flatMap_cons, List.foldl_append]

theorem forM_admissible (hok : ∀ call s, Valid s call → ∃ t, Eff.Returns (save call) s () t)
    {calls : List α} {s : σ} (h : Admissible save Valid s calls) :
    ∃ t, Eff.Returns (calls.forM save) s () t := by
  induction calls generalizing s with
  | nil => exact ⟨s, Eff.returns_forM_nil.mpr rfl⟩
  | cons call calls ih =>
    obtain ⟨hv, hrest⟩ := h
    obtain ⟨u, hu⟩ := hok call s hv
    rw [hu.state] at hrest
    obtain ⟨t, ht⟩ := ih hrest
    exact ⟨t, Eff.returns_forM_cons.mpr ⟨u, hu, ht⟩⟩

theorem hold_history {stored : Table key} {saved : List ρ} {k : κ} :
    Register.hold stamp (stored.find k) (saved.filter fun r => key r = k) =
      Register.hold stamp none (historyOf stored saved k) := by
  unfold historyOf
  cases stored.find k with
  | none => rfl
  | some r => exact Register.hold_some ..

theorem latest_upserts (hc : c.Guards stamp) (stored : Table key) (saved : List ρ) :
    Latest stamp stored saved (saved.foldl (Table.upsert c) stored) := by
  intro k r
  rw [hc.find_upserts, hold_history]
  exact Register.hold_eq_some_iff

theorem maxRegister (hc : c.Guards stamp)
    (hok : ∀ call s, Valid s call → ∃ t, Eff.Returns (save call) s () t)
    (hsave : ∀ call s t, Eff.Returns (save call) s () t →
      R.read t = (rows call).foldl (Table.upsert c) (R.read s)) (s : σ) :
    MaxRegister R stamp save rows Valid s := by
  intro calls ha
  obtain ⟨t, ht⟩ := forM_admissible hok ha
  have htable := forM_upserts hsave ht
  refine ⟨t, ht, htable ▸ latest_upserts hc _ _, ?_⟩
  intro calls' t' hp ht' hn k
  have hperm : (historyOf (R.read s) (calls.flatMap rows) k).Perm
      (historyOf (R.read s) (calls'.flatMap rows) k) :=
    ((hp.flatMap_right rows).filter _).append_left _
  rw [htable, forM_upserts hsave ht', hc.find_upserts, hc.find_upserts, hold_history, hold_history]
  exact Register.hold_perm (hn k) hperm

end

-- ---------------------------------------------------------------------------
-- Deletions
-- ---------------------------------------------------------------------------

inductive Change (ρ : Type)
  | upsert (rows : List ρ)
  | delete (p : ρ → Bool)

def Change.apply (c : Conflict key) (t : Table key) : Change ρ → Table key
  | .upsert rows => rows.foldl (Table.upsert c) t
  | .delete p => t.delete p

def Change.saved : Change ρ → List ρ
  | .upsert rows => rows
  | .delete _ => []

def Change.Spares (held : κ → Option ρ) : Change ρ → Prop
  | .upsert _ => True
  | .delete p => ∀ k r, held k = some r → p r = false

/-- A table of the newest records stays one unless one of them is deleted. -/
theorem Change.find_apply_iff {c : Conflict key} {stamp : ρ → τ} (hc : c.Guards stamp)
    {t : Table key} {held : κ → Option ρ} (h : ∀ k, t.find k = held k) (change : Change ρ) :
    (∀ k, (change.apply c t).find k =
        Register.hold stamp (held k) (change.saved.filter fun r => key r = k)) ↔
      change.Spares held := by
  cases change with
  | upsert rows =>
    refine ⟨fun _ => trivial, fun _ k => ?_⟩
    rw [← h k]
    exact hc.find_upserts t rows k
  | delete p =>
    simp only [apply, saved, Spares, Table.find_delete, h, List.filter_nil]
    refine forall_congr' fun k => ?_
    cases held k with
    | none => simp [Register.hold]
    | some r => cases hp : p r <;> simp [Register.hold, Option.filter, hp]

end SafrochainIndexer
