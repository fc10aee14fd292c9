import SafrochainIndexer.Lib.Overwrite
import SafrochainIndexer.Lib.Relation
import Mathlib.Data.List.MinMax

/-!
# Replays

Operations on a register, grouped by what made them and replayed in the order of
their stamps. Only the last one counts (`run_last`), so a replay may repeat
groups, and may order those of one stamp as it likes as long as no two of them
touch the register (`getLast?_flatMap_top`). A batch that is upserted again
changes nothing (`Table.upserts_twice`).
-/

namespace SafrochainIndexer

namespace Register

variable {ρ τ : Type} [LinearOrder τ] {stamp : ρ → τ}

def Op.left : Op ρ τ → Option ρ
  | .save r => some r
  | .remove _ => none

theorem stamp_of_run {held : Option ρ} {ops : List (Op ρ τ)} {top : τ}
    (hops : ∀ op ∈ ops, op.stampOf stamp ≤ top) (hheld : ∀ r, held = some r → stamp r ≤ top)
    {r : ρ} (h : run stamp held ops = some r) : stamp r ≤ top := by
  rcases run_source h with h | h
  · exact hheld r h
  · exact hops _ h

/-- In the order of the stamps the last operation decides. -/
theorem run_last {held : Option ρ} {init : List (Op ρ τ)} {op : Op ρ τ}
    (hops : ∀ earlier ∈ init, earlier.stampOf stamp ≤ op.stampOf stamp)
    (hheld : ∀ r, held = some r → stamp r ≤ op.stampOf stamp) :
    run stamp held (init ++ [op]) = op.left := by
  have hle := fun r => stamp_of_run (r := r) hops hheld
  have hstep : run stamp held (init ++ [op]) = apply stamp (run stamp held init) op := by
    simp [run, List.foldl_append]
  rw [hstep]
  cases hrun : run stamp held init with
  | none => cases op <;> rfl
  | some r =>
    have hr := hle r hrun
    cases op with
    | save x => simp [apply, Op.left, show stamp r ≤ stamp x from hr]
    | remove upTo => simp [apply, Op.left, Option.filter, show stamp r ≤ upTo from hr]

theorem run_getLast? {held : Option ρ} {ops : List (Op ρ τ)} {op : Op ρ τ}
    (hs : ops.Pairwise fun a b => a.stampOf stamp ≤ b.stampOf stamp)
    (hop : ops.getLast? = some op) (hheld : ∀ r, held = some r → stamp r ≤ op.stampOf stamp) :
    run stamp held ops = op.left := by
  obtain ⟨init, rfl⟩ := List.getLast?_eq_some_iff.mp hop
  have hops := (List.pairwise_append.mp hs).2.2
  exact run_last (fun earlier h => hops earlier h op (List.mem_singleton.mpr rfl)) hheld

theorem hold_eq_none_iff {held : Option ρ} {rs : List ρ} :
    hold stamp held rs = none ↔ held = none ∧ rs = [] := by
  constructor
  · intro h
    obtain rfl : rs = [] := by
      by_contra hne
      obtain ⟨r, hr⟩ : ∃ r, hold stamp held rs = some r := exists_hold held hne
      exact nomatch hr.symm.trans h
    exact ⟨h, rfl⟩
  · rintro ⟨rfl, rfl⟩
    rfl

theorem hold_replayed {held : Option ρ} {rs : List ρ}
    (hs : rs.Pairwise fun a b => stamp a ≤ stamp b) :
    hold stamp held rs = hold stamp held rs.getLast?.toList := by
  cases rs using List.reverseRecOn with
  | nil => rfl
  | append_singleton xs x =>
    have hlast : ∀ r ∈ xs, stamp r ≤ stamp x := fun r hr =>
      (List.pairwise_append.mp hs).2.2 r hr x (List.mem_singleton.mpr rfl)
    rw [hold_append, List.getLast?_concat]
    show some (offer stamp (hold stamp held xs) x) = some (offer stamp held x)
    cases hxs : hold stamp held xs with
    | none => rw [(hold_eq_none_iff.mp hxs).1]
    | some r =>
      rcases mem_of_hold hxs with h | h
      · rw [h]
      · have hle := hlast r h
        cases held with
        | none => rw [offer_some, if_pos hle, offer_none]
        | some o =>
          have ho := (newest_of_hold (hold_some stamp o xs ▸ hxs)).le o List.mem_cons_self
          rw [offer_some, offer_some, if_pos hle, if_pos (ho.trans hle)]

end Register

theorem getLast?_flatMap_top {α β τ : Type} [LinearOrder τ] {height : α → τ} {f : α → List β}
    {xs : List α} {top : α} {last : β} (hs : xs.Pairwise fun a b => height a ≤ height b)
    (hmem : top ∈ xs) (hlast : (f top).getLast? = some last)
    (htop : ∀ x ∈ xs, f x ≠ [] → x = top ∨ height x < height top) :
    (xs.flatMap f).getLast? = some last := by
  induction xs with
  | nil => exact absurd hmem List.not_mem_nil
  | cons x xs ih =>
    obtain ⟨hx, hxs⟩ := List.pairwise_cons.mp hs
    obtain ⟨-, htops⟩ := List.forall_mem_cons.mp htop
    rw [List.flatMap_cons, List.getLast?_append]
    by_cases hin : top ∈ xs
    · rw [ih hxs hin htops, Option.some_or]
    · obtain rfl := (List.mem_cons.mp hmem).resolve_right hin
      have hnil : xs.flatMap f = [] := by
        refine List.flatMap_eq_nil_iff.mpr fun y hy => by_contra fun hne => ?_
        rcases htops y hy hne with rfl | hlt
        · exact hin hy
        · exact absurd (hx y hy) (not_le_of_gt hlt)
      rw [hnil, List.getLast?_nil, Option.none_or, hlast]

theorem exists_top {α τ : Type} [LinearOrder τ] (height : α → τ) {touches : α → Prop} {xs : List α}
    (h : ∃ x ∈ xs, touches x) :
    ∃ top ∈ xs, touches top ∧ ∀ x ∈ xs, touches x → height x ≤ height top := by
  classical
  obtain ⟨x, hx, htouches⟩ := h
  have hmem : x ∈ xs.filter fun y => decide (touches y) :=
    List.mem_filter.mpr ⟨hx, decide_eq_true htouches⟩
  obtain ⟨top, htop⟩ := Option.ne_none_iff_exists'.mp
    (List.argmax_eq_none (f := height).not.mpr (List.ne_nil_of_mem hmem))
  obtain ⟨hin, htop'⟩ := List.mem_filter.mp (List.argmax_mem htop)
  refine ⟨top, hin, of_decide_eq_true htop', fun y hy hty => ?_⟩
  exact List.le_of_mem_argmax (List.mem_filter.mpr ⟨hy, decide_eq_true hty⟩) htop

-- ---------------------------------------------------------------------------
-- Batches
-- ---------------------------------------------------------------------------

section
variable {ρ κ τ : Type} [DecidableEq κ] {key : ρ → κ} {c : Conflict key} {rs : List ρ}

theorem Table.upserts_twice
    (hc : ∀ stored r, (∀ o, stored = some o → key o = key r) →
      c.resolve (some (c.resolve stored r)) r = c.resolve stored r)
    (hn : (rs.map key).Nodup) (t : Table key) :
    rs.foldl (upsert c) (rs.foldl (upsert c) t) = rs.foldl (upsert c) t := by
  refine Same.eq (fun k => ?_) (keys_foldl_upsert c fun r hr => ?_)
  · by_cases hk : k ∈ rs.map key
    · obtain ⟨r, hr, rfl⟩ := List.mem_map.mp hk
      rw [find_foldl_upsert_of_mem c _ hn hr, find_foldl_upsert_of_mem c _ hn hr,
        hc _ _ fun o ho => find_key ho]
    · rw [find_foldl_upsert_of_not_mem c _ hk]
  · obtain ⟨o, ho⟩ := Option.isSome_iff_exists.mp
      (find_foldl_upsert_isSome (c := c) (t := t) hr)
    exact List.mem_map.mpr ⟨o, mem_of_find ho, find_key ho⟩

theorem Conflict.Guards.upserts_twice [LinearOrder τ] {stamp : ρ → τ} (hc : c.Guards stamp)
    (hn : (rs.map key).Nodup) (t : Table key) :
    rs.foldl (Table.upsert c) (rs.foldl (Table.upsert c) t) = rs.foldl (Table.upsert c) t := by
  refine Table.upserts_twice (fun stored r hk => ?_) hn t
  have hkey : key (c.resolve stored r) = key r := c.key_resolve hk
  rw [hc.resolve_eq fun o ho => Option.some.inj ho ▸ hkey, hc.resolve_eq hk]
  rcases Register.offer_eq_or stamp stored r with h | h
  · rw [← h]
  · rw [h, Register.offer_some, if_pos le_rfl]

end

end SafrochainIndexer
