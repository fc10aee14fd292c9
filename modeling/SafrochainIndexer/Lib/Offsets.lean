import SafrochainIndexer.Lib.Keyset
import Mathlib.Data.List.Perm.Lattice

/-!
# Paging by an offset

Request `i` is answered with `limit` rows from row `i * limit` on, in the order
of a key. Rows of one key may come in another order on the next request.

`listed_iff`: the pages list every row exactly once, in whatever orders they are
served, if and only if none of them ends between two rows of one key (`Uncut`).
What they list has the keys of the sorted rows in any case (`listed_keys`).
-/

namespace SafrochainIndexer.Offsets

open Keyset (OrderBy)

variable {α β κ : Type} [LinearOrder κ]

/-- `ORDER BY key`. -/
abbrev ByKey (key : α → κ) := OrderBy fun a b : α => key a ≤ key b

def ByKey.insertion (key : α → κ) : ByKey key where
  run := List.insertionSort fun a b => key a ≤ key b
  perm := List.perm_insertionSort _
  sorted rows :=
    have : Std.Total fun a b : α => key a ≤ key b := ⟨fun _ _ => le_total ..⟩
    have : IsTrans α fun a b => key a ≤ key b := ⟨fun _ _ _ hab hbc => hab.trans hbc⟩
    List.pairwise_insertionSort _ rows

def page (order : List α → List α) (limit : Nat) (rows : List α) (i : Nat) : List α :=
  ((order rows).drop (i * limit)).take limit

def listed {key : α → κ} (orders : Nat → ByKey key) (limit : Nat) (rows : List α) : List α :=
  (List.range (rows.length / limit + 1)).flatMap fun i => page (orders i).run limit rows i

/-- No page ends between two rows of one key. -/
def Uncut (key : α → κ) (limit : Nat) (rows : List α) : Prop :=
  ∀ x ∈ rows, ∀ k, k * limit ≤ rows.countP (fun y => key y < key x) ∨
    rows.countP (fun y => key y ≤ key x) ≤ k * limit

-- ---------------------------------------------------------------------------
-- Sorted rows
-- ---------------------------------------------------------------------------

section
variable {key : α → κ} {l l' rows : List α} {p : α → Bool}

theorem filter_eq_take (hp : ∀ a b, key a ≤ key b → p b = true → p a = true)
    (hs : l.Pairwise fun a b => key a ≤ key b) : l.filter p = l.take (l.countP p) := by
  induction l with
  | nil => rfl
  | cons x l ih =>
    obtain ⟨hx, hl⟩ := List.pairwise_cons.mp hs
    cases hpx : p x with
    | true => simp [hpx, ih hl]
    | false =>
      have hnone : ∀ y ∈ l, ¬ p y = true := fun y hy hpy => by
        simp [hp x y (hx y hy) hpy] at hpx
      simp [hpx, List.filter_eq_nil_iff.mpr hnone, List.countP_eq_zero.mpr hnone]

theorem getElem_iff (hp : ∀ a b, key a ≤ key b → p b = true → p a = true)
    (hs : l.Pairwise fun a b => key a ≤ key b) {n : Nat} (hn : n < l.length) :
    p l[n] = true ↔ n < l.countP p := by
  have htake := filter_eq_take hp hs
  constructor
  · intro h
    by_contra hle
    have hdrop : l[n] ∈ l.drop (l.countP p) := by
      rw [List.mem_drop_iff_getElem]
      exact ⟨n - l.countP p, by omega, by congr 1; omega⟩
    have hcount : (l.drop (l.countP p)).countP p = 0 := by
      have hsplit := congrArg (List.countP p) (List.take_append_drop (l.countP p) l)
      have hall : (l.take (l.countP p)).countP p = l.countP p := by
        rw [← htake, List.countP_filter]
        simp
      rw [List.countP_append, hall] at hsplit
      omega
    exact List.countP_eq_zero.mp hcount _ hdrop h
  · intro h
    have hmem : l[n] ∈ l.take (l.countP p) := by
      rw [List.mem_take_iff_getElem]
      exact ⟨n, by omega, rfl⟩
    rw [← htake] at hmem
    exact (List.mem_filter.mp hmem).2

theorem getElem_lt_iff (hs : l.Pairwise fun a b => key a ≤ key b) {n : Nat} (hn : n < l.length)
    (c : κ) : key l[n] < c ↔ n < l.countP (fun y => key y < c) := by
  have h := getElem_iff (p := fun y => key y < c)
    (fun a b hab hb => decide_eq_true (hab.trans_lt (of_decide_eq_true hb))) hs hn
  simpa using h

theorem getElem_le_iff (hs : l.Pairwise fun a b => key a ≤ key b) {n : Nat} (hn : n < l.length)
    (c : κ) : key l[n] ≤ c ↔ n < l.countP (fun y => key y ≤ c) := by
  have h := getElem_iff (p := fun y => key y ≤ c)
    (fun a b hab hb => decide_eq_true (hab.trans (of_decide_eq_true hb))) hs hn
  simpa using h

/-- An uncut page boundary separates the same rows in all sorted lists. -/
theorem take_perm {limit k : Nat} (hu : Uncut key limit rows) (hl : l.Perm rows)
    (hl' : l'.Perm rows) (hs : l.Pairwise fun a b => key a ≤ key b)
    (hs' : l'.Pairwise fun a b => key a ≤ key b) :
    (l.take (k * limit)).Perm (l'.take (k * limit)) := by
  by_cases hn : k * limit < l.length
  · have hlow : l.countP (fun y => key y < key l[k * limit]) = k * limit := by
      have hnot := (getElem_lt_iff hs hn (key l[k * limit])).not.mp (lt_irrefl _)
      have hle := (getElem_le_iff hs hn (key l[k * limit])).mp le_rfl
      rw [hl.countP_eq] at hnot hle ⊢
      have := hu _ (hl.mem_iff.mp (List.getElem_mem hn)) k
      omega
    have hdown : ∀ a b : α, key a ≤ key b → decide (key b < key l[k * limit]) = true →
        decide (key a < key l[k * limit]) = true :=
      fun a b hab hb => decide_eq_true (hab.trans_lt (of_decide_eq_true hb))
    have htake := filter_eq_take hdown hs
    have htake' := filter_eq_take hdown hs'
    rw [hlow] at htake
    rw [(hl'.trans hl.symm).countP_eq, hlow] at htake'
    rw [← htake, ← htake']
    exact (hl.trans hl'.symm).filter _
  · have hlength : l'.length ≤ k * limit := by
      have := (hl'.trans hl.symm).length_eq
      omega
    rw [List.take_of_length_le (Nat.not_lt.mp hn), List.take_of_length_le hlength]
    exact hl.trans hl'.symm

theorem exists_order (hl : l.Perm rows) (hs : l.Pairwise fun a b => key a ≤ key b) :
    ∃ order : ByKey key, order.run rows = l := by
  classical
  refine ⟨⟨fun rows' => if rows' = rows then l else (ByKey.insertion key).run rows', ?_, ?_⟩,
    if_pos rfl⟩
  · intro rows'
    by_cases h : rows' = rows
    · rw [if_pos h, h]
      exact hl
    · rw [if_neg h]
      exact (ByKey.insertion key).perm rows'
  · intro rows'
    by_cases h : rows' = rows
    · rw [if_pos h]
      exact hs
    · rw [if_neg h]
      exact (ByKey.insertion key).sorted rows'

end

-- ---------------------------------------------------------------------------
-- Pages
-- ---------------------------------------------------------------------------

section
variable {key : α → κ} {limit : Nat} {rows : List α}

theorem length_page (order : ByKey key) (i : Nat) :
    (page order.run limit rows i).length = min limit (rows.length - i * limit) := by
  simp [page, (order.perm rows).length_eq]

theorem mem_page {order : List α → List α} {i n : Nat} {a : α} (ha : (order rows)[n]? = some a)
    (hlow : i * limit ≤ n) (hhigh : n < (i + 1) * limit) : a ∈ page order limit rows i := by
  rw [Nat.succ_mul] at hhigh
  refine List.mem_of_getElem? (i := n - i * limit) ?_
  rw [page, List.getElem?_take_of_lt (by omega), List.getElem?_drop, ← ha]
  congr 1
  omega

theorem full_iff (hl : 0 < limit) (order : ByKey key) {i : Nat} :
    (page order.run limit rows i).length = limit ↔ i < rows.length / limit := by
  rw [length_page, Nat.lt_iff_add_one_le, Nat.le_div_iff_mul_le hl, Nat.succ_mul]
  omega

theorem page_perm (hu : Uncut key limit rows) (order order' : ByKey key) (i : Nat) :
    (page order.run limit rows i).Perm (page order'.run limit rows i) := by
  have hcut (k : Nat) := take_perm (k := k) hu (order.perm rows) (order'.perm rows)
    (order.sorted rows) (order'.sorted rows)
  have hnext := hcut (i + 1)
  rw [Nat.succ_mul, List.take_add, List.take_add] at hnext
  exact (List.perm_append_left_iff _).mp (hnext.trans ((hcut i).symm.append_right _))

theorem listed_const (hl : 0 < limit) (order : ByKey key) :
    listed (fun _ => order) limit rows = order.run rows := by
  have hall : (order.run rows).length ≤ (rows.length / limit + 1) * limit := by
    rw [(order.perm rows).length_eq]
    exact (Nat.lt_mul_of_div_lt (Nat.lt_succ_self _) hl).le
  exact (Keyset.pages_flatMap _ _ _).trans (List.take_of_length_le hall)

theorem run_keys (order order' : ByKey key) :
    (order.run rows).map key = (order'.run rows).map key :=
  List.Perm.eq_of_pairwise (fun _ _ _ _ => le_antisymm)
    (List.pairwise_map.mpr (order.sorted rows)) (List.pairwise_map.mpr (order'.sorted rows))
    (((order.perm rows).trans (order'.perm rows).symm).map key)

theorem listed_keys (hl : 0 < limit) (orders : Nat → ByKey key) (order : ByKey key) :
    (listed orders limit rows).map key = (order.run rows).map key := by
  rw [← listed_const hl order, listed, listed, List.map_flatMap, List.map_flatMap]
  refine List.flatMap_congr fun i _ => ?_
  simp only [page, List.map_take, List.map_drop, run_keys (orders i) order]

theorem listed_perm (hl : 0 < limit) (hu : Uncut key limit rows) (orders : Nat → ByKey key) :
    (listed orders limit rows).Perm rows := by
  have hpages : (listed orders limit rows).Perm
      (listed (fun _ => ByKey.insertion key) limit rows) :=
    List.Perm.flatMap_left _ fun i _ => page_perm hu (orders i) _ i
  rw [listed_const hl] at hpages
  exact hpages.trans ((ByKey.insertion key).perm rows)

theorem swap_sorted {before after : List α} {a b : α} (hkey : key a = key b)
    (hs : (before ++ a :: b :: after).Pairwise fun a b => key a ≤ key b) :
    (before ++ b :: a :: after).Pairwise fun a b => key a ≤ key b := by
  rw [← List.pairwise_map] at hs ⊢
  simpa [hkey] using hs

/-- Where a page ends between two rows of one key, a row may come on that page and
again on the next. -/
theorem exists_repeated (hcut : ¬ Uncut key limit rows) :
    ∃ (orders : Nat → ByKey key) (k : Nat) (a : α), k + 1 < rows.length / limit + 1 ∧
      a ∈ page (orders k).run limit rows k ∧ a ∈ page (orders (k + 1)).run limit rows (k + 1) := by
  unfold Uncut at hcut
  push Not at hcut
  obtain ⟨x, -, k, hlow, hhigh⟩ := hcut
  obtain ⟨first⟩ : Nonempty (ByKey key) := ⟨.insertion key⟩
  have hp := first.perm rows
  have hs := first.sorted rows
  -- the page before row `k * limit` ends at row `m`
  obtain ⟨m, hm⟩ : ∃ m, k * limit = m + 1 := ⟨k * limit - 1, by omega⟩
  obtain ⟨k, rfl⟩ : ∃ j, k = j + 1 := ⟨k - 1, by cases k <;> simp at hm ⊢⟩
  have hlimit : 0 < limit := Nat.pos_of_ne_zero fun h => by simp [h] at hm
  have hcount := List.countP_le_length (p := fun y => decide (key y ≤ key x)) (l := rows)
  have hlength := hp.length_eq
  have hlt : m + 1 < (first.run rows).length := by omega
  have hle : m < (first.run rows).length := Nat.lt_of_succ_lt hlt
  rw [hm, ← hp.countP_eq] at hlow hhigh
  have hx : key (first.run rows)[m] = key x := le_antisymm
    ((getElem_le_iff hs hle _).mpr (by omega))
    (not_lt.mp ((getElem_lt_iff hs hle _).not.mpr (by omega)))
  have hx' : key (first.run rows)[m + 1] = key x := le_antisymm
    ((getElem_le_iff hs hlt _).mpr (by omega))
    (not_lt.mp ((getElem_lt_iff hs hlt _).not.mpr (by omega)))
  have hsplit : first.run rows = (first.run rows).take m ++
      (first.run rows)[m] :: (first.run rows)[m + 1] :: (first.run rows).drop (m + 2) := by
    rw [← List.drop_eq_getElem_cons hlt, ← List.drop_eq_getElem_cons hle, List.take_append_drop]
  have hswap := swap_sorted (hx.trans hx'.symm) (hsplit ▸ hs)
  have hswapped : ((first.run rows).take m ++ (first.run rows)[m + 1] :: (first.run rows)[m] ::
      (first.run rows).drop (m + 2)).Perm rows :=
    ((List.Perm.swap ..).append_left _).trans (hsplit ▸ hp)
  obtain ⟨second, hsecond⟩ := exists_order hswapped hswap
  refine ⟨fun i => if i ≤ k then first else second, k, (first.run rows)[m], ?_, ?_, ?_⟩ <;>
    beta_reduce
  · exact Nat.lt_succ_of_le ((Nat.le_div_iff_mul_le hlimit).mpr (by omega))
  · rw [if_pos le_rfl]
    exact mem_page (List.getElem?_eq_getElem hle) (by rw [Nat.succ_mul] at hm; omega) (by omega)
  · rw [if_neg (Nat.not_succ_le_self k)]
    have hlast : (second.run rows)[m + 1]? = some (first.run rows)[m] := by
      have hbefore : ((first.run rows).take m).length = m := by simp; omega
      rw [hsecond, List.getElem?_append_right (by omega), hbefore]
      simp
    exact mem_page hlast (by omega) (by rw [Nat.succ_mul]; omega)

/-- The pages list every row once, whatever the orders, exactly if none is cut. -/
theorem listed_iff (hl : 0 < limit) {f : α → β} (hn : (rows.map f).Nodup) :
    (∀ orders : Nat → ByKey key, ((listed orders limit rows).map f).Perm (rows.map f)) ↔
      Uncut key limit rows := by
  constructor
  · intro hall
    by_contra hcut
    obtain ⟨orders, k, a, hk, ha, ha'⟩ := exists_repeated hcut
    have hnodup := (hall orders).nodup_iff.mpr hn
    rw [listed, List.map_flatMap, List.nodup_flatMap] at hnodup
    have hdisjoint := List.pairwise_iff_getElem.mp hnodup.2 k (k + 1) (by simp; omega)
      (by simpa using hk) (Nat.lt_succ_self k)
    simp only [List.getElem_range, Function.onFun] at hdisjoint
    exact hdisjoint (List.mem_map_of_mem ha) (List.mem_map_of_mem ha')
  · intro hu orders
    exact (listed_perm hl hu orders).map f

theorem countP_le (c : κ) : rows.countP (fun y => key y ≤ c) =
    rows.countP (fun y => key y < c) + (rows.map key).count c := by
  induction rows with
  | nil => rfl
  | cons x rows ih =>
    simp only [List.countP_cons, List.map_cons, List.count_cons, ih]
    rcases lt_trichotomy (key x) c with h | h | h
    · simp [h, h.le, h.ne]
      omega
    · simp [h]
      omega
    · simp [h.not_ge, h.not_gt, h.ne']

theorem uncut_of_nodup (hn : (rows.map key).Nodup) : Uncut key limit rows := by
  intro x hx k
  have hone := List.nodup_iff_count_le_one.mp hn (key x)
  have hle := (countP_le (key x) : rows.countP (fun y => key y ≤ key x) = _)
  omega

end

end SafrochainIndexer.Offsets
