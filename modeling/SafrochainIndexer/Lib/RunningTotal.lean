import SafrochainIndexer.Lib.Table
import Mathlib.Algebra.BigOperators.Group.List.Lemmas
import Mathlib.Algebra.Order.BigOperators.Group.List

/-!
# Running totals

Entries with stamps have a total, and up to each stamp a running total. To add
up the running totals counts an entry once for itself and once more for every
later entry, so it gives the total only if all entries but the last are zero
(`sum_upTo_eq_iff`).
-/

namespace SafrochainIndexer.RunningTotal

variable {α τ M : Type} [LinearOrder τ] [AddCommMonoid M]

def total (value : α → M) (entries : List α) : M := (entries.map value).sum

def upTo (stamp : α → τ) (value : α → M) (entries : List α) (x : τ) : M :=
  total value (entries.filter fun e => stamp e ≤ x)

def before (stamp : α → τ) (value : α → M) (entries : List α) (x : τ) : M :=
  total value (entries.filter fun e => stamp e < x)

variable {stamp : α → τ} {value : α → M} {entries : List α}

theorem upTo_stamp (hn : (entries.map stamp).Nodup) {e : α} (he : e ∈ entries) :
    upTo stamp value entries (stamp e) = before stamp value entries (stamp e) + value e := by
  have hbefore : (entries.filter fun d => stamp d ≤ stamp e).filter (fun d => stamp d < stamp e) =
      entries.filter fun d => stamp d < stamp e := by
    rw [List.filter_filter]
    refine List.filter_congr fun d _ => ?_
    rw [← Bool.decide_and]
    exact decide_eq_decide.mpr ⟨fun h => h.1, fun h => ⟨h, h.le⟩⟩
  have hsame : (entries.filter fun d => stamp d ≤ stamp e).filter (fun d => !decide (stamp d < stamp e)) =
      [e] := by
    rw [List.filter_filter, ← Table.filter_key_eq_singleton hn he]
    refine List.filter_congr fun d _ => ?_
    rw [← decide_not, ← Bool.decide_and]
    exact decide_eq_decide.mpr ⟨fun h => h.2.antisymm (not_lt.mp h.1), fun h => ⟨h.not_lt, h.le⟩⟩
  have hperm := List.filter_append_perm (fun d => decide (stamp d < stamp e))
    (entries.filter fun d => stamp d ≤ stamp e)
  rw [hbefore, hsame] at hperm
  rw [upTo, total, ← (hperm.map value).sum_eq, List.map_append, List.sum_append]
  simp [before, total]

/-- The running totals at all entries. -/
theorem sum_upTo (hn : (entries.map stamp).Nodup) :
    total (fun e => upTo stamp value entries (stamp e)) entries =
      total (fun e => before stamp value entries (stamp e)) entries + total value entries := by
  unfold total
  rw [← List.sum_map_add]
  exact congrArg List.sum (List.map_congr_left fun e he => upTo_stamp hn he)

section
variable {M : Type} [AddCommGroup M] [LinearOrder M] [IsOrderedAddMonoid M] {value : α → M}

theorem total_eq_zero_iff (hpos : ∀ e ∈ entries, 0 ≤ value e) :
    total value entries = 0 ↔ ∀ e ∈ entries, value e = 0 := by
  have hmap : ∀ x ∈ entries.map value, 0 ≤ x := List.forall_mem_map.mpr hpos
  constructor
  · intro hzero e he
    exact List.all_zero_of_le_zero_le_of_sum_eq_zero hmap hzero (List.mem_map_of_mem he)
  · intro hall
    exact List.sum_eq_zero (List.forall_mem_map.mpr hall)

theorem before_nonneg (hpos : ∀ e ∈ entries, 0 ≤ value e) (x : τ) :
    0 ≤ before stamp value entries x :=
  List.sum_nonneg (List.forall_mem_map.mpr fun e he => hpos e (List.mem_of_mem_filter he))

/-- The running totals add up to the total exactly if no entry but the last has
a value. -/
theorem sum_upTo_eq_iff (hn : (entries.map stamp).Nodup) (hpos : ∀ e ∈ entries, 0 ≤ value e) :
    total (fun e => upTo stamp value entries (stamp e)) entries = total value entries ↔
      ∀ d ∈ entries, ∀ e ∈ entries, stamp d < stamp e → value d = 0 := by
  rw [sum_upTo hn, add_eq_right, total_eq_zero_iff fun e _ => before_nonneg hpos _]
  have hbefore : ∀ e, before stamp value entries (stamp e) = 0 ↔
      ∀ d ∈ entries, stamp d < stamp e → value d = 0 := by
    intro e
    unfold before
    rw [total_eq_zero_iff fun d hd => hpos d (List.mem_of_mem_filter hd)]
    simp only [List.mem_filter, decide_eq_true_eq, and_imp]
  simp only [hbefore]
  constructor
  · intro h d hd e he hlt
    exact h e he d hd hlt
  · intro h e he d hd hlt
    exact h d hd e he hlt

end

end SafrochainIndexer.RunningTotal
