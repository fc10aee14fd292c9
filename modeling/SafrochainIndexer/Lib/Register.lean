import Mathlib.Data.List.Induction
import Mathlib.Data.List.Nodup
import Mathlib.Data.List.Perm.Basic
import Mathlib.Order.MinMax

/-!
# Stamped registers

A register holds at most one record and takes a new one only if its stamp is
not below the stamp of the one it holds. Fed any list of records it holds the
`Newest` of them, so for distinct stamps the order of the list does not
matter.

With removals that is no longer so: an empty register remembers nothing.
`run_eq_iff_covered` says which orders still end as the increasing one does.
-/

namespace SafrochainIndexer.Register

variable {ρ τ : Type} [LinearOrder τ] (stamp : ρ → τ)

/-- The record held after `r` is offered. -/
def offer (held : Option ρ) (r : ρ) : ρ :=
  match held with
  | none => r
  | some o => if stamp o ≤ stamp r then r else o

/-- The register after the records of `rs` are offered in this order. -/
def hold (held : Option ρ) (rs : List ρ) : Option ρ :=
  rs.foldl (fun o r => some (offer stamp o r)) held

/-- `r` has the largest stamp in `rs`, and is the last with that stamp. -/
def Newest (rs : List ρ) (r : ρ) : Prop :=
  ∃ before after, rs = before ++ r :: after ∧
    (∀ x ∈ before, stamp x ≤ stamp r) ∧ ∀ x ∈ after, stamp x < stamp r

-- ---------------------------------------------------------------------------
-- Records only
-- ---------------------------------------------------------------------------

@[simp] theorem offer_none (r : ρ) : offer stamp none r = r := rfl

@[simp] theorem offer_some (o r : ρ) :
    offer stamp (some o) r = if stamp o ≤ stamp r then r else o := rfl

theorem offer_eq_or (held : Option ρ) (r : ρ) : held = some (offer stamp held r) ∨ offer stamp held r = r := by
  cases held with
  | none => exact .inr rfl
  | some o =>
    rw [offer_some]
    split
    · exact .inr rfl
    · exact .inl rfl

theorem stamp_offer (o r : ρ) : stamp (offer stamp (some o) r) = max (stamp o) (stamp r) := by
  rw [offer_some]
  split
  · rename_i h
    exact (max_eq_right h).symm
  · rename_i h
    exact (max_eq_left (le_of_not_ge h)).symm

theorem hold_some (o : ρ) (rs : List ρ) : hold stamp (some o) rs = hold stamp none (o :: rs) := rfl

theorem hold_append (held : Option ρ) (rs rs' : List ρ) :
    hold stamp held (rs ++ rs') = hold stamp (hold stamp held rs) rs' := by
  simp [hold, List.foldl_append]

variable {stamp}

theorem Newest.mem {rs : List ρ} {r : ρ} (h : Newest stamp rs r) : r ∈ rs := by
  obtain ⟨before, after, rfl, -, -⟩ := h
  simp

theorem Newest.le {rs : List ρ} {r : ρ} (h : Newest stamp rs r) : ∀ x ∈ rs, stamp x ≤ stamp r := by
  obtain ⟨before, after, rfl, hb, ha⟩ := h
  intro x hx
  rcases List.mem_append.mp hx with hx | hx
  · exact hb x hx
  · rcases List.mem_cons.mp hx with rfl | hx
    · exact le_refl _
    · exact le_of_lt (ha x hx)

theorem hold_of_lt {o : ρ} {rs : List ρ} (h : ∀ x ∈ rs, stamp x < stamp o) :
    hold stamp (some o) rs = some o := by
  induction rs with
  | nil => rfl
  | cons x xs ih =>
    have hx : offer stamp (some o) x = o := by simp [offer, not_le_of_gt (h x (by simp))]
    rw [hold, List.foldl_cons, hx]
    exact ih fun y hy => h y (List.mem_cons_of_mem _ hy)

theorem exists_hold (held : Option ρ) {rs : List ρ} (h : rs ≠ []) :
    ∃ r, hold stamp held rs = some r := by
  induction rs generalizing held with
  | nil => exact absurd rfl h
  | cons x xs ih =>
    by_cases hx : xs = []
    · subst hx
      exact ⟨_, rfl⟩
    · exact ih (some (offer stamp held x)) hx

theorem newest_of_hold {rs : List ρ} {r : ρ} (h : hold stamp none rs = some r) :
    Newest stamp rs r := by
  -- the record offered last decides, so the induction takes it off the end
  induction rs using List.reverseRecOn generalizing r with
  | nil => simp [hold] at h
  | append_singleton xs x ih =>
    rw [hold_append] at h
    cases hx : hold stamp none xs with
    | none =>
      have hnil : xs = [] := by
        by_contra hne
        obtain ⟨y, hy⟩ := @exists_hold _ _ _ stamp none _ hne
        rw [hx] at hy
        cases hy
      subst hnil
      have : x = r := by simpa [hold] using h
      subst this
      exact ⟨[], [], rfl, by simp, by simp⟩
    | some o =>
      have ho := ih hx
      rw [hx] at h
      simp only [hold, List.foldl_cons, List.foldl_nil, offer, Option.some.injEq] at h
      split at h
      · rename_i hle
        subst h
        exact ⟨xs, [], rfl, fun y hy => (ho.le y hy).trans hle, by simp⟩
      · rename_i hlt
        subst h
        obtain ⟨before, after, rfl, hb, ha⟩ := ho
        refine ⟨before, after ++ [x], by simp, hb, fun y hy => ?_⟩
        rcases List.mem_append.mp hy with hy | hy
        · exact ha y hy
        · rw [List.mem_singleton.mp hy]
          exact not_le.mp hlt

theorem hold_of_newest {rs : List ρ} {r : ρ} (h : Newest stamp rs r) :
    hold stamp none rs = some r := by
  obtain ⟨before, after, rfl, hb, ha⟩ := h
  rw [hold_append]
  have hr : offer stamp (hold stamp none before) r = r := by
    cases hx : hold stamp none before with
    | none => rfl
    | some o => simp [offer, hb o (newest_of_hold hx).mem]
  rw [hold, List.foldl_cons, hr]
  exact hold_of_lt ha

theorem hold_eq_some_iff {rs : List ρ} {r : ρ} : hold stamp none rs = some r ↔ Newest stamp rs r :=
  ⟨newest_of_hold, hold_of_newest⟩

theorem mem_of_hold {held : Option ρ} {rs : List ρ} {r : ρ} (h : hold stamp held rs = some r) :
    held = some r ∨ r ∈ rs := by
  cases held with
  | none => exact .inr (newest_of_hold h).mem
  | some o =>
    rw [hold_some] at h
    rcases List.mem_cons.mp (newest_of_hold h).mem with rfl | hr
    · exact .inl rfl
    · exact .inr hr

theorem hold_of_all_eq {held : Option ρ} {rs : List ρ} {r : ρ} (hne : rs ≠ [])
    (hall : ∀ x ∈ rs, x = r) (hheld : ∀ o ∈ held, stamp o ≤ stamp r) :
    hold stamp held rs = some r := by
  induction rs generalizing held with
  | nil => exact absurd rfl hne
  | cons x xs ih =>
    obtain rfl := hall x (by simp)
    have hoffer : offer stamp held x = x := by
      cases held with
      | none => rfl
      | some o => simp [hheld o rfl]
    change hold stamp (some (offer stamp held x)) xs = some x
    rw [hoffer]
    by_cases hxs : xs = []
    · subst hxs
      rfl
    · refine ih hxs (fun y hy => hall y (List.mem_cons_of_mem _ hy)) fun o ho => ?_
      obtain rfl := Option.mem_some_iff.mp ho
      exact le_rfl

theorem hold_of_sorted {rs : List ρ} (hs : rs.Pairwise fun a b => stamp a ≤ stamp b) :
    hold stamp none rs = rs.getLast? := by
  cases rs using List.reverseRecOn with
  | nil => rfl
  | append_singleton xs x =>
    have hlast := (List.pairwise_append.mp hs).2.2
    simpa using hold_eq_some_iff.mpr ⟨xs, [], rfl, fun y hy => hlast y hy x (by simp), by simp⟩

theorem newest_iff_of_nodup {rs : List ρ} {r : ρ} (hn : (rs.map stamp).Nodup) :
    Newest stamp rs r ↔ r ∈ rs ∧ ∀ x ∈ rs, stamp x ≤ stamp r := by
  constructor
  · exact fun h => ⟨h.mem, h.le⟩
  · rintro ⟨hr, hle⟩
    obtain ⟨before, after, rfl⟩ := List.append_of_mem hr
    refine ⟨before, after, rfl, fun x hx => hle x (by simp [hx]), fun x hx => ?_⟩
    refine lt_of_le_of_ne (hle x (by simp [hx])) fun he => ?_
    rw [List.map_append, List.map_cons] at hn
    have hn' := (List.nodup_cons.mp (List.nodup_append.mp hn).2.1).1
    exact hn' (he ▸ List.mem_map.mpr ⟨x, hx, rfl⟩)

/-- For distinct stamps the order of the records does not matter. -/
theorem hold_perm {rs rs' : List ρ} (hn : (rs.map stamp).Nodup) (hp : rs.Perm rs') :
    hold stamp none rs = hold stamp none rs' := by
  have hn' : (rs'.map stamp).Nodup := (hp.map stamp).nodup_iff.mp hn
  refine Option.ext fun r => ?_
  rw [hold_eq_some_iff, hold_eq_some_iff, newest_iff_of_nodup hn, newest_iff_of_nodup hn',
    hp.mem_iff]
  simp only [hp.mem_iff]

-- ---------------------------------------------------------------------------
-- Records and removals
-- ---------------------------------------------------------------------------

variable (stamp)

inductive Op (ρ τ : Type)
  | save (r : ρ)
  | remove (upTo : τ)

def Op.stampOf : Op ρ τ → τ
  | .save r => stamp r
  | .remove upTo => upTo

def apply (held : Option ρ) : Op ρ τ → Option ρ
  | .save r => some (offer stamp held r)
  | .remove upTo => held.filter fun r => !decide (stamp r ≤ upTo)

def run (held : Option ρ) (ops : List (Op ρ τ)) : Option ρ := ops.foldl (apply stamp) held

/-- Every save is followed by a removal that reaches its record. -/
def Covered (ops : List (Op ρ τ)) : Prop :=
  ∀ before r after, ops = before ++ .save r :: after → ∃ h, .remove h ∈ after ∧ stamp r ≤ h

/-- The operation with the largest stamp is a removal, and it reaches the
record held at the start. -/
def EndsRemoved (held : Option ρ) (ops : List (Op ρ τ)) : Prop :=
  ∃ h, .remove h ∈ ops ∧ (∀ op ∈ ops, op.stampOf stamp ≤ h) ∧ ∀ r, held = some r → stamp r ≤ h

variable {stamp}

theorem covered_cons_save {r : ρ} {ops : List (Op ρ τ)} :
    Covered stamp (.save r :: ops) ↔ (∃ h, .remove h ∈ ops ∧ stamp r ≤ h) ∧ Covered stamp ops := by
  constructor
  · intro hc
    exact ⟨hc [] r ops rfl, fun before x after he => hc (.save r :: before) x after (by rw [he]; rfl)⟩
  · rintro ⟨hr, hc⟩ before x after he
    cases before with
    | nil =>
      cases he
      exact hr
    | cons op before =>
      cases he
      exact hc before x after rfl

theorem covered_cons_remove {h : τ} {ops : List (Op ρ τ)} :
    Covered stamp (.remove h :: ops) ↔ Covered stamp ops := by
  constructor
  · exact fun hc before x after he => hc (.remove h :: before) x after (by rw [he]; rfl)
  · intro hc before x after he
    cases before with
    | nil => cases he
    | cons op before =>
      cases he
      exact hc before x after rfl

theorem reached_save_iff {held : Option ρ} {x : ρ} {ops : List (Op ρ τ)} :
    (∀ r, apply stamp held (.save x) = some r → ∃ h, .remove h ∈ ops ∧ stamp r ≤ h) ↔
      (∀ r, held = some r → ∃ h, .remove h ∈ Op.save x :: ops ∧ stamp r ≤ h) ∧
        ∃ h, .remove h ∈ ops ∧ stamp x ≤ h := by
  simp only [apply, Option.some.injEq, forall_eq', List.mem_cons, reduceCtorEq, false_or]
  cases held with
  | none => simp
  | some o =>
    simp only [stamp_offer, Option.some.injEq, forall_eq', max_le_iff]
    constructor
    · rintro ⟨h, hm, ho, hx⟩
      exact ⟨⟨h, hm, ho⟩, h, hm, hx⟩
    · rintro ⟨⟨h, hm, ho⟩, h', hm', hx⟩
      rcases le_total h h' with hl | hl
      · exact ⟨h', hm', ho.trans hl, hx⟩
      · exact ⟨h, hm, ho, hx.trans hl⟩

theorem reached_remove_iff {held : Option ρ} {u : τ} {ops : List (Op ρ τ)} :
    (∀ r, apply stamp held (.remove u) = some r → ∃ h, .remove h ∈ ops ∧ stamp r ≤ h) ↔
      ∀ r, held = some r → ∃ h, .remove h ∈ Op.remove u :: ops ∧ stamp r ≤ h := by
  cases held with
  | none => simp [apply]
  | some o =>
    by_cases hu : stamp o ≤ u
    · simp only [apply, Option.filter, hu, decide_true, Bool.not_true, Bool.false_eq_true,
        if_false, reduceCtorEq, false_implies, implies_true, Option.some.injEq, forall_eq',
        true_iff]
      exact ⟨u, by simp, hu⟩
    · simp only [apply, Option.filter, hu, decide_false, Bool.not_false, if_true,
        Option.some.injEq, forall_eq', List.mem_cons, Op.remove.injEq]
      constructor
      · rintro ⟨h, hm, ho⟩
        exact ⟨h, .inr hm, ho⟩
      · rintro ⟨h, rfl | hm, ho⟩
        · exact absurd ho hu
        · exact ⟨h, hm, ho⟩

/-- A run ends empty exactly if the record held at the start and every record
saved on the way is reached by a removal that comes later. -/
theorem run_eq_none_iff {held : Option ρ} {ops : List (Op ρ τ)} :
    run stamp held ops = none ↔
      (∀ r, held = some r → ∃ h, .remove h ∈ ops ∧ stamp r ≤ h) ∧ Covered stamp ops := by
  induction ops generalizing held with
  | nil =>
    cases held with
    | none => simp [run, Covered]
    | some o => simp [run]
  | cons op ops ih =>
    cases op with
    | save x =>
      rw [run, List.foldl_cons, ← run, ih, covered_cons_save, ← and_assoc, reached_save_iff]
    | remove u =>
      rw [run, List.foldl_cons, ← run, ih, covered_cons_remove, reached_remove_iff]

theorem run_of_lt {o : ρ} {ops : List (Op ρ τ)} (h : ∀ op ∈ ops, op.stampOf stamp < stamp o) :
    run stamp (some o) ops = some o := by
  induction ops with
  | nil => rfl
  | cons op ops ih =>
    have hop := h op (by simp)
    have hstep : apply stamp (some o) op = some o := by
      cases op with
      | save x => simp [apply, offer, not_le_of_gt (show stamp x < stamp o from hop)]
      | remove u => simp [apply, Option.filter, not_le_of_gt (show u < stamp o from hop)]
    rw [run, List.foldl_cons, hstep]
    exact ih fun op' hm => h op' (List.mem_cons_of_mem _ hm)

theorem run_source {held : Option ρ} {ops : List (Op ρ τ)} {r : ρ}
    (h : run stamp held ops = some r) : held = some r ∨ .save r ∈ ops := by
  induction ops generalizing held with
  | nil => exact .inl h
  | cons op ops ih =>
    rw [run, List.foldl_cons] at h
    rcases ih h with hs | hs
    · cases op with
      | save x =>
        simp only [apply, Option.some.injEq] at hs
        cases held with
        | none =>
          subst hs
          exact .inr (by simp)
        | some o =>
          rw [offer_some] at hs
          split at hs
          · subst hs
            exact .inr (by simp)
          · exact .inl (congrArg some hs)
      | remove u =>
        simp only [apply, Option.filter_eq_some_iff] at hs
        exact .inl hs.1
    · exact .inr (List.mem_cons_of_mem _ hs)

/-- A saved record above everything else is the one held at the end. -/
theorem run_of_top {held : Option ρ} {before after : List (Op ρ τ)} {r : ρ}
    (hb : ∀ op ∈ before, op.stampOf stamp ≤ stamp r)
    (ha : ∀ op ∈ after, op.stampOf stamp < stamp r)
    (hh : ∀ o, held = some o → stamp o ≤ stamp r) :
    run stamp held (before ++ .save r :: after) = some r := by
  have hmid : apply stamp (run stamp held before) (.save r) = some r := by
    cases hx : run stamp held before with
    | none => rfl
    | some o =>
      have ho : stamp o ≤ stamp r := by
        rcases run_source hx with h | h
        · exact hh o h
        · exact hb _ h
      simp [apply, offer, ho]
  rw [run, List.foldl_append, List.foldl_cons]
  show run stamp (apply stamp (run stamp held before) (.save r)) after = some r
  rw [hmid]
  exact run_of_lt ha

theorem run_of_perm_top {held : Option ρ} {ops rest : List (Op ρ τ)} {r : ρ}
    (hp : ops.Perm (.save r :: rest)) (hrest : ∀ op ∈ rest, op.stampOf stamp < stamp r)
    (hh : ∀ o, held = some o → stamp o ≤ stamp r) : run stamp held ops = some r := by
  obtain ⟨before, after, rfl⟩ := List.append_of_mem (hp.mem_iff.mpr (List.mem_cons_self ..))
  have hperm : (before ++ after).Perm rest := List.Perm.cons_inv (List.perm_middle.symm.trans hp)
  have hbelow : ∀ op ∈ before ++ after, op.stampOf stamp < stamp r :=
    fun op hm => hrest op (hperm.mem_iff.mp hm)
  exact run_of_top (fun op hm => le_of_lt (hbelow op (List.mem_append_left _ hm)))
    (fun op hm => hbelow op (List.mem_append_right _ hm)) hh

theorem run_sorted_of_endsRemoved {held : Option ρ} {ops : List (Op ρ τ)}
    (hs : ops.Pairwise fun a b => a.stampOf stamp < b.stampOf stamp)
    (he : EndsRemoved stamp held ops) : run stamp held ops = none := by
  obtain ⟨h, hm, hle, hh⟩ := he
  refine run_eq_none_iff.mpr ⟨fun r hr => ⟨h, hm, hh r hr⟩, ?_⟩
  rintro before r after rfl
  have hr : stamp r ≤ h := hle (.save r) (by simp)
  rcases List.mem_append.mp hm with hm | hm
  · have hlt := (List.pairwise_append.mp hs).2.2 _ hm (.save r) (by simp)
    exact absurd hr (not_le_of_gt hlt)
  · rcases List.mem_cons.mp hm with he | hm
    · cases he
    · exact ⟨h, hm, hr⟩

/-- Without a removal at the top the end of a run does not depend on the order. -/
theorem run_perm_of_not_endsRemoved {held : Option ρ} {ops ops' : List (Op ρ τ)}
    (hs : ops'.Pairwise fun a b => a.stampOf stamp < b.stampOf stamp) (hp : ops.Perm ops')
    (he : ¬ EndsRemoved stamp held ops') : run stamp held ops = run stamp held ops' := by
  have hlast := List.eq_nil_or_concat ops'
  simp only [List.concat_eq_append] at hlast
  rcases hlast with rfl | ⟨init, top, rfl⟩
  · rw [hp.eq_nil]
  have hbelow : ∀ op ∈ init, op.stampOf stamp < top.stampOf stamp := fun op hm =>
    (List.pairwise_append.mp hs).2.2 op hm top (List.mem_singleton.mpr rfl)
  have hle : ∀ op ∈ init ++ [top], op.stampOf stamp ≤ top.stampOf stamp := by
    intro op hm
    rcases List.mem_append.mp hm with hm | hm
    · exact le_of_lt (hbelow op hm)
    · rw [List.mem_singleton.mp hm]
  -- either the record held at the start is above every operation, or the top one is a save
  have habove : ∀ o, held = some o → top.stampOf stamp < stamp o →
      run stamp held ops = run stamp held (init ++ [top]) := by
    rintro o rfl ho
    rw [run_of_lt fun op hm => lt_of_le_of_lt (hle op hm) ho,
      run_of_lt fun op hm => lt_of_le_of_lt (hle op (hp.mem_iff.mp hm)) ho]
  cases top with
  | remove h =>
    by_cases hh : ∀ r, held = some r → stamp r ≤ h
    · exact absurd ⟨h, by simp, hle, hh⟩ he
    · push Not at hh
      obtain ⟨o, ho, hlt⟩ := hh
      exact habove o ho hlt
  | save r =>
    by_cases hh : ∀ o, held = some o → stamp o ≤ stamp r
    · have hmoved := List.perm_append_singleton (.save r) init
      rw [run_of_perm_top (hp.trans hmoved) hbelow hh, run_of_perm_top hmoved hbelow hh]
    · push Not at hh
      obtain ⟨o, ho, hlt⟩ := hh
      exact habove o ho hlt

/-- An order of the operations ends as the increasing order does exactly if,
where the increasing order ends with a removal, every save is followed by a
removal that reaches it. -/
theorem run_eq_iff_covered {held : Option ρ} {ops ops' : List (Op ρ τ)}
    (hs : ops'.Pairwise fun a b => a.stampOf stamp < b.stampOf stamp) (hp : ops.Perm ops') :
    run stamp held ops = run stamp held ops' ↔
      (EndsRemoved stamp held ops → Covered stamp ops) := by
  have hiff : EndsRemoved stamp held ops ↔ EndsRemoved stamp held ops' := by
    unfold EndsRemoved
    simp only [hp.mem_iff]
  by_cases he : EndsRemoved stamp held ops'
  · rw [run_sorted_of_endsRemoved hs he, run_eq_none_iff]
    obtain ⟨h, hm, hle, hh⟩ := hiff.mpr he
    exact ⟨fun hr _ => hr.2, fun hr => ⟨fun r hr' => ⟨h, hm, hh r hr'⟩, hr ⟨h, hm, hle, hh⟩⟩⟩
  · exact iff_of_true (run_perm_of_not_endsRemoved hs hp he) fun h => absurd (hiff.mp h) he

end SafrochainIndexer.Register
