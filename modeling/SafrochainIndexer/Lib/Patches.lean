import SafrochainIndexer.Lib.Register

/-!
# Partial updates under one stamp

A field of a record that is updated in parts. A patch may set the field or leave
it; the stamp belongs to the whole record, and a patch below it is dropped, with
the field it may set. So the field holds what the highest of the patches says that
come before any higher one (`field_eq_iff`), which is what the highest patch says
only if that one is `InTime` or says the same (`merged_iff`).
-/

namespace SafrochainIndexer.Patches

variable {τ V : Type} [LinearOrder τ]

structure Patch (τ V : Type) where
  stamp : τ
  sets : Option V
  deriving DecidableEq, Repr

/-- What the field holds after a patch, with the stamp of the record. A new record
has the default where the patch sets nothing. -/
def apply (default : V) (held : Option (τ × V)) (p : Patch τ V) : τ × V :=
  Register.offer Prod.fst held (p.stamp, p.sets.getD ((held.map Prod.snd).getD default))

def run (default : V) (ps : List (Patch τ V)) : Option (τ × V) :=
  ps.foldl (fun held p => some (apply default held p)) none

def field (default : V) (ps : List (Patch τ V)) : Option V := (run default ps).map Prod.snd

/-- It comes before any higher patch. -/
def InTime (ps : List (Patch τ V)) (p : Patch τ V) : Prop :=
  ∃ before after, ps = before ++ p :: after ∧ ∀ q ∈ before, q.stamp ≤ p.stamp

/-- The highest of these patches that set the field says `v`. -/
def HighestSays (ps : List (Patch τ V)) (among : Patch τ V → Prop) (v : V) : Prop :=
  ∃ p ∈ ps, among p ∧ p.sets = some v ∧ ∀ q ∈ ps, among q → q.sets ≠ none → q.stamp ≤ p.stamp

/-- What the patches in time leave of the field. -/
def Kept (default : V) (ps : List (Patch τ V)) (v : V) : Prop :=
  HighestSays ps (InTime ps) v ∨
    ps ≠ [] ∧ (∀ p ∈ ps, InTime ps p → p.sets = none) ∧ v = default

/-- The field holds what the highest patch says that sets it. -/
def Merged (ps : List (Patch τ V)) (held : Option V) : Prop :=
  ∀ v, HighestSays ps (fun _ => True) v → held = some v

/-- What the highest of all patches says is what `counted`, the patches that take
part, keep in time. -/
def KeptInTime (default : V) (ps counted : List (Patch τ V)) : Prop :=
  ∀ v, HighestSays ps (fun _ => True) v → Kept default counted v

-- ---------------------------------------------------------------------------
-- One more patch
-- ---------------------------------------------------------------------------

theorem run_append (default : V) (ps : List (Patch τ V)) (p : Patch τ V) :
    run default (ps ++ [p]) = some (apply default (run default ps) p) := by
  simp [run, List.foldl_append]

theorem run_isNone (default : V) (ps : List (Patch τ V)) : (run default ps).isNone = ps.isEmpty := by
  cases ps using List.reverseRecOn with
  | nil => rfl
  | append_singleton ps p => simp [run_append]

theorem map_offer {ρ : Type} {stamp : ρ → τ} {f : ρ → V} {default : V} {old : Option ρ} {w : ρ}
    {p : Patch τ V} (hstamp : stamp w = p.stamp)
    (hf : f w = p.sets.getD ((old.map f).getD default)) :
    (some (Register.offer stamp old w)).map (fun r => (stamp r, f r)) =
      some (apply default (old.map fun r => (stamp r, f r)) p) := by
  rw [Option.map_some, apply, Option.map_map, Function.comp_def, ← hf, ← hstamp]
  cases old with
  | none => rfl
  | some o =>
    simp only [Register.offer_some, Option.map_some]
    split <;> rfl

theorem inTime_append {ps : List (Patch τ V)} {p q : Patch τ V} (hp : p ∉ ps) :
    InTime (ps ++ [p]) q ↔ InTime ps q ∨ q = p ∧ ∀ r ∈ ps, r.stamp ≤ p.stamp := by
  constructor
  · rintro ⟨before, after, heq, hbefore⟩
    cases after using List.reverseRecOn with
    | nil =>
      obtain ⟨rfl, hlast⟩ := List.append_inj' heq rfl
      obtain rfl := List.singleton_inj.mp hlast
      exact .inr ⟨rfl, hbefore⟩
    | append_singleton after last =>
      rw [← List.cons_append, ← List.append_assoc] at heq
      obtain ⟨rfl, -⟩ := List.append_inj' heq rfl
      exact .inl ⟨before, after, rfl, hbefore⟩
  · rintro (⟨before, after, rfl, hbefore⟩ | ⟨rfl, hall⟩)
    · exact ⟨before, after ++ [p], by simp, hbefore⟩
    · exact ⟨ps, [], rfl, hall⟩

theorem Kept.append {default v : V} {ps : List (Patch τ V)} {p : Patch τ V} (hp : p ∉ ps)
    (hskip : InTime (ps ++ [p]) p → p.sets = none) (h : Kept default ps v) :
    Kept default (ps ++ [p]) v := by
  have hback : ∀ q ∈ ps ++ [p], InTime (ps ++ [p]) q → q.sets ≠ none → q ∈ ps ∧ InTime ps q := by
    intro q hq hin hsets
    rcases List.mem_append.mp hq with hold | hlast
    · refine ⟨hold, ?_⟩
      rcases (inTime_append hp).mp hin with hin' | ⟨rfl, -⟩
      · exact hin'
      · exact absurd hold hp
    · obtain rfl := List.mem_singleton.mp hlast
      exact absurd (hskip hin) hsets
  rcases h with ⟨q, hq, hin, hsets, hhighest⟩ | ⟨hne, hnone, hv⟩
  · refine .inl ⟨q, List.mem_append_left _ hq, (inTime_append hp).mpr (.inl hin), hsets, ?_⟩
    intro r hr hinr hsetr
    obtain ⟨hold, hin'⟩ := hback r hr hinr hsetr
    exact hhighest r hold hin' hsetr
  · refine .inr ⟨by simp, fun q hq hin => ?_, hv⟩
    by_contra hsets
    obtain ⟨hold, hin'⟩ := hback q hq hin hsets
    exact hsets (hnone q hold hin')

theorem kept_of_top {default v : V} {ps : List (Patch τ V)} {p : Patch τ V} (hsets : p.sets = some v)
    (hle : ∀ q ∈ ps, q.stamp ≤ p.stamp) : Kept default (ps ++ [p]) v := by
  refine .inl ⟨p, by simp, ⟨ps, [], rfl, hle⟩, hsets, fun q hq _ _ => ?_⟩
  rcases List.mem_append.mp hq with hold | hlast
  · exact hle q hold
  · rw [List.mem_singleton.mp hlast]

/-- The record has the highest stamp, and the field what the patches in time leave. -/
theorem run_kept (default : V) {ps : List (Patch τ V)} (hn : (ps.map Patch.stamp).Nodup)
    (hne : ps ≠ []) : ∃ t v, run default ps = some (t, v) ∧ (∃ p ∈ ps, p.stamp = t) ∧
      (∀ p ∈ ps, p.stamp ≤ t) ∧ Kept default ps v := by
  induction ps using List.reverseRecOn with
  | nil => exact absurd rfl hne
  | append_singleton ps p ih =>
    rw [List.map_append, List.map_singleton, List.nodup_append] at hn
    obtain ⟨hold, -, hdisjoint⟩ := hn
    have hp : p ∉ ps := fun hp =>
      hdisjoint _ (List.mem_map_of_mem hp) _ (List.mem_singleton_self _) rfl
    by_cases hfirst : ps = []
    · subst hfirst
      refine ⟨p.stamp, p.sets.getD default, rfl, by simp, by simp, ?_⟩
      cases hsets : p.sets with
      | none => exact .inr ⟨by simp, by simp [hsets], rfl⟩
      | some v => exact kept_of_top hsets (by simp)
    · obtain ⟨t, v, hrun, ⟨top, htop, rfl⟩, hle, hkept⟩ := ih hold hfirst
      by_cases habove : top.stamp ≤ p.stamp
      · have hall : ∀ q ∈ ps, q.stamp ≤ p.stamp := fun q hq => (hle q hq).trans habove
        refine ⟨p.stamp, p.sets.getD v, by simp [run_append, hrun, apply, habove], ⟨p, by simp, rfl⟩,
          List.forall_mem_append.mpr ⟨hall, by simp⟩, ?_⟩
        cases hsets : p.sets with
        | none => exact hkept.append hp fun _ => hsets
        | some w => exact kept_of_top hsets hall
      · refine ⟨top.stamp, v, by simp [run_append, hrun, apply, habove], ⟨top, by simp [htop], rfl⟩,
          List.forall_mem_append.mpr ⟨hle, by simp [(not_le.mp habove).le]⟩, ?_⟩
        refine hkept.append hp fun hin => ?_
        rcases (inTime_append hp).mp hin with ⟨before, after, rfl, -⟩ | ⟨-, hall⟩
        · exact absurd (by simp) hp
        · exact absurd (hall top htop) habove

-- ---------------------------------------------------------------------------
-- What the field holds
-- ---------------------------------------------------------------------------

theorem HighestSays.unique {ps : List (Patch τ V)} (hn : (ps.map Patch.stamp).Nodup)
    {among : Patch τ V → Prop} {v w : V} (hv : HighestSays ps among v)
    (hw : HighestSays ps among w) : v = w := by
  obtain ⟨p, hp, hpa, hpv, hpmax⟩ := hv
  obtain ⟨q, hq, hqa, hqw, hqmax⟩ := hw
  have hstamp : p.stamp = q.stamp :=
    (hqmax p hp hpa (by simp [hpv])).antisymm (hpmax q hq hqa (by simp [hqw]))
  obtain rfl := List.inj_on_of_nodup_map hn hp hq hstamp
  exact Option.some.inj (hpv.symm.trans hqw)

theorem Kept.unique {default v w : V} {ps : List (Patch τ V)} (hn : (ps.map Patch.stamp).Nodup)
    (hv : Kept default ps v) (hw : Kept default ps w) : v = w := by
  rcases hv with hv | ⟨-, hnone, rfl⟩ <;> rcases hw with hw | ⟨-, hnone', rfl⟩
  · exact hv.unique hn hw
  · obtain ⟨p, hp, hin, hsets, -⟩ := hv
    rw [hnone' p hp hin] at hsets
    cases hsets
  · obtain ⟨p, hp, hin, hsets, -⟩ := hw
    rw [hnone p hp hin] at hsets
    cases hsets
  · rfl

theorem Kept.ne_nil {default v : V} {ps : List (Patch τ V)} (h : Kept default ps v) : ps ≠ [] := by
  rcases h with ⟨p, hp, -⟩ | ⟨hne, -⟩
  · exact List.ne_nil_of_mem hp
  · exact hne

theorem field_eq_iff {default v : V} {ps : List (Patch τ V)} (hn : (ps.map Patch.stamp).Nodup) :
    field default ps = some v ↔ Kept default ps v := by
  by_cases hne : ps = []
  · subst hne
    exact iff_of_false (by simp [field, run]) fun h => h.ne_nil rfl
  · obtain ⟨t, w, hrun, -, -, hkept⟩ := run_kept default hn hne
    rw [field, hrun, Option.map_some, Option.some_inj]
    constructor
    · rintro rfl
      exact hkept
    · exact fun h => hkept.unique hn h

theorem field_of_run {ρ : Type} {stamp : ρ → τ} {f : ρ → V} {default : V} {stored : Option ρ}
    {ps : List (Patch τ V)} (h : stored.map (fun r => (stamp r, f r)) = run default ps) :
    stored.map f = field default ps := by
  rw [field, ← h, Option.map_map]
  rfl

/-- The field is merged exactly if what the highest patch says is kept in time. -/
theorem merged_iff (default : V) (ps counted : List (Patch τ V))
    (hn : (counted.map Patch.stamp).Nodup) :
    Merged ps (field default counted) ↔ KeptInTime default ps counted :=
  forall_congr' fun _ => imp_congr_right fun _ => field_eq_iff hn

theorem keptInTime_of_ascending {default : V} {ps : List (Patch τ V)}
    (hs : ps.Pairwise fun p q => p.stamp ≤ q.stamp) : KeptInTime default ps ps := by
  have hin : ∀ p ∈ ps, InTime ps p := by
    intro p hp
    obtain ⟨before, after, rfl⟩ := List.append_of_mem hp
    exact ⟨before, after, rfl, fun q hq => (List.pairwise_append.mp hs).2.2 q hq p (by simp)⟩
  rintro v ⟨p, hp, -, hsets, hhighest⟩
  exact .inl ⟨p, hp, hin p hp, hsets, fun q hq _ => hhighest q hq trivial⟩

end SafrochainIndexer.Patches
