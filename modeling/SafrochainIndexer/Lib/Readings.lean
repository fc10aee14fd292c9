import SafrochainIndexer.Lib.Effect

/-!
# Loops that read before they act

A round of such a loop reads what it is given, and acts on each thing it has read.
The loop returns exactly if all of it can be read and the actions on what is read,
one after the other, return (`returns_forM_reads`).
-/

namespace SafrochainIndexer.Eff

variable {σ α β γ : Type} {s t : σ}

theorem returns_forM_append {g : α → Eff σ PUnit} {xs ys : List α} :
    Returns ((xs ++ ys).forM g) s ⟨⟩ t ↔
      ∃ u, Returns (xs.forM g) s ⟨⟩ u ∧ Returns (ys.forM g) u ⟨⟩ t := by
  induction xs generalizing s with
  | nil =>
    constructor
    · intro h
      exact ⟨s, returns_forM_nil.mpr rfl, h⟩
    · rintro ⟨u, hnil, h⟩
      obtain rfl := returns_forM_nil.mp hnil
      exact h
  | cons x xs ih =>
    rw [List.cons_append, returns_forM_cons]
    constructor
    · rintro ⟨u, hx, hrest⟩
      obtain ⟨w, hxs, hys⟩ := ih.mp hrest
      exact ⟨w, returns_forM_cons.mpr ⟨u, hx, hxs⟩, hys⟩
    · rintro ⟨w, hxxs, hys⟩
      obtain ⟨u, hx, hxs⟩ := returns_forM_cons.mp hxxs
      exact ⟨u, hx, ih.mpr ⟨w, hxs, hys⟩⟩

theorem mapM_cons_some {f : α → Option β} {x : α} {xs : List α} {bs : List β} :
    (x :: xs).mapM f = some bs ↔ ∃ b rest, f x = some b ∧ xs.mapM f = some rest ∧ b :: rest = bs := by
  rw [List.mapM_cons]
  cases f x with
  | none => simp
  | some b =>
    cases xs.mapM f with
    | none => simp
    | some rest => simp

/-- The call reads `bs`, or nothing, and then acts on each of them. -/
def ReadsThen (m : Eff σ PUnit) (read : Option (List β)) (act : β → Eff σ PUnit) : Prop :=
  ∀ s t, Returns m s ⟨⟩ t ↔ ∃ bs, read = some bs ∧ Returns (bs.forM act) s ⟨⟩ t

theorem returns_forM_reads {g : α → Eff σ PUnit} {f : α → Option (List β)} {act : β → Eff σ PUnit}
    (h : ∀ x, ReadsThen (g x) (f x) act) (xs : List α) :
    ReadsThen (xs.forM g) ((xs.mapM f).map List.flatten) act := by
  induction xs with
  | nil =>
    intro s t
    simp
  | cons x xs ih =>
    intro s t
    rw [returns_forM_cons]
    constructor
    · rintro ⟨u, hx, hrest⟩
      obtain ⟨first, hfirst, hact⟩ := (h x s u).mp hx
      obtain ⟨_, hread, hacts⟩ := (ih u t).mp hrest
      obtain ⟨rest, hrest, rfl⟩ := Option.map_eq_some_iff.mp hread
      refine ⟨first ++ rest.flatten, ?_, returns_forM_append.mpr ⟨u, hact, hacts⟩⟩
      rw [mapM_cons_some.mpr ⟨first, rest, hfirst, hrest, rfl⟩]
      rfl
    · rintro ⟨_, hread, hall⟩
      obtain ⟨_, hcons, rfl⟩ := Option.map_eq_some_iff.mp hread
      obtain ⟨first, rest, hfirst, hrest, rfl⟩ := mapM_cons_some.mp hcons
      obtain ⟨u, hact, hacts⟩ := returns_forM_append.mp hall
      refine ⟨u, (h x s u).mpr ⟨first, hfirst, hact⟩, (ih u t).mpr ⟨rest.flatten, ?_, hacts⟩⟩
      rw [hrest]
      rfl

theorem forM_eq_of_reads {g : α → Eff σ PUnit} {f : α → Option β} {act : β → Eff σ PUnit}
    (h : ∀ x b, f x = some b → g x = act b) {xs : List α} {bs : List β}
    (hread : xs.mapM f = some bs) : xs.forM g = bs.forM act := by
  induction xs generalizing bs with
  | nil =>
    obtain rfl : [] = bs := Option.some.inj hread
    rfl
  | cons x xs ih =>
    obtain ⟨b, rest, hb, hrest, rfl⟩ := mapM_cons_some.mp hread
    change (do g x; xs.forM g) = (do act b; rest.forM act)
    rw [h x b hb, ih hrest]

theorem returns_mapM_reads {g : α → Eff σ γ} {f : α → Option β} {made : β → γ}
    (h : ∀ x s c t, Returns (g x) s c t ↔ (f x).map made = some c ∧ s = t) {xs : List α}
    {cs : List γ} :
    Returns (xs.mapM g) s cs t ↔ (xs.mapM f).map (List.map made) = some cs ∧ s = t := by
  induction xs generalizing s t cs with
  | nil => simp
  | cons x xs ih =>
    rw [List.mapM_cons]
    constructor
    · intro hreturns
      obtain ⟨c, u, hx, hrest⟩ := returns_bind.mp hreturns
      obtain ⟨hc, rfl⟩ := (h x s c u).mp hx
      obtain ⟨_, w, hxs, hpure⟩ := returns_bind.mp hrest
      obtain ⟨hread, rfl⟩ := ih.mp hxs
      obtain ⟨rfl, rfl⟩ := returns_pure.mp hpure
      obtain ⟨b, hb, rfl⟩ := Option.map_eq_some_iff.mp hc
      obtain ⟨bs, hbs, rfl⟩ := Option.map_eq_some_iff.mp hread
      rw [mapM_cons_some.mpr ⟨b, bs, hb, hbs, rfl⟩]
      exact ⟨rfl, rfl⟩
    · rintro ⟨hread, rfl⟩
      obtain ⟨_, hcons, rfl⟩ := Option.map_eq_some_iff.mp hread
      obtain ⟨b, rest, hb, hrest, rfl⟩ := mapM_cons_some.mp hcons
      refine returns_bind.mpr ⟨made b, s, (h x s _ s).mpr ⟨by rw [hb]; rfl, rfl⟩, ?_⟩
      refine returns_bind.mpr ⟨rest.map made, s, ih.mpr ⟨by rw [hrest]; rfl, rfl⟩, ?_⟩
      exact returns_pure.mpr ⟨rfl, rfl⟩

end SafrochainIndexer.Eff
