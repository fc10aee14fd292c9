import Mathlib.Data.List.Flatten
import Mathlib.Data.List.Perm.Basic
import Mathlib.Data.List.Sort
import Mathlib.Tactic.Push

/-!
# Paging by a height cursor

A listing is served in pages of at most `limit` rows, highest first, and a
full page carries the height of its last row as the cursor of the next page,
which then starts strictly below that height. Rows of one height may come in
any order, and in another order on the next request.

A page may also merge its rows: those of one key become a single entity, and
a page that is short for that reason has no cursor.

`enumerates_iff`: following the cursors lists every row exactly once if and
only if no page ends between two rows of one height (`Unsplit`) and no page has
two rows of one key (`Apart`).
-/

namespace SafrochainIndexer.Keyset

variable {α : Type}

/-- What a store may answer to `ORDER BY` a preorder `le`: the rows, sorted,
with ties in any order. -/
structure OrderBy (le : α → α → Prop) where
  run : List α → List α
  perm : ∀ rows, (run rows).Perm rows
  sorted : ∀ rows, (run rows).Pairwise le

/-- `ORDER BY height DESC`. -/
abbrev HighestFirst (height : α → Nat) := OrderBy fun a b : α => height b ≤ height a

def HighestFirst.insertion (height : α → Nat) : HighestFirst height where
  run := List.insertionSort fun a b => height b ≤ height a
  perm := List.perm_insertionSort _
  sorted rows :=
    have : Std.Total fun a b : α => height b ≤ height a := ⟨fun _ _ => Nat.le_total ..⟩
    have : IsTrans α fun a b => height b ≤ height a := ⟨fun _ _ _ hab hbc => Nat.le_trans hbc hab⟩
    List.pairwise_insertionSort _ rows

structure Page (α : Type) where
  data : List α
  nextCursor : Option Nat
  deriving DecidableEq, Repr

def below (height : α → Nat) : Option Nat → List α → List α
  | none, rows => rows
  | some c, rows => rows.filter fun x => height x < c

/-- The first `limit` rows, with a cursor if the page is full. -/
def page (height : α → Nat) (order : List α → List α) (limit : Nat) (rows : List α) : Page α :=
  let data := (order rows).take limit
  ⟨data, if data.length = limit then data.getLast?.map height else none⟩

/-- How the rows of a page become entities. -/
structure Merge {κ : Type} (key : α → κ) where
  run : List α → List α
  sublist : ∀ rows, (run rows).Sublist rows
  whole : ∀ rows, run rows = rows ↔ (rows.map key).Nodup

def Merge.entities {κ : Type} {key : α → κ} (merge : Merge key) (height : α → Nat)
    (order : List α → List α) (limit : Nat) (rows : List α) : Page α :=
  let data := merge.run ((order rows).take limit)
  ⟨data, if data.length = limit then data.getLast?.map height else none⟩

/-- Requests numbered from `i`, each with the cursor of the page before, until
a page has none; `none` if that takes more than `fuel` requests. -/
def follow (call : Nat → Option Nat → Page α) : Nat → Nat → Option Nat → Option (List (Page α))
  | 0, _, _ => none
  | fuel + 1, i, cursor =>
    match (call i cursor).nextCursor with
    | none => some [call i cursor]
    | some c => (follow call fuel (i + 1) (some c)).map (call i cursor :: ·)

def visited (pages : List (Page α)) : List α := pages.flatMap Page.data

/-- Following the cursors ends, and lists each row once, highest first. -/
def Enumerates (height : α → Nat) (call : Nat → Option Nat → Page α) (start : Option Nat)
    (rows : List α) : Prop :=
  ∃ fuel pages, follow call fuel 0 start = some pages ∧ (visited pages).Perm rows ∧
    (visited pages).Pairwise fun a b => height b ≤ height a

/-- Request `i` is answered from `rows`, in an order that may depend on `i`. A
cursor is a height, hence positive. -/
structure Serves {κ : Type} {key : α → κ} (merge : Merge key) (height : α → Nat)
    (call : Nat → Option Nat → Page α) (order : Nat → HighestFirst height) (limit : Nat)
    (rows : List α) : Prop where
  first : ∀ i, call i none = merge.entities height (order i).run limit rows
  next : ∀ i c, 0 < c →
    call i (some c) = merge.entities height (order i).run limit (below height (some c) rows)

def Stops (call : Nat → Option Nat → Page α) (start : Option Nat) : Prop :=
  ∃ fuel pages, follow call fuel 0 start = some pages

def Descends (height : α → Nat) (pages : List (Page α)) : Prop :=
  pages.Pairwise fun p q => ∀ a ∈ p.data, ∀ b ∈ q.data, height b < height a

/-- No multiple of `limit` falls strictly inside the rows of one height, when
the rows are counted from the highest. -/
def Unsplit (height : α → Nat) (limit : Nat) (rows : List α) : Prop :=
  ∀ c k, ¬ (rows.countP (fun x => c < height x) < k * limit ∧
    k * limit < rows.countP (fun x => c ≤ height x))

/-- The rows of page `k`, counted from the highest, where no height is split. -/
def onPage (height : α → Nat) (limit : Nat) (rows : List α) (k : Nat) : List α :=
  rows.filter fun x => rows.countP (fun y => height x < height y) / limit = k

/-- No page has two rows of one key. -/
def Apart {κ : Type} (key : α → κ) (height : α → Nat) (limit : Nat) (rows : List α) : Prop :=
  ∀ k, ((onPage height limit rows k).map key).Nodup

-- ---------------------------------------------------------------------------
-- Following cursors
-- ---------------------------------------------------------------------------

@[simp] theorem visited_cons (p : Page α) (ps : List (Page α)) :
    visited (p :: ps) = p.data ++ visited ps := by
  simp [visited]

@[simp] theorem visited_nil : visited ([] : List (Page α)) = [] := rfl

theorem follow_more {call : Nat → Option Nat → Page α} {fuel i : Nat} {cursor : Option Nat}
    {pages : List (Page α)} (h : follow call fuel i cursor = some pages) (k : Nat) :
    follow call (fuel + k) i cursor = some pages := by
  induction fuel generalizing i cursor pages with
  | zero => simp [follow] at h
  | succ fuel ih =>
    rw [Nat.add_right_comm, follow]
    rw [follow] at h
    split at h
    · exact h
    · obtain ⟨ps, hps, rfl⟩ := Option.map_eq_some_iff.mp h
      simp [ih hps]

theorem follow_unique {call : Nat → Option Nat → Page α} {fuel fuel' i : Nat}
    {cursor : Option Nat} {pages pages' : List (Page α)}
    (h : follow call fuel i cursor = some pages) (h' : follow call fuel' i cursor = some pages') :
    pages = pages' := by
  have h1 := follow_more h fuel'
  have h2 := follow_more h' fuel
  rw [Nat.add_comm] at h2
  exact Option.some.inj (h1.symm.trans h2)

-- ---------------------------------------------------------------------------
-- One page
-- ---------------------------------------------------------------------------

section
variable {height : α → Nat} {limit : Nat} (order : HighestFirst height)

theorem length_run (rows : List α) : (order.run rows).length = rows.length :=
  (order.perm rows).length_eq

theorem nextCursor_eq_none_iff (hl : 0 < limit) (rows : List α) :
    (page height order.run limit rows).nextCursor = none ↔ rows.length < limit := by
  simp only [page, List.length_take, length_run]
  split
  · rename_i h
    simp only [Option.map_eq_none_iff, List.getLast?_eq_none_iff, List.take_eq_nil_iff]
    constructor
    · rintro (h0 | h0)
      · omega
      · have := congrArg List.length h0
        simp [length_run] at this
        simp [this] at h
        omega
    · intro hlt
      omega
  · simp only [true_iff]
    omega

theorem nextCursor_eq_some {rows : List α} {c : Nat} (hl : 0 < limit)
    (h : (page height order.run limit rows).nextCursor = some c) :
    limit ≤ rows.length ∧ (∃ x ∈ rows, height x = c) ∧
      (∃ init last, (order.run rows).take limit = init ++ [last] ∧ height last = c) ∧
      (∀ x ∈ (order.run rows).take limit, c ≤ height x) ∧
      ∀ x ∈ (order.run rows).drop limit, height x ≤ c := by
  have hfull : limit ≤ rows.length := by
    by_contra hlt
    rw [(nextCursor_eq_none_iff order hl rows).mpr (by omega)] at h
    cases h
  have hlen : ((order.run rows).take limit).length = limit := by
    simp [length_run, hfull]
  simp only [page, hlen, if_true, Option.map_eq_some_iff] at h
  obtain ⟨last, hlast, rfl⟩ := h
  obtain ⟨init, hinit⟩ := List.getLast?_eq_some_iff.mp hlast
  have hsort := order.sorted rows
  rw [← List.take_append_drop limit (order.run rows)] at hsort
  obtain ⟨htake, -, hcross⟩ := List.pairwise_append.mp hsort
  refine ⟨hfull, ⟨last, ?_, rfl⟩, ⟨init, last, hinit, rfl⟩, ?_, ?_⟩
  · refine (order.perm rows).mem_iff.mp (List.mem_of_mem_take (i := limit) ?_)
    simp [hinit]
  · intro x hx
    rw [hinit] at hx htake
    rcases List.mem_append.mp hx with hx | hx
    · exact (List.pairwise_append.mp htake).2.2 x hx last (by simp)
    · exact Nat.le_of_eq (congrArg height (List.mem_singleton.mp hx)).symm
  · intro x hx
    exact hcross last (by simp [hinit]) x hx

theorem countP_cursor {rows : List α} {c : Nat} (hl : 0 < limit)
    (h : (page height order.run limit rows).nextCursor = some c) :
    rows.countP (fun x => c ≤ height x) =
      limit + ((order.run rows).drop limit).countP fun x => c ≤ height x := by
  obtain ⟨hfull, -, -, htake, -⟩ := nextCursor_eq_some order hl h
  rw [← (order.perm rows).countP_eq, ← List.take_append_drop limit (order.run rows),
    List.countP_append, List.countP_eq_length.mpr (by simpa using htake)]
  simp [length_run, hfull]

theorem perm_of_countP {rows : List α} {c : Nat} (hl : 0 < limit)
    (h : (page height order.run limit rows).nextCursor = some c)
    (hc : rows.countP (fun x => c ≤ height x) = limit) :
    ((order.run rows).take limit ++ rows.filter fun x => height x < c).Perm rows := by
  obtain ⟨-, -, -, htake, -⟩ := nextCursor_eq_some order hl h
  rw [countP_cursor order hl h] at hc
  have hdrop : ∀ x ∈ (order.run rows).drop limit, height x < c := by
    simpa using List.countP_eq_zero.mp (Nat.add_eq_left.mp hc)
  have hfilter : (order.run rows).filter (fun x => height x < c) = (order.run rows).drop limit := by
    conv_lhs => rw [← List.take_append_drop limit (order.run rows)]
    rw [List.filter_append, List.filter_eq_nil_iff.mpr (by simpa using htake), List.nil_append,
      List.filter_eq_self.mpr (by simpa using hdrop)]
  have hp : (rows.filter fun x => height x < c).Perm ((order.run rows).drop limit) :=
    hfilter ▸ ((order.perm rows).filter _).symm
  exact (hp.append_left _).trans (List.take_append_drop limit _ ▸ order.perm rows)

end

-- ---------------------------------------------------------------------------
-- Splits
-- ---------------------------------------------------------------------------

section
variable {height : α → Nat} {limit : Nat} {order : HighestFirst height} {rows : List α} {c : Nat}

theorem unsplit_of_short (h : rows.length < limit) : Unsplit height limit rows := by
  rintro d k ⟨hlo, hhi⟩
  have hle : rows.countP (fun x => d ≤ height x) ≤ rows.length := List.countP_le_length
  have hk : k < 1 := Nat.lt_of_mul_lt_mul_right (a := limit) (by omega)
  have : k = 0 := by omega
  subst this
  omega

/-- A full page that leaves out a row of its last height splits the listing. -/
theorem not_unsplit (hl : 0 < limit)
    (h : (page height order.run limit rows).nextCursor = some c)
    (hc : rows.countP (fun x => c ≤ height x) ≠ limit) : ¬ Unsplit height limit rows := by
  intro hu
  obtain ⟨hfull, -, ⟨init, last, hinit, hlast⟩, -, hdrop⟩ := nextCursor_eq_some order hl h
  have hge := countP_cursor order hl h
  have hlen : init.length + 1 = limit := by
    have := congrArg List.length hinit
    simp [length_run, hfull] at this
    omega
  have hlt : rows.countP (fun x => c < height x) ≤ init.length := by
    rw [← (order.perm rows).countP_eq, ← List.take_append_drop limit (order.run rows),
      List.countP_append, hinit, List.countP_append]
    have hzero : ((order.run rows).drop limit).countP (fun x => c < height x) = 0 :=
      List.countP_eq_zero.mpr (by simpa using hdrop)
    have hle : init.countP (fun x => c < height x) ≤ init.length := List.countP_le_length
    simp [hzero, hlast, hle]
  exact hu c 1 ⟨by omega, by omega⟩

theorem countP_above {p : α → Bool} (hp : ∀ x, c ≤ height x → p x = true) (rows : List α) :
    rows.countP p =
      rows.countP (fun x => c ≤ height x) + (rows.filter fun x => height x < c).countP p := by
  induction rows with
  | nil => rfl
  | cons x xs ih =>
    by_cases hx : c ≤ height x
    · simp [hx, Nat.not_lt.mpr hx, hp x hx, ih, Nat.add_right_comm]
    · simp [hx, Nat.lt_of_not_le hx, List.countP_cons, ih, Nat.add_assoc]

/-- Taking a whole page off shifts the counts of the lower heights by one page. -/
theorem unsplit_filter_iff (hc : rows.countP (fun x => c ≤ height x) = limit) :
    Unsplit height limit (rows.filter fun x => height x < c) ↔ Unsplit height limit rows := by
  have hlow : ∀ d < c, rows.countP (fun x => d < height x) =
        limit + (rows.filter fun x => height x < c).countP (fun x => d < height x) ∧
      rows.countP (fun x => d ≤ height x) =
        limit + (rows.filter fun x => height x < c).countP fun x => d ≤ height x := by
    intro d hd
    rw [← hc]
    exact ⟨countP_above (fun x hx => by simpa using by omega) rows,
      countP_above (fun x hx => by simpa using by omega) rows⟩
  constructor
  · rintro hu d k ⟨hlo, hhi⟩
    by_cases hd : d < c
    · obtain ⟨h1, h2⟩ := hlow d hd
      cases k with
      | zero => omega
      | succ k =>
        rw [Nat.succ_mul] at hlo hhi
        exact hu d k ⟨by omega, by omega⟩
    · have hle : rows.countP (fun x => d ≤ height x) ≤ rows.countP fun x => c ≤ height x :=
        List.countP_mono_left fun x _ hx => by
          simp only [decide_eq_true_eq] at hx ⊢
          omega
      have hk : k < 1 := Nat.lt_of_mul_lt_mul_right (a := limit) (by omega)
      have : k = 0 := by omega
      subst this
      omega
  · rintro hu d k ⟨hlo, hhi⟩
    by_cases hd : d < c
    · obtain ⟨h1, h2⟩ := hlow d hd
      apply hu d (k + 1)
      rw [Nat.succ_mul]
      exact ⟨by omega, by omega⟩
    · have hzero : (rows.filter fun x => height x < c).countP (fun x => d ≤ height x) = 0 := by
        refine List.countP_eq_zero.mpr fun x hx => ?_
        have := (List.mem_filter.mp hx).2
        simp only [decide_eq_true_eq] at this ⊢
        omega
      omega

theorem take_perm_filter (hl : 0 < limit)
    (h : (page height order.run limit rows).nextCursor = some c)
    (hc : rows.countP (fun x => c ≤ height x) = limit) :
    ((order.run rows).take limit).Perm (rows.filter fun x => c ≤ height x) := by
  have hwhole := perm_of_countP order hl h hc
  have hsplit := List.filter_append_perm (fun x => decide (c ≤ height x)) rows
  have hlow : rows.filter (fun x => !decide (c ≤ height x)) = rows.filter fun x => height x < c :=
    List.filter_congr fun x _ => by rw [← decide_not, decide_eq_decide, Nat.not_le]
  rw [hlow] at hsplit
  exact (List.perm_append_right_iff _).mp (hwhole.trans hsplit.symm)

theorem countP_above_lt {x : α} (hx : x ∈ rows) :
    rows.countP (fun y => height x < height y) < rows.length := by
  rw [List.countP_eq_length_filter]
  exact List.length_filter_lt_length_iff_exists.mpr ⟨x, hx, by simp⟩

theorem onPage_zero (hl : 0 < limit) (hc : rows.countP (fun x => c ≤ height x) = limit) :
    onPage height limit rows 0 = rows.filter fun x => c ≤ height x := by
  refine List.filter_congr fun x hx => decide_eq_decide.mpr ?_
  rw [Nat.div_eq_zero_iff_lt hl, ← hc]
  constructor
  · intro hlt
    by_contra hlow
    refine Nat.not_le.mpr hlt (List.countP_mono_left fun y _ hy => ?_)
    simp only [decide_eq_true_eq] at hy ⊢
    omega
  · intro hle
    have htop : (rows.filter fun y => c ≤ height y).countP (fun y => height x < height y) =
        rows.countP fun y => height x < height y := by
      rw [List.countP_filter]
      refine List.countP_congr fun y _ => ?_
      simp only [Bool.and_eq_true, decide_eq_true_eq]
      omega
    rw [← htop, List.countP_eq_length_filter (p := fun y => decide (c ≤ height y))]
    exact countP_above_lt (List.mem_filter.mpr ⟨hx, by simpa using hle⟩)

theorem onPage_succ (hl : 0 < limit) (hc : rows.countP (fun x => c ≤ height x) = limit) (k : Nat) :
    onPage height limit rows (k + 1) =
      onPage height limit (rows.filter fun x => height x < c) k := by
  have hshift : ∀ x, height x < c → rows.countP (fun y => height x < height y) =
      (rows.filter fun x => height x < c).countP (fun y => height x < height y) + limit := by
    intro x hx
    rw [Nat.add_comm, ← hc]
    exact countP_above (fun y hy => by simpa using by omega) rows
  unfold onPage
  rw [List.filter_filter]
  refine List.filter_congr fun x hx => ?_
  by_cases hlow : height x < c
  · rw [hshift x hlow, Nat.add_div_right _ hl]
    simp [hlow]
  · have hzero : x ∈ onPage height limit rows 0 := by
      rw [onPage_zero hl hc]
      exact List.mem_filter.mpr ⟨hx, by simpa using hlow⟩
    have hpage := of_decide_eq_true (List.mem_filter.mp hzero).2
    simp [hpage, hlow]

theorem apart_iff {κ : Type} {key : α → κ} (hl : 0 < limit)
    (hc : rows.countP (fun x => c ≤ height x) = limit) :
    Apart key height limit rows ↔
      ((rows.filter fun x => c ≤ height x).map key).Nodup ∧
        Apart key height limit (rows.filter fun x => height x < c) := by
  constructor
  · intro ha
    exact ⟨onPage_zero hl hc ▸ ha 0, fun k => onPage_succ hl hc k ▸ ha (k + 1)⟩
  · rintro ⟨htop, hlow⟩ k
    cases k with
    | zero => exact onPage_zero hl hc ▸ htop
    | succ k => exact onPage_succ hl hc k ▸ hlow k

theorem apart_of_nodup {κ : Type} {key : α → κ} (hn : (rows.map key).Nodup) :
    Apart key height limit rows :=
  fun _ => hn.sublist (List.filter_sublist.map key)

theorem Apart.take {κ : Type} {key : α → κ} (ha : Apart key height limit rows) (hl : 0 < limit) :
    (((order.run rows).take limit).map key).Nodup := by
  have hperm : ((order.run rows).filter fun x =>
      rows.countP (fun y => height x < height y) / limit = 0).Perm (onPage height limit rows 0) :=
    (order.perm rows).filter _
  refine ((hperm.map key).nodup_iff.mpr (ha 0)).sublist (List.Sublist.map key ?_)
  have htake : ∀ x ∈ (order.run rows).take limit,
      rows.countP (fun y => height x < height y) / limit = 0 := by
    intro x hx
    have hsort := order.sorted rows
    rw [← List.take_append_drop limit (order.run rows)] at hsort
    have hdrop : ((order.run rows).drop limit).countP (fun y => height x < height y) = 0 :=
      List.countP_eq_zero.mpr fun y hy => by
        simpa using (List.pairwise_append.mp hsort).2.2 x hx y hy
    rw [Nat.div_eq_zero_iff_lt hl, ← (order.perm rows).countP_eq,
      ← List.take_append_drop limit (order.run rows), List.countP_append, hdrop, Nat.add_zero]
    exact Nat.lt_of_lt_of_le (countP_above_lt hx) (List.length_take_le ..)
  have hall : ((order.run rows).take limit).filter (fun x =>
      rows.countP (fun y => height x < height y) / limit = 0) = (order.run rows).take limit :=
    List.filter_eq_self.mpr (by simpa using htake)
  rw [← hall]
  exact (List.take_sublist ..).filter _

theorem length_filter_lt (hl : 0 < limit)
    (h : (page height order.run limit rows).nextCursor = some c) :
    (rows.filter fun x => height x < c).length < rows.length := by
  have hcount := countP_cursor order hl h
  have hsum := List.length_eq_countP_add_countP (fun x => decide (c ≤ height x)) (l := rows)
  have hneg : rows.countP (fun x => decide (height x < c)) =
      rows.countP fun x => decide ¬ decide (c ≤ height x) = true := by
    congr 1
    funext x
    simp
  rw [← List.countP_eq_length_filter]
  omega

/-- A full page with what is visited below its cursor is the whole listing
exactly if the listing is unsplit and no page of it has two rows of one key. -/
theorem take_append_perm_iff {κ : Type} {key : α → κ} (hl : 0 < limit)
    (h : (page height order.run limit rows).nextCursor = some c)
    (hkeys : (((order.run rows).take limit).map key).Nodup) {later : List α}
    (hlater : ∀ x ∈ later, x ∈ rows.filter fun x => height x < c)
    (hperm : later.Perm (rows.filter fun x => height x < c) ↔
      Unsplit height limit (rows.filter fun x => height x < c) ∧
        Apart key height limit (rows.filter fun x => height x < c)) :
    ((order.run rows).take limit ++ later).Perm rows ↔
      Unsplit height limit rows ∧ Apart key height limit rows := by
  by_cases hc : rows.countP (fun x => c ≤ height x) = limit
  · have hwhole := perm_of_countP order hl h hc
    have htop : ((rows.filter fun x => c ≤ height x).map key).Nodup :=
      ((take_perm_filter hl h hc).map key).nodup_iff.mp hkeys
    rw [← unsplit_filter_iff hc, apart_iff hl hc, and_iff_right htop, ← hperm]
    constructor
    · intro hall
      exact (List.perm_append_left_iff _).mp (hall.trans hwhole.symm)
    · intro hrest
      exact (hrest.append_left _).trans hwhole
  · refine iff_of_false (fun hall => hc ?_) fun hwhole => not_unsplit hl h hc hwhole.1
    -- the rows left out of the page are not visited later
    obtain ⟨hfull, -, -, htake, -⟩ := nextCursor_eq_some order hl h
    have hnone : later.countP (fun x => c ≤ height x) = 0 := by
      refine List.countP_eq_zero.mpr fun x hx => ?_
      have hlow := (List.mem_filter.mp (hlater x hx)).2
      simpa using hlow
    rw [← hall.countP_eq, List.countP_append, hnone, Nat.add_zero,
      List.countP_eq_length.mpr (by simpa using htake)]
    simp [length_run, hfull]

end

-- ---------------------------------------------------------------------------
-- Runs
-- ---------------------------------------------------------------------------

section
variable {κ : Type} {key : α → κ} {merge : Merge key} {height : α → Nat}
  {call : Nat → Option Nat → Page α} {order : Nat → HighestFirst height} {limit : Nat}
  {rows : List α}

def Handed : Option Nat → Prop
  | none => True
  | some c => 0 < c

theorem Merge.entities_eq (first : HighestFirst height)
    (hkeys : (((first.run rows).take limit).map key).Nodup) :
    merge.entities height first.run limit rows = page height first.run limit rows := by
  rw [Merge.entities, (merge.whole _).mpr hkeys]
  rfl

theorem Serves.call_eq (hs : Serves merge height call order limit rows) {cursor : Option Nat}
    (hc : Handed cursor) (i : Nat) :
    call i cursor = merge.entities height (order i).run limit (below height cursor rows) := by
  cases cursor with
  | none => exact hs.first i
  | some c => exact hs.next i c hc

theorem below_below {cursor : Option Nat} {c : Nat} (h : ∃ x ∈ below height cursor rows, height x = c) :
    below height (some c) rows = (below height cursor rows).filter fun x => height x < c := by
  obtain ⟨x, hx, rfl⟩ := h
  cases cursor with
  | none => rfl
  | some d =>
    have hd : height x < d := by simpa using (List.mem_filter.mp hx).2
    simp only [below, List.filter_filter]
    refine List.filter_congr fun y _ => ?_
    by_cases hy : height y < height x
    · simp [hy, Nat.lt_trans hy hd]
    · simp [hy]

/-- What the pages of a run visit is sorted, was there to be visited, and is all
of it exactly if the listing is unsplit and its pages have no key twice. -/
structure Visits (key : α → κ) (height : α → Nat) (limit : Nat) (rows : List α)
    (pages : List (Page α)) : Prop where
  sorted : (visited pages).Pairwise fun a b => height b ≤ height a
  mem : ∀ x ∈ visited pages, x ∈ rows
  perm_iff : (visited pages).Perm rows ↔ Unsplit height limit rows ∧ Apart key height limit rows

theorem visits_last (first : HighestFirst height) (hl : 0 < limit)
    (hkeys : (((first.run rows).take limit).map key).Nodup)
    (h : (page height first.run limit rows).nextCursor = none) :
    Visits key height limit rows [page height first.run limit rows] := by
  have hshort := (nextCursor_eq_none_iff first hl rows).mp h
  have hperm := first.perm rows
  have htake : (first.run rows).take limit = first.run rows := by
    refine List.take_of_length_le ?_
    rw [length_run]
    omega
  have hdata : (page height first.run limit rows).data = first.run rows := htake
  rw [htake] at hkeys
  have hapart : Apart key height limit rows :=
    apart_of_nodup ((hperm.map key).nodup_iff.mp hkeys)
  constructor
  · simpa [hdata] using first.sorted rows
  · simpa [hdata] using fun x hx => hperm.mem_iff.mp hx
  · simp [hdata, hperm, unsplit_of_short hshort, hapart]

/-- A page that merges rows is short: the run ends there, without those rows. -/
theorem visits_merged (first : HighestFirst height) (hl : 0 < limit)
    (hkeys : ¬ (((first.run rows).take limit).map key).Nodup) :
    (merge.entities height first.run limit rows).nextCursor = none ∧
      Visits key height limit rows [merge.entities height first.run limit rows] := by
  have hsub := merge.sublist ((first.run rows).take limit)
  have hlt : (merge.run ((first.run rows).take limit)).length <
      ((first.run rows).take limit).length :=
    Nat.lt_of_le_of_ne hsub.length_le fun heq => hkeys ((merge.whole _).mp (hsub.eq_of_length heq))
  have hdata : (merge.entities height first.run limit rows).data =
      merge.run ((first.run rows).take limit) := rfl
  have hrun := hsub.trans (List.take_sublist limit (first.run rows))
  refine ⟨if_neg ?_, ?_, ?_, ?_⟩
  · have hle := List.length_take_le limit (first.run rows)
    omega
  · simpa [hdata] using (first.sorted rows).sublist hrun
  · simpa [hdata] using fun x hx => (first.perm rows).mem_iff.mp (hrun.mem hx)
  · refine iff_of_false (fun hall => ?_) fun hwhole => hkeys (hwhole.2.take hl)
    have hlen := hall.length_eq
    have hle := List.length_take_le' limit (first.run rows)
    rw [visited_cons, hdata, visited_nil, List.append_nil] at hlen
    rw [length_run] at hle
    omega

theorem Visits.cons (first : HighestFirst height) (hl : 0 < limit) {c : Nat}
    (hkeys : (((first.run rows).take limit).map key).Nodup)
    (h : (page height first.run limit rows).nextCursor = some c) {pages : List (Page α)}
    (hrest : Visits key height limit (rows.filter fun x => height x < c) pages) :
    Visits key height limit rows (page height first.run limit rows :: pages) := by
  obtain ⟨-, -, -, htake, -⟩ := nextCursor_eq_some first hl h
  have hdata : (page height first.run limit rows).data = (first.run rows).take limit := rfl
  constructor
  · rw [visited_cons, hdata]
    refine List.pairwise_append.mpr
      ⟨(first.sorted rows).sublist (List.take_sublist ..), hrest.sorted, ?_⟩
    intro a ha b hb
    have hb' : height b < c := by simpa using (List.mem_filter.mp (hrest.mem b hb)).2
    exact Nat.le_trans (Nat.le_of_lt hb') (htake a ha)
  · intro x hx
    rw [visited_cons, hdata] at hx
    rcases List.mem_append.mp hx with hx | hx
    · exact (first.perm rows).mem_iff.mp (List.mem_of_mem_take hx)
    · exact (List.mem_filter.mp (hrest.mem x hx)).1
  · rw [visited_cons, hdata]
    exact take_append_perm_iff hl h hkeys hrest.mem hrest.perm_iff

/-- From any cursor the run ends. -/
theorem follow_spec (hs : Serves merge height call order limit rows) (hl : 0 < limit)
    (hpos : ∀ x ∈ rows, 0 < height x) {cursor : Option Nat} (hc : Handed cursor) (i : Nat) :
    ∃ fuel pages, follow call fuel i cursor = some pages ∧
      Visits key height limit (below height cursor rows) pages := by
  -- by the number of rows still to come
  generalize hn : (below height cursor rows).length = n
  induction n using Nat.strongRecOn generalizing cursor i with
  | ind n ih =>
    have hcall := hs.call_eq hc i
    by_cases hkeys : ((((order i).run (below height cursor rows)).take limit).map key).Nodup
    case neg =>
      obtain ⟨hnone, hvisits⟩ := visits_merged (order i) hl hkeys
      rw [← hcall] at hnone hvisits
      exact ⟨1, [call i cursor], by simp [follow, hnone], hvisits⟩
    rw [Merge.entities_eq (order i) hkeys] at hcall
    cases hnext : (page height (order i).run limit (below height cursor rows)).nextCursor with
    | none =>
      refine ⟨1, [call i cursor], by simp [follow, hcall, hnext], ?_⟩
      rw [hcall]
      exact visits_last (order i) hl hkeys hnext
    | some c =>
      obtain ⟨-, hx, -⟩ := nextCursor_eq_some (order i) hl hnext
      have hbelow := below_below hx
      have hpositive : Handed (some c) := by
        obtain ⟨x, hx, rfl⟩ := hx
        refine hpos x ?_
        cases cursor with
        | none => exact hx
        | some d => exact (List.mem_filter.mp hx).1
      have hlt : (below height (some c) rows).length < n := by
        rw [hbelow, ← hn]
        exact length_filter_lt hl hnext
      obtain ⟨fuel, pages, hfollow, hrest⟩ := ih _ hlt hpositive (i + 1) rfl
      rw [hbelow] at hrest
      refine ⟨fuel + 1, call i cursor :: pages, by simp [follow, hcall, hnext, hfollow], ?_⟩
      rw [hcall]
      exact hrest.cons (order i) hl hkeys hnext

theorem handed_nextCursor {rowsAt : Option Nat → List α} (hl : 0 < limit)
    (hcall : ∀ i cursor, call i cursor = page height (order i).run limit (rowsAt cursor))
    (hpos : ∀ cursor, ∀ x ∈ rowsAt cursor, 0 < height x) {i d : Nat} {cursor : Option Nat}
    (h : (call i cursor).nextCursor = some d) : Handed (some d) := by
  rw [hcall] at h
  obtain ⟨-, ⟨x, hx, rfl⟩, -⟩ := nextCursor_eq_some (order i) hl h
  exact hpos cursor x hx

theorem follow_stops (hnext : ∀ i cursor d, (call i cursor).nextCursor = some d → Handed (some d))
    (hdec : ∀ i c d, 0 < c → (call i (some c)).nextCursor = some d → d < c) {cursor : Option Nat}
    (hc : Handed cursor) (i : Nat) : ∃ fuel pages, follow call fuel i cursor = some pages := by
  have hsome : ∀ c, 0 < c → ∀ i, ∃ fuel pages, follow call fuel i (some c) = some pages := by
    intro c
    induction c using Nat.strongRecOn with
    | ind c ih =>
      intro hc0 i
      cases hn : (call i (some c)).nextCursor with
      | none => exact ⟨1, [call i (some c)], by simp [follow, hn]⟩
      | some d =>
        obtain ⟨fuel, pages, hf⟩ := ih d (hdec i c d hc0 hn) (hnext i _ d hn) (i + 1)
        exact ⟨fuel + 1, call i (some c) :: pages, by simp [follow, hn, hf]⟩
  cases cursor with
  | some c => exact hsome c hc i
  | none =>
    cases hn : (call i none).nextCursor with
    | none => exact ⟨1, [call i none], by simp [follow, hn]⟩
    | some d =>
      obtain ⟨fuel, pages, hf⟩ := hsome d (hnext i _ d hn) (i + 1)
      exact ⟨fuel + 1, call i none :: pages, by simp [follow, hn, hf]⟩

theorem follow_never (hnext : ∀ i cursor, Handed cursor →
      ∃ d, (call i cursor).nextCursor = some d ∧ Handed (some d)) (fuel i : Nat)
    {cursor : Option Nat} (hc : Handed cursor) : follow call fuel i cursor = none := by
  induction fuel generalizing i cursor with
  | zero => rfl
  | succ fuel ih =>
    obtain ⟨d, hd, hd0⟩ := hnext i cursor hc
    simp [follow, hd, ih (i + 1) hd0]

theorem descends_of_follow {rowsAt : Option Nat → List α} (hl : 0 < limit)
    (hcall : ∀ i cursor, call i cursor = page height (order i).run limit (rowsAt cursor))
    (hpos : ∀ cursor, ∀ x ∈ rowsAt cursor, 0 < height x)
    (hsound : ∀ c, 0 < c → ∀ x ∈ rowsAt (some c), height x < c) {fuel i : Nat}
    {cursor : Option Nat} {pages : List (Page α)} (hc : Handed cursor)
    (h : follow call fuel i cursor = some pages) :
    Descends height pages ∧ ∀ p ∈ pages, ∀ x ∈ p.data, ∀ c, cursor = some c → height x < c := by
  induction fuel generalizing i cursor pages with
  | zero => cases h
  | succ fuel ih =>
    have hdata : ∀ x ∈ (call i cursor).data, ∀ c, cursor = some c → height x < c := by
      rintro x hx c rfl
      rw [hcall] at hx
      exact hsound c hc x (((order i).perm _).mem_iff.mp (List.mem_of_mem_take hx))
    cases hn : (call i cursor).nextCursor with
    | none =>
      simp only [follow, hn, Option.some.injEq] at h
      subst h
      exact ⟨by simp [Descends], by simpa using hdata⟩
    | some d =>
      simp only [follow, hn, Option.map_eq_some_iff] at h
      obtain ⟨rest, hrest, rfl⟩ := h
      have hd := handed_nextCursor hl hcall hpos hn
      rw [hcall] at hn
      obtain ⟨-, ⟨last, hlast, rfl⟩, -, htake, -⟩ := nextCursor_eq_some (order i) hl hn
      obtain ⟨hdesc, hlt⟩ := ih hd hrest
      refine ⟨List.pairwise_cons.mpr ⟨fun q hq a ha b hb => ?_, hdesc⟩, fun p hp x hx c he => ?_⟩
      · rw [hcall] at ha
        exact Nat.lt_of_lt_of_le (hlt q hq b hb _ rfl) (htake a ha)
      · rcases List.mem_cons.mp hp with rfl | hrest
        · exact hdata x hx c he
        · subst he
          exact Nat.lt_trans (hlt p hrest x hx _ rfl) (hsound c hc last hlast)

/-- Following the cursors lists every row exactly once, highest first, exactly
if no page ends between two rows of one height or has two rows of one key. -/
theorem enumerates_iff (hs : Serves merge height call order limit rows) (hl : 0 < limit)
    (hpos : ∀ x ∈ rows, 0 < height x) {cursor : Option Nat} (hc : Handed cursor) :
    Enumerates height call cursor (below height cursor rows) ↔
      Unsplit height limit (below height cursor rows) ∧
        Apart key height limit (below height cursor rows) := by
  obtain ⟨fuel, pages, hfollow, hsorted, -, hperm⟩ := follow_spec hs hl hpos hc 0
  constructor
  · rintro ⟨fuel', pages', hfollow', hperm', -⟩
    rw [follow_unique hfollow' hfollow] at hperm'
    exact hperm.mp hperm'
  · exact fun hu => ⟨fuel, pages, hfollow, hperm.mpr hu, hsorted⟩

end

-- ---------------------------------------------------------------------------
-- Rows of distinct heights
-- ---------------------------------------------------------------------------

section
variable {height : α → Nat} {rows l l' : List α}

theorem pages_flatMap (l : List α) (limit k : Nat) :
    ((List.range k).flatMap fun i => (l.drop (i * limit)).take limit) = l.take (k * limit) := by
  induction k with
  | zero => simp
  | succ k ih =>
    rw [List.range_succ, List.flatMap_append, ih, Nat.succ_mul, List.take_add]
    simp

end

end SafrochainIndexer.Keyset
