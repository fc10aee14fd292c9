import SafrochainIndexer.Lib.Keyset

/-!
# Pagination of the API

`pagination.util.ts`, and the two shapes of listing that the services share: a
listing by cursor only, and an advanced listing by cursor or by offset.

An optional number is absent for JavaScript when it is zero, an optional text
when it is empty (`truthy`).
-/

namespace SafrochainIndexer.Api

/-- `app.defaultPageSize` and `app.maxPageSize`; both come from
`parseInt(..) || n`, so neither is zero. -/
structure AppConfig where
  defaultPageSize : Nat
  maxPageSize : Nat
  maxPageSize_pos : 0 < maxPageSize

structure PagePaginationInput where
  page : Option Nat
  limit : Option Nat
  cursor : Option Nat
  deriving DecidableEq, Repr

structure OffsetPaginationInput where
  limit : Option Nat
  offset : Option Nat
  cursor : Option Nat
  deriving DecidableEq, Repr

structure PaginationParams where
  page : Nat
  limit : Nat
  offset : Nat
  deriving DecidableEq, Repr

structure PaginationMeta where
  page : Nat
  limit : Nat
  total : Nat
  totalPages : Nat
  hasNext : Bool
  hasPrev : Bool
  nextCursor : Option Nat
  deriving DecidableEq, Repr

structure Response (α : Type) where
  data : List α
  pageMeta : PaginationMeta
  deriving DecidableEq, Repr

def Response.page {α : Type} (r : Response α) : Keyset.Page α := ⟨r.data, r.pageMeta.nextCursor⟩

def truthy (n : Option Nat) : Option Nat := n.filter fun n => decide (n ≠ 0)

def truthyText (s : Option String) : Option String := s.filter fun s => decide (s ≠ "")

def clampLimit (limit : Nat) (config : AppConfig) : Nat :=
  if limit > config.maxPageSize then config.maxPageSize else limit

def normalizePagePagination (pagination : PagePaginationInput) (config : AppConfig) :
    PaginationParams :=
  let rawPage := pagination.page.getD 1
  let rawLimit := pagination.limit.getD config.defaultPageSize
  let page := max 1 rawPage
  let limit := clampLimit (max 1 rawLimit) config
  ⟨page, limit, (page - 1) * limit⟩

def normalizeOffsetPagination (pagination : OffsetPaginationInput) (config : AppConfig) :
    PaginationParams :=
  let rawLimit := pagination.limit.getD config.defaultPageSize
  let rawOffset := pagination.offset.getD 0
  let limit := clampLimit (max 1 rawLimit) config
  let offset := max 0 rawOffset
  ⟨offset / limit + 1, limit, offset⟩

/-- A negative `total` is one that was not counted. -/
def buildPaginationMeta (page limit : Nat) (total : Int) (nextCursor : Option Nat)
    (hasNextOverride : Option Bool) : PaginationMeta :=
  let totalPages := if 0 ≤ total then (total.toNat + limit - 1) / limit else 0
  { page
    limit
    total := if 0 ≤ total then total.toNat else 0
    totalPages
    hasNext := if 0 ≤ total then page < totalPages else hasNextOverride.getD nextCursor.isSome
    hasPrev := decide (page > 1)
    nextCursor }

-- ---------------------------------------------------------------------------
-- Queries
-- ---------------------------------------------------------------------------

section
variable {α κ : Type} [DecidableEq κ]

/-- TypeORM's `getMany`: one entity for each primary key, in the order of the
rows. -/
def getMany (key : α → κ) : List α → List α
  | [] => []
  | x :: xs => x :: (getMany key xs).filter fun y => decide (key y ≠ key x)

/-- `if (cursor) qb.andWhere("height < :cursor")`. -/
def beforeCursor (height : α → Nat) (cursor : Option Nat) (rows : List α) : List α :=
  match truthy cursor with
  | none => rows
  | some c => rows.filter fun x => height x < c

def nextCursorOf (height : α → Nat) (limit : Nat) (data : List α) : Option Nat :=
  if data.length = limit ∧ 0 < data.length then data.getLast?.map height else none

/-- The listings that page by cursor only, over the rows that pass their
filters. -/
def cursorListing (key : α → κ) (height : α → Nat) (order : List α → List α) (config : AppConfig)
    (pagination : PagePaginationInput) (rows : List α) : Response α :=
  let limit := (normalizePagePagination pagination config).limit
  let data := getMany key ((order (beforeCursor height pagination.cursor rows)).take limit)
  { data
    pageMeta := buildPaginationMeta 1 limit (-1) (nextCursorOf height limit data) none }

end

inductive SortBy
  | height
  | timestamp
  | gasUsed
  | gasWanted
  | fee
  deriving DecidableEq, Repr

inductive SortOrder
  | asc
  | desc
  deriving DecidableEq, Repr

/-- How the store orders rows for each sort field. Only the order by height is
described; rows with equal values come in any order. -/
structure Sorts {α : Type} (height : α → Nat) where
  run : SortBy → SortOrder → List α → List α
  perm : ∀ sortBy sortOrder rows, (run sortBy sortOrder rows).Perm rows
  asc : ∀ rows, (run .height .asc rows).Pairwise fun a b => height a ≤ height b
  desc : ∀ rows, (run .height .desc rows).Pairwise fun a b => height b ≤ height a

structure AdvancedPagination where
  limit : Option Nat
  offset : Option Nat
  cursor : Option Nat
  sortBy : Option SortBy
  sortOrder : Option SortOrder
  deriving DecidableEq, Repr

section
variable {α κ : Type} [DecidableEq κ]

/-- `filters.sort_by === HEIGHT || !filters.sort_by`. -/
def AdvancedPagination.byHeight (p : AdvancedPagination) : Bool :=
  decide (p.sortBy = some .height ∨ p.sortBy = none)

/-- The advanced listings: by cursor if there is one and the sort is by height,
else by offset. `rows` are the joined rows that pass the filters. -/
def advancedListing (key : α → κ) (height : α → Nat) (sorts : Sorts height) (config : AppConfig)
    (p : AdvancedPagination) (rows : List α) : Response α :=
  let params := normalizeOffsetPagination ⟨p.limit, p.offset, p.cursor⟩ config
  let order := sorts.run (p.sortBy.getD .height) (p.sortOrder.getD .desc)
  if (truthy p.cursor).isSome ∧ p.byHeight then
    let data := getMany key ((order (beforeCursor height p.cursor rows)).take params.limit)
    { data
      pageMeta := buildPaginationMeta 1 params.limit (-1) (nextCursorOf height params.limit data) none }
  else
    let data := getMany key (((order rows).drop params.offset).take params.limit)
    let hasNext := decide (data.length = params.limit)
    let nextCursor := if p.byHeight then nextCursorOf height params.limit data else none
    { data
      pageMeta := buildPaginationMeta 1 params.limit (-1) nextCursor (some hasNext) }

end

-- ---------------------------------------------------------------------------
-- Laws
-- ---------------------------------------------------------------------------

section
variable {α κ : Type} [DecidableEq κ] {key : α → κ} {height : α → Nat}

theorem limit_pos (pagination : PagePaginationInput) (config : AppConfig) :
    0 < (normalizePagePagination pagination config).limit := by
  have hmax := config.maxPageSize_pos
  simp only [normalizePagePagination, clampLimit]
  split
  · exact hmax
  · omega

theorem getMany_of_nodup {rows : List α} (h : (rows.map key).Nodup) : getMany key rows = rows := by
  induction rows with
  | nil => rfl
  | cons x xs ih =>
    obtain ⟨hx, hxs⟩ := List.nodup_cons.mp h
    have hne : ∀ y ∈ xs, key y ≠ key x := fun y hy he => hx (List.mem_map.mpr ⟨y, hy, he⟩)
    simp only [getMany, ih hxs]
    rw [List.filter_eq_self.mpr (by simpa using hne)]

theorem getMany_sublist (key : α → κ) (rows : List α) : (getMany key rows).Sublist rows := by
  induction rows with
  | nil => exact .slnil
  | cons x rows ih => exact (List.filter_sublist.trans ih).cons_cons x

theorem nodup_getMany (rows : List α) : ((getMany key rows).map key).Nodup := by
  induction rows with
  | nil => exact List.nodup_nil
  | cons y rows ih =>
    refine List.nodup_cons.mpr ⟨?_, ih.sublist (List.filter_sublist.map key)⟩
    simp

def entities (key : α → κ) : Keyset.Merge key where
  run := getMany key
  sublist := getMany_sublist key
  whole rows := ⟨fun h => h ▸ nodup_getMany rows, getMany_of_nodup⟩

theorem beforeCursor_some {c : Nat} (hc : 0 < c) (rows : List α) :
    beforeCursor height (some c) rows = Keyset.below height (some c) rows := by
  have hne : c ≠ 0 := Nat.ne_of_gt hc
  simp [beforeCursor, truthy, Option.filter, hne, Keyset.below]

theorem nextCursorOf_eq (height : α → Nat) (limit : Nat) (data : List α) :
    nextCursorOf height limit data =
      if data.length = limit then data.getLast?.map height else none := by
  unfold nextCursorOf
  cases data with
  | nil => simp
  | cons x xs => simp

theorem entities_page (key : α → κ) (height : α → Nat) (order : List α → List α) (limit : Nat)
    (rows : List α) :
    (⟨getMany key ((order rows).take limit),
      nextCursorOf height limit (getMany key ((order rows).take limit))⟩ : Keyset.Page α) =
      (entities key).entities height order limit rows := by
  rw [nextCursorOf_eq]
  rfl

theorem getMany_page (order : Keyset.HighestFirst height) (limit : Nat) {rows : List α}
    (hn : (rows.map key).Nodup) :
    (⟨getMany key ((order.run rows).take limit),
      nextCursorOf height limit (getMany key ((order.run rows).take limit))⟩ : Keyset.Page α) =
      Keyset.page height order.run limit rows := by
  have htake : (((order.run rows).take limit).map key).Nodup :=
    (((order.perm rows).map key).nodup_iff.mpr hn).sublist ((List.take_sublist ..).map key)
  rw [entities_page]
  exact Keyset.Merge.entities_eq order htake

theorem cursorListing_serves (config : AppConfig) (page limit : Option Nat)
    (order : Nat → Keyset.HighestFirst height) (rows : List α) :
    Keyset.Serves (entities key) height
      (fun i cursor => (cursorListing key height (order i).run config ⟨page, limit, cursor⟩ rows).page)
      order (normalizePagePagination ⟨page, limit, none⟩ config).limit rows := by
  constructor
  · intro i
    rw [← entities_page]
    rfl
  · intro i c hc
    rw [← entities_page, ← beforeCursor_some hc]
    rfl

end

end SafrochainIndexer.Api
