import SafrochainIndexer.Api.OffsetLaws

/-!
# Offset pages of joined rows

`getTransactionsAdvanced` and `searchTransactions` join the messages, and count
`LIMIT` and `OFFSET` in joined rows, one for each message, before the rows of one
transaction are merged. The pages are full and disjoint only if the transactions
with several rows have all of them on the last page.
-/

namespace SafrochainIndexer.Api

structure TransactionSearchDto where
  q : Option String
  limit : Option Nat
  offset : Option Nat
  deriving DecidableEq, Repr

/-- `leftJoin("transaction.messages_entities", "message")`, with the messages. -/
def Store.joinedMessages (db : Store) (tx : TransactionRow) :
    List (TransactionRow × Option MessageRow) :=
  match db.message.rows.filter fun m =>
      decide (m.transactionHash = tx.hash) && samePartition tx m with
  | [] => [(tx, none)]
  | messages => messages.map fun m => (tx, some m)

def TransactionSearchDto.selects (env : Platform) (search : TransactionSearchDto)
    (row : TransactionRow × Option MessageRow) : Bool :=
  given (truthyText search.q) fun q =>
    env.ilike row.1.hash s!"%{q}%" || row.1.memo.any (env.ilike · s!"%{q}%") ||
      row.2.any fun m => env.ilike m.value s!"%{q}%"

def searchTransactionRows (env : Platform) (db : Store) (search : TransactionSearchDto) :
    List TransactionRow :=
  ((db.transaction.rows.flatMap db.joinedMessages).filter (search.selects env)).map Prod.fst

def searchTransactions (env : Platform) (config : AppConfig) (db : Store)
    (order : List TransactionRow → List TransactionRow) (search : TransactionSearchDto) :
    Response TransactionRow :=
  let params := normalizeOffsetPagination ⟨search.limit, search.offset, none⟩ config
  let transactions := getMany TransactionRow.hash
    (((order (searchTransactionRows env db search)).drop params.offset).take params.limit)
  { data := transactions
    pageMeta := buildPaginationMeta 1 params.limit (-1)
      (nextCursorOf TransactionRow.height params.limit transactions) none }

-- ---------------------------------------------------------------------------
-- Merged rows
-- ---------------------------------------------------------------------------

section
variable {α κ : Type} [DecidableEq κ] {key : α → κ}

theorem mem_keys_getMany {rows : List α} {k : κ} :
    k ∈ (getMany key rows).map key ↔ k ∈ rows.map key := by
  induction rows with
  | nil => rfl
  | cons y rows ih =>
    by_cases hk : k = key y
    · simp [getMany, hk]
    · rw [getMany, List.map_cons, List.mem_cons, List.map_cons, List.mem_cons, ← ih]
      simp only [hk, false_or, List.mem_map, List.mem_filter, decide_eq_true_eq]
      constructor
      · rintro ⟨x, ⟨hx, -⟩, rfl⟩
        exact ⟨x, hx, rfl⟩
      · rintro ⟨x, hx, rfl⟩
        exact ⟨x, ⟨hx, hk⟩, rfl⟩

theorem getMany_append {front rows : List α} (hfront : (front.map key).Nodup)
    (hcross : ∀ x ∈ front, ∀ y ∈ rows, key x ≠ key y) :
    getMany key (front ++ rows) = front ++ getMany key rows := by
  induction front with
  | nil => rfl
  | cons x front ih =>
    obtain ⟨hx, hnodup⟩ := List.nodup_cons.mp hfront
    obtain ⟨hxrows, hrest⟩ := List.forall_mem_cons.mp hcross
    rw [List.cons_append, getMany, ih hnodup hrest]
    refine congrArg (x :: ·) (List.filter_eq_self.mpr fun y hy => decide_eq_true ?_)
    rcases List.mem_append.mp hy with hy | hy
    · exact fun heq => hx (heq ▸ List.mem_map_of_mem hy)
    · exact (hxrows y ((getMany_sublist _ _).mem hy)).symm

-- ---------------------------------------------------------------------------
-- Pages
-- ---------------------------------------------------------------------------

/-- Pages of `limit` rows that are full, but for those at the end, and list the
matching rows once. -/
structure FullPages (key : α → κ) (page : Nat → List α) (limit : Nat) (matching : List α) :
    Prop where
  size : ∀ k, (page k).length = min limit (matching.length - k * limit)
  distinct : ∀ k, ((page k).map key).Nodup
  once : ∀ count, matching.length ≤ count * limit →
    ((List.range count).flatMap page).Perm matching

def frontLength (limit : Nat) (rows : List α) : Nat := (rows.length - 1) / limit * limit

/-- A row on a page before the last one is the only row of its key. -/
structure MergedLast (key : α → κ) (limit : Nat) (rows : List α) : Prop where
  nodup : ((rows.take (frontLength limit rows)).map key).Nodup
  apart : ∀ x ∈ rows.take (frontLength limit rows), ∀ y ∈ rows.drop (frontLength limit rows),
    key x ≠ key y

/-- The page that is merged from the rows after an offset. -/
def rowPage (key : α → κ) (size limit : Nat) (rows : List α) (k : Nat) : List α :=
  getMany key ((rows.drop (k * limit)).take size)

omit [DecidableEq κ] in
theorem FullPages.of_perm {page : Nat → List α} {limit : Nat} {matching matching' : List α}
    (hperm : matching.Perm matching') (h : FullPages key page limit matching) :
    FullPages key page limit matching' := by
  refine ⟨fun k => ?_, h.distinct, fun count hcount => ?_⟩
  · rw [h.size, hperm.length_eq]
  · exact (h.once count (hperm.length_eq ▸ hcount)).trans hperm

section
variable {limit : Nat} {rows : List α}

theorem frontLength_le (limit : Nat) (rows : List α) : frontLength limit rows ≤ rows.length :=
  (Nat.div_mul_le_self _ _).trans (Nat.sub_le _ _)

theorem length_le_front (rows : List α) (hl : 0 < limit) :
    rows.length ≤ frontLength limit rows + limit := by
  have hmod := Nat.lt_mul_div_succ (rows.length - 1) hl
  rw [Nat.mul_add, Nat.mul_one, Nat.mul_comm] at hmod
  unfold frontLength
  omega

theorem rowPage_of_le {k : Nat} (h : rows.length ≤ k * limit) (size : Nat) :
    rowPage key size limit rows k = [] := by
  rw [rowPage, List.drop_eq_nil_of_le h, List.take_nil]
  rfl

theorem chunk_sublist {k : Nat} (h : k < (rows.length - 1) / limit) :
    ((rows.drop (k * limit)).take limit).Sublist (rows.take (frontLength limit rows)) := by
  have hle : k * limit + limit ≤ frontLength limit rows := by
    have hmul := Nat.mul_le_mul_right limit (Nat.succ_le_of_lt h)
    rw [Nat.succ_mul] at hmul
    exact hmul
  have hchunk : (rows.drop (k * limit)).take limit =
      ((rows.take (frontLength limit rows)).drop (k * limit)).take limit := by
    rw [List.drop_take, List.take_take, Nat.min_eq_left (by omega)]
  rw [hchunk]
  exact (List.take_sublist ..).trans (List.drop_sublist ..)

theorem length_chunk (hl : 0 < limit) {k : Nat} (h : k < (rows.length - 1) / limit) :
    ((rows.drop (k * limit)).take limit).length = limit := by
  have hmul := Nat.mul_le_mul_right limit (Nat.succ_le_of_lt h)
  have hle := frontLength_le limit rows
  rw [Nat.succ_mul] at hmul
  unfold frontLength at hle
  rw [List.length_take, List.length_drop]
  omega

theorem rowPage_last (hl : 0 < limit) :
    rowPage key limit limit rows ((rows.length - 1) / limit) =
      getMany key (rows.drop (frontLength limit rows)) := by
  have hlength : (rows.drop (frontLength limit rows)).length ≤ limit := by
    have hle := length_le_front rows hl
    rw [List.length_drop]
    omega
  rw [rowPage, ← frontLength, List.take_of_length_le hlength]

theorem front_pages {count : Nat}
    (hpage : ∀ k < count, rowPage key limit limit rows k = (rows.drop (k * limit)).take limit) :
    (List.range count).flatMap (rowPage key limit limit rows) = rows.take (count * limit) := by
  rw [← Keyset.pages_flatMap]
  exact List.flatMap_congr fun k hk => hpage k (List.mem_range.mp hk)

theorem length_le_of_lt {k : Nat} (hl : 0 < limit) (h : (rows.length - 1) / limit < k) :
    rows.length ≤ k * limit := by
  rw [Nat.div_lt_iff_lt_mul hl] at h
  omega

theorem frontLength_lt (hrows : rows ≠ []) : frontLength limit rows < rows.length := by
  have hpos := List.length_pos_iff.mpr hrows
  have hle := Nat.div_mul_le_self (rows.length - 1) limit
  unfold frontLength
  omega

theorem length_last_pos (key : α → κ) (limit : Nat) (hrows : rows ≠ []) :
    0 < (getMany key (rows.drop (frontLength limit rows))).length := by
  have hdrop : rows.drop (frontLength limit rows) ≠ [] := by
    rw [ne_eq, List.drop_eq_nil_iff]
    exact Nat.not_le.mpr (frontLength_lt hrows)
  cases hrest : rows.drop (frontLength limit rows) with
  | nil => exact absurd hrest hdrop
  | cons x rest => exact Nat.succ_pos _

theorem all_pages (hl : 0 < limit) {count : Nat} (hcount : (rows.length - 1) / limit < count)
    (hpage : ∀ k < (rows.length - 1) / limit,
      rowPage key limit limit rows k = (rows.drop (k * limit)).take limit) :
    (List.range count).flatMap (rowPage key limit limit rows) =
      rows.take (frontLength limit rows) ++ getMany key (rows.drop (frontLength limit rows)) := by
  obtain ⟨more, rfl⟩ := Nat.exists_eq_add_of_lt hcount
  rw [Nat.add_assoc, Nat.add_comm more 1, ← Nat.add_assoc, List.range_add, List.range_succ]
  have hmore : ((List.range more).map ((rows.length - 1) / limit + 1 + ·)).flatMap
      (rowPage key limit limit rows) = [] := by
    rw [List.flatMap_map, List.flatMap_eq_nil_iff]
    exact fun k _ => rowPage_of_le (length_le_of_lt hl (by omega)) limit
  rw [List.flatMap_append, List.flatMap_append, hmore, front_pages hpage, List.flatMap_singleton,
    rowPage_last hl, List.append_nil, frontLength]

theorem fullPages_of_mergedLast (hl : 0 < limit) (h : MergedLast key limit rows) :
    FullPages key (rowPage key limit limit rows) limit (getMany key rows) := by
  have hpage : ∀ k < (rows.length - 1) / limit,
      rowPage key limit limit rows k = (rows.drop (k * limit)).take limit := fun k hk =>
    getMany_of_nodup (h.nodup.sublist ((chunk_sublist hk).map key))
  have hmerged : getMany key rows = rows.take (frontLength limit rows) ++
      getMany key (rows.drop (frontLength limit rows)) := by
    conv_lhs => rw [← List.take_append_drop (frontLength limit rows) rows]
    exact getMany_append h.nodup h.apart
  have hcount : (getMany key rows).length = frontLength limit rows +
      (getMany key (rows.drop (frontLength limit rows))).length := by
    rw [hmerged, List.length_append, List.length_take, Nat.min_eq_left (frontLength_le limit rows)]
  have hlast : (getMany key (rows.drop (frontLength limit rows))).length ≤ limit := by
    have hmany := (getMany_sublist key (rows.drop (frontLength limit rows))).length_le
    have hfront := length_le_front rows hl
    rw [List.length_drop] at hmany
    omega
  refine ⟨fun k => ?_, fun k => nodup_getMany _, fun count hle => ?_⟩
  · rcases Nat.lt_trichotomy k ((rows.length - 1) / limit) with hlt | rfl | hgt
    · have hmul := Nat.mul_le_mul_right limit (Nat.succ_le_of_lt hlt)
      rw [Nat.succ_mul] at hmul
      unfold frontLength at hcount
      rw [hpage k hlt, length_chunk hl hlt]
      omega
    · rw [rowPage_last hl, hcount]
      unfold frontLength at *
      omega
    · have hle := length_le_of_lt hl hgt
      have hmany := (getMany_sublist key rows).length_le
      rw [rowPage_of_le hle, List.length_nil]
      omega
  · by_cases hrows : rows = []
    · subst hrows
      have hnil : (List.range count).flatMap (rowPage key limit limit ([] : List α)) = [] :=
        List.flatMap_eq_nil_iff.mpr fun k _ => rowPage_of_le (Nat.zero_le _) limit
      rw [hnil]
      exact List.Perm.refl _
    · have hpos := length_last_pos key limit hrows
      have hlt : (rows.length - 1) / limit < count := by
        refine Nat.lt_of_mul_lt_mul_right (a := limit) ?_
        unfold frontLength at *
        omega
      rw [all_pages hl hlt hpage, ← hmerged]

theorem mergedLast_of_fullPages (hl : 0 < limit)
    (h : FullPages key (rowPage key limit limit rows) limit (getMany key rows)) :
    MergedLast key limit rows := by
  by_cases hrows : rows = []
  · subst hrows
    exact ⟨by simp, by simp⟩
  · have hlast : 0 < (rowPage key limit limit rows ((rows.length - 1) / limit)).length := by
      rw [rowPage_last hl]
      exact length_last_pos key limit hrows
    rw [h.size] at hlast
    have hpage : ∀ k < (rows.length - 1) / limit,
        rowPage key limit limit rows k = (rows.drop (k * limit)).take limit := by
      intro k hk
      refine (getMany_sublist key _).eq_of_length ?_
      have hsize := h.size k
      have hmul := Nat.mul_le_mul_right limit (Nat.succ_le_of_lt hk)
      rw [Nat.succ_mul] at hmul
      rw [length_chunk hl hk, ← rowPage, hsize]
      omega
    have hlt := Nat.lt_succ_self ((rows.length - 1) / limit)
    have hall := h.once _ ((getMany_sublist key rows).length_le.trans (length_le_of_lt hl hlt))
    rw [all_pages hl hlt hpage] at hall
    have hnodup := (hall.map key).nodup_iff.mpr (nodup_getMany rows)
    rw [List.map_append] at hnodup
    obtain ⟨hfront, -, hcross⟩ := List.nodup_append.mp hnodup
    refine ⟨hfront, fun x hx y hy => ?_⟩
    exact hcross _ (List.mem_map_of_mem hx) _ (mem_keys_getMany.mpr (List.mem_map_of_mem hy))

/-- A limit is served as it is up to the maximum. A larger one is served if the
first page of `max` rows has a row of every key and the second one is empty. -/
def Served (key : α → κ) (max limit : Nat) (rows : List α) : Prop :=
  limit ≤ max ∨ rows.length ≤ limit ∧ ∀ x ∈ rows, ∃ y ∈ rows.take max, key y = key x

omit [DecidableEq κ] in
theorem mergedLast_of_short (h : rows.length ≤ limit) (hl : 0 < limit) :
    MergedLast key limit rows := by
  have hzero : frontLength limit rows = 0 := by
    rw [frontLength, Nat.div_eq_of_lt (by omega), Nat.zero_mul]
  exact ⟨by simp [hzero], by simp [hzero]⟩

theorem getMany_perm {rows' : List α} (hkey : ∀ x ∈ rows', ∀ y ∈ rows', key x = key y → x = y)
    (hsub : ∀ x ∈ rows, x ∈ rows') (hall : ∀ x ∈ rows', ∃ y ∈ rows, key y = key x) :
    (getMany key rows).Perm (getMany key rows') := by
  refine (List.perm_ext_iff_of_nodup (nodup_getMany rows).of_map (nodup_getMany rows').of_map).mpr
    fun x => ?_
  have hmem : ∀ {xs : List α}, (∀ y ∈ xs, y ∈ rows') → x ∈ rows' →
      (x ∈ getMany key xs ↔ ∃ y ∈ xs, key y = key x) := by
    intro xs hxs hx
    rw [← List.mem_map, ← mem_keys_getMany, List.mem_map]
    constructor
    · exact fun hmany => ⟨x, hmany, rfl⟩
    · rintro ⟨y, hy, heq⟩
      exact hkey y (hxs y ((getMany_sublist _ _).mem hy)) x hx heq ▸ hy
  constructor
  · intro hx
    have hx' := hsub x ((getMany_sublist _ _).mem hx)
    exact (hmem (fun _ hy => hy) hx').mpr ⟨x, hx', rfl⟩
  · intro hx
    have hx' := (getMany_sublist _ _).mem hx
    exact (hmem hsub hx').mpr (hall x hx')

/-- A page of `max` rows cannot hold more than `max` of the keys. -/
theorem short_of_fullPages {max : Nat} (hmax : 0 < max) (hlt : max < limit)
    (h : FullPages key (rowPage key max limit rows) limit (getMany key rows)) :
    rows.length ≤ limit ∧ ∀ x ∈ rows, ∃ y ∈ rows.take max, key y = key x := by
  have hfirst : rowPage key max limit rows 0 = getMany key (rows.take max) := by
    rw [rowPage, Nat.zero_mul, List.drop_zero]
  have hsmall : (getMany key rows).length ≤ max := by
    have hsize := h.size 0
    have hmany := (getMany_sublist key (rows.take max)).length_le
    rw [hfirst, Nat.zero_mul, Nat.sub_zero] at hsize
    rw [List.length_take] at hmany
    omega
  have hshort : rows.length ≤ limit := by
    have hsize := h.size 1
    rw [Nat.one_mul, Nat.sub_eq_zero_of_le (hsmall.trans hlt.le), Nat.min_zero,
      List.length_eq_zero_iff] at hsize
    by_contra hlong
    cases hrest : rows.drop limit with
    | nil => exact hlong (List.drop_eq_nil_iff.mp hrest)
    | cons x rest =>
      obtain ⟨n, rfl⟩ := Nat.exists_eq_succ_of_ne_zero hmax.ne'
      rw [rowPage, Nat.one_mul, hrest, List.take_succ_cons] at hsize
      cases hsize
  refine ⟨hshort, fun x hx => ?_⟩
  have hone := h.once 1 (by omega)
  rw [List.range_one, List.flatMap_singleton, hfirst] at hone
  have hmem := ((hone.map key).mem_iff.mpr
    (mem_keys_getMany.mpr (List.mem_map_of_mem hx)))
  exact List.mem_map.mp (mem_keys_getMany.mp hmem)

theorem fullPages_of_short {max : Nat}
    (hkey : ∀ x ∈ rows, ∀ y ∈ rows, key x = key y → x = y) (hshort : rows.length ≤ limit)
    (hall : ∀ x ∈ rows, ∃ y ∈ rows.take max, key y = key x) :
    FullPages key (rowPage key max limit rows) limit (getMany key rows) := by
  have hfirst : rowPage key max limit rows 0 = getMany key (rows.take max) := by
    rw [rowPage, Nat.zero_mul, List.drop_zero]
  have hperm : (getMany key (rows.take max)).Perm (getMany key rows) :=
    getMany_perm hkey (fun x hx => List.mem_of_mem_take hx) hall
  have hmany := (getMany_sublist key rows).length_le
  have hempty : ∀ k, rowPage key max limit rows (k + 1) = [] := by
    intro k
    refine rowPage_of_le (hshort.trans ?_) max
    exact Nat.le_mul_of_pos_left limit k.succ_pos
  refine ⟨fun k => ?_, fun k => nodup_getMany _, fun count hcount => ?_⟩
  · cases k with
    | zero =>
      rw [hfirst, hperm.length_eq]
      omega
    | succ k =>
      have hle : limit ≤ (k + 1) * limit := Nat.le_mul_of_pos_left limit k.succ_pos
      rw [hempty, List.length_nil]
      omega
  · cases count with
    | zero =>
      rw [Nat.zero_mul, Nat.le_zero, List.length_eq_zero_iff] at hcount
      rw [hcount]
      exact List.Perm.refl _
    | succ count =>
      have hrest :
          ((List.range count).map Nat.succ).flatMap (rowPage key max limit rows) = [] := by
        rw [List.flatMap_map, List.flatMap_eq_nil_iff]
        exact fun k _ => hempty k
      rw [List.range_succ_eq_map, List.flatMap_cons, hrest, List.append_nil, hfirst]
      exact hperm

theorem fullPages_iff_served {max : Nat} (hmax : 0 < max) (hlt : max < limit)
    (hkey : ∀ x ∈ rows, ∀ y ∈ rows, key x = key y → x = y) :
    FullPages key (rowPage key max limit rows) limit (getMany key rows) ↔
      rows.length ≤ limit ∧ ∀ x ∈ rows, ∃ y ∈ rows.take max, key y = key x :=
  ⟨short_of_fullPages hmax hlt, fun h => fullPages_of_short hkey h.1 h.2⟩

theorem fullPages_iff {max : Nat} (hmax : 0 < max) (hl : 0 < limit)
    (hkey : ∀ x ∈ rows, ∀ y ∈ rows, key x = key y → x = y) :
    FullPages key (rowPage key (min limit max) limit rows) limit (getMany key rows) ↔
      MergedLast key limit rows ∧ Served key max limit rows := by
  rcases Nat.lt_or_ge max limit with hlt | hle
  · rw [Nat.min_eq_right hlt.le, fullPages_iff_served hmax hlt hkey, Served,
      or_iff_right (Nat.not_le.mpr hlt)]
    exact ⟨fun h => ⟨mergedLast_of_short h.1 hl, h⟩, fun h => h.2⟩
  · have hserved : Served key max limit rows := Or.inl hle
    rw [Nat.min_eq_left hle, and_iff_left hserved]
    exact ⟨mergedLast_of_fullPages hl, fullPages_of_mergedLast hl⟩

end

end

-- ---------------------------------------------------------------------------
-- The two services
-- ---------------------------------------------------------------------------

/-- The pages of a service, of which page `k` is the response at offset `k * limit`:
they are full, disjoint and complete, and say that there is a next page if there is
a later one. -/
structure OffsetPages (call : Nat → Response TransactionRow) (limit : Nat)
    (matching : List TransactionRow) : Prop where
  pages : FullPages TransactionRow.hash (fun k => (call k).data) limit matching
  hasNext : ∀ k j, k < j → (call j).data ≠ [] → (call k).pageMeta.hasNext = true

theorem offsetPages_iff {call : Nat → Response TransactionRow} {size limit : Nat}
    {matching : List TransactionRow} (hle : size ≤ limit)
    (hdata : ∀ k, (call k).data.length ≤ size)
    (hfull : ∀ k, (call k).data.length = size → (call k).pageMeta.hasNext = true) :
    OffsetPages call limit matching ↔
      FullPages TransactionRow.hash (fun k => (call k).data) limit matching := by
  refine ⟨OffsetPages.pages, fun h => ⟨h, fun k j hkj hlater => hfull k ?_⟩⟩
  have hj := h.size j
  have hk := h.size k
  have hpos := List.length_pos_iff.mpr hlater
  have hmul := Nat.mul_le_mul_right limit (Nat.succ_le_of_lt hkj)
  rw [Nat.succ_mul] at hmul
  have hmax := hdata k
  omega

section
variable {env : Platform} {config : AppConfig} {db : Store}

theorem normalize_limit {limit : Nat} (hl : 0 < limit) (offset : Nat) :
    normalizeOffsetPagination ⟨some limit, some offset, none⟩ config =
      ⟨offset / min limit config.maxPageSize + 1, min limit config.maxPageSize, offset⟩ := by
  have hlimit : clampLimit (max 1 limit) config = min limit config.maxPageSize := by
    unfold clampLimit
    split
    · omega
    · omega
  simp [normalizeOffsetPagination, hlimit]

theorem mem_joinMessages {tx row : TransactionRow} : row ∈ db.joinMessages tx ↔ row = tx := by
  unfold Store.joinMessages
  split
  · exact List.mem_singleton
  · rename_i messages hne
    cases hmessages : db.message.rows.filter fun m =>
        decide (m.transactionHash = tx.hash) && samePartition tx m with
    | nil => exact absurd hmessages hne
    | cons m rest => simp [eq_comm]

theorem mem_buildTransactionQuery {filters : TransactionFilterDto} {tx : TransactionRow} :
    tx ∈ buildTransactionQuery env db filters ↔
      tx ∈ db.transaction.rows.filter (filters.selects env db) := by
  simp [buildTransactionQuery, List.mem_filter, List.mem_flatMap, mem_joinMessages]

theorem eq_of_hash {x y : TransactionRow} (hx : x ∈ db.transaction.rows)
    (hy : y ∈ db.transaction.rows) (h : x.hash = y.hash) : x = y :=
  List.inj_on_of_nodup_map db.hash_nodup hx hy h

theorem getMany_perm_filter {rows : List TransactionRow} {p : TransactionRow → Bool}
    (h : ∀ tx, tx ∈ rows ↔ tx ∈ db.transaction.rows.filter p) :
    (getMany TransactionRow.hash rows).Perm (db.transaction.rows.filter p) := by
  have hkeys : ((db.transaction.rows.filter p).map TransactionRow.hash).Nodup :=
    db.hash_nodup.sublist (List.filter_sublist.map _)
  rw [← getMany_of_nodup hkeys]
  refine getMany_perm (fun x hx y hy => ?_) (fun x hx => (h x).mp hx)
    fun x hx => ⟨x, (h x).mpr hx, rfl⟩
  exact eq_of_hash (List.mem_filter.mp hx).1 (List.mem_filter.mp hy).1

theorem fullPages_rows_iff {rows : List TransactionRow} {p : TransactionRow → Bool} {limit : Nat}
    (hl : 0 < limit) (h : ∀ tx, tx ∈ rows ↔ tx ∈ db.transaction.rows.filter p) :
    FullPages TransactionRow.hash
        (rowPage TransactionRow.hash (min limit config.maxPageSize) limit rows) limit
        (db.transaction.rows.filter p) ↔
      MergedLast TransactionRow.hash limit rows ∧
        Served TransactionRow.hash config.maxPageSize limit rows := by
  have hperm := getMany_perm_filter h
  rw [← fullPages_iff config.maxPageSize_pos hl fun x hx y hy =>
    eq_of_hash (List.mem_filter.mp ((h x).mp hx)).1 (List.mem_filter.mp ((h y).mp hy)).1]
  exact ⟨fun hpages => hpages.of_perm hperm.symm, fun hpages => hpages.of_perm hperm⟩

def TransactionFilterDto.atPage (filters : TransactionFilterDto) (limit k : Nat) :
    TransactionFilterDto :=
  { filters with
    pagination :=
      { filters.pagination with limit := some limit, offset := some (k * limit), cursor := none } }

def TransactionFilterDto.sortedRows (env : Platform) (db : Store)
    (sorts : Sorts TransactionRow.height) (filters : TransactionFilterDto) : List TransactionRow :=
  sorts.run (filters.pagination.sortBy.getD .height) (filters.pagination.sortOrder.getD .desc)
    (buildTransactionQuery env db filters)

theorem getTransactionsAdvanced_atPage (env : Platform) (config : AppConfig) (db : Store)
    (sorts : Sorts TransactionRow.height) (filters : TransactionFilterDto) {limit : Nat}
    (hl : 0 < limit) (k : Nat) :
    let response := getTransactionsAdvanced env config db sorts (filters.atPage limit k)
    response.data = rowPage TransactionRow.hash (min limit config.maxPageSize) limit
        (filters.sortedRows env db sorts) k ∧
      (response.data.length = min limit config.maxPageSize → response.pageMeta.hasNext = true) := by
  simp only [getTransactionsAdvanced, advancedListing, TransactionFilterDto.atPage, truthy,
    Option.filter_none, Option.isSome_none, Bool.false_eq_true, false_and, if_false,
    normalize_limit hl]
  exact ⟨rfl, fun hfull => decide_eq_true hfull⟩

theorem length_rowPage_le {key : TransactionRow → String} {size limit : Nat}
    {rows : List TransactionRow} (k : Nat) : (rowPage key size limit rows k).length ≤ size :=
  (getMany_sublist _ _).length_le.trans (List.length_take_le ..)

theorem getTransactionsAdvanced_pages_iff (sorts : Sorts TransactionRow.height)
    (filters : TransactionFilterDto) {limit : Nat} (hl : 0 < limit) :
    OffsetPages
        (fun k => getTransactionsAdvanced env config db sorts (filters.atPage limit k)) limit
        (db.transaction.rows.filter (filters.selects env db)) ↔
      MergedLast TransactionRow.hash limit (filters.sortedRows env db sorts) ∧
        Served TransactionRow.hash config.maxPageSize limit (filters.sortedRows env db sorts) := by
  have hpage := getTransactionsAdvanced_atPage env config db sorts filters hl
  have hrows : ∀ tx, tx ∈ filters.sortedRows env db sorts ↔
      tx ∈ db.transaction.rows.filter (filters.selects env db) := fun tx =>
    (sorts.perm _ _ _).mem_iff.trans mem_buildTransactionQuery
  have hdata :
      (fun k => (getTransactionsAdvanced env config db sorts (filters.atPage limit k)).data) =
      rowPage TransactionRow.hash (min limit config.maxPageSize) limit
        (filters.sortedRows env db sorts) := funext fun k => (hpage k).1
  rw [← fullPages_rows_iff hl hrows, ← hdata]
  refine offsetPages_iff (Nat.min_le_left limit config.maxPageSize) (fun k => ?_)
    fun k => (hpage k).2
  rw [(hpage k).1]
  exact length_rowPage_le k

-- ---------------------------------------------------------------------------
-- Search
-- ---------------------------------------------------------------------------

def TransactionSearchDto.finds (env : Platform) (db : Store) (search : TransactionSearchDto)
    (tx : TransactionRow) : Bool :=
  given (truthyText search.q) fun q =>
    env.ilike tx.hash s!"%{q}%" || tx.memo.any (env.ilike · s!"%{q}%") ||
      db.existsMessage tx fun m => samePartition tx m && env.ilike m.value s!"%{q}%"

theorem fst_of_mem_joinedMessages {tx : TransactionRow} {row : TransactionRow × Option MessageRow}
    (h : row ∈ db.joinedMessages tx) : row.1 = tx := by
  unfold Store.joinedMessages at h
  split at h
  · rw [List.mem_singleton.mp h]
  · obtain ⟨m, -, rfl⟩ := List.mem_map.mp h
    rfl

theorem any_joinedMessages (db : Store) (tx : TransactionRow) (whole : Bool)
    (p : MessageRow → Bool) :
    ((db.joinedMessages tx).any fun row => whole || row.2.any p) =
      (whole || db.existsMessage tx fun m => samePartition tx m && p m) := by
  have hexists : (db.existsMessage tx fun m => samePartition tx m && p m) =
      (db.message.rows.filter fun m =>
        decide (m.transactionHash = tx.hash) && samePartition tx m).any p := by
    rw [List.any_filter]
    refine congrArg (List.any db.message.rows) (funext fun m => ?_)
    rw [Bool.and_assoc]
  rw [hexists]
  unfold Store.joinedMessages
  split
  · rename_i hnone
    simp [hnone]
  · rename_i messages hne
    cases whole with
    | false => simp [List.any_map, Function.comp_def]
    | true =>
      obtain ⟨m, hm⟩ := List.exists_mem_of_ne_nil _ hne
      simpa using ⟨m, by simpa using hm⟩

theorem exists_selects_iff (search : TransactionSearchDto) (tx : TransactionRow) :
    (∃ row ∈ db.joinedMessages tx, search.selects env row = true) ↔
      search.finds env db tx = true := by
  unfold TransactionSearchDto.selects TransactionSearchDto.finds
  cases truthyText search.q with
  | none =>
    have hany := any_joinedMessages db tx true fun _ => false
    rw [Bool.true_or, List.any_eq_true] at hany
    obtain ⟨row, hrow, -⟩ := hany
    exact iff_of_true ⟨row, hrow, rfl⟩ rfl
  | some q =>
    simp only [given, Option.all_some]
    rw [← any_joinedMessages, List.any_eq_true]
    constructor
    · rintro ⟨row, hrow, hselects⟩
      exact ⟨row, hrow, fst_of_mem_joinedMessages hrow ▸ hselects⟩
    · rintro ⟨row, hrow, hselects⟩
      exact ⟨row, hrow, (fst_of_mem_joinedMessages hrow).symm ▸ hselects⟩

theorem mem_searchTransactionRows {search : TransactionSearchDto} {tx : TransactionRow} :
    tx ∈ searchTransactionRows env db search ↔
      tx ∈ db.transaction.rows.filter (search.finds env db) := by
  rw [List.mem_filter, ← exists_selects_iff]
  simp only [searchTransactionRows, List.mem_map, List.mem_filter, List.mem_flatMap]
  constructor
  · rintro ⟨row, ⟨⟨tx', htx', hrow⟩, hselects⟩, rfl⟩
    obtain rfl := fst_of_mem_joinedMessages hrow
    exact ⟨htx', row, hrow, hselects⟩
  · rintro ⟨htx, row, hrow, hselects⟩
    exact ⟨row, ⟨⟨tx, htx, hrow⟩, hselects⟩, fst_of_mem_joinedMessages hrow⟩

theorem hasNext_of_full {size : Nat} {transactions : List TransactionRow} (hsize : 0 < size)
    (hfull : transactions.length = size) :
    (buildPaginationMeta 1 size (-1) (nextCursorOf TransactionRow.height size transactions)
      none).hasNext = true := by
  have hne : transactions ≠ [] := List.ne_nil_of_length_pos (by omega)
  simp [buildPaginationMeta, nextCursorOf, hfull, hsize, List.getLast?_eq_some_getLast hne]

theorem searchTransactions_pages_iff (order : Keyset.HighestFirst TransactionRow.height)
    (q : Option String) {limit : Nat} (hl : 0 < limit) :
    OffsetPages (fun k =>
        searchTransactions env config db order.run ⟨q, some limit, some (k * limit)⟩) limit
        (db.transaction.rows.filter (TransactionSearchDto.finds env db ⟨q, none, none⟩)) ↔
      MergedLast TransactionRow.hash limit
          (order.run (searchTransactionRows env db ⟨q, none, none⟩)) ∧
        Served TransactionRow.hash config.maxPageSize limit
          (order.run (searchTransactionRows env db ⟨q, none, none⟩)) := by
  have hrows : ∀ tx, tx ∈ order.run (searchTransactionRows env db ⟨q, none, none⟩) ↔
      tx ∈ db.transaction.rows.filter (TransactionSearchDto.finds env db ⟨q, none, none⟩) :=
    fun tx => (order.perm _).mem_iff.trans mem_searchTransactionRows
  have hpage : ∀ k,
      (searchTransactions env config db order.run ⟨q, some limit, some (k * limit)⟩).data =
        rowPage TransactionRow.hash (min limit config.maxPageSize) limit
          (order.run (searchTransactionRows env db ⟨q, none, none⟩)) k := by
    intro k
    simp only [searchTransactions, normalize_limit hl]
    rfl
  rw [← fullPages_rows_iff hl hrows, ← funext hpage]
  refine offsetPages_iff (Nat.min_le_left limit config.maxPageSize) (fun k => ?_) fun k hfull => ?_
  · rw [hpage k]
    exact length_rowPage_le k
  · have hpos : 0 < min limit config.maxPageSize := lt_min hl config.maxPageSize_pos
    simp only [searchTransactions, normalize_limit hl] at hfull ⊢
    exact hasNext_of_full hpos hfull

end

/-- The rows of transactions with one row only come before the last page, and the
limit is served. -/
def PagesAsRows (config : AppConfig) (limit : Nat) (rows : List TransactionRow) : Prop :=
  MergedLast TransactionRow.hash limit rows ∧
    Served TransactionRow.hash config.maxPageSize limit rows

/-- The offset pages of both services are full, disjoint and complete exactly when
only the last page merges rows. -/
theorem offset_pages_iff (env : Platform) (config : AppConfig) (db : Store) (limit : Nat)
    (hl : 1 ≤ limit) :
    (∀ (sorts : Sorts TransactionRow.height) (filters : TransactionFilterDto),
      OffsetPages
          (fun k => getTransactionsAdvanced env config db sorts (filters.atPage limit k)) limit
          (db.transaction.rows.filter (filters.selects env db)) ↔
        PagesAsRows config limit (filters.sortedRows env db sorts)) ∧
    (∀ (order : Keyset.HighestFirst TransactionRow.height) (q : Option String),
      OffsetPages (fun k =>
          searchTransactions env config db order.run ⟨q, some limit, some (k * limit)⟩) limit
          (db.transaction.rows.filter (TransactionSearchDto.finds env db ⟨q, none, none⟩)) ↔
        PagesAsRows config limit (order.run (searchTransactionRows env db ⟨q, none, none⟩))) :=
  ⟨fun sorts filters => getTransactionsAdvanced_pages_iff sorts filters hl,
    fun order q => searchTransactions_pages_iff order q hl⟩

theorem offset_pages_iff_twoHeights :
    OffsetPages (fun k => getTransactionsAdvanced textless ⟨20, 100, by decide⟩ twoHeights
        (Sorts.insertion TransactionRow.height) ((sortedBy .desc).atPage 1 k)) 1
      (twoHeights.transaction.rows.filter ((sortedBy .desc).selects textless twoHeights)) :=
  ((offset_pages_iff textless ⟨20, 100, by decide⟩ twoHeights 1 (by decide)).1
    (Sorts.insertion TransactionRow.height) (sortedBy .desc)).mpr
      ⟨⟨by decide, by decide⟩, .inl (by decide)⟩

def sendOf (hash : String) (index height : Nat) (h : 0 < height) : MessageRow :=
  ⟨hash, index, "cosmos.bank.v1beta1.MsgSend", "\x7b\x7d", [], 0, height, h⟩

def twoSends : Store :=
  { twoHeights with
    message := ⟨[sendOf "b" 0 2 Nat.zero_lt_two, sendOf "b" 1 2 Nat.zero_lt_two], by decide⟩
    primaryKey_nodup := by decide }

/-- The first page of two rows has one transaction. -/
theorem merged_page_not_full :
    ¬ OffsetPages (fun k => getTransactionsAdvanced textless ⟨20, 100, by decide⟩ twoSends
        (Sorts.insertion TransactionRow.height) ((sortedBy .desc).atPage 2 k)) 2
      (twoSends.transaction.rows.filter ((sortedBy .desc).selects textless twoSends)) := by
  intro h
  exact absurd (h.pages.size 0) (by decide)

end SafrochainIndexer.Api
