import SafrochainIndexer.Api.Address

/-!
# Advanced listings by cursor and by offset

Both advanced listings serve the same rows by cursor and by offset. The
cursor condition is `height < cursor` in either sort order, which follows the
rows in descending order only.
-/

namespace SafrochainIndexer.Api

section
variable {α κ : Type} [DecidableEq κ] {key : α → κ} {height : α → Nat}

def AdvancedPagination.limitFor (p : AdvancedPagination) (config : AppConfig) : Nat :=
  (normalizeOffsetPagination ⟨p.limit, none, none⟩ config).limit

def advancedCall (key : α → κ) (height : α → Nat) (sorts : Nat → Sorts height) (config : AppConfig)
    (p : AdvancedPagination) (rows : List α) (i : Nat) (offset cursor : Option Nat) : Response α :=
  advancedListing key height (sorts i) config { p with offset, cursor } rows

variable {sorts : Nat → Sorts height} {config : AppConfig} {p : AdvancedPagination} {rows : List α}

theorem sortBy_eq (hp : p.byHeight = true) : p.sortBy.getD .height = .height := by
  simp only [AdvancedPagination.byHeight, decide_eq_true_eq] at hp
  rcases hp with h | h
  · simp [h]
  · simp [h]

theorem offset_data (hn : (rows.map key).Nodup) (hp : p.byHeight = true) (i offset : Nat) :
    (advancedCall key height sorts config p rows i (some offset) none).data =
      (((sorts i).run .height (p.sortOrder.getD .desc) rows).drop offset).take
        (p.limitFor config) := by
  have hkeys : (((((sorts i).run .height (p.sortOrder.getD .desc) rows).drop offset).take
      (p.limitFor config)).map key).Nodup := by
    refine List.Nodup.sublist (((List.take_sublist ..).trans (List.drop_sublist ..)).map key) ?_
    exact (((sorts i).perm _ _ rows).map key).nodup_iff.mpr hn
  rw [← getMany_of_nodup hkeys]
  simp only [advancedCall, advancedListing, truthy, Option.filter_none, Option.isSome_none,
    Bool.false_eq_true, false_and, if_false, sortBy_eq hp, normalizeOffsetPagination,
    Option.getD_some, Nat.max_eq_right (Nat.zero_le _)]
  rfl

theorem advancedListing_perm {sorts : Sorts height} {rows' : List α} (hn : (rows.map key).Nodup)
    (hn' : (rows'.map key).Nodup)
    (h : ∀ p, advancedListing key height sorts config p rows =
      advancedListing key height sorts config p rows') : rows.Perm rows' := by
  let p : AdvancedPagination := ⟨some 1, none, none, none, none⟩
  have hlimit : p.limitFor config = 1 := by
    have hmax := config.maxPageSize_pos
    simp only [AdvancedPagination.limitFor, normalizeOffsetPagination, clampLimit, p,
      Option.getD_some, max_self]
    exact if_neg (by omega)
  have hdrop : ∀ i, ((sorts.run .height .desc rows).drop i).take 1 =
      ((sorts.run .height .desc rows').drop i).take 1 := by
    intro i
    have hpage := congrArg Response.data (h { p with offset := some i, cursor := none })
    have hrows : ∀ {rows : List α}, (rows.map key).Nodup →
        (advancedCall key height (fun _ => sorts) config p rows 0 (some i) none).data =
          ((sorts.run .height .desc rows).drop i).take 1 := fun hn => by
      rw [offset_data hn rfl 0 i, hlimit]
      rfl
    exact (hrows hn).symm.trans (hpage.trans (hrows hn'))
  have hsame : sorts.run .height .desc rows = sorts.run .height .desc rows' := by
    refine List.ext_getElem? fun i => ?_
    have hhead := congrArg List.head? (hdrop i)
    simpa [List.head?_take] using hhead
  exact (sorts.perm .height .desc rows).symm.trans (hsame ▸ sorts.perm .height .desc rows')

end

-- ---------------------------------------------------------------------------
-- The two services
-- ---------------------------------------------------------------------------

section
variable {env : Platform} {config : AppConfig} {db : Store}
  {sorts : Nat → Sorts TransactionRow.height}

end

def Sorts.insertion {α : Type} (height : α → Nat) : Sorts height where
  run
    | .height, .asc => List.insertionSort fun a b => height a ≤ height b
    | .height, .desc => (Keyset.HighestFirst.insertion height).run
    | _, _ => id
  perm sortBy sortOrder rows := by
    cases sortBy <;> cases sortOrder
    case height.asc => exact List.perm_insertionSort _ rows
    case height.desc => exact (Keyset.HighestFirst.insertion height).perm rows
    all_goals exact List.Perm.refl rows
  asc rows :=
    have : Std.Total fun a b : α => height a ≤ height b := ⟨fun _ _ => Nat.le_total ..⟩
    have : IsTrans α fun a b => height a ≤ height b := ⟨fun _ _ _ => Nat.le_trans⟩
    List.pairwise_insertionSort _ rows
  desc := (Keyset.HighestFirst.insertion height).sorted

def textless : Platform := ⟨fun _ _ => false, fun _ _ => none, fun _ => "", fun _ => 0⟩

def twoHeights : Store where
  block := .empty
  transaction :=
    ⟨[⟨"a", 1, true, none, "[]", none, none, 0, by decide⟩,
      ⟨"b", 2, true, none, "[]", none, none, 0, by decide⟩], by decide⟩
  message := .empty
  messageType := .empty
  hash_nodup := by decide
  primaryKey_nodup := MessageRow.empty_nodup

def sortedBy (sortOrder : SortOrder) : TransactionFilterDto where
  success := none
  minHeight := none
  maxHeight := none
  minGasUsed := none
  maxGasUsed := none
  minGasWanted := none
  maxGasWanted := none
  memo := none
  signer := none
  messageTypes := none
  addresses := none
  validator := none
  dateFrom := none
  dateTo := none
  pagination := ⟨some 1, none, none, some .height, some sortOrder⟩

end SafrochainIndexer.Api
