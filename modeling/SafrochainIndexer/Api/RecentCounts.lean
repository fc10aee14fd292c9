import SafrochainIndexer.Api.CountsCache
import SafrochainIndexer.Api.Store

/-!
# Recent transaction counts

`runCountsQuery` counts transactions from a height on, which saves it a join: the
smallest height of the blocks within the period, or zero if there are none.

`counts_exact_iff`: while a block lies within the period the count is that of the
transactions within it; otherwise it is the count of all transactions.
-/

namespace SafrochainIndexer.Api

def Period.interval : Period → Int
  | .h24 => 24 * 60 * 60 * 1000000
  | .d7 => 7 * 24 * 60 * 60 * 1000000

section
variable (db : Store) (now : Int) (period : Period)

/-- `SELECT height FROM block WHERE timestamp >= NOW() - INTERVAL`. -/
def Store.recentHeights : List Nat :=
  (db.block.rows.filter fun block => now - period.interval ≤ block.timestamp).map BlockRow.height

/-- `COALESCE(MIN(height), 0)`. -/
def Store.recentFrom : Nat := (db.recentHeights now period).min?.getD 0

/-- `SELECT COUNT(*) FROM transaction WHERE height >= ..`. -/
def Store.recentCount : Nat :=
  db.transaction.rows.countP fun tx => db.recentFrom now period ≤ tx.height

def Store.countWithin : Nat :=
  db.transaction.rows.countP fun tx =>
    (db.timestampOf tx).any fun timestamp => now - period.interval ≤ timestamp

def Store.Lively : Prop := ∃ block ∈ db.block.rows, now - period.interval ≤ block.timestamp

def Store.Chronological : Prop :=
  ∀ a ∈ db.block.rows, ∀ b ∈ db.block.rows, a.height ≤ b.height → a.timestamp ≤ b.timestamp

/-- The foreign key of the table of transactions. -/
def Store.HasBlocks : Prop :=
  ∀ tx ∈ db.transaction.rows, ∃ block ∈ db.block.rows, block.height = tx.height

end

section
variable {db : Store} {now : Int} {period : Period}

theorem mem_recentHeights {height : Nat} :
    height ∈ db.recentHeights now period ↔
      ∃ block ∈ db.block.rows, now - period.interval ≤ block.timestamp ∧ block.height = height := by
  simp [Store.recentHeights, and_assoc]

theorem recentHeights_ne_nil : db.recentHeights now period ≠ [] ↔ db.Lively now period := by
  simp [Store.recentHeights, Store.Lively]

theorem recentFrom_of_not_lively (h : ¬db.Lively now period) : db.recentFrom now period = 0 := by
  have hnil : db.recentHeights now period = [] := not_not.mp (recentHeights_ne_nil.not.mpr h)
  rw [Store.recentFrom, hnil]
  rfl

theorem recentFrom_le_iff (hchron : db.Chronological) (h : db.Lively now period) {block : BlockRow}
    (hblock : block ∈ db.block.rows) :
    db.recentFrom now period ≤ block.height ↔ now - period.interval ≤ block.timestamp := by
  obtain ⟨first, hmin⟩ := Option.ne_none_iff_exists'.mp
    (List.min?_eq_none_iff.not.mpr (recentHeights_ne_nil.mpr h))
  obtain ⟨hmem, hle⟩ := List.min?_eq_some_iff.mp hmin
  rw [Store.recentFrom, hmin, Option.getD_some]
  constructor
  · intro hheight
    obtain ⟨oldest, holdest, htime, rfl⟩ := mem_recentHeights.mp hmem
    exact htime.trans (hchron oldest holdest block hblock hheight)
  · exact fun htime => hle _ (mem_recentHeights.mpr ⟨block, hblock, htime, rfl⟩)

theorem timestampOf_eq {tx : TransactionRow} {block : BlockRow} (hblock : block ∈ db.block.rows)
    (h : block.height = tx.height) : db.timestampOf tx = some block.timestamp := by
  rw [Store.timestampOf, ← h, Table.find_of_mem hblock]
  rfl

theorem within_iff {tx : TransactionRow} :
    ((db.timestampOf tx).any fun timestamp => now - period.interval ≤ timestamp) = true ↔
      ∃ timestamp, db.timestampOf tx = some timestamp ∧ now - period.interval ≤ timestamp := by
  cases db.timestampOf tx <;> simp

theorem recentCount_of_lively (hchron : db.Chronological) (hblocks : db.HasBlocks)
    (h : db.Lively now period) : db.recentCount now period = db.countWithin now period := by
  refine List.countP_congr fun tx htx => ?_
  obtain ⟨block, hblock, hheight⟩ := hblocks tx htx
  rw [timestampOf_eq hblock hheight, ← hheight, decide_eq_true_iff,
    recentFrom_le_iff hchron h hblock, Option.any_some, decide_eq_true_iff]

theorem recentCount_of_not_lively (h : ¬db.Lively now period) :
    db.recentCount now period = db.transaction.rows.length := by
  rw [Store.recentCount, recentFrom_of_not_lively h]
  exact List.countP_eq_length.mpr fun tx _ => decide_eq_true (Nat.zero_le _)

theorem countWithin_of_not_lively (h : ¬db.Lively now period) : db.countWithin now period = 0 := by
  refine List.countP_eq_zero.mpr fun tx _ hany => h ?_
  obtain ⟨timestamp, htimestamp, hle⟩ := within_iff.mp hany
  obtain ⟨block, hblock, rfl⟩ := Option.map_eq_some_iff.mp htimestamp
  exact ⟨block, Table.mem_of_find hblock, hle⟩

theorem Store.Lively.d7 (h : db.Lively now .h24) : db.Lively now .d7 := by
  obtain ⟨block, hblock, hle⟩ := h
  refine ⟨block, hblock, le_trans ?_ hle⟩
  simp only [Period.interval]
  omega

theorem countWithin_mono : db.countWithin now .h24 ≤ db.countWithin now .d7 := by
  refine List.countP_mono_left fun tx _ hany => ?_
  obtain ⟨timestamp, htimestamp, hle⟩ := within_iff.mp hany
  refine within_iff.mpr ⟨timestamp, htimestamp, le_trans ?_ hle⟩
  simp only [Period.interval]
  omega

/-- A count is that of its period exactly if some block lies within the period or
there are no transactions at all. The day counts no more than the week exactly
if some block is from the last day or the week counts every transaction. -/
theorem counts_exact_iff (hchron : db.Chronological) (hblocks : db.HasBlocks) (now : Int) :
    (∀ period, db.recentCount now period = db.countWithin now period ↔
      db.Lively now period ∨ db.transaction.rows = []) ∧
    (db.recentCount now .h24 ≤ db.recentCount now .d7 ↔
      db.Lively now .h24 ∨ db.recentCount now .d7 = db.transaction.rows.length) := by
  refine ⟨fun period => ?_, ?_⟩
  · by_cases h : db.Lively now period
    · simp [h, recentCount_of_lively hchron hblocks h]
    · rw [recentCount_of_not_lively h, countWithin_of_not_lively h, List.length_eq_zero_iff]
      simp [h]
  · by_cases h : db.Lively now .h24
    · rw [recentCount_of_lively hchron hblocks h, recentCount_of_lively hchron hblocks h.d7]
      simp [h, countWithin_mono]
    · rw [recentCount_of_not_lively h]
      have hle : db.recentCount now .d7 ≤ db.transaction.rows.length := List.countP_le_length
      simp only [h, false_or]
      omega

def stopped : Store where
  block := Table.empty.upsert .ignore ⟨1, "B1", 0⟩
  transaction := Table.empty.upsert .ignore
    { hash := "T1", height := 1, success := true, memo := none, signerInfos := "[]"
      gasWanted := none, gasUsed := none, partitionId := 0, height_pos := Nat.one_pos }
  message := Table.empty
  messageType := Table.empty
  hash_nodup := List.nodup_singleton _
  primaryKey_nodup := MessageRow.empty_nodup

theorem counts_exact_iff_stopped :
    stopped.recentCount (3 * Period.h24.interval) .h24 ≠
        stopped.countWithin (3 * Period.h24.interval) .h24 ∧
      stopped.recentCount (3 * Period.h24.interval) .d7 =
        stopped.countWithin (3 * Period.h24.interval) .d7 := by
  have hchron : stopped.Chronological := by
    unfold Store.Chronological
    decide
  have hblocks : stopped.HasBlocks := by
    unfold Store.HasBlocks
    simp [stopped, Table.empty, Table.upsert]
  obtain ⟨hexact, -⟩ := counts_exact_iff hchron hblocks (3 * Period.h24.interval)
  refine ⟨fun h => ?_, (hexact .d7).mpr (.inl ?_)⟩
  · have hlively := (hexact .h24).mp h
    revert hlively
    unfold Store.Lively
    simp [stopped, Table.empty, Table.upsert, Period.interval]
  · exact ⟨⟨1, "B1", 0⟩, by simp [stopped, Table.empty, Table.upsert], by decide⟩

end

end SafrochainIndexer.Api
