import SafrochainIndexer.Callisto.GovDatabase
import Mathlib.Algebra.Order.Group.Int

/-!
# The consensus module

The average block times of the last minute, hour and day, and since genesis.
Each is an elapsed time over a number of heights: the `..Division` functions end
at the division, the `update..` functions store the quotient.

Instants are microseconds, durations nanoseconds as in Go.
-/

namespace SafrochainIndexer.Callisto.Consensus

/-- `time.Time.Sub`, which saturates. -/
def timeSub (t u : Int) : Int := max (-2 ^ 63) (min (2 ^ 63 - 1) ((t - u) * 1000))

def minute : Int := 60 * 10 ^ 9

def hour : Int := 60 * minute

/-- `time.Time.Add` of a duration of whole microseconds. -/
def timeAdd (t d : Int) : Int := t + d / 1000

/-- The row that `ORDER BY timestamp DESC LIMIT 1` picks. -/
structure NewestFirst where
  pick : List BlockRow → Option BlockRow
  mem : ∀ {rows row}, pick rows = some row → row ∈ rows
  le : ∀ {rows row}, pick rows = some row → ∀ r ∈ rows, r.timestamp ≤ row.timestamp
  none_iff : ∀ {rows}, pick rows = none ↔ rows = []

/-- `quotient` is the decimal text of a duration in seconds over a number. -/
structure Module where
  newest : NewestFirst
  quotient : Int → Int → String

-- ---------------------------------------------------------------------------
-- Blocks and genesis
-- ---------------------------------------------------------------------------

def getLastBlock : Eff Db BlockRow := do
  let s ← get
  if s.block.rows = [] then Eff.fail "cannot get block, no blocks saved"
  else pure (lastBlock s.block.rows)

def getGenesis : Eff Db GenesisRow := do
  let s ← get
  match s.genesis.find () with
  | none => Eff.fail "no rows inside the genesis table"
  | some row => pure row

variable (m : Module)

def Module.getBlockHeightTime (pastTime : Int) : Eff Db BlockRow := do
  let s ← get
  match m.newest.pick (s.block.rows.filter fun row => row.timestamp ≤ pastTime) with
  | none => Eff.fail "cannot get block time, no blocks saved"
  | some row => pure row

def Module.getBlockHeightTimeMinuteAgo (now : Int) : Eff Db BlockRow :=
  m.getBlockHeightTime (timeAdd now (minute * -1))

def Module.getBlockHeightTimeHourAgo (now : Int) : Eff Db BlockRow :=
  m.getBlockHeightTime (timeAdd now (hour * -1))

def Module.getBlockHeightTimeDayAgo (now : Int) : Eff Db BlockRow :=
  m.getBlockHeightTime (timeAdd now (hour * -24))

-- ---------------------------------------------------------------------------
-- Averages
-- ---------------------------------------------------------------------------

def averageTimeConflict : Conflict (oneRowId (ρ := AverageTimeRow)) where
  set _ excluded := { averageTime := excluded.averageTime, height := excluded.height }
  guard stored excluded := stored.height ≤ excluded.height
  key_set _ _ := rfl

def saveAverageBlockTimePerMin (averageTime : String) (height : Int) : Eff Db Unit :=
  Eff.wrap "error while storing average block time per minute: "
    (averageBlockTimePerMinuteTable.insert averageTimeConflict [⟨averageTime, height⟩])

def saveAverageBlockTimePerHour (averageTime : String) (height : Int) : Eff Db Unit :=
  Eff.wrap "error while storing average block time per hour: "
    (averageBlockTimePerHourTable.insert averageTimeConflict [⟨averageTime, height⟩])

def saveAverageBlockTimePerDay (averageTime : String) (height : Int) : Eff Db Unit :=
  Eff.wrap "error while storing average block time per day: "
    (averageBlockTimePerDayTable.insert averageTimeConflict [⟨averageTime, height⟩])

def saveAverageBlockTimeGenesis (averageTime : String) (height : Int) : Eff Db Unit :=
  Eff.wrap "error while storing average block time since genesis: "
    (averageBlockTimeFromGenesisTable.insert averageTimeConflict [⟨averageTime, height⟩])

/-- A division that is reached: the elapsed time, the number of heights, and the
height at which the quotient is stored. -/
structure Division where
  elapsed : Int
  heights : Int
  height : Int
  deriving DecidableEq, Repr

def Division.between (newer older : BlockRow) : Division where
  elapsed := timeSub newer.timestamp older.timestamp
  heights := newer.height - older.height
  height := newer.height

/-- What the three windows share. The chain has to be `age` old; `ago` is the
block to compare the last one with. -/
def windowDivision (age : Int) (getting : String) (ago : Int → Eff Db BlockRow) :
    Eff Db (Option Division) := do
  let block ← Eff.wrap "error while getting last block: " getLastBlock
  let genesis ← Eff.wrap "error while getting genesis: " getGenesis
  if timeSub block.timestamp genesis.time < age then pure none
  else do
    let past ← Eff.wrap getting (ago block.timestamp)
    pure (some (.between block past))

def Module.minuteDivision : Eff Db (Option Division) :=
  windowDivision 0 "error while getting block height a minute ago: " m.getBlockHeightTimeMinuteAgo

def Module.hourDivision : Eff Db (Option Division) :=
  windowDivision 0 "error while getting block height an hour ago: " m.getBlockHeightTimeHourAgo

def Module.dayDivision : Eff Db (Option Division) :=
  windowDivision (24 * hour) "error while getting block time a day ago: " m.getBlockHeightTimeDayAgo

/-- Neither the height nor the time of the block is checked. -/
def genesisDivision (block : BlockRow) : Eff Db (Option Division) := do
  let genesis ← Eff.wrap "error while getting genesis: " getGenesis
  pure (some (.between block ⟨genesis.initialHeight, genesis.time⟩))

/-- The quotient is stored if the division is reached. -/
def Module.store (save : String → Int → Eff Db Unit) (division : Eff Db (Option Division)) :
    Eff Db Unit := do
  match ← division with
  | none => pure ()
  | some d => save (m.quotient d.elapsed d.heights) d.height

def Module.updateBlockTimeInMinute : Eff Db Unit := m.store saveAverageBlockTimePerMin m.minuteDivision

def Module.updateBlockTimeInHour : Eff Db Unit := m.store saveAverageBlockTimePerHour m.hourDivision

def Module.updateBlockTimeInDay : Eff Db Unit := m.store saveAverageBlockTimePerDay m.dayDivision

def Module.updateBlockTimeFromGenesis (block : BlockRow) : Eff Db Unit :=
  m.store saveAverageBlockTimeGenesis (genesisDivision block)

def Module.handleBlock (block : BlockRow) : Eff Db Unit :=
  Eff.attempt (m.updateBlockTimeFromGenesis block)

-- ---------------------------------------------------------------------------
-- Divisors
-- ---------------------------------------------------------------------------

def Chronological (blocks : List BlockRow) : Prop :=
  ∀ a ∈ blocks, ∀ b ∈ blocks, a.height ≤ b.height → a.timestamp ≤ b.timestamp

instance (blocks : List BlockRow) : Decidable (Chronological blocks) :=
  inferInstanceAs (Decidable (∀ a ∈ blocks, ∀ b ∈ blocks, _ → _))

def Division.Sound (d : Division) : Prop := 0 < d.heights ∧ 0 ≤ d.elapsed

def Safe (division : Eff Db (Option Division)) (s : Db) : Prop :=
  ∀ d t, Eff.Returns division s (some d) t → d.Sound

theorem timeSub_nonneg {t u : Int} : 0 ≤ timeSub t u ↔ u ≤ t := by
  unfold timeSub
  omega

theorem between_sound {blocks : List BlockRow} (h : Chronological blocks) {newer older : BlockRow}
    (hnewer : newer ∈ blocks) (holder : older ∈ blocks) (hlt : older.timestamp < newer.timestamp) :
    (Division.between newer older).Sound := by
  constructor
  · have hheight : older.height < newer.height := by
      by_contra hle
      exact absurd (h newer hnewer older holder (Int.not_lt.mp hle)) (Int.not_le.mpr hlt)
    exact Int.sub_pos.mpr hheight
  · exact timeSub_nonneg.mpr hlt.le

section
variable {m} {s : Db}

theorem getLastBlock_returns {row : BlockRow} {t : Db} (h : Eff.Returns getLastBlock s row t) :
    row ∈ s.block.rows ∧ t = s := by
  obtain ⟨_, _, hget, hrow⟩ := Eff.returns_bind.mp h
  obtain ⟨rfl, rfl⟩ := Eff.returns_get.mp hget
  split at hrow
  · simp at hrow
  · rename_i hne
    obtain ⟨rfl, rfl⟩ := Eff.returns_pure.mp hrow
    exact ⟨(lastBlock_spec hne).1, rfl⟩

theorem getGenesis_returns {row : GenesisRow} {t : Db} :
    Eff.Returns getGenesis s row t ↔ s.genesis.find () = some row ∧ s = t := by
  unfold getGenesis
  simp only [Eff.returns_bind, Eff.returns_get]
  constructor
  · rintro ⟨_, _, ⟨rfl, rfl⟩, h⟩
    cases hfind : s.genesis.find () with
    | none => simp [hfind] at h
    | some genesis => simpa [hfind] using h
  · rintro ⟨hfind, rfl⟩
    exact ⟨s, s, ⟨rfl, rfl⟩, by simp [hfind]⟩

theorem getBlockHeightTime_returns {pastTime : Int} {row : BlockRow} {t : Db}
    (h : Eff.Returns (m.getBlockHeightTime pastTime) s row t) :
    row ∈ s.block.rows ∧ row.timestamp ≤ pastTime := by
  obtain ⟨_, _, hget, hrow⟩ := Eff.returns_bind.mp h
  obtain ⟨rfl, rfl⟩ := Eff.returns_get.mp hget
  cases hpick : m.newest.pick (s.block.rows.filter fun row => row.timestamp ≤ pastTime) with
  | none => simp [hpick] at hrow
  | some picked =>
    rw [hpick] at hrow
    obtain ⟨rfl, -⟩ := Eff.returns_pure.mp hrow
    simpa using List.mem_filter.mp (m.newest.mem hpick)

/-- The block of a window is older than the last one. -/
theorem windowDivision_safe (h : Chronological s.block.rows) {age : Int} {getting : String}
    {ago : Int → Eff Db BlockRow}
    (hago : ∀ now row t, Eff.Returns (ago now) s row t →
      row ∈ s.block.rows ∧ row.timestamp < now) :
    Safe (windowDivision age getting ago) s := by
  intro d t hd
  obtain ⟨block, u, hblock, hafter⟩ := Eff.returns_bind.mp hd
  obtain ⟨hmem, rfl⟩ := getLastBlock_returns (Eff.returns_wrap.mp hblock)
  obtain ⟨genesis, v, hgenesis, hreached⟩ := Eff.returns_bind.mp hafter
  obtain ⟨-, rfl⟩ := getGenesis_returns.mp (Eff.returns_wrap.mp hgenesis)
  split at hreached
  · simp at hreached
  · obtain ⟨past, w, hpast, hdivide⟩ := Eff.returns_bind.mp hreached
    obtain ⟨hpast, hlt⟩ := hago _ _ _ (Eff.returns_wrap.mp hpast)
    obtain ⟨hdivision, -⟩ := Eff.returns_pure.mp hdivide
    obtain rfl := Option.some.inj hdivision
    exact between_sound h hmem hpast hlt

theorem windows_safe (m : Module) (h : Chronological s.block.rows) :
    Safe m.minuteDivision s ∧ Safe m.hourDivision s ∧ Safe m.dayDivision s := by
  refine ⟨windowDivision_safe h ?_, windowDivision_safe h ?_, windowDivision_safe h ?_⟩
  all_goals
    intro now row t hrow
    obtain ⟨hmem, hle⟩ := getBlockHeightTime_returns hrow
    refine ⟨hmem, lt_of_le_of_lt hle ?_⟩
    simp only [timeAdd, hour, minute]
    omega

/-- An update that returns has changed nothing, or stored a sound quotient. -/
def StoresSoundly (m : Module) (save : String → Int → Eff Db Unit) (update : Eff Db Unit) (s : Db) :
    Prop :=
  ∀ t, Eff.Returns update s () t → t = s ∨
    ∃ d : Division, d.Sound ∧ Eff.Returns (save (m.quotient d.elapsed d.heights) d.height) s () t

theorem store_soundly {save : String → Int → Eff Db Unit} {division : Eff Db (Option Division)}
    (hfixes : Eff.Fixes (fun s : Db => s) division) (h : Safe division s) :
    StoresSoundly m save (m.store save division) s := by
  intro t hreturns
  obtain ⟨reached, u, hdivision, hstore⟩ := Eff.returns_bind.mp hreturns
  obtain rfl : u = s := hfixes.of_returns hdivision
  cases reached with
  | none => exact .inl (Eff.returns_pure.mp hstore).2.symm
  | some d => exact .inr ⟨d, h d u hdivision, hstore⟩

theorem windowDivision_fixes {age : Int} {getting : String} {ago : Int → Eff Db BlockRow}
    (hago : ∀ now, Eff.Fixes (fun s : Db => s) (ago now)) :
    Eff.Fixes (fun s : Db => s) (windowDivision age getting ago) := by
  refine .bind (.wrap (.bind .get fun s => ?_)) fun block => ?_
  · cases s.block.rows with
    | nil => exact .fail
    | cons row rows => exact .pure
  · refine .bind (.wrap (.bind .get fun s => ?_)) fun genesis => ?_
    · cases s.genesis.find () with
      | none => exact .fail
      | some genesis => exact .pure
    · split
      · exact .pure
      · exact .bind (.wrap (hago _)) fun _ => .pure

theorem getBlockHeightTime_fixes (pastTime : Int) :
    Eff.Fixes (fun s : Db => s) (m.getBlockHeightTime pastTime) := by
  refine .bind .get fun s => ?_
  split
  · exact .fail
  · exact .pure

theorem windows_store_soundly (m : Module) (h : Chronological s.block.rows) :
    StoresSoundly m saveAverageBlockTimePerMin m.updateBlockTimeInMinute s ∧
      StoresSoundly m saveAverageBlockTimePerHour m.updateBlockTimeInHour s ∧
      StoresSoundly m saveAverageBlockTimePerDay m.updateBlockTimeInDay s := by
  obtain ⟨hminute, hhour, hday⟩ := windows_safe m h
  refine ⟨store_soundly ?_ hminute, store_soundly ?_ hhour, store_soundly ?_ hday⟩
  all_goals exact windowDivision_fixes fun _ => getBlockHeightTime_fixes _

theorem genesisDivision_safe_iff {genesis : GenesisRow} (hg : s.genesis.find () = some genesis)
    {block : BlockRow} (htime : genesis.time ≤ block.timestamp) :
    Safe (genesisDivision block) s ↔ genesis.initialHeight < block.height := by
  have hreturns : Eff.Returns (genesisDivision block) s
      (some (.between block ⟨genesis.initialHeight, genesis.time⟩)) s :=
    Eff.returns_bind.mpr ⟨genesis, s, Eff.returns_wrap.mpr (getGenesis_returns.mpr ⟨hg, rfl⟩), by simp⟩
  constructor
  · intro h
    exact Int.sub_pos.mp (h _ _ hreturns).1
  · intro hlt d t hd
    obtain ⟨hdivision, -⟩ := hreturns.unique hd
    obtain rfl := Option.some.inj hdivision
    exact ⟨Int.sub_pos.mpr hlt, timeSub_nonneg.mpr htime⟩

end

/-- Blocks and genesis of one chain, and a block of it that is handled. -/
structure OneChain (s : Db) (genesis : GenesisRow) (block : BlockRow) : Prop where
  blocks_ne : s.block.rows ≠ []
  chronological : Chronological (block :: s.block.rows)
  genesis_find : s.genesis.find () = some genesis
  initialHeight_pos : 1 ≤ genesis.initialHeight
  genesis_le : ∀ b ∈ block :: s.block.rows, genesis.time ≤ b.timestamp
  height_le : genesis.initialHeight ≤ block.height

/-- No average divides by zero, except that since genesis at the first block. -/
theorem divisions_safe_iff {s : Db} {genesis : GenesisRow} {block : BlockRow}
    (h : OneChain s genesis block) :
    (Safe m.minuteDivision s ∧ Safe m.hourDivision s ∧ Safe m.dayDivision s ∧
      Safe (genesisDivision block) s) ↔ genesis.initialHeight < block.height := by
  have hstored : Chronological s.block.rows := fun a ha b hb =>
    h.chronological a (List.mem_cons_of_mem _ ha) b (List.mem_cons_of_mem _ hb)
  have hgenesis := genesisDivision_safe_iff h.genesis_find (h.genesis_le block (by simp))
  obtain ⟨hminute, hhour, hday⟩ := windows_safe m hstored
  constructor
  · exact fun hsafe => hgenesis.mp hsafe.2.2.2
  · exact fun hlt => ⟨hminute, hhour, hday, hgenesis.mpr hlt⟩

def firstNewest : List BlockRow → Option BlockRow
  | [] => none
  | row :: rows =>
    match firstNewest rows with
    | none => some row
    | some newest => if row.timestamp < newest.timestamp then some newest else some row

theorem firstNewest_eq_none {rows : List BlockRow} : firstNewest rows = none ↔ rows = [] := by
  cases rows with
  | nil => simp [firstNewest]
  | cons row rows =>
    cases hrest : firstNewest rows with
    | none => simp [firstNewest, hrest]
    | some newest =>
      simp only [firstNewest, hrest]
      split <;> simp

theorem firstNewest_spec {rows : List BlockRow} {newest : BlockRow}
    (h : firstNewest rows = some newest) :
    newest ∈ rows ∧ ∀ row ∈ rows, row.timestamp ≤ newest.timestamp := by
  induction rows generalizing newest with
  | nil => simp [firstNewest] at h
  | cons row rows ih =>
    cases hrest : firstNewest rows with
    | none =>
      obtain rfl : row = newest := by simpa [firstNewest, hrest] using h
      simp [firstNewest_eq_none.mp hrest]
    | some later =>
      obtain ⟨hmem, hle⟩ := ih hrest
      simp only [firstNewest, hrest] at h
      split at h
      · rename_i hlt
        obtain rfl := Option.some.inj h
        exact ⟨List.mem_cons_of_mem _ hmem, List.forall_mem_cons.mpr ⟨Int.le_of_lt hlt, hle⟩⟩
      · rename_i hlt
        obtain rfl := Option.some.inj h
        refine ⟨List.mem_cons_self, List.forall_mem_cons.mpr ⟨Int.le_refl _, fun r hr => ?_⟩⟩
        exact Int.le_trans (hle r hr) (Int.not_lt.mp hlt)

def newestFirst : NewestFirst where
  pick := firstNewest
  mem h := (firstNewest_spec h).1
  le h := (firstNewest_spec h).2
  none_iff := firstNewest_eq_none

def plain : Module := ⟨newestFirst, fun elapsed heights => s!"{elapsed}/{heights}"⟩

def firstBlocks (blocks : List BlockRow) : Db :=
  { (default : Db) with
    block := blocks.foldl (Table.upsert .ignore) Table.empty
    genesis := Table.empty.upsert .ignore ⟨"chain", 0, 1⟩ }

theorem divisions_safe_second :
    (Safe plain.minuteDivision (firstBlocks [⟨1, 1000000⟩, ⟨2, 7000000⟩]) ∧
      Safe plain.hourDivision (firstBlocks [⟨1, 1000000⟩, ⟨2, 7000000⟩]) ∧
      Safe plain.dayDivision (firstBlocks [⟨1, 1000000⟩, ⟨2, 7000000⟩]) ∧
      Safe (genesisDivision ⟨2, 7000000⟩) (firstBlocks [⟨1, 1000000⟩, ⟨2, 7000000⟩])) ↔
        (1 : Int) < 2 :=
  divisions_safe_iff plain
    (show OneChain _ ⟨"chain", 0, 1⟩ _ from
      ⟨by decide, by decide, by decide, by decide, by decide, by decide⟩)

/-- At the first block the time since genesis is divided by zero heights. -/
theorem first_block_divides_by_zero :
    OneChain (firstBlocks [⟨1, 1000000⟩]) ⟨"chain", 0, 1⟩ ⟨1, 1000000⟩ ∧
      ¬ Safe (genesisDivision ⟨1, 1000000⟩) (firstBlocks [⟨1, 1000000⟩]) := by
  refine ⟨⟨by decide, by decide, by decide, by decide, by decide, by decide⟩, ?_⟩
  intro h
  have hfind : (firstBlocks [⟨1, 1000000⟩]).genesis.find () = some ⟨"chain", 0, 1⟩ := rfl
  exact absurd ((genesisDivision_safe_iff hfind (by decide)).mp h) (by decide)

end SafrochainIndexer.Callisto.Consensus
