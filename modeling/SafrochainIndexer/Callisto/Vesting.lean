import SafrochainIndexer.Callisto.Auth

/-!
# Vesting accounts

`SaveVestingAccounts` and the rows of an account and of its periods. To one
address belong at most one `vesting_account` row and, through the id of that
row, its `vesting_period` rows: `holdings` is what the tables say about each
address, and every store function acts on it as one `Write`.
-/

namespace SafrochainIndexer.Callisto

/-- A `vestingtypes.Period`. -/
structure Period where
  length : Int
  amount : List Coin
  deriving DecidableEq, Repr

/-- An `exported.VestingAccount`; its times count seconds. -/
inductive ExportedVestingAccount
  | continuous (base : BaseVestingAccount) (startTime : Int)
  | delayed (base : BaseVestingAccount)
  | periodic (base : BaseVestingAccount) (startTime : Int) (vestingPeriods : List Period)
  | permanentLocked (base : BaseVestingAccount)
  deriving DecidableEq, Repr

namespace ExportedVestingAccount

def base : ExportedVestingAccount → BaseVestingAccount
  | .continuous base _ => base
  | .delayed base => base
  | .periodic base _ _ => base
  | .permanentLocked base => base

def getStartTime : ExportedVestingAccount → Int
  | .continuous _ startTime => startTime
  | .delayed _ => 0
  | .periodic _ startTime _ => startTime
  | .permanentLocked _ => 0

def messageName : ExportedVestingAccount → String
  | .continuous .. => "cosmos.vesting.v1beta1.ContinuousVestingAccount"
  | .delayed _ => "cosmos.vesting.v1beta1.DelayedVestingAccount"
  | .periodic .. => "cosmos.vesting.v1beta1.PeriodicVestingAccount"
  | .permanentLocked _ => "cosmos.vesting.v1beta1.PermanentLockedAccount"

def row (account : ExportedVestingAccount) (id : Nat) : VestingAccountRow where
  id := id
  type := account.messageName
  address := account.base.address
  originalVesting := newDbCoins account.base.originalVesting
  endTime := account.base.endTime * 10 ^ 6
  startTime := some (account.getStartTime * 10 ^ 6)

end ExportedVestingAccount

/-- `type` is not among the columns that are set. -/
def vestingConflict : Conflict VestingAccountRow.address where
  set stored excluded :=
    { stored with
      originalVesting := excluded.originalVesting
      endTime := excluded.endTime
      startTime := excluded.startTime }
  guard _ _ := true
  key_set _ _ := rfl

def returningVestingAccountId (address : String) : Eff Db Nat := do
  let s ← get
  match s.vestingAccount.find address with
  | none => Eff.fail "sql: no rows in result set"
  | some row => pure row.id

def storeVestingAccount (account : ExportedVestingAccount) : Eff Db Nat := do
  Eff.wrap "error while storing vesting account address: " (saveAccounts [⟨account.base.address⟩])
  Eff.wrap s!"error while saving Vesting Account of type {account.messageName}: " do
    timestampParameter (account.base.endTime * 10 ^ 6)
    timestampParameter (account.getStartTime * 10 ^ 6)
    let id ← nextVestingAccountId
    vestingAccountTable.insert vestingConflict [account.row id]
    returningVestingAccountId account.base.address

def periodRows (id : Nat) (vestingPeriods : List Period) : List VestingPeriodRow :=
  vestingPeriods.zipIdx.map fun (period, order) =>
    ⟨id, order, period.length, newDbCoins period.amount⟩

/-- With no period the statement ends after `VALUES`. -/
def insertVestingPeriods (id : Nat) (vestingPeriods : List Period) : Eff Db Unit := do
  let s ← get
  if vestingPeriods.length = 0 then Eff.fail "pq: syntax error at end of input"
  else
    sending (vestingPeriods.length * 4) <|
      match foreignKey "vesting_period" "vesting_account_id"
        (s.vestingAccount.rows.any fun row => row.id = id) with
      | some message => Eff.fail message
      | none => set { s with vestingPeriod := s.vestingPeriod ++ periodRows id vestingPeriods }

def deleteVestingPeriods (id : Nat) : Eff Db Unit :=
  modify fun s =>
    { s with vestingPeriod := s.vestingPeriod.filter fun row => row.vestingAccountId ≠ id }

def storeVestingPeriods (id : Nat) (vestingPeriods : List Period) : Eff Db Unit := do
  deleteVestingPeriods id
  Eff.wrap "error while saving vesting periods: " (insertVestingPeriods id vestingPeriods)

/-- The body of the loop of `SaveVestingAccounts`. -/
def saveVestingAccount (account : ExportedVestingAccount) : Eff Db Unit :=
  match account with
  | .continuous .. | .delayed _ => do
    let _ ← storeVestingAccount account
  | .periodic _ _ vestingPeriods => do
    let vestingAccountRowID ← storeVestingAccount account
    storeVestingPeriods vestingAccountRowID vestingPeriods
  | .permanentLocked _ => pure ()

def saveVestingAccounts (vestingAccounts : List ExportedVestingAccount) : Eff Db Unit :=
  if vestingAccounts.length = 0 then pure ()
  else vestingAccounts.forM saveVestingAccount

-- ---------------------------------------------------------------------------
-- Holdings
-- ---------------------------------------------------------------------------

/-- A row of `vesting_period` without the account. -/
structure VestingPeriod where
  order : Int
  length : Int
  amount : List DbCoin
  deriving DecidableEq, Repr

def VestingPeriodRow.shown (row : VestingPeriodRow) : VestingPeriod :=
  ⟨row.periodOrder, row.length, row.amount⟩

structure Holding where
  account : VestingAccount
  periods : List VestingPeriod
  deriving DecidableEq, Repr

def Db.periodsOf (s : Db) (id : Nat) : List VestingPeriod :=
  (s.vestingPeriod.filter fun row => row.vestingAccountId = id).map VestingPeriodRow.shown

def holdings (s : Db) (address : String) : Option Holding :=
  (s.vestingAccount.find address).map fun row => ⟨row.shown, s.periodsOf row.id⟩

def Db.vestingIds (s : Db) : List Nat := s.vestingAccount.rows.map VestingAccountRow.id

/-- What the constraints of the two tables say: ids are unique, the sequence is
ahead of them, and the periods belong to stored accounts. -/
structure VestingKeys (s : Db) : Prop where
  ids_nodup : s.vestingIds.Nodup
  ids_lt : ∀ id ∈ s.vestingIds, id < s.vestingAccountIdSeq
  periods_mem : ∀ period ∈ s.vestingPeriod, period.vestingAccountId ∈ s.vestingIds

/-- A write at the address of `account`. The type counts for a new row only,
unless `setsType`; the periods stay if there are none to write. -/
structure Write where
  account : VestingAccount
  setsType : Bool
  periods : Option (List VestingPeriod)
  deriving DecidableEq, Repr

namespace Write

def apply (w : Write) : Option Holding → Holding
  | none => ⟨w.account, w.periods.getD []⟩
  | some held =>
    ⟨{ w.account with type := if w.setsType then w.account.type else held.account.type },
      w.periods.getD held.periods⟩

def act (held : String → Option Holding) (w : Write) (address : String) : Option Holding :=
  if address = w.account.address then some (w.apply (held address)) else held address

theorem act_periods {held : String → Option Holding} {account : VestingAccount} {setsType : Bool}
    {holding : Holding}
    (h : act held ⟨account, setsType, none⟩ account.address = some holding)
    (periods : List VestingPeriod) (address : String) :
    (if address = account.address then some ⟨holding.account, periods⟩
      else act held ⟨account, setsType, none⟩ address) =
        act held ⟨account, setsType, some periods⟩ address := by
  unfold act at h ⊢
  by_cases he : address = account.address
  · subst he
    simp only [if_true, Option.some.injEq] at h ⊢
    subst h
    cases held account.address <;> rfl
  · simp [he]

end Write

-- ---------------------------------------------------------------------------
-- Rows of an account
-- ---------------------------------------------------------------------------

structure VestingClause (c : Conflict VestingAccountRow.address) (setsType : Bool) : Prop where
  id_merge : ∀ stored r, (c.merge stored r).id = stored.id
  shown_merge : ∀ stored r, stored.address = r.address →
    (c.merge stored r).shown =
      { r.shown with type := if setsType then r.type else stored.type }

theorem vestingConflict_clause : VestingClause vestingConflict false where
  id_merge _ _ := rfl
  shown_merge stored r h := by
    simp [Conflict.merge, vestingConflict, VestingAccountRow.shown, h]

theorem baseVestingConflict_clause : VestingClause baseVestingConflict true where
  id_merge _ _ := rfl
  shown_merge stored r h := by
    simp [Conflict.merge, baseVestingConflict, VestingAccountRow.shown, h]

section
variable {s : Db} {c : Conflict VestingAccountRow.address} {setsType : Bool} {r : VestingAccountRow}

theorem VestingKeys.of_tables {t : Db} (h : VestingKeys s)
    (haccount : t.vestingAccount = s.vestingAccount)
    (hseq : t.vestingAccountIdSeq = s.vestingAccountIdSeq)
    (hperiod : t.vestingPeriod = s.vestingPeriod) : VestingKeys t := by
  have hids : t.vestingIds = s.vestingIds := by rw [Db.vestingIds, haccount]; rfl
  constructor
  · exact hids ▸ h.ids_nodup
  · exact hids ▸ hseq ▸ h.ids_lt
  · exact hids ▸ hperiod ▸ h.periods_mem

theorem VestingKeys.fresh (h : VestingKeys s) : s.vestingAccountIdSeq ∉ s.vestingIds :=
  fun hmem => Nat.lt_irrefl _ (h.ids_lt _ hmem)

theorem VestingKeys.periodsOf_fresh (h : VestingKeys s) :
    s.periodsOf s.vestingAccountIdSeq = [] := by
  have hnone : (s.vestingPeriod.filter fun row => row.vestingAccountId = s.vestingAccountIdSeq) =
      [] := by
    rw [List.filter_eq_nil_iff]
    intro period hperiod he
    exact h.fresh (of_decide_eq_true he ▸ h.periods_mem period hperiod)
  simp [Db.periodsOf, hnone]

theorem VestingKeys.address_of_id (h : VestingKeys s) {address address' : String}
    {row row' : VestingAccountRow} (hrow : s.vestingAccount.find address = some row)
    (hrow' : s.vestingAccount.find address' = some row') (hid : row.id = row'.id) :
    address = address' := by
  have hsame : row = row' := List.inj_on_of_nodup_map h.ids_nodup (Table.mem_of_find hrow)
    (Table.mem_of_find hrow') hid
  rw [← Table.find_key hrow, ← Table.find_key hrow', hsame]

-- ---------------------------------------------------------------------------
-- Upserts of an account
-- ---------------------------------------------------------------------------

/-- An insert that draws an id. -/
def Db.upsertVesting (s : Db) (c : Conflict VestingAccountRow.address) (r : VestingAccountRow) : Db :=
  { s with
    vestingAccount := s.vestingAccount.upsert c r
    vestingAccountIdSeq := s.vestingAccountIdSeq + 1 }

theorem vestingIds_upsert (hc : VestingClause c setsType) :
    (s.upsertVesting c r).vestingIds = s.vestingIds ∨
      (s.upsertVesting c r).vestingIds = s.vestingIds ++ [r.id] := by
  unfold Db.vestingIds Db.upsertVesting Table.upsert
  dsimp only
  split
  · refine .inl ?_
    rw [List.map_map]
    refine List.map_congr_left fun o _ => ?_
    simp only [Function.comp_apply]
    split
    · exact hc.id_merge o r
    · rfl
  · exact .inr (by simp)

theorem VestingKeys.upsert (h : VestingKeys s) (hc : VestingClause c setsType)
    (hid : r.id = s.vestingAccountIdSeq) : VestingKeys (s.upsertVesting c r) := by
  have hseq : (s.upsertVesting c r).vestingAccountIdSeq = s.vestingAccountIdSeq + 1 := rfl
  have hperiod : (s.upsertVesting c r).vestingPeriod = s.vestingPeriod := rfl
  obtain hids | hids := vestingIds_upsert (s := s) (r := r) hc
  · constructor
    · exact hids ▸ h.ids_nodup
    · rw [hids, hseq]
      exact fun id hmem => Nat.lt_succ_of_lt (h.ids_lt id hmem)
    · rw [hids, hperiod]
      exact h.periods_mem
  · constructor
    · rw [hids]
      exact List.nodup_append.mpr ⟨h.ids_nodup, List.nodup_singleton _, by
        intro a ha b hb he
        rw [List.mem_singleton.mp hb, hid] at he
        exact h.fresh (he ▸ ha)⟩
    · rw [hids, hseq]
      intro id hmem
      obtain hmem | hmem := List.mem_append.mp hmem
      · exact Nat.lt_succ_of_lt (h.ids_lt id hmem)
      · rw [List.mem_singleton.mp hmem, hid]
        exact Nat.lt_succ_self _
    · rw [hids, hperiod]
      exact fun period hmem => List.mem_append_left _ (h.periods_mem period hmem)

theorem holdings_upsert (h : VestingKeys s) (hc : VestingClause c setsType)
    (hid : r.id = s.vestingAccountIdSeq) :
    holdings (s.upsertVesting c r) = Write.act (holdings s) ⟨r.shown, setsType, none⟩ := by
  funext address
  have hperiods : ∀ id, (s.upsertVesting c r).periodsOf id = s.periodsOf id := fun _ => rfl
  have hfind : (s.upsertVesting c r).vestingAccount.find address =
      (s.vestingAccount.upsert c r).find address := rfl
  by_cases haddress : address = r.address
  · subst haddress
    have hact : Write.act (holdings s) ⟨r.shown, setsType, none⟩ r.address =
        some (Write.apply ⟨r.shown, setsType, none⟩ (holdings s r.address)) := if_pos rfl
    rw [hact, holdings, holdings, hfind, Table.find_upsert_same]
    cases hstored : s.vestingAccount.find r.address with
    | none => simp [Write.apply, hperiods, hid, h.periodsOf_fresh]
    | some stored =>
      have hshown := hc.shown_merge stored r (Table.find_key hstored)
      simp only [Option.map_some, Conflict.resolve_some, hperiods, hc.id_merge, hshown, Write.apply]
      rfl
  · have hact : Write.act (holdings s) ⟨r.shown, setsType, none⟩ address = holdings s address :=
      if_neg haddress
    rw [hact, holdings, holdings, hfind, Table.find_upsert_ne _ _ haddress]
    rfl

-- ---------------------------------------------------------------------------
-- Periods of an account
-- ---------------------------------------------------------------------------

def Db.replacePeriods (s : Db) (id : Nat) (rows : List VestingPeriodRow) : Db :=
  { s with
    vestingPeriod := (s.vestingPeriod.filter fun row => row.vestingAccountId ≠ id) ++ rows }

theorem VestingKeys.replacePeriods (h : VestingKeys s) {id : Nat} (hid : id ∈ s.vestingIds)
    {rows : List VestingPeriodRow} (hrows : ∀ row ∈ rows, row.vestingAccountId = id) :
    VestingKeys (s.replacePeriods id rows) where
  ids_nodup := h.ids_nodup
  ids_lt := h.ids_lt
  periods_mem period hmem := by
    obtain hmem | hmem := List.mem_append.mp hmem
    · exact h.periods_mem period (List.mem_filter.mp hmem).1
    · exact hrows period hmem ▸ hid

theorem periodsOf_replaced {id : Nat} {rows : List VestingPeriodRow}
    (hrows : ∀ row ∈ rows, row.vestingAccountId = id) :
    (s.replacePeriods id rows).periodsOf id = rows.map VestingPeriodRow.shown := by
  have hold : (s.vestingPeriod.filter fun row => row.vestingAccountId ≠ id).filter
      (fun row => row.vestingAccountId = id) = [] := by
    simp [List.filter_filter]
  have hnew : rows.filter (fun row => row.vestingAccountId = id) = rows :=
    List.filter_eq_self.mpr fun row hrow => decide_eq_true (hrows row hrow)
  rw [Db.periodsOf, Db.replacePeriods, List.filter_append, hold, hnew, List.nil_append]

theorem periodsOf_other {id other : Nat} (hne : other ≠ id) {rows : List VestingPeriodRow}
    (hrows : ∀ row ∈ rows, row.vestingAccountId = id) :
    (s.replacePeriods id rows).periodsOf other = s.periodsOf other := by
  have hold : (s.vestingPeriod.filter fun row => row.vestingAccountId ≠ id).filter
      (fun row => row.vestingAccountId = other) =
        s.vestingPeriod.filter fun row => row.vestingAccountId = other := by
    rw [List.filter_filter]
    refine List.filter_congr fun row _ => ?_
    by_cases he : row.vestingAccountId = other
    · simp [he, hne]
    · simp [he]
  have hnew : rows.filter (fun row => row.vestingAccountId = other) = [] := by
    rw [List.filter_eq_nil_iff]
    intro row hrow he
    exact hne ((of_decide_eq_true he).symm.trans (hrows row hrow))
  rw [Db.periodsOf, Db.replacePeriods, List.filter_append, hold, hnew, List.append_nil, Db.periodsOf]

theorem holdings_replacePeriods (h : VestingKeys s) {address : String} {row : VestingAccountRow}
    (hrow : s.vestingAccount.find address = some row) {rows : List VestingPeriodRow}
    (hrows : ∀ r ∈ rows, r.vestingAccountId = row.id) (other : String) :
    holdings (s.replacePeriods row.id rows) other =
      if other = address then some ⟨row.shown, rows.map VestingPeriodRow.shown⟩
      else holdings s other := by
  have haccount : (s.replacePeriods row.id rows).vestingAccount = s.vestingAccount := rfl
  unfold holdings
  rw [haccount]
  by_cases he : other = address
  · simp [he, hrow, periodsOf_replaced hrows]
  · rw [if_neg he]
    cases hother : s.vestingAccount.find other with
    | none => rfl
    | some stored =>
      have hne : stored.id ≠ row.id := fun hid => he (h.address_of_id hother hrow hid)
      simp [periodsOf_other hne hrows]

-- ---------------------------------------------------------------------------
-- Calls as writes
-- ---------------------------------------------------------------------------

/-- The call returns if it is accepted, and acts on the holdings as `writes`
either way. -/
def Does (call : Eff Db Unit) (accepted : Bool) (writes : List Write) : Prop :=
  ∀ s, VestingKeys s → ∃ t,
    (if accepted then Eff.Returns call s () t else Eff.Fails call s t) ∧
    VestingKeys t ∧ holdings t = writes.foldl Write.act (holdings s)

theorem Does.of_pure : Does (pure ()) true [] := fun s h => ⟨s, by simp, h, rfl⟩

def rounds {α : Type} (accepted : α → Bool) : List α → List α
  | [] => []
  | a :: as => a :: if accepted a then rounds accepted as else []

theorem Does.forM {α : Type} {round : α → Eff Db Unit} {accepted : α → Bool}
    {writes : α → List Write} (h : ∀ a, Does (round a) (accepted a) (writes a)) (as : List α) :
    Does (as.forM round) (as.all accepted) ((rounds accepted as).flatMap writes) := by
  induction as with
  | nil => exact .of_pure
  | cons a as ih =>
    intro s hs
    obtain ⟨t, hround, hkeys, hheld⟩ := h a s hs
    cases ha : accepted a with
    | false =>
      rw [ha] at hround
      refine ⟨t, ?_, hkeys, by simpa [rounds, ha] using hheld⟩
      simpa [ha] using Eff.fails_forM_cons.mpr (.inl hround)
    | true =>
      rw [ha] at hround
      obtain ⟨u, hrest, hkeys', hheld'⟩ := ih t hkeys
      refine ⟨u, ?_, hkeys', by simp [rounds, ha, hheld', hheld]⟩
      cases hall : as.all accepted with
      | false =>
        rw [hall] at hrest
        simpa [ha, hall] using Eff.fails_forM_cons.mpr (.inr ⟨t, hround, hrest⟩)
      | true =>
        rw [hall] at hrest
        simpa [ha, hall] using Eff.returns_forM_cons.mpr ⟨t, hround, hrest⟩

end

-- ---------------------------------------------------------------------------
-- The account row
-- ---------------------------------------------------------------------------

def BaseVestingAccount.timesFit (bva : BaseVestingAccount) (startTime : Int) : Bool :=
  (timestampColumn startTime).isNone && (timestampColumn (bva.endTime * 10 ^ 6)).isNone

def ExportedVestingAccount.timesFit (account : ExportedVestingAccount) : Bool :=
  account.base.timesFit (account.getStartTime * 10 ^ 6)

section
variable {s : Db}

theorem saveAccount_returns (s : Db) (address : String) :
    Eff.Returns (saveAccounts [⟨address⟩]) s () (s.addAccounts [⟨address⟩]) :=
  saveAccounts_short s (by simp [maxPostgreSQLParams])

theorem VestingKeys.addAccounts (h : VestingKeys s) (accounts : List Account) :
    VestingKeys (s.addAccounts accounts) := h.of_tables rfl rfl rfl

theorem fails_timestampParameter {t : Int} (h : (timestampColumn t).isNone = false) (s : Db) :
    Eff.Fails (timestampParameter t) s s := by
  cases hc : timestampColumn t with
  | none => simp [hc] at h
  | some message => exact ⟨_, exec_timestampParameter hc s⟩

theorem insertVesting_returns {c : Conflict VestingAccountRow.address} {r : VestingAccountRow}
    (haccount : s.hasAccount r.address = true) :
    Eff.Returns (vestingAccountTable.insert c [r]) s ()
      { s with vestingAccount := s.vestingAccount.upsert c r } := by
  refine Relation.insert_ok (by simp) fun row hrow _ => ?_
  obtain rfl := List.mem_singleton.mp hrow
  exact vestingAccount_resolved haccount

theorem storeBaseVestingAccountFromMsg_does (bva : BaseVestingAccount) (txTimestamp : Int) :
    Does (storeBaseVestingAccountFromMsg bva txTimestamp) (bva.timesFit txTimestamp)
      (if bva.timesFit txTimestamp then [⟨(bva.row 0 txTimestamp).shown, true, none⟩] else []) := by
  intro s hs
  have hs' := hs.addAccounts [⟨bva.address⟩]
  unfold storeBaseVestingAccountFromMsg
  cases hfit : bva.timesFit txTimestamp with
  | false =>
    refine ⟨s.addAccounts [⟨bva.address⟩], ?_, hs', rfl⟩
    refine Eff.fails_bind.mpr (.inr ⟨_, _, Eff.returns_wrap.mpr (saveAccount_returns s _), ?_⟩)
    refine Eff.fails_wrap.mpr ?_
    unfold BaseVestingAccount.timesFit at hfit
    cases hstart : timestampColumn txTimestamp with
    | some message => exact Eff.fails_bind.mpr (.inl ⟨_, exec_timestampParameter hstart _⟩)
    | none =>
      refine Eff.fails_bind.mpr (.inr ⟨_, _, timestampParameter_returns hstart _, ?_⟩)
      refine Eff.fails_bind.mpr (.inl (fails_timestampParameter ?_ _))
      simpa [hstart] using hfit
  | true =>
    simp only [BaseVestingAccount.timesFit, Bool.and_eq_true, Option.isNone_iff_eq_none] at hfit
    obtain ⟨hstart, hend⟩ := hfit
    refine ⟨(s.addAccounts [⟨bva.address⟩]).upsertVesting baseVestingConflict
      (bva.row s.vestingAccountIdSeq txTimestamp), ?_, hs'.upsert baseVestingConflict_clause rfl, ?_⟩
    · refine Eff.returns_bind.mpr ⟨_, _, Eff.returns_wrap.mpr (saveAccount_returns s _), ?_⟩
      refine Eff.returns_wrap.mpr ?_
      refine Eff.returns_bind.mpr ⟨_, _, timestampParameter_returns hstart _, ?_⟩
      refine Eff.returns_bind.mpr ⟨_, _, timestampParameter_returns hend _, ?_⟩
      refine Eff.returns_bind.mpr ⟨_, _, nextVestingAccountId_returns _, ?_⟩
      refine insertVesting_returns ?_
      exact (hasAccount_addAccounts ..).mpr (.inr (List.mem_singleton.mpr rfl))
    · exact holdings_upsert hs' baseVestingConflict_clause rfl

-- ---------------------------------------------------------------------------
-- Exported accounts
-- ---------------------------------------------------------------------------

/-- The statement has a row, and not too many parameters. -/
def periodsFit (vestingPeriods : List Period) : Bool :=
  0 < vestingPeriods.length && vestingPeriods.length * 4 ≤ maxPostgreSQLParams

def shownPeriods (vestingPeriods : List Period) : List VestingPeriod :=
  (periodRows 0 vestingPeriods).map VestingPeriodRow.shown

def writtenPeriods (vestingPeriods : List Period) : List VestingPeriod :=
  if periodsFit vestingPeriods then shownPeriods vestingPeriods else []

theorem periodRows_shown (id : Nat) (vestingPeriods : List Period) :
    (periodRows id vestingPeriods).map VestingPeriodRow.shown = shownPeriods vestingPeriods := by
  simp [shownPeriods, periodRows, Function.comp_def, VestingPeriodRow.shown]

theorem periodRows_id (id : Nat) (vestingPeriods : List Period) :
    ∀ row ∈ periodRows id vestingPeriods, row.vestingAccountId = id := by
  intro row hrow
  obtain ⟨_, -, rfl⟩ := List.mem_map.mp hrow
  rfl

theorem insertVestingPeriods_fails {id : Nat} {vestingPeriods : List Period}
    (h : periodsFit vestingPeriods = false) (s : Db) :
    Eff.Fails (insertVestingPeriods id vestingPeriods) s s := by
  refine Eff.fails_bind.mpr (.inr ⟨s, s, rfl, ?_⟩)
  split
  · exact Eff.fails_fail.mpr rfl
  · rename_i hpos
    simp only [periodsFit, Bool.and_eq_false_iff, decide_eq_false_iff_not] at h
    have hmax : maxParameters < vestingPeriods.length * 4 :=
      h.elim (fun hzero => by omega) Nat.lt_of_not_le
    exact sending_fails hmax

theorem insertVestingPeriods_returns {id : Nat} {vestingPeriods : List Period}
    (h : periodsFit vestingPeriods = true) (hid : id ∈ s.vestingIds) :
    Eff.Returns (insertVestingPeriods id vestingPeriods) s ()
      { s with vestingPeriod := s.vestingPeriod ++ periodRows id vestingPeriods } := by
  simp only [periodsFit, Bool.and_eq_true, decide_eq_true_eq] at h
  obtain ⟨hpos, hmax⟩ := h
  have hstored : (s.vestingAccount.rows.any fun row => row.id = id) = true := by
    obtain ⟨row, hrow, he⟩ := List.mem_map.mp hid
    exact List.any_eq_true.mpr ⟨row, hrow, decide_eq_true he⟩
  refine Eff.returns_bind.mpr ⟨s, s, rfl, ?_⟩
  rw [if_neg (Nat.ne_of_gt hpos), sending_of_le hmax, hstored, foreignKey_true]
  rfl

theorem deleteVestingPeriods_returns (s : Db) (id : Nat) :
    Eff.Returns (deleteVestingPeriods id) s () (s.replacePeriods id []) := by
  unfold Db.replacePeriods
  rw [List.append_nil]
  rfl

/-- The periods are deleted first: when the insert fails there are none. -/
theorem storeVestingPeriods_does (hs : VestingKeys s) {address : String} {row : VestingAccountRow}
    (hrow : s.vestingAccount.find address = some row) (vestingPeriods : List Period) :
    ∃ t, (if periodsFit vestingPeriods then
        Eff.Returns (storeVestingPeriods row.id vestingPeriods) s () t
      else Eff.Fails (storeVestingPeriods row.id vestingPeriods) s t) ∧ VestingKeys t ∧
      ∀ other, holdings t other =
        if other = address then some ⟨row.shown, writtenPeriods vestingPeriods⟩
        else holdings s other := by
  have hid : row.id ∈ s.vestingIds := List.mem_map_of_mem (Table.mem_of_find hrow)
  unfold writtenPeriods
  cases hfit : periodsFit vestingPeriods with
  | false =>
    refine ⟨s.replacePeriods row.id [], ?_, hs.replacePeriods hid (by simp),
      holdings_replacePeriods hs hrow (by simp)⟩
    refine Eff.fails_bind.mpr (.inr ⟨_, _, deleteVestingPeriods_returns s row.id, ?_⟩)
    exact Eff.fails_wrap.mpr (insertVestingPeriods_fails hfit _)
  | true =>
    have hrows := periodRows_id row.id vestingPeriods
    refine ⟨s.replacePeriods row.id (periodRows row.id vestingPeriods), ?_,
      hs.replacePeriods hid hrows, ?_⟩
    · have hinsert := insertVestingPeriods_returns (s := s.replacePeriods row.id []) hfit hid
      simp only [Db.replacePeriods, List.append_nil] at hinsert
      refine Eff.returns_bind.mpr ⟨_, _, deleteVestingPeriods_returns s row.id, ?_⟩
      rw [Db.replacePeriods, List.append_nil]
      exact Eff.returns_wrap.mpr hinsert
    · have hheld := holdings_replacePeriods hs hrow hrows
      rw [periodRows_shown] at hheld
      exact hheld

namespace ExportedVestingAccount

def periodsWritten : ExportedVestingAccount → Option (List VestingPeriod)
  | .periodic _ _ vestingPeriods => some (writtenPeriods vestingPeriods)
  | _ => none

def write (account : ExportedVestingAccount) : Write :=
  ⟨(account.row 0).shown, false, account.periodsWritten⟩

def writes : ExportedVestingAccount → List Write
  | .permanentLocked _ => []
  | account => if account.timesFit then [account.write] else []

def accepted : ExportedVestingAccount → Bool
  | .permanentLocked _ => true
  | .periodic base startTime vestingPeriods =>
    base.timesFit (startTime * 10 ^ 6) && periodsFit vestingPeriods
  | account => account.timesFit

end ExportedVestingAccount

theorem storeVestingAccount_fails (hs : VestingKeys s) {account : ExportedVestingAccount}
    (hfit : account.timesFit = false) :
    ∃ t, Eff.Fails (storeVestingAccount account) s t ∧ VestingKeys t ∧ holdings t = holdings s := by
  refine ⟨s.addAccounts [⟨account.base.address⟩], ?_, hs.addAccounts _, rfl⟩
  refine Eff.fails_bind.mpr (.inr ⟨_, _, Eff.returns_wrap.mpr (saveAccount_returns s _), ?_⟩)
  refine Eff.fails_wrap.mpr ?_
  unfold ExportedVestingAccount.timesFit BaseVestingAccount.timesFit at hfit
  cases hend : timestampColumn (account.base.endTime * 10 ^ 6) with
  | some message => exact Eff.fails_bind.mpr (.inl ⟨_, exec_timestampParameter hend _⟩)
  | none =>
    refine Eff.fails_bind.mpr (.inr ⟨_, _, timestampParameter_returns hend _, ?_⟩)
    refine Eff.fails_bind.mpr (.inl (fails_timestampParameter ?_ _))
    rw [hend, Option.isNone_none, Bool.and_true] at hfit
    exact hfit

theorem storeVestingAccount_returns (hs : VestingKeys s) {account : ExportedVestingAccount}
    (hfit : account.timesFit = true) :
    ∃ row t, Eff.Returns (storeVestingAccount account) s row.id t ∧ VestingKeys t ∧
      holdings t = Write.act (holdings s) ⟨(account.row 0).shown, false, none⟩ ∧
      t.vestingAccount.find account.base.address = some row := by
  have hs' := hs.addAccounts [⟨account.base.address⟩]
  simp only [ExportedVestingAccount.timesFit, BaseVestingAccount.timesFit, Bool.and_eq_true,
    Option.isNone_iff_eq_none] at hfit
  obtain ⟨hstart, hend⟩ := hfit
  obtain ⟨t, ht⟩ : ∃ t, t = (s.addAccounts [⟨account.base.address⟩]).upsertVesting vestingConflict
    (account.row s.vestingAccountIdSeq) := ⟨_, rfl⟩
  obtain ⟨row, hfind⟩ : ∃ row, t.vestingAccount.find account.base.address = some row :=
    ⟨_, by rw [ht]; exact Table.find_upsert_same vestingConflict _ _⟩
  have hreturning : Eff.Returns (returningVestingAccountId account.base.address) t row.id t :=
    Eff.returns_bind.mpr ⟨t, t, rfl, by rw [hfind]; rfl⟩
  have hinsert : Eff.Returns (vestingAccountTable.insert vestingConflict
      [account.row s.vestingAccountIdSeq]) { s.addAccounts [⟨account.base.address⟩] with
        vestingAccountIdSeq := s.vestingAccountIdSeq + 1 } () t := by
    rw [ht]
    refine insertVesting_returns ?_
    exact (hasAccount_addAccounts ..).mpr (.inr (List.mem_singleton.mpr rfl))
  refine ⟨row, t, ?_, ?_, ?_, hfind⟩
  · refine Eff.returns_bind.mpr ⟨_, _, Eff.returns_wrap.mpr (saveAccount_returns s _), ?_⟩
    refine Eff.returns_wrap.mpr ?_
    refine Eff.returns_bind.mpr ⟨_, _, timestampParameter_returns hend _, ?_⟩
    refine Eff.returns_bind.mpr ⟨_, _, timestampParameter_returns hstart _, ?_⟩
    refine Eff.returns_bind.mpr ⟨_, _, nextVestingAccountId_returns _, ?_⟩
    exact Eff.returns_bind.mpr ⟨_, _, hinsert, hreturning⟩
  · rw [ht]
    exact hs'.upsert vestingConflict_clause rfl
  · rw [ht]
    exact holdings_upsert (r := account.row s.vestingAccountIdSeq) hs' vestingConflict_clause rfl

theorem storeOnly_does (account : ExportedVestingAccount) :
    Does (do let _ ← storeVestingAccount account) account.timesFit
      (if account.timesFit then [⟨(account.row 0).shown, false, none⟩] else []) := by
  intro s hs
  cases hfit : account.timesFit with
  | false =>
    obtain ⟨t, hfails, hkeys, hheld⟩ := storeVestingAccount_fails hs hfit
    exact ⟨t, Eff.fails_bind.mpr (.inl hfails), hkeys, hheld⟩
  | true =>
    obtain ⟨row, t, hreturns, hkeys, hheld, -⟩ := storeVestingAccount_returns hs hfit
    exact ⟨t, Eff.returns_bind.mpr ⟨_, _, hreturns, by simp⟩, hkeys, hheld⟩

theorem storePeriodic_does (base : BaseVestingAccount) (startTime : Int)
    (vestingPeriods : List Period) :
    Does (saveVestingAccount (.periodic base startTime vestingPeriods))
      (ExportedVestingAccount.accepted (.periodic base startTime vestingPeriods))
      (ExportedVestingAccount.writes (.periodic base startTime vestingPeriods)) := by
  intro s hs
  have haccepted : ExportedVestingAccount.accepted (.periodic base startTime vestingPeriods) =
      (ExportedVestingAccount.timesFit (.periodic base startTime vestingPeriods) &&
        periodsFit vestingPeriods) := rfl
  have hwrites : ExportedVestingAccount.writes (.periodic base startTime vestingPeriods) =
      if ExportedVestingAccount.timesFit (.periodic base startTime vestingPeriods) then
        [ExportedVestingAccount.write (.periodic base startTime vestingPeriods)] else [] := rfl
  rw [haccepted, hwrites]
  cases hfit : ExportedVestingAccount.timesFit (.periodic base startTime vestingPeriods) with
  | false =>
    obtain ⟨t, hfails, hkeys, hheld⟩ := storeVestingAccount_fails hs hfit
    exact ⟨t, Eff.fails_bind.mpr (.inl hfails), hkeys, hheld⟩
  | true =>
    obtain ⟨row, t, hreturns, hkeys, hheld, hfind⟩ := storeVestingAccount_returns hs hfit
    obtain ⟨u, hperiods, hkeys', hheld'⟩ := storeVestingPeriods_does hkeys hfind vestingPeriods
    refine ⟨u, ?_, hkeys', ?_⟩
    · cases hp : periodsFit vestingPeriods with
      | false =>
        rw [hp] at hperiods
        exact Eff.fails_bind.mpr (.inr ⟨_, _, hreturns, hperiods⟩)
      | true =>
        rw [hp] at hperiods
        exact Eff.returns_bind.mpr ⟨_, _, hreturns, hperiods⟩
    · have hrow : holdings t base.address = some ⟨row.shown, t.periodsOf row.id⟩ := by
        simp [holdings, show t.vestingAccount.find base.address = some row from hfind]
      rw [hheld] at hrow
      funext other
      rw [hheld', hheld]
      exact Write.act_periods hrow (writtenPeriods vestingPeriods) other

theorem saveVestingAccount_does (account : ExportedVestingAccount) :
    Does (saveVestingAccount account) account.accepted account.writes := by
  cases account with
  | continuous base startTime => exact storeOnly_does (.continuous base startTime)
  | delayed base => exact storeOnly_does (.delayed base)
  | periodic base startTime vestingPeriods => exact storePeriodic_does base startTime vestingPeriods
  | permanentLocked base => exact .of_pure

end

end SafrochainIndexer.Callisto
