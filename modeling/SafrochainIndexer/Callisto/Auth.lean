import SafrochainIndexer.Callisto.Accounts
import SafrochainIndexer.Lib.Overwrite
import Mathlib.Algebra.Group.Int.Defs

/-!
# The auth module

Its handler of messages stores the accounts that a transaction involves, and the
vesting account that a `MsgCreateVestingAccount` creates. It does so without a
look at the logs of the transaction.
-/

namespace SafrochainIndexer.Callisto

/-- A `vestingtypes.BaseVestingAccount`; `endTime` counts seconds. -/
structure BaseVestingAccount where
  address : String
  originalVesting : List Coin
  endTime : Int
  deriving DecidableEq, Repr

/-- A `TIMESTAMP` as a parameter of a statement. -/
def timestampParameter (t : Int) : Eff Db Unit :=
  match timestampColumn t with
  | some message => Eff.fail message
  | none => pure ()

/-- `nextval('vesting_account_id_seq')`. -/
def nextVestingAccountId : Eff Db Nat := do
  let s ← get
  set { s with vestingAccountIdSeq := s.vestingAccountIdSeq + 1 }
  pure s.vestingAccountIdSeq

def baseVestingConflict : Conflict VestingAccountRow.address where
  set stored excluded :=
    { stored with
      type := excluded.type
      originalVesting := excluded.originalVesting
      startTime := excluded.startTime
      endTime := excluded.endTime }
  guard _ _ := true
  key_set _ _ := rfl

def BaseVestingAccount.row (bva : BaseVestingAccount) (id : Nat) (txTimestamp : Int) :
    VestingAccountRow where
  id := id
  type := "cosmos.vesting.v1beta1.BaseVestingAccount"
  address := bva.address
  originalVesting := newDbCoins bva.originalVesting
  endTime := bva.endTime * 10 ^ 6
  startTime := some txTimestamp

def storeBaseVestingAccountFromMsg (bva : BaseVestingAccount) (txTimestamp : Int) :
    Eff Db Unit := do
  Eff.wrap "error while storing vesting account address: " (saveAccounts [⟨bva.address⟩])
  Eff.wrap "error while storing vesting account: " do
    timestampParameter txTimestamp
    timestampParameter (bva.endTime * 10 ^ 6)
    let id ← nextVestingAccountId
    vestingAccountTable.insert baseVestingConflict [bva.row id txTimestamp]

namespace Auth

structure MsgCreateVestingAccount where
  toAddress : String
  amount : List Coin
  endTime : Int
  deriving DecidableEq, Repr

inductive Msg
  | createVestingAccount (msg : MsgCreateVestingAccount)
  | other
  deriving DecidableEq, Repr

/-- The module with what it takes from Juno, from the SDK and from Go's library.
`messagesParser` gives the addresses; its error is only logged. -/
structure Module where
  messagesParser : Tx → List String
  accAddressFromBech32 : String → Except String String
  timeParse : String → Except String Int

variable (m : Module)

def Module.filterNonAccountAddresses (addresses : List String) : List String :=
  addresses.filter fun address => (m.accAddressFromBech32 address).isOk

def getAccounts (addresses : List String) : List Account := addresses.map fun address => ⟨address⟩

def refreshAccounts (addresses : List String) : Eff Db Unit :=
  if addresses.length = 0 then pure () else saveAccounts (getAccounts addresses)

def Module.handleMsgCreateVestingAccount (msg : MsgCreateVestingAccount) (txTimestamp : Int) :
    Eff Db Unit := do
  let accAddress ← Eff.wrap "error while converting account address "
    (Eff.ofExcept (m.accAddressFromBech32 msg.toAddress))
  Eff.wrap "error while storing vesting account: " (saveAccounts [⟨accAddress⟩])
  Eff.wrap "error while storing base vesting account from msg "
    (storeBaseVestingAccountFromMsg ⟨accAddress, msg.amount, msg.endTime⟩ txTimestamp)

/-- The case of a `MsgCreateVestingAccount` in `HandleMsg`. -/
def Module.createVestingAccount (msg : Msg) (tx : Tx) : Eff Db Unit :=
  match msg with
  | .createVestingAccount cosmosMsg => do
    let timestamp ← Eff.wrap "error while parsing time: " (Eff.ofExcept (m.timeParse tx.timestamp))
    Eff.wrap "error while handling MsgCreateVestingAccount "
      (m.handleMsgCreateVestingAccount cosmosMsg timestamp)
  | .other => pure ()

def Module.handleMsg (_index : Nat) (msg : Msg) (tx : Tx) : Eff Db Unit := do
  let addresses := m.messagesParser tx
  m.createVestingAccount msg tx
  refreshAccounts (m.filterNonAccountAddresses addresses)

end Auth

-- ---------------------------------------------------------------------------
-- Vesting accounts
-- ---------------------------------------------------------------------------

structure VestingAccount where
  type : String
  address : String
  originalVesting : List DbCoin
  endTime : Int
  startTime : Option Int
  deriving DecidableEq, Repr

def VestingAccountRow.shown (row : VestingAccountRow) : VestingAccount :=
  ⟨row.type, row.address, row.originalVesting, row.endTime, row.startTime⟩

theorem baseVestingConflict_overwrites :
    baseVestingConflict.Overwrites VestingAccountRow.shown where
  guard _ _ := rfl
  set_set _ _ _ := rfl
  set_eq_iff stored excluded hk := by
    obtain ⟨id, type, address, originalVesting, endTime, startTime⟩ := stored
    have hk' : address = excluded.address := hk
    constructor
    · intro h
      simp only [baseVestingConflict, VestingAccountRow.mk.injEq] at h
      simp [VestingAccountRow.shown, h, hk']
    · intro h
      simp only [VestingAccountRow.shown, VestingAccount.mk.injEq] at h
      simp [baseVestingConflict, h]

def VestingStored (accounts : List VestingAccount) (s t : Db) : Prop :=
  ∃ rows : List VestingAccountRow, rows.map VestingAccountRow.shown = accounts ∧
    t.vestingAccount = rows.foldl (Table.upsert baseVestingConflict) s.vestingAccount

theorem VestingStored.of_eq {s t : Db} (h : t.vestingAccount = s.vestingAccount) :
    VestingStored [] s t := ⟨[], rfl, h⟩

theorem VestingStored.append {accounts accounts' : List VestingAccount} {s t u : Db}
    (h : VestingStored accounts s t) (h' : VestingStored accounts' t u) :
    VestingStored (accounts ++ accounts') s u := by
  obtain ⟨rows, rfl, ht⟩ := h
  obtain ⟨rows', rfl, hu⟩ := h'
  exact ⟨rows ++ rows', List.map_append, by rw [hu, ht, List.foldl_append]⟩

theorem VestingStored.same_iff {accounts : List VestingAccount} {s t : Db}
    (h : VestingStored accounts s t) :
    t.vestingAccount = s.vestingAccount ↔
      ∀ address, ∀ account ∈ (accounts.filter fun account => account.address = address).getLast?,
        ∃ row ∈ s.vestingAccount.find address, row.shown = account := by
  obtain ⟨rows, rfl, ht⟩ := h
  rw [ht, Table.upserts_eq_self_iff baseVestingConflict_overwrites]
  refine forall_congr' fun address => ?_
  rw [List.filter_map, List.getLast?_map]
  simp only [Option.mem_def, Option.map_eq_some_iff, forall_exists_index, and_imp,
    forall_apply_eq_imp_iff₂]
  rfl

theorem timestampParameter_returns {t : Int} (h : timestampColumn t = none) (s : Db) :
    Eff.Returns (timestampParameter t) s () s := by
  rw [timestampParameter, h]
  exact Eff.returns_pure.mpr ⟨rfl, rfl⟩

theorem exec_timestampParameter {t : Int} {message : String} (h : timestampColumn t = some message)
    (s : Db) : Eff.exec (timestampParameter t) s = (.error (.error message), s) := by
  rw [timestampParameter, h]
  rfl

theorem nextVestingAccountId_returns (s : Db) :
    Eff.Returns nextVestingAccountId s s.vestingAccountIdSeq
      { s with vestingAccountIdSeq := s.vestingAccountIdSeq + 1 } := rfl

theorem vestingAccount_resolved {c : Conflict VestingAccountRow.address} {s : Db}
    {r : VestingAccountRow} (h : s.hasAccount r.address = true) :
    vestingAccountTable.violation s (c.resolve (s.vestingAccount.find r.address) r) = none := by
  have haddress : (c.resolve (s.vestingAccount.find r.address) r).address = r.address :=
    c.key_resolve fun o ho => Table.find_key ho
  simp only [vestingAccountTable]
  rw [haddress, h, foreignKey_true]

theorem storeBaseVestingAccountFromMsg_table (bva : BaseVestingAccount) (txTimestamp : Int)
    (s : Db) :
    (Eff.exec (storeBaseVestingAccountFromMsg bva txTimestamp) s).2.vestingAccount =
      if timestampColumn txTimestamp = none ∧ timestampColumn (bva.endTime * 10 ^ 6) = none then
        s.vestingAccount.upsert baseVestingConflict (bva.row s.vestingAccountIdSeq txTimestamp)
      else s.vestingAccount := by
  have haccounts : Eff.Returns (saveAccounts [⟨bva.address⟩]) s () (s.addAccounts [⟨bva.address⟩]) :=
    saveAccounts_short s (by simp [maxPostgreSQLParams])
  unfold storeBaseVestingAccountFromMsg
  rw [(Eff.returns_wrap.mpr haccounts).exec_bind, Eff.exec_wrap]
  cases hstart : timestampColumn txTimestamp with
  | some message =>
    rw [Eff.exec_bind, exec_timestampParameter hstart, if_neg (by simp)]
    rfl
  | none =>
    rw [(timestampParameter_returns hstart _).exec_bind]
    cases hend : timestampColumn (bva.endTime * 10 ^ 6) with
    | some message =>
      rw [Eff.exec_bind, exec_timestampParameter hend, if_neg (by simp)]
      rfl
    | none =>
      rw [(timestampParameter_returns hend _).exec_bind,
        (nextVestingAccountId_returns _).exec_bind, if_pos ⟨rfl, rfl⟩]
      refine congrArg Db.vestingAccount (Relation.insert_ok (by simp) fun r hr _ => ?_).state
      obtain rfl := List.mem_singleton.mp hr
      exact vestingAccount_resolved ((hasAccount_addAccounts ..).mpr (.inr (List.mem_singleton.mpr rfl)))

-- ---------------------------------------------------------------------------
-- Messages
-- ---------------------------------------------------------------------------

namespace Auth

variable (m : Module)

def Module.created (tx : Tx) : Msg → Option VestingAccount
  | .createVestingAccount msg =>
    match m.timeParse tx.timestamp, m.accAddressFromBech32 msg.toAddress with
    | .ok timestamp, .ok accAddress =>
      if timestampColumn timestamp = none ∧ timestampColumn (msg.endTime * 10 ^ 6) = none then
        some ((BaseVestingAccount.mk accAddress msg.amount msg.endTime).row 0 timestamp).shown
      else none
    | _, _ => none
  | .other => none

theorem createVestingAccount_stored (msg : Msg) (tx : Tx) (s : Db) :
    VestingStored (m.created tx msg).toList s (Eff.exec (m.createVestingAccount msg tx) s).2 := by
  cases msg with
  | other => exact .of_eq rfl
  | createVestingAccount msg =>
    simp only [Module.createVestingAccount, Module.created]
    rw [Eff.exec_wrap_ofExcept_bind]
    cases m.timeParse tx.timestamp with
    | error message => exact .of_eq rfl
    | ok timestamp =>
      simp only [Eff.exec_wrap, Module.handleMsgCreateVestingAccount]
      rw [Eff.exec_wrap_ofExcept_bind]
      cases m.accAddressFromBech32 msg.toAddress with
      | error message => exact .of_eq rfl
      | ok accAddress =>
        have haccounts : Eff.Returns (saveAccounts [⟨accAddress⟩]) s ()
            (s.addAccounts [⟨accAddress⟩]) := saveAccounts_short s (by simp [maxPostgreSQLParams])
        have hstore := storeBaseVestingAccountFromMsg_table ⟨accAddress, msg.amount, msg.endTime⟩
          timestamp (s.addAccounts [⟨accAddress⟩])
        dsimp only
        rw [(Eff.returns_wrap.mpr haccounts).exec_bind, Eff.exec_wrap]
        split at hstore
        · rename_i htimes
          rw [if_pos htimes]
          refine ⟨[_], ?_, hstore⟩
          rfl
        · rename_i htimes
          rw [if_neg htimes]
          exact .of_eq hstore

theorem refreshAccounts_fixes {β : Type} {f : Db → β}
    (hf : ∀ u s, f (accountTable.write u s) = f s) (addresses : List String) :
    Eff.Fixes f (refreshAccounts addresses) := by
  unfold refreshAccounts
  split
  · exact .pure
  · exact saveAccounts_fixes _ hf

theorem handleMsg_stored (index : Nat) (msg : Msg) (tx : Tx) (s : Db) :
    VestingStored (m.created tx msg).toList s (Eff.exec (m.handleMsg index msg tx) s).2 := by
  obtain ⟨rows, hshown, htable⟩ := createVestingAccount_stored m msg tx s
  have hrefresh : ∀ addresses, Eff.Fixes Db.vestingAccount (refreshAccounts addresses) :=
    refreshAccounts_fixes fun _ _ => rfl
  refine ⟨rows, hshown, ?_⟩
  rw [← htable]
  exact Eff.exec_bind_of_fixes _ (fun _ => hrefresh _) s

theorem handleMsg_fixes {β : Type} {f : Db → β}
    (haccount : ∀ u s, f (accountTable.write u s) = f s)
    (hvesting : ∀ u s, f (vestingAccountTable.write u s) = f s)
    (hid : ∀ (s : Db) (n : Nat), f { s with vestingAccountIdSeq := n } = f s) (index : Nat)
    (msg : Msg) (tx : Tx) : Eff.Fixes f (m.handleMsg index msg tx) := by
  refine .bind ?_ fun _ => refreshAccounts_fixes haccount _
  cases msg with
  | other => exact .pure
  | createVestingAccount msg =>
    have htime : ∀ t, Eff.Fixes f (timestampParameter t) := by
      intro t
      unfold timestampParameter
      split
      · exact .fail
      · exact .pure
    have hnext : Eff.Fixes f nextVestingAccountId := fun s => hid s _
    refine .bind (.wrap .ofExcept) fun timestamp => .wrap (.bind (.wrap .ofExcept) fun _ =>
      .bind (.wrap (saveAccounts_fixes _ haccount)) fun _ => .wrap ?_)
    refine .bind (.wrap (saveAccounts_fixes _ haccount)) fun _ => .wrap ?_
    refine .bind (htime _) fun _ => .bind (htime _) fun _ => .bind hnext fun id => ?_
    exact Relation.insert_fixes hvesting

end Auth

end SafrochainIndexer.Callisto
