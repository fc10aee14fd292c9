import SafrochainIndexer.Callisto.Auth
import SafrochainIndexer.Callisto.FeegrantLaws
import SafrochainIndexer.Callisto.Gov
import SafrochainIndexer.Callisto.Staking

/-!
# Failed transactions

A transaction that failed has no logs. The handlers of feegrant, gov and staking
look at the logs first and leave a failed transaction alone; that of auth does
not look at them. So a failed transaction stores the vesting accounts that its
messages, or the messages these execute, would have created
(`failed_tx_unchanged_iff`).
-/

namespace SafrochainIndexer.Callisto

inductive TxMsg
  | createVestingAccount (msg : Auth.MsgCreateVestingAccount)
  | feegrant (msg : Feegrant.Msg)
  | gov (msg : Gov.Msg)
  | staking (msg : Staking.Msg)
  | exec (msgs : List TxMsg)
  | other

namespace TxMsg

def toAuth : TxMsg → Auth.Msg
  | .createVestingAccount msg => .createVestingAccount msg
  | _ => .other

def toFeegrant : TxMsg → Feegrant.Msg
  | .feegrant msg => msg
  | _ => .other

def toGov : TxMsg → Gov.Msg
  | .gov msg => msg
  | _ => .other

def toStaking : TxMsg → Staking.Msg
  | .staking msg => msg
  | _ => .other

/-- The message and what it executes, down to a nesting of `depth`. -/
def handled : Nat → TxMsg → List TxMsg
  | 0, msg => [msg]
  | depth + 1, msg =>
    msg :: match msg with
      | .exec msgs => msgs.flatMap (handled depth)
      | _ => []

end TxMsg

structure Modules where
  auth : Auth.Module
  feegrant : Feegrant.Module
  gov : Gov.Module
  staking : Staking.Module

variable (modules : Modules)

/-- `HandleMsg` of one module after the other, whatever they return. -/
def Modules.handleMsg (index : Nat) (msg : TxMsg) (tx : Tx) (s : Db) : Db :=
  let s := (Eff.exec (modules.auth.handleMsg index msg.toAuth tx) s).2
  let s := (Eff.exec (modules.feegrant.handleMsg index msg.toFeegrant tx) s).2
  let s := (Eff.exec (modules.gov.handleMsg index msg.toGov tx) s).2
  (Eff.exec (modules.staking.handleMsg index msg.toStaking tx) s).2

/-- The messages to handle, with their indices. What a `MsgExec` executes is
handled at its index. -/
def handledMsgs (depth : Nat) (msgs : List TxMsg) : List (TxMsg × Nat) :=
  msgs.zipIdx.flatMap fun (msg, index) => (msg.handled depth).map (·, index)

def Modules.handleTx (depth : Nat) (tx : Tx) (msgs : List TxMsg) (s : Db) : Db :=
  (handledMsgs depth msgs).foldl (fun s (msg, index) => modules.handleMsg index msg tx s) s

structure ModuleState where
  vestingAccount : Table VestingAccountRow.address
  vestingPeriod : List VestingPeriodRow
  feeGrantAllowance : Table FeeGrantAllowanceRow.uniqueFeeGrantAllowance
  proposal : Table ProposalRow.id
  proposalDeposit : Table ProposalDepositRow.uniqueDeposit
  proposalVote : Table ProposalVoteRow.uniqueVote
  proposalTallyResult : Table ProposalTallyResultRow.proposalId
  validator : Table ValidatorRow.consensusAddress
  validatorInfo : Table ValidatorInfoRow.consensusAddress
  validatorDescription : Table ValidatorDescriptionRow.validatorAddress
  validatorCommission : Table ValidatorCommissionRow.validatorAddress
  validatorStatus : Table ValidatorStatusRow.validatorAddress
  validatorVotingPower : Table ValidatorVotingPowerRow.validatorAddress

def Db.moduleState (s : Db) : ModuleState where
  vestingAccount := s.vestingAccount
  vestingPeriod := s.vestingPeriod
  feeGrantAllowance := s.feeGrantAllowance
  proposal := s.proposal
  proposalDeposit := s.proposalDeposit
  proposalVote := s.proposalVote
  proposalTallyResult := s.proposalTallyResult
  validator := s.validator
  validatorInfo := s.validatorInfo
  validatorDescription := s.validatorDescription
  validatorCommission := s.validatorCommission
  validatorStatus := s.validatorStatus
  validatorVotingPower := s.validatorVotingPower

/-- The account that the last of the messages to create one at `address`
creates. -/
def Modules.lastCreated (tx : Tx) (msgs : List (TxMsg × Nat)) (address : String) :
    Option VestingAccount :=
  ((msgs.filterMap fun (msg, _) => modules.auth.created tx msg.toAuth).filter
    fun account => account.address = address).getLast?

-- ---------------------------------------------------------------------------
-- One message
-- ---------------------------------------------------------------------------

section
variable {tx : Tx} (hfailed : tx.logs = [])
include hfailed

theorem handleMsg_failed (index : Nat) (msg : TxMsg) (s : Db) :
    modules.handleMsg index msg tx s =
      (Eff.exec (modules.auth.handleMsg index msg.toAuth tx) s).2 := by
  have hlogs : tx.logs.length = 0 := by rw [hfailed]; rfl
  simp only [Modules.handleMsg, Feegrant.Module.handleMsg, Gov.Module.handleMsg,
    Staking.Module.handleMsg, hlogs, if_true, Eff.exec_pure]

theorem handleMsg_stored (index : Nat) (msg : TxMsg) (s : Db) :
    VestingStored (modules.auth.created tx msg.toAuth).toList s
      (modules.handleMsg index msg tx s) := by
  rw [handleMsg_failed modules hfailed]
  exact Auth.handleMsg_stored modules.auth index msg.toAuth tx s

/-- A failed message writes accounts and vesting accounts only. -/
theorem handleMsg_spares {β : Type} {f : Db → β}
    (haccount : ∀ u s, f (accountTable.write u s) = f s)
    (hvesting : ∀ u s, f (vestingAccountTable.write u s) = f s)
    (hid : ∀ (s : Db) (n : Nat), f { s with vestingAccountIdSeq := n } = f s) (index : Nat)
    (msg : TxMsg) (s : Db) : f (modules.handleMsg index msg tx s) = f s := by
  rw [handleMsg_failed modules hfailed]
  exact Auth.handleMsg_fixes modules.auth haccount hvesting hid index msg.toAuth tx s

-- ---------------------------------------------------------------------------
-- Transactions
-- ---------------------------------------------------------------------------

theorem handleMsgs_stored (msgs : List (TxMsg × Nat)) (s : Db) :
    VestingStored (msgs.filterMap fun (msg, _) => modules.auth.created tx msg.toAuth) s
      (msgs.foldl (fun s (msg, index) => modules.handleMsg index msg tx s) s) := by
  induction msgs generalizing s with
  | nil => exact .of_eq rfl
  | cons entry msgs ih =>
    obtain ⟨msg, index⟩ := entry
    have hstep := (handleMsg_stored modules hfailed index msg s).append (ih _)
    rw [List.filterMap_cons]
    cases hcreated : modules.auth.created tx msg.toAuth with
    | none => simpa [hcreated] using hstep
    | some account => simpa [hcreated] using hstep

/-- A failed transaction leaves alone what reads neither accounts nor vesting
accounts. -/
theorem handleTx_spares {β : Type} {f : Db → β}
    (haccount : ∀ u s, f (accountTable.write u s) = f s)
    (hvesting : ∀ u s, f (vestingAccountTable.write u s) = f s)
    (hid : ∀ (s : Db) (n : Nat), f { s with vestingAccountIdSeq := n } = f s) (depth : Nat)
    (msgs : List TxMsg) (s : Db) : f (modules.handleTx depth tx msgs s) = f s := by
  unfold Modules.handleTx
  induction handledMsgs depth msgs generalizing s with
  | nil => rfl
  | cons entry entries ih =>
    exact (ih _).trans (handleMsg_spares modules hfailed haccount hvesting hid entry.2 entry.1 s)

theorem handleTx_moduleState (depth : Nat) (msgs : List TxMsg) (s : Db) :
    (modules.handleTx depth tx msgs s).moduleState =
      { s.moduleState with
        vestingAccount := (modules.handleTx depth tx msgs s).vestingAccount } := by
  have hrest : ∀ t : Db, t.moduleState =
      { ({ t.moduleState with vestingAccount := Table.empty } : ModuleState) with
        vestingAccount := t.vestingAccount } := fun _ => rfl
  have hspares := handleTx_spares modules hfailed
    (f := fun t => { t.moduleState with vestingAccount := Table.empty })
    (fun _ _ => rfl) (fun _ _ => rfl) (fun _ _ => rfl) depth msgs s
  rw [hrest, hspares]

end

/-- A failed transaction leaves the state of the modules alone if and only if,
for every address, the last of its messages to create a vesting account there
describes the vesting account that is stored already. -/
theorem failed_tx_unchanged_iff {tx : Tx} (hfailed : tx.logs = []) (depth : Nat)
    (msgs : List TxMsg) (s : Db) :
    (modules.handleTx depth tx msgs s).moduleState = s.moduleState ↔
      ∀ address, ∀ account ∈ modules.lastCreated tx (handledMsgs depth msgs) address,
        ∃ row ∈ s.vestingAccount.find address, row.shown = account := by
  have hstored := handleMsgs_stored modules hfailed (handledMsgs depth msgs) s
  rw [handleTx_moduleState modules hfailed]
  refine Iff.trans ?_ hstored.same_iff
  constructor
  · intro h
    exact congrArg ModuleState.vestingAccount h
  · intro h
    have htable : (modules.handleTx depth tx msgs s).vestingAccount = s.vestingAccount := h
    rw [htable]
    rfl

-- ---------------------------------------------------------------------------
-- Runs
-- ---------------------------------------------------------------------------

def plainModules : Modules where
  auth :=
    { messagesParser := fun _ => ["safro1from", "safro1to"]
      accAddressFromBech32 := .ok
      timeParse := Gov.plain.timeParse }
  feegrant := Feegrant.plain
  gov := Gov.plain
  staking :=
    { source := ⟨fun _ _ => .error "rpc error: code = NotFound", fun _ _ => .ok []⟩
      sdk := ⟨.ok, .ok, fun _ des => .ok des⟩
      unpackPubKey := fun any => .ok ⟨any.value, any.value⟩
      getConsAddr := fun validator => .ok validator.consensusPubkey.value
      selfDelegateAddress := .ok
      queryKeyBase := fun _ => .error "no such host" }

def failedTx : Tx := ⟨10, "AB", "2024-01-01T00:00:00Z", [], []⟩

def createFive : TxMsg := .createVestingAccount ⟨"safro1to", [⟨"usaf", 5⟩], 1735689600⟩

def storedFive : Db :=
  { (default : Db) with
    vestingAccount := Table.empty.upsert .ignore
      ⟨7, "cosmos.vesting.v1beta1.BaseVestingAccount", "safro1to", [⟨"usaf", "5"⟩],
        1735689600000000, some 1704067200000000⟩ }

theorem failed_tx_unchanged_again :
    (plainModules.handleTx 2 failedTx
      [.exec [.exec [.gov (.vote .v1 ⟨1, "safro1from", .yes⟩)], .staking .delegate], createFive]
      storedFive).moduleState = storedFive.moduleState := by
  refine (failed_tx_unchanged_iff plainModules rfl 2 _ storedFive).mpr ?_
  intro address account haccount
  have hcreated := List.mem_filter.mp (List.mem_of_getLast? haccount)
  obtain rfl := of_decide_eq_true hcreated.2
  obtain rfl := List.mem_singleton.mp hcreated.1
  exact ⟨_, rfl, rfl⟩

/-- A `MsgExec` that failed with the account it was to create. -/
theorem failed_exec_creates_vesting_account :
    (plainModules.handleTx 1 failedTx [.exec [createFive]] default).moduleState ≠
      (default : Db).moduleState := by
  intro h
  have hrows := congrArg (fun state => state.vestingAccount.rows.length) h
  exact absurd hrows (by decide +kernel)

end SafrochainIndexer.Callisto
