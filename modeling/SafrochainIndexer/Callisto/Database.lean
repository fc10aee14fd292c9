import SafrochainIndexer.Callisto.Chain
import SafrochainIndexer.Lib.Relation
import Mathlib.Algebra.Group.Nat.Defs

/-!
# The Callisto database

The tables that the handlers and save functions of this development read or
write, with the columns those use. Heights are Go `int64`s, times are counted in
microseconds, which is what a `TIMESTAMP` column keeps, and a `JSONB` column is
its text.

Each table comes as a `Relation`: its rows are unique by its key, and
`violation` holds its foreign keys and the range of its columns.
-/

namespace SafrochainIndexer.Callisto

/-- A column `COIN`. -/
structure DbCoin where
  denom : String
  amount : String
  deriving DecidableEq, Repr

def newDbCoins (coins : List Coin) : List DbCoin :=
  coins.map fun coin => ⟨coin.denom, toString coin.amount⟩

/-- A column `DEC_COIN`. -/
structure DbDecCoin where
  denom : String
  amount : String
  deriving DecidableEq, Repr

def newDbDecCoins (coins : List DecCoin) : List DbDecCoin :=
  coins.map fun coin => ⟨coin.denom, coin.amount⟩

structure AccountRow where
  address : String
  deriving DecidableEq, Repr

structure MessageTypeRow where
  type : String
  module : String
  label : String
  height : Int
  deriving DecidableEq, Repr

structure VestingAccountRow where
  id : Nat
  type : String
  address : String
  originalVesting : List DbCoin
  endTime : Int
  startTime : Option Int
  deriving DecidableEq, Repr

structure VestingPeriodRow where
  vestingAccountId : Nat
  periodOrder : Int
  length : Int
  amount : List DbCoin
  deriving DecidableEq, Repr

structure BlockRow where
  height : Int
  timestamp : Int
  deriving DecidableEq, Repr

structure GenesisRow where
  chainId : String
  time : Int
  initialHeight : Int
  deriving DecidableEq, Repr

/-- A row of one of the tables `average_block_time_per_minute`, .. ; `averageTime`
is the decimal text of the `float64`. -/
structure AverageTimeRow where
  averageTime : String
  height : Int
  deriving DecidableEq, Repr

structure ValidatorRow where
  consensusAddress : String
  consensusPubkey : String
  deriving DecidableEq, Repr

structure ValidatorInfoRow where
  consensusAddress : String
  operatorAddress : String
  selfDelegateAddress : String
  maxChangeRate : String
  maxRate : String
  height : Int
  deriving DecidableEq, Repr

structure ValidatorDescriptionRow where
  validatorAddress : String
  moniker : Option String
  identity : Option String
  avatarUrl : Option String
  website : Option String
  securityContact : Option String
  details : Option String
  height : Int
  deriving DecidableEq, Repr

/-- `commission` is the decimal text of the column. -/
structure ValidatorCommissionRow where
  validatorAddress : String
  commission : String
  minSelfDelegation : Int
  height : Int
  deriving DecidableEq, Repr

structure ValidatorVotingPowerRow where
  validatorAddress : String
  votingPower : Int
  height : Int
  deriving DecidableEq, Repr

structure ValidatorStatusRow where
  validatorAddress : String
  status : Int
  jailed : Bool
  height : Int
  deriving DecidableEq, Repr

structure ValidatorSigningInfoRow where
  validatorAddress : String
  startHeight : Int
  indexOffset : Int
  jailedUntil : Int
  tombstoned : Bool
  missedBlocksCounter : Int
  height : Int
  deriving DecidableEq, Repr

structure StakingPoolRow where
  bondedTokens : String
  notBondedTokens : String
  unbondingTokens : String
  stakedNotBondedTokens : String
  height : Int
  deriving DecidableEq, Repr

structure DoubleSignVoteRow where
  id : Nat
  type : Int
  height : Int
  round : Int
  blockId : String
  validatorAddress : String
  validatorIndex : Int
  signature : String
  deriving DecidableEq, Repr

structure DoubleSignEvidenceRow where
  height : Int
  voteAId : Nat
  voteBId : Nat
  deriving DecidableEq, Repr

structure CommunityPoolRow where
  coins : List DbDecCoin
  height : Int
  deriving DecidableEq, Repr

structure SupplyRow where
  coins : List DbCoin
  height : Int
  deriving DecidableEq, Repr

structure InflationRow where
  value : String
  height : Int
  deriving DecidableEq, Repr

/-- A row of one of the tables `gov_params`, `mint_params`, .. -/
structure ParamsRow where
  params : String
  height : Int
  deriving DecidableEq, Repr

structure TokenUnitRow where
  tokenName : String
  denom : String
  priceId : Option String
  deriving DecidableEq, Repr

/-- `price` is the decimal text of the column. -/
structure TokenPriceRow where
  unitName : String
  price : String
  marketCap : Int
  timestamp : Int
  deriving DecidableEq, Repr

structure TokenPriceHistoryRow where
  unitName : String
  price : String
  marketCap : Int
  timestamp : Int
  deriving DecidableEq, Repr

structure FeeGrantAllowanceRow where
  granteeAddress : String
  granterAddress : String
  allowance : String
  height : Int
  deriving DecidableEq, Repr

structure ProposalRow where
  id : Nat
  title : String
  description : String
  metadata : String
  content : String
  submitTime : Int
  depositEndTime : Int
  votingStartTime : Option Int
  votingEndTime : Option Int
  proposerAddress : String
  status : String
  deriving DecidableEq, Repr

structure ProposalDepositRow where
  proposalId : Nat
  depositorAddress : String
  amount : List DbCoin
  timestamp : Int
  transactionHash : String
  height : Int
  deriving DecidableEq, Repr

structure ProposalVoteRow where
  proposalId : Nat
  voterAddress : String
  option : String
  weight : String
  timestamp : Int
  height : Int
  deriving DecidableEq, Repr

structure ProposalValidatorStatusSnapshotRow where
  proposalId : Nat
  validatorAddress : String
  votingPower : Int
  status : Int
  jailed : Bool
  height : Int
  deriving DecidableEq, Repr

structure ProposalTallyResultRow where
  proposalId : Nat
  yes : String
  abstain : String
  no : String
  noWithVeto : String
  height : Int
  deriving DecidableEq, Repr

structure SoftwareUpgradePlanRow where
  proposalId : Nat
  planName : String
  upgradeHeight : Int
  info : String
  height : Int
  deriving DecidableEq, Repr

-- ---------------------------------------------------------------------------
-- Keys
-- ---------------------------------------------------------------------------

/-- `one_row_id`: the table has at most one row. -/
def oneRowId {ρ : Type} (_ : ρ) : Unit := ()

def FeeGrantAllowanceRow.uniqueFeeGrantAllowance (r : FeeGrantAllowanceRow) : String × String :=
  (r.granteeAddress, r.granterAddress)

def TokenPriceHistoryRow.uniquePriceForTimestamp (r : TokenPriceHistoryRow) : String × Int :=
  (r.unitName, r.timestamp)

def ProposalDepositRow.uniqueDeposit (r : ProposalDepositRow) : Nat × String × String :=
  (r.proposalId, r.depositorAddress, r.transactionHash)

def ProposalVoteRow.uniqueVote (r : ProposalVoteRow) : Nat × String × String :=
  (r.proposalId, r.voterAddress, r.option)

def ProposalValidatorStatusSnapshotRow.uniqueValidatorStatusSnapshot
    (r : ProposalValidatorStatusSnapshotRow) : Nat × String :=
  (r.proposalId, r.validatorAddress)

/-- `vesting_period` and `double_sign_evidence` have no key: a list of rows. The
next value of `vesting_account_id_seq` is `vestingAccountIdSeq`, that of
`double_sign_vote_id_seq` is `doubleSignVoteIdSeq`. -/
structure Db where
  account : Table AccountRow.address
  messageType : Table MessageTypeRow.type
  vestingAccount : Table VestingAccountRow.address
  vestingAccountIdSeq : Nat
  vestingPeriod : List VestingPeriodRow
  block : Table BlockRow.height
  genesis : Table (oneRowId (ρ := GenesisRow))
  averageBlockTimePerMinute : Table (oneRowId (ρ := AverageTimeRow))
  averageBlockTimePerHour : Table (oneRowId (ρ := AverageTimeRow))
  averageBlockTimePerDay : Table (oneRowId (ρ := AverageTimeRow))
  averageBlockTimeFromGenesis : Table (oneRowId (ρ := AverageTimeRow))
  validator : Table ValidatorRow.consensusAddress
  validatorInfo : Table ValidatorInfoRow.consensusAddress
  validatorDescription : Table ValidatorDescriptionRow.validatorAddress
  validatorCommission : Table ValidatorCommissionRow.validatorAddress
  validatorVotingPower : Table ValidatorVotingPowerRow.validatorAddress
  validatorStatus : Table ValidatorStatusRow.validatorAddress
  validatorSigningInfo : Table ValidatorSigningInfoRow.validatorAddress
  stakingPool : Table (oneRowId (ρ := StakingPoolRow))
  doubleSignVote : Table DoubleSignVoteRow.id
  doubleSignVoteIdSeq : Nat
  doubleSignEvidence : List DoubleSignEvidenceRow
  communityPool : Table (oneRowId (ρ := CommunityPoolRow))
  supply : Table (oneRowId (ρ := SupplyRow))
  inflation : Table (oneRowId (ρ := InflationRow))
  govParams : Table (oneRowId (ρ := ParamsRow))
  mintParams : Table (oneRowId (ρ := ParamsRow))
  distributionParams : Table (oneRowId (ρ := ParamsRow))
  slashingParams : Table (oneRowId (ρ := ParamsRow))
  stakingParams : Table (oneRowId (ρ := ParamsRow))
  tokenUnit : Table TokenUnitRow.denom
  tokenPrice : Table TokenPriceRow.unitName
  tokenPriceHistory : Table TokenPriceHistoryRow.uniquePriceForTimestamp
  feeGrantAllowance : Table FeeGrantAllowanceRow.uniqueFeeGrantAllowance
  proposal : Table ProposalRow.id
  proposalDeposit : Table ProposalDepositRow.uniqueDeposit
  proposalVote : Table ProposalVoteRow.uniqueVote
  proposalTallyResult : Table ProposalTallyResultRow.proposalId
  proposalValidatorStatusSnapshot :
    Table ProposalValidatorStatusSnapshotRow.uniqueValidatorStatusSnapshot
  softwareUpgradePlan : Table SoftwareUpgradePlanRow.proposalId
  deriving Inhabited

-- ---------------------------------------------------------------------------
-- Constraints
-- ---------------------------------------------------------------------------

/-- `column` of `table` REFERENCES a row, which is there or not. -/
def foreignKey (table column : String) (present : Bool) : Option String :=
  if present then none
  else some s!"pq: insert or update on table \"{table}\" violates foreign key constraint \"{table}_{column}_fkey\""

@[simp] theorem foreignKey_true (table column : String) : foreignKey table column true = none := rfl

def Db.hasAccount (s : Db) (address : String) : Bool := (s.account.find address).isSome

def Db.hasBlock (s : Db) (height : Int) : Bool := (s.block.find height).isSome

def Db.hasValidator (s : Db) (address : String) : Bool := (s.validator.find address).isSome

def Db.hasUnit (s : Db) (denom : String) : Bool := (s.tokenUnit.find denom).isSome

def Db.hasProposal (s : Db) (id : Nat) : Bool := (s.proposal.find id).isSome

/-- A column `INTEGER` takes 32 bits. -/
def integerColumn (n : Nat) : Option String :=
  if n < 2 ^ 31 then none else some s!"pq: value \"{n}\" is out of range for type integer"

/-- A column `TIMESTAMP` reaches from 4713 BC to 294276 AD. -/
def timestampColumn (t : Int) : Option String :=
  if -210866803200000000 ≤ t ∧ t < 9224318016000000000 then none
  else some s!"pq: timestamp out of range: \"{t}\""

def accountTable : Relation Db AccountRow.address where
  read := Db.account
  write t s := { s with account := t }
  read_write _ _ := rfl
  violation _ _ := none

def messageTypeTable : Relation Db MessageTypeRow.type where
  read := Db.messageType
  write t s := { s with messageType := t }
  read_write _ _ := rfl
  violation _ _ := none

def vestingAccountTable : Relation Db VestingAccountRow.address where
  read := Db.vestingAccount
  write t s := { s with vestingAccount := t }
  read_write _ _ := rfl
  violation s r := foreignKey "vesting_account" "address" (s.hasAccount r.address)

def averageBlockTimePerMinuteTable : Relation Db (oneRowId (ρ := AverageTimeRow)) where
  read := Db.averageBlockTimePerMinute
  write t s := { s with averageBlockTimePerMinute := t }
  read_write _ _ := rfl
  violation _ _ := none

def averageBlockTimePerHourTable : Relation Db (oneRowId (ρ := AverageTimeRow)) where
  read := Db.averageBlockTimePerHour
  write t s := { s with averageBlockTimePerHour := t }
  read_write _ _ := rfl
  violation _ _ := none

def averageBlockTimePerDayTable : Relation Db (oneRowId (ρ := AverageTimeRow)) where
  read := Db.averageBlockTimePerDay
  write t s := { s with averageBlockTimePerDay := t }
  read_write _ _ := rfl
  violation _ _ := none

def averageBlockTimeFromGenesisTable : Relation Db (oneRowId (ρ := AverageTimeRow)) where
  read := Db.averageBlockTimeFromGenesis
  write t s := { s with averageBlockTimeFromGenesis := t }
  read_write _ _ := rfl
  violation _ _ := none

def validatorTable : Relation Db ValidatorRow.consensusAddress where
  read := Db.validator
  write t s := { s with validator := t }
  read_write _ _ := rfl
  violation _ _ := none

/-- `operator_address` is unique too. -/
def validatorInfoTable : Relation Db ValidatorInfoRow.consensusAddress where
  read := Db.validatorInfo
  write t s := { s with validatorInfo := t }
  read_write _ _ := rfl
  violation s r :=
    foreignKey "validator_info" "consensus_address" (s.hasValidator r.consensusAddress) <|>
      foreignKey "validator_info" "self_delegate_address" (s.hasAccount r.selfDelegateAddress)

def validatorDescriptionTable : Relation Db ValidatorDescriptionRow.validatorAddress where
  read := Db.validatorDescription
  write t s := { s with validatorDescription := t }
  read_write _ _ := rfl
  violation s r :=
    foreignKey "validator_description" "validator_address" (s.hasValidator r.validatorAddress)

def validatorCommissionTable : Relation Db ValidatorCommissionRow.validatorAddress where
  read := Db.validatorCommission
  write t s := { s with validatorCommission := t }
  read_write _ _ := rfl
  violation s r :=
    foreignKey "validator_commission" "validator_address" (s.hasValidator r.validatorAddress)

def validatorSigningInfoTable : Relation Db ValidatorSigningInfoRow.validatorAddress where
  read := Db.validatorSigningInfo
  write t s := { s with validatorSigningInfo := t }
  read_write _ _ := rfl
  violation _ _ := none

def validatorVotingPowerTable : Relation Db ValidatorVotingPowerRow.validatorAddress where
  read := Db.validatorVotingPower
  write t s := { s with validatorVotingPower := t }
  read_write _ _ := rfl
  violation s r :=
    foreignKey "validator_voting_power" "validator_address" (s.hasValidator r.validatorAddress) <|>
      foreignKey "validator_voting_power" "height" (s.hasBlock r.height)

def validatorStatusTable : Relation Db ValidatorStatusRow.validatorAddress where
  read := Db.validatorStatus
  write t s := { s with validatorStatus := t }
  read_write _ _ := rfl
  violation s r :=
    foreignKey "validator_status" "validator_address" (s.hasValidator r.validatorAddress)

def stakingPoolTable : Relation Db (oneRowId (ρ := StakingPoolRow)) where
  read := Db.stakingPool
  write t s := { s with stakingPool := t }
  read_write _ _ := rfl
  violation _ _ := none

def doubleSignVoteTable : Relation Db DoubleSignVoteRow.id where
  read := Db.doubleSignVote
  write t s := { s with doubleSignVote := t }
  read_write _ _ := rfl
  violation s r :=
    foreignKey "double_sign_vote" "validator_address" (s.hasValidator r.validatorAddress)

def communityPoolTable : Relation Db (oneRowId (ρ := CommunityPoolRow)) where
  read := Db.communityPool
  write t s := { s with communityPool := t }
  read_write _ _ := rfl
  violation _ _ := none

def supplyTable : Relation Db (oneRowId (ρ := SupplyRow)) where
  read := Db.supply
  write t s := { s with supply := t }
  read_write _ _ := rfl
  violation _ _ := none

def inflationTable : Relation Db (oneRowId (ρ := InflationRow)) where
  read := Db.inflation
  write t s := { s with inflation := t }
  read_write _ _ := rfl
  violation _ _ := none

def govParamsTable : Relation Db (oneRowId (ρ := ParamsRow)) where
  read := Db.govParams
  write t s := { s with govParams := t }
  read_write _ _ := rfl
  violation _ _ := none

def mintParamsTable : Relation Db (oneRowId (ρ := ParamsRow)) where
  read := Db.mintParams
  write t s := { s with mintParams := t }
  read_write _ _ := rfl
  violation _ _ := none

def distributionParamsTable : Relation Db (oneRowId (ρ := ParamsRow)) where
  read := Db.distributionParams
  write t s := { s with distributionParams := t }
  read_write _ _ := rfl
  violation _ _ := none

def slashingParamsTable : Relation Db (oneRowId (ρ := ParamsRow)) where
  read := Db.slashingParams
  write t s := { s with slashingParams := t }
  read_write _ _ := rfl
  violation _ _ := none

def stakingParamsTable : Relation Db (oneRowId (ρ := ParamsRow)) where
  read := Db.stakingParams
  write t s := { s with stakingParams := t }
  read_write _ _ := rfl
  violation _ _ := none

def tokenPriceTable : Relation Db TokenPriceRow.unitName where
  read := Db.tokenPrice
  write t s := { s with tokenPrice := t }
  read_write _ _ := rfl
  violation s r := foreignKey "token_price" "unit_name" (s.hasUnit r.unitName)

def tokenPriceHistoryTable : Relation Db TokenPriceHistoryRow.uniquePriceForTimestamp where
  read := Db.tokenPriceHistory
  write t s := { s with tokenPriceHistory := t }
  read_write _ _ := rfl
  violation s r := foreignKey "token_price_history" "unit_name" (s.hasUnit r.unitName)

def feeGrantAllowanceTable : Relation Db FeeGrantAllowanceRow.uniqueFeeGrantAllowance where
  read := Db.feeGrantAllowance
  write t s := { s with feeGrantAllowance := t }
  read_write _ _ := rfl
  violation s r :=
    foreignKey "fee_grant_allowance" "grantee_address" (s.hasAccount r.granteeAddress) <|>
      foreignKey "fee_grant_allowance" "granter_address" (s.hasAccount r.granterAddress)

def proposalTable : Relation Db ProposalRow.id where
  read := Db.proposal
  write t s := { s with proposal := t }
  read_write _ _ := rfl
  violation s r :=
    integerColumn r.id <|>
      foreignKey "proposal" "proposer_address" (s.hasAccount r.proposerAddress)

def proposalDepositTable : Relation Db ProposalDepositRow.uniqueDeposit where
  read := Db.proposalDeposit
  write t s := { s with proposalDeposit := t }
  read_write _ _ := rfl
  violation s r :=
    foreignKey "proposal_deposit" "proposal_id" (s.hasProposal r.proposalId) <|>
      foreignKey "proposal_deposit" "depositor_address" (s.hasAccount r.depositorAddress)

def proposalVoteTable : Relation Db ProposalVoteRow.uniqueVote where
  read := Db.proposalVote
  write t s := { s with proposalVote := t }
  read_write _ _ := rfl
  violation s r :=
    foreignKey "proposal_vote" "proposal_id" (s.hasProposal r.proposalId) <|>
      foreignKey "proposal_vote" "voter_address" (s.hasAccount r.voterAddress)

def proposalTallyResultTable : Relation Db ProposalTallyResultRow.proposalId where
  read := Db.proposalTallyResult
  write t s := { s with proposalTallyResult := t }
  read_write _ _ := rfl
  violation s r := foreignKey "proposal_tally_result" "proposal_id" (s.hasProposal r.proposalId)

def proposalValidatorStatusSnapshotTable :
    Relation Db ProposalValidatorStatusSnapshotRow.uniqueValidatorStatusSnapshot where
  read := Db.proposalValidatorStatusSnapshot
  write t s := { s with proposalValidatorStatusSnapshot := t }
  read_write _ _ := rfl
  violation s r :=
    foreignKey "proposal_validator_status_snapshot" "proposal_id" (s.hasProposal r.proposalId) <|>
      foreignKey "proposal_validator_status_snapshot" "validator_address"
        (s.hasValidator r.validatorAddress)

def softwareUpgradePlanTable : Relation Db SoftwareUpgradePlanRow.proposalId where
  read := Db.softwareUpgradePlan
  write t s := { s with softwareUpgradePlan := t }
  read_write _ _ := rfl
  violation s r := foreignKey "software_upgrade_plan" "proposal_id" (s.hasProposal r.proposalId)

end SafrochainIndexer.Callisto
