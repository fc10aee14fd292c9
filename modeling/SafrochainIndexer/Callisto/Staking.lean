import SafrochainIndexer.Callisto.GovDatabase
import SafrochainIndexer.Callisto.Validators

/-!
# The staking module

Handlers of messages, and the save functions for descriptions and commissions.
What a handler stores about a validator comes from the source, at a height; the
avatar in its description comes from Keybase.

A rate is an `sdk.Dec`, counted in units of its 18th decimal.
-/

namespace SafrochainIndexer.Callisto

/-- `stakingtypes.Description`. -/
structure Description where
  moniker : String
  identity : String
  website : String
  securityContact : String
  details : String
  deriving DecidableEq, Repr

def doNotModifyDesc : String := "[do-not-modify]"

structure ValidatorDescription where
  operatorAddress : String
  description : Description
  avatarURL : String
  height : Int
  deriving DecidableEq, Repr

structure ValidatorCommission where
  valAddress : String
  commission : Option Int
  minSelfDelegation : Option Int
  height : Int
  deriving DecidableEq, Repr

def toNullString (value : String) : Option String :=
  let value := Text.trimSpace value
  if value ≠ "" then some value else none

def ofNullString (value : Option String) : String := value.getD ""

structure Sdk where
  consAddressFromBech32 : String → Except String String
  ensureLength : Description → Except String Description
  updateDescription : Description → Description → Except String Description

section
variable (sdk : Sdk)

def getValidatorConsensusAddress (address : String) : Eff Db String := do
  let s ← get
  match s.validatorInfo.rows.find? fun row => row.operatorAddress = address with
  | none =>
    Eff.fail
      s!"cannot find the consensus address of validator having operator address {address}"
  | some row => Eff.ofExcept (sdk.consAddressFromBech32 row.consensusAddress)

-- ---------------------------------------------------------------------------
-- Descriptions
-- ---------------------------------------------------------------------------

def descriptionConflict : Conflict ValidatorDescriptionRow.validatorAddress where
  set stored excluded :=
    { stored with
      moniker := excluded.moniker
      identity := excluded.identity
      avatarUrl := excluded.avatarUrl
      website := excluded.website
      securityContact := excluded.securityContact
      details := excluded.details
      height := excluded.height }
  guard stored excluded := stored.height ≤ excluded.height
  key_set _ _ := rfl

def getValidatorDescription (address : String) : Eff Db (Option ValidatorDescription) := do
  let s ← get
  pure <| (s.validatorDescription.find address).map fun row =>
    { operatorAddress := row.validatorAddress
      description :=
        { moniker := ofNullString row.moniker
          identity := ofNullString row.identity
          website := ofNullString row.website
          securityContact := ofNullString row.securityContact
          details := ofNullString row.details }
      avatarURL := ofNullString row.avatarUrl
      height := row.height }

/-- What becomes of the description in the presence of an `existing` one. -/
def updateExisting (des : Description) (avatarURL : String) :
    Option ValidatorDescription → Except String (Description × String)
  | none => .ok (des, avatarURL)
  | some existing => do
    let des ← sdk.updateDescription existing.description des
    pure (des, if avatarURL = doNotModifyDesc then existing.avatarURL else avatarURL)

def descriptionRow (consAddr : String) (des : Description) (avatarURL : String) (height : Int) :
    Except String ValidatorDescriptionRow :=
  match toNullString consAddr with
  | none =>
    .error "pq: null value in column \"validator_address\" violates not-null constraint"
  | some validatorAddress =>
    .ok {
      validatorAddress := validatorAddress
      moniker := toNullString des.moniker
      identity := toNullString des.identity
      avatarUrl := toNullString avatarURL
      website := toNullString des.website
      securityContact := toNullString des.securityContact
      details := toNullString des.details
      height := height }

def saveValidatorDescription (description : ValidatorDescription) : Eff Db Unit := do
  let consAddr ← getValidatorConsensusAddress sdk description.operatorAddress
  let des ← Eff.ofExcept (sdk.ensureLength description.description)
  let existing ← getValidatorDescription consAddr
  let (des, avatarURL) ← Eff.ofExcept (updateExisting sdk des description.avatarURL existing)
  Eff.wrap "error while storing validator description: " do
    let row ← Eff.ofExcept (descriptionRow consAddr des avatarURL description.height)
    validatorDescriptionTable.insert descriptionConflict [row]

-- ---------------------------------------------------------------------------
-- Commissions
-- ---------------------------------------------------------------------------

def commissionConflict : Conflict ValidatorCommissionRow.validatorAddress where
  set stored excluded :=
    { stored with
      commission := excluded.commission
      minSelfDelegation := excluded.minSelfDelegation
      height := excluded.height }
  guard stored excluded := stored.height ≤ excluded.height
  key_set _ _ := rfl

def getValidatorCommission (address : String) : Eff Db (Option ValidatorCommissionRow) := do
  let s ← get
  pure (s.validatorCommission.find address)

/-- Both columns take the text of a number. The second one is a `BIGINT`. -/
def commissionRow (consAddr : String) (commission : Option String) (minSelfDelegation : Option Int)
    (height : Int) : Except String ValidatorCommissionRow :=
  match commission, minSelfDelegation with
  | none, _ => .error "pq: invalid input syntax for type numeric: \"\""
  | some _, none => .error "pq: invalid input syntax for type bigint: \"\""
  | some commission, some n =>
    if -2 ^ 63 ≤ n ∧ n < 2 ^ 63 then .ok ⟨consAddr, commission, n, height⟩
    else .error s!"pq: value \"{n}\" is out of range for type bigint"

/-- The texts of the source are empty where these are `none`. -/
def saveValidatorCommission (data : ValidatorCommission) : Eff Db Unit :=
  if data.minSelfDelegation = none ∧ data.commission = none then pure ()
  else do
    let consAddr ← getValidatorConsensusAddress sdk data.valAddress
    let existing ← getValidatorCommission consAddr
    let commission := (data.commission.map decString) <|> existing.map (·.commission)
    let minSelfDelegation := data.minSelfDelegation <|> existing.map (·.minSelfDelegation)
    Eff.wrap "error while storing validator commission: " do
      let row ← Eff.ofExcept (commissionRow consAddr commission minSelfDelegation data.height)
      validatorCommissionTable.insert commissionConflict [row]

end

namespace Staking

-- ---------------------------------------------------------------------------
-- Validators of the chain
-- ---------------------------------------------------------------------------

/-- A `cryptotypes.PubKey`, with the text of its address as a `ConsAddress`. -/
structure PubKey where
  address : String
  string : String
  deriving DecidableEq, Repr

structure CommissionRates where
  rate : Int
  maxRate : Int
  maxChangeRate : Int
  deriving DecidableEq, Repr

/-- `stakingtypes.Validator`. -/
structure StakingValidator where
  operatorAddress : String
  consensusPubkey : Any
  jailed : Bool
  status : Int
  tokens : Int
  description : Description
  commission : CommissionRates
  minSelfDelegation : Int
  deriving DecidableEq, Repr

def bonded : String := "BOND_STATUS_BONDED"

structure Source where
  getValidator : Int → String → Except String StakingValidator
  getValidatorsWithStatus : Int → String → Except String (List StakingValidator)

-- ---------------------------------------------------------------------------
-- Keybase
-- ---------------------------------------------------------------------------

structure QueryStatus where
  code : Int
  errDesc : String
  deriving DecidableEq, Repr

structure Picture where
  url : String
  deriving DecidableEq, Repr

structure AccountPictures where
  primary : Option Picture
  deriving DecidableEq, Repr

structure AccountDetails where
  pictures : Option AccountPictures
  deriving DecidableEq, Repr

structure IdentityQueryResponse where
  status : QueryStatus
  objects : List AccountDetails
  deriving DecidableEq, Repr

/-- The module with its source and what it takes from the SDK and from Keybase.
`selfDelegateAddress` is that of the validator's operator, `getConsAddr` reads
the key that `unpackPubKey` may have cached. -/
structure Module where
  source : Source
  sdk : Sdk
  unpackPubKey : Any → Except String PubKey
  getConsAddr : StakingValidator → Except String String
  selfDelegateAddress : String → Except Fault String
  queryKeyBase : String → Except String IdentityQueryResponse

variable (m : Module)

def Module.getAvatarURL (identity : String) : Except String String :=
  if identity.utf8ByteSize < 16 then .ok ""
  else
    match m.queryKeyBase s!"/user/lookup.json?key_suffix={identity}&fields=basics&fields=pictures" with
    | .error message => .error ("error while querying keybase: " ++ message)
    | .ok response =>
      if response.status.code ≠ 0 then
        .error ("response code not valid: " ++ response.status.errDesc)
      else
        match response.objects with
        | [] => .ok ""
        | data :: _ => .ok (((data.pictures.bind (·.primary)).map (·.url)).getD "")

-- ---------------------------------------------------------------------------
-- Conversions
-- ---------------------------------------------------------------------------

def Module.getValidatorConsPubKey (validator : StakingValidator) : Except String PubKey :=
  m.unpackPubKey validator.consensusPubkey

def Module.getValidatorConsAddr (validator : StakingValidator) : Except String String :=
  match m.getValidatorConsPubKey validator with
  | .ok pubKey => .ok pubKey.address
  | .error message => .error ("error while getting validator consensus pub key: " ++ message)

def Module.convertValidator (height : Int) (validator : StakingValidator) :
    Eff Db (Validator Int) := do
  let consAddr ← Eff.wrap "error while getting validator consensus address: "
    (Eff.ofExcept (m.getValidatorConsAddr validator))
  let consPubKey ← Eff.wrap "error while getting validator consensus pub key: "
    (Eff.ofExcept (m.getValidatorConsPubKey validator))
  let selfDelegateAddress ← Eff.ofFallible (m.selfDelegateAddress validator.operatorAddress)
  pure {
    consAddr := consAddr
    consPubKey := consPubKey.string
    operator := validator.operatorAddress
    selfDelegateAddress := selfDelegateAddress
    maxChangeRate := validator.commission.maxChangeRate
    maxRate := validator.commission.maxRate
    height := height }

def Module.convertValidatorDescription (height : Int) (opAddr : String)
    (description : Description) : ValidatorDescription :=
  let avatarURL :=
    if description.identity = doNotModifyDesc then doNotModifyDesc
    else
      match m.getAvatarURL description.identity with
      | .ok url => url
      | .error _ => ""
  ⟨opAddr, description, avatarURL, height⟩

-- ---------------------------------------------------------------------------
-- Refreshes
-- ---------------------------------------------------------------------------

def Module.refreshValidatorInfos (height : Int) (valOper : String) : Eff Db Unit := do
  let stakingValidator ← Eff.ofExcept (m.source.getValidator height valOper)
  let validator ← Eff.wrap "error while converting validator: "
    (m.convertValidator height stakingValidator)
  let desc := m.convertValidatorDescription height stakingValidator.operatorAddress
    stakingValidator.description
  saveValidatorsData decString [validator]
  saveValidatorDescription m.sdk desc
  saveValidatorCommission m.sdk
    ⟨stakingValidator.operatorAddress, some stakingValidator.commission.rate,
      some stakingValidator.minSelfDelegation, height⟩

def Module.getValidatorsWithStatus (height : Int) (status : String) :
    Eff Db (List StakingValidator × List (Validator Int)) := do
  let validators ← Eff.ofExcept (m.source.getValidatorsWithStatus height status)
  let vals ← validators.mapM fun val =>
    Eff.wrap "error while converting validator: " (m.convertValidator height val)
  pure (validators, vals)

def int64 (n : Int) : Eff Db Int :=
  if -2 ^ 63 ≤ n ∧ n < 2 ^ 63 then pure n else Eff.panicking "Int64() out of bound"

/-- One round of the loop of `updateValidatorStatusAndVP`. The round of a
validator that is not stored leaves the zero values in both slices. -/
def Module.statusAndVP (height : Int) (validator : StakingValidator) :
    Eff Db (ValidatorVotingPower × ValidatorStatus) := do
  let consAddr ← Eff.ofExcept (m.getConsAddr validator)
  let s ← get
  if s.hasValidator consAddr then do
    let consPubKey ← Eff.ofExcept (m.getValidatorConsPubKey validator)
    let votingPower ← int64 validator.tokens
    pure (⟨consAddr, votingPower, height⟩,
      ⟨consAddr, consPubKey.string, validator.status, validator.jailed, height⟩)
  else pure (⟨"", 0, 0⟩, ⟨"", "", 0, false, 0⟩)

def Module.updateValidatorStatusAndVP (height : Int) (validators : List StakingValidator) :
    Eff Db Unit := do
  let entries ← validators.mapM (m.statusAndVP height)
  Eff.attempt (saveValidatorsVotingPowers (entries.map Prod.fst))
  Eff.attempt (saveValidatorsStatuses (entries.map Prod.snd))

/-- One round of the loop of `updateProposalValidatorStatusSnapshot`. -/
def Module.statusSnapshot (height : Int) (proposalID : Nat) (validator : StakingValidator) :
    Eff Db ProposalValidatorStatusSnapshot := do
  let consAddr ← Eff.ofExcept (m.getConsAddr validator)
  let votingPower ← int64 validator.tokens
  pure ⟨proposalID, consAddr, votingPower, validator.status, validator.jailed, height⟩

def Module.updateProposalValidatorStatusSnapshot (height : Int) (proposalID : Nat)
    (validators : List StakingValidator) : Eff Db Unit := do
  let snapshots ← validators.mapM (m.statusSnapshot height proposalID)
  saveProposalValidatorsStatusesSnapshots snapshots

def Module.updateValidatorStatuses : Eff Db Unit := do
  let block ← Eff.wrap "error while getting latest block height from db: "
    getLastBlockHeightAndTimestamp
  let (validators, _) ← Eff.wrap "error while getting validators with bonded status: "
    (m.getValidatorsWithStatus block.height bonded)
  Eff.wrap "error while updating validators status and voting power: "
    (m.updateValidatorStatusAndVP block.height validators)
  let ids ← Eff.wrap "error while getting open proposals ids: "
    (getOpenProposalsIds block.timestamp)
  ids.forM fun id =>
    Eff.wrap "error while updating proposal validator status snapshots: "
      (m.updateProposalValidatorStatusSnapshot block.height id validators)

-- ---------------------------------------------------------------------------
-- Messages
-- ---------------------------------------------------------------------------

inductive Msg
  | createValidator (validatorAddress : String)
  | editValidator (validatorAddress : String)
  | delegate
  | beginRedelegate
  | undelegate
  | other
  deriving DecidableEq, Repr

def Module.handleMsg (_index : Nat) (msg : Msg) (tx : Tx) : Eff Db Unit :=
  if tx.logs.length = 0 then pure ()
  else
    match msg with
    | .createValidator validatorAddress =>
      Eff.wrap "error while refreshing validator from MsgCreateValidator: "
        (m.refreshValidatorInfos tx.height validatorAddress)
    | .editValidator validatorAddress =>
      Eff.wrap "error while refreshing validator from MsgEditValidator: "
        (m.refreshValidatorInfos tx.height validatorAddress)
    | .delegate => m.updateValidatorStatuses
    | .beginRedelegate => m.updateValidatorStatuses
    | .undelegate => m.updateValidatorStatuses
    | .other => pure ()

end Staking

end SafrochainIndexer.Callisto
