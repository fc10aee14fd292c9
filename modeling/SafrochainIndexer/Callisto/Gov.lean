import SafrochainIndexer.Callisto.Params

/-!
# The gov module

Handlers of messages and of blocks. What a handler stores about a proposal
comes from the source, at a height; what it stores about a vote or a deposit
comes from the events of the message.
-/

namespace SafrochainIndexer.Callisto.Gov

structure Source where
  proposal : Int → Nat → Except String V1Proposal
  proposalDeposit : Int → Nat → String → Except String (List Coin)
  tallyResult : Int → Nat → Except String TallyCounts
  params : ParamsSource

/-- The module with the sources of the modules it updates, and what it takes
from the SDK and from Go's libraries. `unpackContent` is that of the codec that
`handlePassedV1Beta1Proposal` declares. -/
structure Module where
  source : Source
  distrSource : ParamsSource
  mintSource : ParamsSource
  getInflation : Int → Except String String
  slashingSource : ParamsSource
  stakingSource : ParamsSource
  unpackAny : Any → Except String ProposalMsg
  unpackInterfaces : V1Proposal → Except String Unit
  unpackContent : Any → Except Fault LegacyContent
  protoMarshalJSON : Any → Except String String
  unmarshalJSON : String → Except String Any
  timeParse : String → Except String Int
  unmarshalOption : String → Except String WeightedVoteOption
  voteOptionFromString : String → Except String VoteOption

variable (m : Module)

-- ---------------------------------------------------------------------------
-- Events
-- ---------------------------------------------------------------------------

def findAttributeByKey (event : Event) (key : String) : Option Attribute :=
  event.attributes.find? fun attr => attr.key = key

/-- The search loop of the next two functions. -/
def attributeFromEvents (key : String) (events : List Event) : Option String :=
  (events.findSome? fun event => findAttributeByKey event key).map Attribute.value

def proposalIDFromEvents (events : List Event) : Except String Nat :=
  match attributeFromEvents "proposal_id" events with
  | some value => Text.parseUint value
  | none => .error "no proposal id found"

/-- `option:VOTE_OPTION_NO weight:"1.000000000000000000"`, or JSON. -/
def Module.parseWeightVoteOption (optionValue : String) : Except String WeightedVoteOption :=
  match m.unmarshalOption optionValue with
  | .ok weightedVoteOption => .ok weightedVoteOption
  | .error _ =>
    match Text.splitAt optionValue ' ' with
    | [option, weight] =>
      match m.voteOptionFromString (Text.replaceAll option "option:" "") with
      | .ok voteOption =>
        let weight := Text.replaceAll weight "weight:" ""
        let weight := Text.replaceAll weight "\"" ""
        .ok ⟨voteOption, weight⟩
      | .error message => .error s!"failed to parse vote option {optionValue}: {message}"
    | _ => .error s!"failed to parse vote option {optionValue}"

def Module.weightVoteOptionFromEvents (events : List Event) : Except String WeightedVoteOption :=
  match attributeFromEvents "option" events with
  | some value => m.parseWeightVoteOption value
  | none => .error "no vote option found"

-- ---------------------------------------------------------------------------
-- Passed proposals
-- ---------------------------------------------------------------------------

def Module.handleParamChangeProposal (height : Int) (moduleName : String) : Eff Db Unit :=
  match moduleName with
  | "distribution" =>
    Eff.wrap "error while updating ParamChangeProposal distribution params : "
      (Distribution.updateParams m.distrSource height)
  | "gov" =>
    Eff.wrap "error while updating ParamChangeProposal gov params : "
      (Gov.updateParams m.source.params height)
  | "mint" => do
    Eff.wrap "error while updating ParamChangeProposal mint params : "
      (Mint.updateParams m.mintSource height)
    Eff.wrap "error while updating inflation with ParamChangeProposal: "
      (Mint.updateInflation m.getInflation)
  | "slashing" =>
    Eff.wrap "error while updating ParamChangeProposal slashing params : "
      (Slashing.updateParams m.slashingSource height)
  | "staking" =>
    Eff.wrap "error while updating ParamChangeProposal staking params : "
      (Staking.updateParams m.stakingSource height)
  | _ => pure ()

def getParamChangeSubspace : ProposalMsg → Option String
  | .distrMsgUpdateParams => some "distribution"
  | .govMsgUpdateParams => some "gov"
  | .mintMsgUpdateParams => some "mint"
  | .slashingMsgUpdateParams => some "slashing"
  | .stakingMsgUpdateParams => some "staking"
  | _ => none

def Module.handlePassedV1Proposal (proposal : V1Proposal) (msg : ProposalMsg) (height : Int) :
    Eff Db Unit :=
  match msg with
  | .msgSoftwareUpgrade plan =>
    Eff.wrap "error while storing software upgrade plan: "
      (saveSoftwareUpgradePlan proposal.id plan height)
  | .msgCancelUpgrade =>
    Eff.wrap "error while deleting software upgrade plan: " (deleteSoftwareUpgradePlan proposal.id)
  | msg =>
    match getParamChangeSubspace msg with
    | some subspace => m.handleParamChangeProposal height subspace
    | none => pure ()

def Module.handlePassedV1Beta1Proposal (proposal : V1Proposal) (content : Any) (height : Int) :
    Eff Db Unit := do
  let content ← Eff.wrap "error while handling ParamChangeProposal: "
    (Eff.ofFallible (m.unpackContent content))
  match content with
  | .parameterChangeProposal subspaces =>
    subspaces.forM fun subspace =>
      Eff.wrap "error while updating params from ParamChangeProposal: "
        (m.handleParamChangeProposal height subspace)
  | .softwareUpgradeProposal plan =>
    Eff.wrap "error while storing software upgrade plan: "
      (saveSoftwareUpgradePlan proposal.id plan height)
  | .cancelSoftwareUpgradeProposal =>
    Eff.wrap "error while deleting software upgrade plan: " (deleteSoftwareUpgradePlan proposal.id)
  | _ => pure ()

/-- One round of the loop of `handlePassedProposal`. -/
def Module.handlePassedMessage (proposal : V1Proposal) (height : Int) (msg : Any) : Eff Db Unit := do
  let sdkMsg ← Eff.wrap "error while unpacking proposal message: " (Eff.ofExcept (m.unpackAny msg))
  match sdkMsg with
  | .msgExecLegacyContent content _ => m.handlePassedV1Beta1Proposal proposal content height
  | sdkMsg => m.handlePassedV1Proposal proposal sdkMsg height

def Module.handlePassedProposal (proposal : V1Proposal) (height : Int) : Eff Db Unit :=
  if proposal.status ≠ .passed then pure ()
  else proposal.messages.forM (m.handlePassedMessage proposal height)

-- ---------------------------------------------------------------------------
-- Statuses
-- ---------------------------------------------------------------------------

def updateOf (proposal : V1Proposal) : ProposalUpdate :=
  ⟨proposal.id, proposal.status.string, proposal.votingStartTime, proposal.votingEndTime⟩

def Module.updateDeletedProposalStatus (id : Nat) : Eff Db Unit := do
  let stored ← getProposal m.unmarshalJSON id
  updateProposal ⟨stored.id, proposalStatusInvalid, stored.votingStartTime, stored.votingEndTime⟩

/-- The error of the source says that the proposal is not on the chain. -/
def deleted (message : String) : Bool :=
  Text.contains message "NotFound" && Text.contains message "doesn't exist"

def Module.updateProposalStatus (height : Int) (id : Nat) : Eff Db Unit :=
  match m.source.proposal height id with
  | .error message =>
    if deleted message then m.updateDeletedProposalStatus id
    else Eff.fail ("error while getting proposal: " ++ message)
  | .ok proposal => do
    Eff.wrap "error while updating proposal status: " (updateProposal (updateOf proposal))
    Eff.wrap "error while handling passed proposals: " (m.handlePassedProposal proposal height)

def Module.updateProposalTallyResult (proposalID : Nat) (height : Int) : Eff Db Unit := do
  let result ← Eff.wrap "error while getting tally result: "
    (Eff.ofExcept (m.source.tallyResult height proposalID))
  saveTallyResults
    [⟨proposalID, result.yesCount, result.abstainCount, result.noCount, result.noWithVetoCount, height⟩]

-- ---------------------------------------------------------------------------
-- Blocks
-- ---------------------------------------------------------------------------

/-- The values under `attrKey` in the events of a type. -/
def valuesInEvents (events : List Event) (eventType attrKey : String) : List String :=
  (events.filter fun event => event.type = eventType).flatMap fun event =>
    (event.attributes.filter fun attr => attr.key = attrKey).map Attribute.value

def parseProposalIDs : List String → Except String (List Nat)
  | [] => .ok []
  | value :: values =>
    match Text.parseUint value with
    | .ok id => (parseProposalIDs values).map (id :: ·)
    | .error message => .error ("error while parsing proposal id: " ++ message)

def findProposalIDsInEvents (events : List Event) (eventType attrKey : String) :
    Except String (List Nat) :=
  parseProposalIDs (valuesInEvents events eventType attrKey)

def updatedProposalIDs (txEvents endBlockEvents : List Event) : Except String (List Nat) := do
  let endBlockIDs ← findProposalIDsInEvents endBlockEvents "active_proposal" "proposal_id"
  let idsInSubmitTxs ← findProposalIDsInEvents txEvents "submit_proposal" "voting_period_start"
  let idsInDepositTxs ← findProposalIDsInEvents txEvents "proposal_deposit" "voting_period_start"
  pure (endBlockIDs ++ idsInSubmitTxs ++ idsInDepositTxs)

def Module.updateProposalsStatus (height : Int) (txEvents endBlockEvents : List Event) :
    Eff Db Unit := do
  let ids ← Eff.ofExcept (updatedProposalIDs txEvents endBlockEvents)
  ids.forM fun id =>
    Eff.wrap s!"error while updating proposal {id} status: " (m.updateProposalStatus height id)

def collectTxEvents (txs : List Tx) : List Event := txs.flatMap Tx.events

def Module.handleBlock (height : Int) (endBlockEvents : List Event) (txs : List Tx) : Eff Db Unit :=
  Eff.attempt (m.updateProposalsStatus height (collectTxEvents txs) endBlockEvents)

-- ---------------------------------------------------------------------------
-- Messages
-- ---------------------------------------------------------------------------

def Module.handleDepositEvent (tx : Tx) (depositor : String) (events : List Event) :
    Eff Db Unit := do
  let proposalID ← Eff.wrap "error while getting proposal id: "
    (Eff.ofExcept (proposalIDFromEvents events))
  let amount ← Eff.wrap "error while getting proposal deposit: "
    (Eff.ofExcept (m.source.proposalDeposit tx.height proposalID depositor))
  let txTimestamp ← Eff.wrap "error while parsing time: " (Eff.ofExcept (m.timeParse tx.timestamp))
  saveDeposits [⟨proposalID, depositor, amount, txTimestamp, tx.txHash, tx.height⟩]

def Module.handleVoteEvent (tx : Tx) (voter : String) (events : List Event) : Eff Db Unit := do
  let proposalID ← Eff.wrap "error while getting proposal id: "
    (Eff.ofExcept (proposalIDFromEvents events))
  let txTimestamp ← Eff.wrap "error while parsing time: " (Eff.ofExcept (m.timeParse tx.timestamp))
  let weightVoteOption ← Eff.wrap "error while getting vote option: "
    (Eff.ofExcept (m.weightVoteOptionFromEvents events))
  Eff.wrap "error while saving vote: "
    (saveVote ⟨proposalID, voter, weightVoteOption.option, weightVoteOption.weight, txTimestamp,
      tx.height⟩)
  m.updateProposalTallyResult proposalID tx.height

/-- The source may not know the proposal at the height of its transaction yet. -/
def Module.submittedProposal (height : Int) (proposalID : Nat) : Eff Db V1Proposal :=
  match m.source.proposal height proposalID with
  | .ok proposal => pure proposal
  | .error message =>
    if Text.contains message "NotFound" then do
      let block ← Eff.wrap "error while getting latest block height: " getLastBlockHeightAndTimestamp
      Eff.wrap "error while getting proposal: "
        (Eff.ofExcept (m.source.proposal block.height proposalID))
    else Eff.fail ("error while getting proposal: " ++ message)

def recipientOf : ProposalMsg → Option Account
  | .msgCommunityPoolSpend recipient => some ⟨recipient⟩
  | .msgExecLegacyContent _ (some (.communityPoolSpendProposal recipient)) => some ⟨recipient⟩
  | _ => none

/-- `*t` of a time that may be missing. -/
def deref : Option Int → Eff Db Int
  | some time => pure time
  | none => Eff.panicking "runtime error: invalid memory address or nil pointer dereference"

def Module.handleSubmitProposalEvent (tx : Tx) (proposer : String) (events : List Event) :
    Eff Db Unit := do
  let proposalID ← Eff.wrap "error while getting proposal id: "
    (Eff.ofExcept (proposalIDFromEvents events))
  let proposal ← m.submittedProposal tx.height proposalID
  let msgs ← Eff.wrap "error while unpacking proposal message: "
    (Eff.ofExcept (proposal.messages.mapM m.unpackAny))
  Eff.wrap "error while storing proposal recipient: " (saveAccounts (msgs.filterMap recipientOf))
  Eff.wrap "error while unpacking proposal interfaces: "
    (Eff.ofExcept (m.unpackInterfaces proposal))
  let submitTime ← deref proposal.submitTime
  let depositEndTime ← deref proposal.depositEndTime
  Eff.wrap "error while saving proposal: "
    (saveProposals m.protoMarshalJSON
      [{ id := proposal.id
         title := proposal.title
         summary := proposal.summary
         metadata := proposal.metadata
         messages := proposal.messages
         status := proposal.status.string
         submitTime := submitTime
         depositEndTime := depositEndTime
         votingStartTime := proposal.votingStartTime
         votingEndTime := proposal.votingEndTime
         proposer := proposer }])
  m.handleDepositEvent tx proposer events

/-- `tx.Logs[index].Events`. -/
def logEvents (tx : Tx) (index : Nat) : Eff Db (List Event) :=
  match tx.logs[index]? with
  | some events => pure events
  | none => Eff.panicking "runtime error: index out of range"

def Module.handleMsg (index : Nat) (msg : Msg) (tx : Tx) : Eff Db Unit :=
  if tx.logs.length = 0 then pure ()
  else
    match msg with
    | .submitProposal _ cosmosMsg => do
      m.handleSubmitProposalEvent tx cosmosMsg.proposer (← logEvents tx index)
    | .deposit _ cosmosMsg => do m.handleDepositEvent tx cosmosMsg.depositor (← logEvents tx index)
    | .vote _ cosmosMsg => do m.handleVoteEvent tx cosmosMsg.voter (← logEvents tx index)
    | .voteWeighted _ cosmosMsg => do m.handleVoteEvent tx cosmosMsg.voter (← logEvents tx index)
    | .other => pure ()

def noParams : ParamsSource := ⟨fun _ => .error "rpc error: code = Unknown", .ok⟩

def plain : Module where
  source :=
    { proposal := fun _ id =>
        .error s!"rpc error: code = NotFound desc = proposal {id} doesn't exist"
      proposalDeposit := fun _ _ _ => .error "rpc error: code = NotFound desc = depositor not found"
      tallyResult := fun _ _ => .ok ⟨"0", "0", "0", "0"⟩
      params := noParams }
  distrSource := noParams
  mintSource := noParams
  getInflation _ := .error "rpc error: code = Unknown"
  slashingSource := noParams
  stakingSource := noParams
  unpackAny any :=
    match any.typeUrl with
    | "/cosmos.upgrade.v1beta1.MsgSoftwareUpgrade" => .ok (.msgSoftwareUpgrade ⟨any.value, 100, ""⟩)
    | "/cosmos.upgrade.v1beta1.MsgCancelUpgrade" => .ok .msgCancelUpgrade
    | typeUrl => .error s!"no concrete type registered for type URL {typeUrl}"
  unpackInterfaces _ := .ok ()
  unpackContent _ := .error (.panic "runtime error: invalid memory address or nil pointer dereference")
  protoMarshalJSON any := .ok s!"\x7b\"@type\":\"{any.typeUrl}\"\x7d"
  unmarshalJSON text := .error s!"invalid character in {text}"
  timeParse value :=
    match value with
    | "2024-01-01T00:00:00Z" => .ok 1704067200000000
    | value => .error s!"parsing time \"{value}\""
  unmarshalOption _ := .error "invalid character 'o' looking for beginning of value"
  voteOptionFromString str :=
    match [VoteOption.yes, .abstain, .no, .noWithVeto].find? fun option => option.string = str with
    | some option => .ok option
    | none => .error s!"'{str}' is not a valid vote option"

def storedProposals : Db :=
  { (default : Db) with
    proposal := [1, 2].foldl (fun t id =>
      t.upsert .ignore ⟨id, "", "", "", "[]", 0, 0, none, none, "safro1", "PROPOSAL_STATUS_PASSED"⟩)
      Table.empty }

end SafrochainIndexer.Callisto.Gov
