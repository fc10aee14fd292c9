import SafrochainIndexer.Callisto.Accounts
import SafrochainIndexer.Callisto.GovTypes
import SafrochainIndexer.Lib.Text

/-!
# Governance tables

The save, update, delete and get functions for proposals, deposits, votes,
tallies and software upgrade plans, and the last block that is stored.
-/

namespace SafrochainIndexer.Callisto

/-- A parameter that a statement compares with a column `INTEGER`. -/
def integerParameter (n : Nat) : Eff Db Unit :=
  match integerColumn n with
  | some message => Eff.fail message
  | none => pure ()

theorem integerParameter_returns {n : Nat} {s t : Db} :
    Eff.Returns (integerParameter n) s () t ↔ n < 2 ^ 31 ∧ s = t := by
  unfold integerParameter integerColumn
  by_cases hn : n < 2 ^ 31
  · rw [if_pos hn]
    simp only [Eff.returns_pure, hn, true_and]
  · rw [if_neg hn]
    simp only [Eff.returns_fail, hn, false_and]

-- ---------------------------------------------------------------------------
-- Blocks
-- ---------------------------------------------------------------------------

/-- The stored block with the largest height, or the zero value. -/
def lastBlock (rows : List BlockRow) : BlockRow :=
  match rows with
  | [] => ⟨0, zeroTime⟩
  | row :: rows => rows.foldl (fun last row => if last.height < row.height then row else last) row

theorem lastBlock_spec {rows : List BlockRow} (h : rows ≠ []) :
    lastBlock rows ∈ rows ∧ ∀ row ∈ rows, row.height ≤ (lastBlock rows).height := by
  cases rows with
  | nil => exact absurd rfl h
  | cons row rows =>
    clear h
    induction rows generalizing row with
    | nil => simp [lastBlock]
    | cons next rows ih =>
      simp only [lastBlock, List.foldl_cons] at ih ⊢
      by_cases hlt : row.height < next.height
      · obtain ⟨hmem, hle⟩ := ih next
        rw [if_pos hlt]
        refine ⟨List.mem_cons_of_mem _ hmem, List.forall_mem_cons.mpr ⟨?_, hle⟩⟩
        exact (Int.le_of_lt hlt).trans (hle next (by simp))
      · obtain ⟨hmem, hle⟩ := ih row
        obtain ⟨hrow, hrows⟩ := List.forall_mem_cons.mp hle
        rw [if_neg hlt]
        refine ⟨?_, List.forall_mem_cons.mpr ⟨hrow, List.forall_mem_cons.mpr ⟨?_, hrows⟩⟩⟩
        · rcases List.mem_cons.mp hmem with he | hm
          · simp [he]
          · simp [hm]
        · exact (Int.not_lt.mp hlt).trans hrow

def getLastBlockHeightAndTimestamp : Eff Db BlockRow := do
  let s ← get
  pure (lastBlock s.block.rows)

-- ---------------------------------------------------------------------------
-- Proposals
-- ---------------------------------------------------------------------------

/-- Neither `metadata` nor a height takes part. -/
def proposalConflict : Conflict ProposalRow.id where
  set stored excluded :=
    { stored with
      title := excluded.title
      description := excluded.description
      content := excluded.content
      proposerAddress := excluded.proposerAddress
      status := excluded.status
      submitTime := excluded.submitTime
      depositEndTime := excluded.depositEndTime
      votingStartTime := excluded.votingStartTime
      votingEndTime := excluded.votingEndTime }
  guard _ _ := true
  key_set _ _ := rfl

def proposalRow (protoMarshalJSON : Any → Except String String) (proposal : Proposal) :
    Except String ProposalRow := do
  let jsonMessages ← proposal.messages.mapM protoMarshalJSON
  pure {
    id := proposal.id
    title := proposal.title
    description := proposal.summary
    metadata := proposal.metadata
    content := "[" ++ ",".intercalate jsonMessages ++ "]"
    submitTime := proposal.submitTime
    depositEndTime := proposal.depositEndTime
    votingStartTime := proposal.votingStartTime
    votingEndTime := proposal.votingEndTime
    proposerAddress := proposal.proposer
    status := proposal.status }

def saveProposals (protoMarshalJSON : Any → Except String String) (proposals : List Proposal) :
    Eff Db Unit :=
  if proposals.length = 0 then pure ()
  else do
    let rows ← Eff.wrap "error while marshalling proposal msg: "
      (Eff.ofExcept (proposals.mapM (proposalRow protoMarshalJSON)))
    Eff.wrap "error while storing proposers accounts: "
      (saveAccounts (proposals.map fun proposal => ⟨proposal.proposer⟩))
    Eff.wrap "error while storing proposals: "
      (sending (proposals.length * 11) (proposalTable.insert proposalConflict rows))

/-- The content is an array, while the code trims and splits it as if its
brackets were braces and its messages had no commas. -/
def getProposal (unmarshalJSON : String → Except String Any) (id : Nat) : Eff Db Proposal := do
  Eff.wrap s!"error while getting proposal {id}: " (integerParameter id)
  let s ← get
  match s.proposal.find id with
  | none => pure zeroProposal
  | some row => do
    let trimContent := Text.trimPrefix row.content "\x7b"
    let trimContent := Text.trimPrefix trimContent "\x7d"
    let jsonMessages := Text.splitAt trimContent ','
    let messages ← Eff.ofExcept (jsonMessages.mapM unmarshalJSON)
    pure {
      id := row.id
      title := row.title
      summary := row.description
      metadata := row.metadata
      messages := messages
      status := row.status
      submitTime := row.submitTime
      depositEndTime := row.depositEndTime
      votingStartTime := row.votingStartTime
      votingEndTime := row.votingEndTime
      proposer := row.proposerAddress }

theorem proposalRow_content {protoMarshalJSON : Any → Except String String} {proposal : Proposal}
    {row : ProposalRow} (h : proposalRow protoMarshalJSON proposal = .ok row) :
    row.content.toList.head? = some '[' := by
  simp only [proposalRow, Eff.bind_ok, Eff.pure_ok] at h
  obtain ⟨jsonMessages, -, rfl⟩ := h
  simp

/-- An array is no message, so the content of a stored proposal cannot be read
back. -/
theorem getProposal_fails {unmarshalJSON : String → Except String Any}
    (harray : ∀ text : String, text.toList.head? = some '[' →
      ∃ message, unmarshalJSON text = .error message)
    {id : Nat} {row : ProposalRow} {s : Db} (hrow : s.proposal.find id = some row)
    (hcontent : row.content.toList.head? = some '[') :
    ∃ message, Eff.exec (getProposal unmarshalJSON id) s = (.error (.error message), s) := by
  have htrim : Text.trimPrefix (Text.trimPrefix row.content "\x7b") "\x7d" = row.content := by
    rw [Text.trimPrefix_ne hcontent rfl (by decide), Text.trimPrefix_ne hcontent rfl (by decide)]
  have hcomma : '[' ≠ ',' := by decide
  obtain ⟨piece, pieces, hsplit, hpiece⟩ := Text.splitAt_head hcontent hcomma
  obtain ⟨message, hfails⟩ := harray piece hpiece
  unfold getProposal integerParameter
  cases hcolumn : integerColumn id with
  | some outOfRange =>
    refine ⟨s!"error while getting proposal {id}: " ++ outOfRange, ?_⟩
    simp only [Eff.exec_bind, Eff.exec_wrap, Eff.exec_fail]
    rfl
  | none =>
    refine ⟨message, ?_⟩
    simp only [Eff.exec_bind, Eff.exec_wrap, Eff.exec_pure, Eff.mapError_ok, Eff.exec_get, hrow,
      htrim, hsplit, List.mapM_cons, hfails]
    rfl

/-- Those of invalid status are open until the later one of their end times. -/
def getOpenProposalsIds (blockTime : Int) : Eff Db (List Nat) := do
  let s ← get
  let rows := s.proposal.rows.filter fun row =>
    row.status = ProposalStatus.depositPeriod.string ∨
      row.status = ProposalStatus.votingPeriod.string
  let rowsInvalid := s.proposal.rows.filter fun row =>
    row.status = proposalStatusInvalid ∧
      (row.votingEndTime.any (blockTime < ·) ∨ blockTime < row.depositEndTime)
  pure (rows.map ProposalRow.id ++ rowsInvalid.map ProposalRow.id)

def ProposalUpdate.set (update : ProposalUpdate) (row : ProposalRow) : ProposalRow :=
  { row with
    status := update.status
    votingStartTime := update.votingStartTime
    votingEndTime := update.votingEndTime }

theorem ProposalUpdate.id_set (update : ProposalUpdate) (row : ProposalRow) :
    (update.set row).id = row.id := rfl

def updateProposal (update : ProposalUpdate) : Eff Db Unit :=
  Eff.wrap s!"error while updating proposal {update.proposalId}: " do
    integerParameter update.proposalId
    proposalTable.update (fun row => row.id = update.proposalId) update.set update.id_set

-- ---------------------------------------------------------------------------
-- Deposits, votes, tallies
-- ---------------------------------------------------------------------------

def depositConflict : Conflict ProposalDepositRow.uniqueDeposit where
  set stored excluded :=
    { stored with
      amount := excluded.amount
      timestamp := excluded.timestamp
      height := excluded.height }
  guard stored excluded := stored.height ≤ excluded.height
  key_set _ _ := rfl

def Deposit.row (deposit : Deposit) : ProposalDepositRow where
  proposalId := deposit.proposalId
  depositorAddress := deposit.depositor
  amount := newDbCoins deposit.amount
  timestamp := deposit.timestamp
  transactionHash := deposit.transactionHash
  height := deposit.height

def saveDeposits (deposits : List Deposit) : Eff Db Unit :=
  if deposits.length = 0 then pure ()
  else do
    Eff.wrap "error while storing depositors accounts: "
      (saveAccounts (deposits.map fun deposit => ⟨deposit.depositor⟩))
    Eff.wrap "error while storing deposits: "
      (sending (deposits.length * 6)
        (proposalDepositTable.insert depositConflict (deposits.map Deposit.row)))

def voteConflict : Conflict ProposalVoteRow.uniqueVote where
  set stored excluded :=
    { stored with
      weight := excluded.weight
      timestamp := excluded.timestamp
      height := excluded.height }
  guard stored excluded := stored.height ≤ excluded.height
  key_set _ _ := rfl

def Vote.row (vote : Vote) : ProposalVoteRow where
  proposalId := vote.proposalId
  voterAddress := vote.voter
  option := vote.option.string
  weight := vote.weight
  timestamp := vote.timestamp
  height := vote.height

def saveVote (vote : Vote) : Eff Db Unit := do
  Eff.wrap "error while storing voter account: " (saveAccounts [⟨vote.voter⟩])
  Eff.wrap s!"error while storing vote for proposal {vote.proposalId}: "
    (proposalVoteTable.insert voteConflict [vote.row])

def tallyResultConflict : Conflict ProposalTallyResultRow.proposalId where
  set stored excluded :=
    { stored with
      yes := excluded.yes
      abstain := excluded.abstain
      no := excluded.no
      noWithVeto := excluded.noWithVeto
      height := excluded.height }
  guard stored excluded := stored.height ≤ excluded.height
  key_set _ _ := rfl

def TallyResult.row (tally : TallyResult) : ProposalTallyResultRow where
  proposalId := tally.proposalId
  yes := tally.yes
  abstain := tally.abstain
  no := tally.no
  noWithVeto := tally.noWithVeto
  height := tally.height

def saveTallyResults (tallys : List TallyResult) : Eff Db Unit :=
  if tallys.length = 0 then pure ()
  else
    Eff.wrap "error while storing tally result: "
      (sending (tallys.length * 6)
        (proposalTallyResultTable.insert tallyResultConflict (tallys.map TallyResult.row)))

structure ProposalValidatorStatusSnapshot where
  proposalID : Nat
  validatorConsAddress : String
  validatorVotingPower : Int
  validatorStatus : Int
  validatorJailed : Bool
  height : Int
  deriving DecidableEq, Repr

def snapshotConflict :
    Conflict ProposalValidatorStatusSnapshotRow.uniqueValidatorStatusSnapshot where
  set stored excluded :=
    { stored with
      votingPower := excluded.votingPower
      status := excluded.status
      jailed := excluded.jailed
      height := excluded.height }
  guard stored excluded := stored.height ≤ excluded.height
  key_set _ _ := rfl

def ProposalValidatorStatusSnapshot.row (snapshot : ProposalValidatorStatusSnapshot) :
    ProposalValidatorStatusSnapshotRow where
  proposalId := snapshot.proposalID
  validatorAddress := snapshot.validatorConsAddress
  votingPower := snapshot.validatorVotingPower
  status := snapshot.validatorStatus
  jailed := snapshot.validatorJailed
  height := snapshot.height

def saveProposalValidatorsStatusesSnapshots (snapshots : List ProposalValidatorStatusSnapshot) :
    Eff Db Unit :=
  if snapshots.length = 0 then pure ()
  else
    Eff.wrap "error while storing proposal validator statuses snapshots: "
      (sending (snapshots.length * 6)
        (proposalValidatorStatusSnapshotTable.insert snapshotConflict
          (snapshots.map ProposalValidatorStatusSnapshot.row)))

-- ---------------------------------------------------------------------------
-- Software upgrade plans
-- ---------------------------------------------------------------------------

def softwareUpgradePlanConflict : Conflict SoftwareUpgradePlanRow.proposalId where
  set stored excluded :=
    { stored with
      planName := excluded.planName
      upgradeHeight := excluded.upgradeHeight
      info := excluded.info
      height := excluded.height }
  guard stored excluded := stored.height ≤ excluded.height
  key_set _ _ := rfl

def planRow (proposalID : Nat) (plan : Plan) (height : Int) : SoftwareUpgradePlanRow where
  proposalId := proposalID
  planName := plan.name
  upgradeHeight := plan.height
  info := plan.info
  height := height

def saveSoftwareUpgradePlan (proposalID : Nat) (plan : Plan) (height : Int) : Eff Db Unit :=
  Eff.wrap s!"error while storing software upgrade plan for proposal {proposalID}: "
    (softwareUpgradePlanTable.insert softwareUpgradePlanConflict [planRow proposalID plan height])

def deleteSoftwareUpgradePlan (proposalID : Nat) : Eff Db Unit :=
  Eff.wrap s!"error while deleting software upgrade plan for proposal {proposalID}: " do
    integerParameter proposalID
    softwareUpgradePlanTable.delete fun row => row.proposalId = proposalID

def checkSoftwareUpgradePlan (upgradeHeight : Int) : Eff Db Bool := do
  let s ← get
  pure (s.softwareUpgradePlan.rows.any fun row => row.upgradeHeight = upgradeHeight)

def truncateSoftwareUpgradePlan (height : Int) : Eff Db Unit :=
  Eff.wrap "error while deleting software upgrade plan: "
    (softwareUpgradePlanTable.delete fun row => row.upgradeHeight ≤ height)

end SafrochainIndexer.Callisto
