import SafrochainIndexer.Callisto.Chain

/-!
# Governance types

What the chain says about proposals, votes and upgrades, and the records that
the gov module makes of it. Times are microseconds.
-/

namespace SafrochainIndexer.Callisto

-- ---------------------------------------------------------------------------
-- Statuses and options
-- ---------------------------------------------------------------------------

inductive ProposalStatus
  | unspecified
  | depositPeriod
  | votingPeriod
  | passed
  | rejected
  | failed
  deriving DecidableEq, Repr

def ProposalStatus.string : ProposalStatus → String
  | .unspecified => "PROPOSAL_STATUS_UNSPECIFIED"
  | .depositPeriod => "PROPOSAL_STATUS_DEPOSIT_PERIOD"
  | .votingPeriod => "PROPOSAL_STATUS_VOTING_PERIOD"
  | .passed => "PROPOSAL_STATUS_PASSED"
  | .rejected => "PROPOSAL_STATUS_REJECTED"
  | .failed => "PROPOSAL_STATUS_FAILED"

/-- `types.ProposalStatusInvalid`, which no status of the chain is called. -/
def proposalStatusInvalid : String := "PROPOSAL_STATUS_INVALID"

theorem ProposalStatus.string_ne_invalid (status : ProposalStatus) :
    status.string ≠ proposalStatusInvalid := by
  cases status <;> decide

inductive VoteOption
  | unspecified
  | yes
  | abstain
  | no
  | noWithVeto
  deriving DecidableEq, Repr

def VoteOption.string : VoteOption → String
  | .unspecified => "VOTE_OPTION_UNSPECIFIED"
  | .yes => "VOTE_OPTION_YES"
  | .abstain => "VOTE_OPTION_ABSTAIN"
  | .no => "VOTE_OPTION_NO"
  | .noWithVeto => "VOTE_OPTION_NO_WITH_VETO"

theorem VoteOption.string_injective : Function.Injective VoteOption.string := by
  intro a b h
  cases a <;> cases b <;> first | rfl | exact absurd h (by decide)

structure WeightedVoteOption where
  option : VoteOption
  weight : String
  deriving DecidableEq, Repr

-- ---------------------------------------------------------------------------
-- Proposals of the chain
-- ---------------------------------------------------------------------------

/-- `upgradetypes.Plan`. -/
structure Plan where
  name : String
  height : Int
  info : String
  deriving DecidableEq, Repr

/-- `govtypesv1.Proposal`. -/
structure V1Proposal where
  id : Nat
  title : String
  summary : String
  metadata : String
  messages : List Any
  status : ProposalStatus
  submitTime : Option Int
  depositEndTime : Option Int
  votingStartTime : Option Int
  votingEndTime : Option Int
  deriving DecidableEq, Repr

inductive LegacyContent
  | parameterChangeProposal (subspaces : List String)
  | softwareUpgradeProposal (plan : Plan)
  | cancelSoftwareUpgradeProposal
  | communityPoolSpendProposal (recipient : String)
  | other
  deriving DecidableEq, Repr

/-- A message of a v1 proposal. `cached` is the value that `content` is unpacked
to, if it has been. -/
inductive ProposalMsg
  | msgExecLegacyContent (content : Any) (cached : Option LegacyContent)
  | msgSoftwareUpgrade (plan : Plan)
  | msgCancelUpgrade
  | msgCommunityPoolSpend (recipient : String)
  | distrMsgUpdateParams
  | govMsgUpdateParams
  | mintMsgUpdateParams
  | slashingMsgUpdateParams
  | stakingMsgUpdateParams
  | other
  deriving DecidableEq, Repr

structure TallyCounts where
  yesCount : String
  abstainCount : String
  noCount : String
  noWithVetoCount : String
  deriving DecidableEq, Repr

-- ---------------------------------------------------------------------------
-- Messages of transactions
-- ---------------------------------------------------------------------------

namespace Gov

inductive Version
  | v1
  | v1beta1
  deriving DecidableEq, Repr

structure MsgSubmitProposal where
  proposer : String
  deriving DecidableEq, Repr

structure MsgDeposit where
  proposalId : Nat
  depositor : String
  deriving DecidableEq, Repr

structure MsgVote where
  proposalId : Nat
  voter : String
  option : VoteOption
  deriving DecidableEq, Repr

structure MsgVoteWeighted where
  proposalId : Nat
  voter : String
  options : List WeightedVoteOption
  deriving DecidableEq, Repr

inductive Msg
  | submitProposal (version : Version) (msg : MsgSubmitProposal)
  | deposit (version : Version) (msg : MsgDeposit)
  | vote (version : Version) (msg : MsgVote)
  | voteWeighted (version : Version) (msg : MsgVoteWeighted)
  | other
  deriving DecidableEq, Repr

end Gov

-- ---------------------------------------------------------------------------
-- Records
-- ---------------------------------------------------------------------------

def zeroTime : Int := -62135596800000000

structure Proposal where
  id : Nat
  title : String
  summary : String
  metadata : String
  messages : List Any
  status : String
  submitTime : Int
  depositEndTime : Int
  votingStartTime : Option Int
  votingEndTime : Option Int
  proposer : String
  deriving DecidableEq, Repr

def zeroProposal : Proposal where
  id := 0
  title := ""
  summary := ""
  metadata := ""
  messages := []
  status := ""
  submitTime := zeroTime
  depositEndTime := zeroTime
  votingStartTime := none
  votingEndTime := none
  proposer := ""

structure ProposalUpdate where
  proposalId : Nat
  status : String
  votingStartTime : Option Int
  votingEndTime : Option Int
  deriving DecidableEq, Repr

structure Deposit where
  proposalId : Nat
  depositor : String
  amount : List Coin
  timestamp : Int
  transactionHash : String
  height : Int
  deriving DecidableEq, Repr

structure Vote where
  proposalId : Nat
  voter : String
  option : VoteOption
  weight : String
  timestamp : Int
  height : Int
  deriving DecidableEq, Repr

structure TallyResult where
  proposalId : Nat
  yes : String
  abstain : String
  no : String
  noWithVeto : String
  height : Int
  deriving DecidableEq, Repr

end SafrochainIndexer.Callisto
