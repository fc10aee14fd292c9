import SafrochainIndexer.Callisto.Gov

/-!
# What the gov handlers leave alone

Frames of the handlers, for anything `f` that does not read the tables which a
handler may write.
-/

namespace SafrochainIndexer.Callisto.Gov

variable (m : Module) {β : Type} {f : Db → β}

/-- `f` reads no parameters and no inflation. -/
structure ParamsUnread (f : Db → β) : Prop where
  distribution : ∀ u s, f (distributionParamsTable.write u s) = f s
  gov : ∀ u s, f (govParamsTable.write u s) = f s
  mint : ∀ u s, f (mintParamsTable.write u s) = f s
  slashing : ∀ u s, f (slashingParamsTable.write u s) = f s
  staking : ∀ u s, f (stakingParamsTable.write u s) = f s
  inflation : ∀ u s, f (inflationTable.write u s) = f s

theorem handleParamChangeProposal_fixes (hf : ParamsUnread f) (height : Int) (moduleName : String) :
    Eff.Fixes f (m.handleParamChangeProposal height moduleName) := by
  unfold Module.handleParamChangeProposal
  split
  · exact .wrap (updateParamsOf_fixes hf.distribution _ _ _ _ _)
  · exact .wrap (updateParamsOf_fixes hf.gov _ _ _ _ _)
  · refine .bind (.wrap (updateParamsOf_fixes hf.mint _ _ _ _ _)) fun _ => ?_
    exact .wrap (updateInflation_fixes hf.inflation _)
  · exact .wrap (updateParamsOf_fixes hf.slashing _ _ _ _ _)
  · exact .wrap (updateParamsOf_fixes hf.staking _ _ _ _ _)
  · exact .pure

theorem integerParameter_fixes (n : Nat) : Eff.Fixes f (integerParameter n) := by
  unfold integerParameter
  split
  · exact .fail
  · exact .pure

section
variable (hf : ParamsUnread f) (hplan : ∀ u s, f (softwareUpgradePlanTable.write u s) = f s)
include hf hplan

theorem handlePassedV1Proposal_fixes (proposal : V1Proposal) (msg : ProposalMsg) (height : Int) :
    Eff.Fixes f (m.handlePassedV1Proposal proposal msg height) := by
  unfold Module.handlePassedV1Proposal
  split
  · exact .wrap (.wrap (Relation.insert_fixes hplan))
  · exact .wrap (.wrap (.bind (integerParameter_fixes _) fun _ => Relation.delete_fixes hplan))
  · split
    · exact handleParamChangeProposal_fixes m hf _ _
    · exact .pure

theorem handlePassedV1Beta1Proposal_fixes (proposal : V1Proposal) (content : Any) (height : Int) :
    Eff.Fixes f (m.handlePassedV1Beta1Proposal proposal content height) := by
  refine .bind (.wrap .ofFallible) fun content => ?_
  split
  · exact .forM fun _ _ => .wrap (handleParamChangeProposal_fixes m hf _ _)
  · exact .wrap (.wrap (Relation.insert_fixes hplan))
  · exact .wrap (.wrap (.bind (integerParameter_fixes _) fun _ => Relation.delete_fixes hplan))
  · exact .pure

theorem handlePassedProposal_fixes (proposal : V1Proposal) (height : Int) :
    Eff.Fixes f (m.handlePassedProposal proposal height) := by
  unfold Module.handlePassedProposal
  split
  · exact .pure
  · refine .forM fun msg _ => .bind (.wrap .ofExcept) fun sdkMsg => ?_
    split
    · exact handlePassedV1Beta1Proposal_fixes m hf hplan _ _ _
    · exact handlePassedV1Proposal_fixes m hf hplan _ _ _

end

theorem updateProposalTallyResult_fixes
    (htally : ∀ u s, f (proposalTallyResultTable.write u s) = f s) (proposalID : Nat)
    (height : Int) : Eff.Fixes f (m.updateProposalTallyResult proposalID height) := by
  refine .bind (.wrap .ofExcept) fun result => ?_
  unfold saveTallyResults
  split
  · exact .pure
  · exact .wrap (sending_fixes (Relation.insert_fixes htally))

section
variable (haccount : ∀ u s, f (accountTable.write u s) = f s)
include haccount

theorem handleDepositEvent_fixes (hdeposit : ∀ u s, f (proposalDepositTable.write u s) = f s)
    (tx : Tx) (depositor : String) (events : List Event) :
    Eff.Fixes f (m.handleDepositEvent tx depositor events) := by
  refine .bind (.wrap .ofExcept) fun _ => .bind (.wrap .ofExcept) fun _ =>
    .bind (.wrap .ofExcept) fun _ => ?_
  unfold saveDeposits
  split
  · exact .pure
  · refine .bind (.wrap (saveAccounts_fixes _ haccount)) fun _ => ?_
    exact .wrap (sending_fixes (Relation.insert_fixes hdeposit))

theorem handleVoteEvent_fixes (hvote : ∀ u s, f (proposalVoteTable.write u s) = f s)
    (htally : ∀ u s, f (proposalTallyResultTable.write u s) = f s) (tx : Tx) (voter : String)
    (events : List Event) : Eff.Fixes f (m.handleVoteEvent tx voter events) := by
  refine .bind (.wrap .ofExcept) fun _ => .bind (.wrap .ofExcept) fun _ =>
    .bind (.wrap .ofExcept) fun _ => .bind (.wrap ?_) fun _ => ?_
  · refine .bind (.wrap (saveAccounts_fixes _ haccount)) fun _ => ?_
    exact .wrap (Relation.insert_fixes hvote)
  · exact updateProposalTallyResult_fixes m htally _ _

end

theorem logEvents_returns {tx : Tx} {index : Nat} {events : List Event} {s t : Db} :
    Eff.Returns (logEvents tx index) s events t ↔ tx.logs[index]? = some events ∧ s = t := by
  unfold logEvents
  cases tx.logs[index]? with
  | none => simp
  | some found => simp

theorem logEvents_fixes (tx : Tx) (index : Nat) : Eff.Fixes f (logEvents tx index) := by
  unfold logEvents
  split
  · exact .pure
  · exact .panicking

theorem handleMsg_proposals {msg : Msg}
    (hmsg : ∀ version submission, msg ≠ .submitProposal version submission) (index : Nat)
    (tx : Tx) : Eff.Fixes Db.proposal (m.handleMsg index msg tx) := by
  unfold Module.handleMsg
  split
  · exact .pure
  · cases msg with
    | submitProposal version submission => exact absurd rfl (hmsg version submission)
    | deposit version deposit =>
      refine .bind (logEvents_fixes _ _) fun _ => ?_
      exact handleDepositEvent_fixes m (fun _ _ => rfl) (fun _ _ => rfl) _ _ _
    | vote version vote =>
      refine .bind (logEvents_fixes _ _) fun _ => ?_
      exact handleVoteEvent_fixes m (fun _ _ => rfl) (fun _ _ => rfl) (fun _ _ => rfl) _ _ _
    | voteWeighted version vote =>
      refine .bind (logEvents_fixes _ _) fun _ => ?_
      exact handleVoteEvent_fixes m (fun _ _ => rfl) (fun _ _ => rfl) (fun _ _ => rfl) _ _ _
    | other => exact .pure

end SafrochainIndexer.Callisto.Gov
