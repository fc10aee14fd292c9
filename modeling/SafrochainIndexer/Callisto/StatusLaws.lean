import SafrochainIndexer.Callisto.GovFrames
import SafrochainIndexer.Callisto.ProposalLaws
import Mathlib.Order.Bounds.Basic

/-!
# Proposal statuses in any order

Two writers set the status and the voting times of a proposal: a block whose
events name it and the message that submits it. Neither compares heights, so
what stays is what was handled last. `status_order_iff` compares that with the
state at the highest height.
-/

namespace SafrochainIndexer.Callisto.Gov

variable {m : Module} {s t : Db}

/-- The columns that both writers set. -/
structure Phase where
  status : String
  votingStartTime : Option Int
  votingEndTime : Option Int
  deriving DecidableEq, Repr

def phaseOf (proposal : V1Proposal) : Phase :=
  ⟨proposal.status.string, proposal.votingStartTime, proposal.votingEndTime⟩

def rowPhase (row : ProposalRow) : Phase := ⟨row.status, row.votingStartTime, row.votingEndTime⟩

-- ---------------------------------------------------------------------------
-- Blocks
-- ---------------------------------------------------------------------------

theorem proposalsUnread : ParamsUnread Db.proposal :=
  ⟨fun _ _ => rfl, fun _ _ => rfl, fun _ _ => rfl, fun _ _ => rfl, fun _ _ => rfl, fun _ _ => rfl⟩

theorem updateProposal_find {update : ProposalUpdate}
    (h : Eff.Returns (updateProposal update) s () t) (id : Nat) :
    t.proposal.find id =
      if id = update.proposalId then (s.proposal.find id).map update.set
      else s.proposal.find id := by
  obtain ⟨_, u, hparameter, hupdate⟩ := Eff.returns_bind.mp (Eff.returns_wrap.mp h)
  obtain ⟨-, rfl⟩ := integerParameter_returns.mp hparameter
  obtain rfl := Relation.update_returns.mp hupdate
  change (s.proposal.update _ update.set update.id_set).find id = _
  rw [Table.find_update]
  cases hf : s.proposal.find id with
  | none => simp
  | some row =>
    have hid : row.id = id := Table.find_key hf
    by_cases hk : id = update.proposalId
    · simp [hid, hk]
    · simp [hid, hk]

theorem updateProposalStatus_find {height : Int} {id : Nat} {proposal : V1Proposal}
    (hsource : m.source.proposal height id = .ok proposal) (hid : proposal.id = id)
    (h : Eff.Returns (m.updateProposalStatus height id) s () t) (k : Nat) :
    t.proposal.find k =
      if k = id then (s.proposal.find k).map (updateOf proposal).set else s.proposal.find k := by
  unfold Module.updateProposalStatus at h
  rw [hsource] at h
  obtain ⟨_, u, hupdate, hpassed⟩ := Eff.returns_bind.mp h
  have hfixes := handlePassedProposal_fixes m proposalsUnread (fun _ _ => rfl) proposal height
  rw [hfixes.of_returns (Eff.returns_wrap.mp hpassed),
    updateProposal_find (Eff.returns_wrap.mp hupdate)]
  subst hid
  rfl

theorem forM_updateProposalStatus_find {height : Int} {onChain : Nat → V1Proposal} {ids : List Nat}
    (hsource : ∀ id ∈ ids, m.source.proposal height id = .ok (onChain id) ∧ (onChain id).id = id)
    (h : Eff.Returns (ids.forM fun id =>
      Eff.wrap s!"error while updating proposal {id} status: " (m.updateProposalStatus height id))
      s () t) (k : Nat) :
    t.proposal.find k =
      if k ∈ ids then (s.proposal.find k).map (updateOf (onChain k)).set
      else s.proposal.find k := by
  induction ids generalizing s with
  | nil =>
    obtain rfl := Eff.returns_forM_nil.mp h
    simp
  | cons id ids ih =>
    obtain ⟨u, hfirst, hrest⟩ := Eff.returns_forM_cons.mp h
    obtain ⟨hok, hid⟩ := hsource id (by simp)
    rw [ih (fun id hin => hsource id (List.mem_cons_of_mem _ hin)) hrest,
      updateProposalStatus_find hok hid (Eff.returns_wrap.mp hfirst)]
    by_cases hk : k = id
    · subst hk
      cases s.proposal.find k with
      | none => simp
      | some row => by_cases hin : k ∈ ids <;> simp [hin, ProposalUpdate.set]
    · simp [hk]

/-- A handled block brings the proposals that its events name up to date. -/
theorem updateProposalsStatus_find {height : Int} {onChain : Nat → V1Proposal}
    {txEvents endBlockEvents : List Event} {ids : List Nat}
    (hids : updatedProposalIDs txEvents endBlockEvents = .ok ids)
    (hsource : ∀ id ∈ ids, m.source.proposal height id = .ok (onChain id) ∧ (onChain id).id = id)
    (h : Eff.Returns (m.updateProposalsStatus height txEvents endBlockEvents) s () t) (k : Nat) :
    t.proposal.find k =
      if k ∈ ids then (s.proposal.find k).map (updateOf (onChain k)).set
      else s.proposal.find k := by
  obtain ⟨found, u, hfound, hloop⟩ := Eff.returns_bind.mp h
  obtain ⟨hok, rfl⟩ := Eff.returns_ofExcept.mp hfound
  obtain rfl := Except.ok.inj (hids.symm.trans hok)
  exact forM_updateProposalStatus_find hsource hloop k

-- ---------------------------------------------------------------------------
-- Submissions
-- ---------------------------------------------------------------------------

theorem deref_returns {time : Option Int} {value : Int} :
    Eff.Returns (deref time) s value t ↔ time = some value ∧ s = t := by
  cases time with
  | none => simp [deref]
  | some time => simp [deref]

theorem proposalRow_phase {protoMarshalJSON : Any → Except String String} {proposal : Proposal}
    {row : ProposalRow} (h : proposalRow protoMarshalJSON proposal = .ok row) :
    rowPhase row = ⟨proposal.status, proposal.votingStartTime, proposal.votingEndTime⟩ := by
  simp only [proposalRow, Eff.bind_ok, Eff.pure_ok] at h
  obtain ⟨jsonMessages, -, rfl⟩ := h
  rfl

theorem phase_resolve (stored : Option ProposalRow) (row : ProposalRow) :
    rowPhase (proposalConflict.resolve stored row) = rowPhase row := by
  cases stored with
  | none => rfl
  | some stored => rfl

theorem saveProposals_find {protoMarshalJSON : Any → Except String String} {proposal : Proposal}
    (h : Eff.Returns (saveProposals protoMarshalJSON [proposal]) s () t) :
    (∃ row, t.proposal.find proposal.id = some row ∧
      rowPhase row = ⟨proposal.status, proposal.votingStartTime, proposal.votingEndTime⟩) ∧
    ∀ k, k ≠ proposal.id → t.proposal.find k = s.proposal.find k := by
  obtain ⟨row, hrow, hfind⟩ := saved_find (by simp) h (List.mem_singleton.mpr rfl)
  constructor
  · exact ⟨_, hfind, (phase_resolve _ _).trans (proposalRow_phase hrow)⟩
  · intro k hk
    exact saved_find_other h (by simpa using hk)

theorem handleSubmitProposalEvent_find {tx : Tx} {proposer : String} {events : List Event}
    {id : Nat} {proposal : V1Proposal} (hid : proposalIDFromEvents events = .ok id)
    (hsource : m.source.proposal tx.height id = .ok proposal) (hpid : proposal.id = id)
    (h : Eff.Returns (m.handleSubmitProposalEvent tx proposer events) s () t) :
    (∃ row, t.proposal.find id = some row ∧ rowPhase row = phaseOf proposal) ∧
      ∀ k, k ≠ id → t.proposal.find k = s.proposal.find k := by
  obtain ⟨found, s₁, h₁, h⟩ := Eff.returns_bind.mp h
  obtain ⟨hfound, rfl⟩ := Eff.returns_ofExcept.mp (Eff.returns_wrap.mp h₁)
  obtain rfl := Except.ok.inj (hid.symm.trans hfound)
  obtain ⟨submitted, s₂, h₂, h⟩ := Eff.returns_bind.mp h
  unfold Module.submittedProposal at h₂
  rw [hsource] at h₂
  obtain ⟨rfl, rfl⟩ := Eff.returns_pure.mp h₂
  obtain ⟨msgs, s₃, h₃, h⟩ := Eff.returns_bind.mp h
  obtain ⟨-, rfl⟩ := Eff.returns_ofExcept.mp (Eff.returns_wrap.mp h₃)
  obtain ⟨_, s₄, h₄, h⟩ := Eff.returns_bind.mp h
  have hrecipients : s₄.proposal = s.proposal :=
    (Eff.Fixes.wrap (saveAccounts_fixes _ fun _ _ => rfl)).of_returns h₄
  obtain ⟨_, s₅, h₅, h⟩ := Eff.returns_bind.mp h
  obtain ⟨-, rfl⟩ := Eff.returns_ofExcept.mp (Eff.returns_wrap.mp h₅)
  obtain ⟨submitTime, s₆, h₆, h⟩ := Eff.returns_bind.mp h
  obtain ⟨-, rfl⟩ := deref_returns.mp h₆
  obtain ⟨depositEndTime, s₇, h₇, h⟩ := Eff.returns_bind.mp h
  obtain ⟨-, rfl⟩ := deref_returns.mp h₇
  obtain ⟨_, s₈, h₈, h⟩ := Eff.returns_bind.mp h
  obtain ⟨hrow, hothers⟩ := saveProposals_find (Eff.returns_wrap.mp h₈)
  have ht : t.proposal = s₈.proposal :=
    (handleDepositEvent_fixes m (fun _ _ => rfl) (fun _ _ => rfl) tx proposer events).of_returns h
  rw [ht, ← hrecipients, ← hpid]
  exact ⟨hrow, hothers⟩

-- ---------------------------------------------------------------------------
-- Handlings
-- ---------------------------------------------------------------------------

inductive Handling
  | block (height : Int) (endBlockEvents : List Event) (txs : List Tx)
  | submit (index : Nat) (version : Version) (msg : MsgSubmitProposal) (tx : Tx)
  deriving DecidableEq, Repr

def Handling.height : Handling → Int
  | .block height _ _ => height
  | .submit _ _ _ tx => tx.height

/-- The proposals that the events of a block, or of a message, name. -/
def Handling.touches : Handling → List Nat
  | .block _ endBlockEvents txs =>
    match updatedProposalIDs (collectTxEvents txs) endBlockEvents with
    | .ok ids => ids
    | .error _ => []
  | .submit index _ _ tx =>
    match tx.logs[index]? with
    | some events =>
      match proposalIDFromEvents events with
      | .ok id => [id]
      | .error _ => []
    | none => []

def Handling.submits (handling : Handling) (id : Nat) : Prop :=
  match handling with
  | .block _ _ _ => False
  | handling => id ∈ handling.touches

variable (m) in
def handle : Handling → Eff Db Unit
  | .block height endBlockEvents txs =>
    m.updateProposalsStatus height (collectTxEvents txs) endBlockEvents
  | .submit index version msg tx => m.handleMsg index (.submitProposal version msg) tx

variable (m) in
/-- For the proposals it is asked about, the source returns the state at the
height of the handling. -/
def Answers (onChain : Int → Nat → V1Proposal) (handling : Handling) : Prop :=
  ∀ id ∈ handling.touches,
    m.source.proposal handling.height id = .ok (onChain handling.height id) ∧
      (onChain handling.height id).id = id

def lastTouch (handlings : List Handling) (id : Nat) : Option Handling :=
  (handlings.filter fun handling => id ∈ handling.touches).getLast?

/-- `top` is the highest height at which the proposal is touched. -/
def Highest (handlings : List Handling) (id : Nat) (top : Int) : Prop :=
  IsGreatest {height | ∃ handling ∈ handlings, id ∈ handling.touches ∧ handling.height = height} top

/-- What a handling does to one proposal. -/
structure Does (onChain : Int → Nat → V1Proposal) (handling : Handling) (s t : Db) (id : Nat) :
    Prop where
  touched : id ∈ handling.touches → ∀ row, t.proposal.find id = some row →
    rowPhase row = phaseOf (onChain handling.height id)
  untouched : id ∉ handling.touches → t.proposal.find id = s.proposal.find id
  stored : t.hasProposal id = true ↔ s.hasProposal id = true ∨ handling.submits id

theorem phase_set (proposal : V1Proposal) (row : ProposalRow) :
    rowPhase ((updateOf proposal).set row) = phaseOf proposal := rfl

theorem block_does {onChain : Int → Nat → V1Proposal} {height : Int} {endBlockEvents : List Event}
    {txs : List Tx} (ha : Answers m onChain (.block height endBlockEvents txs))
    (h : Eff.Returns (handle m (.block height endBlockEvents txs)) s () t) (id : Nat) :
    Does onChain (.block height endBlockEvents txs) s t id := by
  obtain ⟨ids, u, hids, -⟩ := Eff.returns_bind.mp h
  obtain ⟨hok, -⟩ := Eff.returns_ofExcept.mp hids
  have htouches : (Handling.block height endBlockEvents txs).touches = ids := by
    simp [Handling.touches, hok]
  have hfind := updateProposalsStatus_find hok
    (fun k hk => ha k (htouches.symm ▸ hk)) h id
  refine ⟨?_, ?_, ?_⟩
  · intro hin row hrow
    rw [htouches] at hin
    rw [if_pos hin] at hfind
    obtain ⟨old, -, rfl⟩ := Option.map_eq_some_iff.mp (hfind.symm.trans hrow)
    exact phase_set _ _
  · intro hout
    rw [htouches] at hout
    rw [hfind, if_neg hout]
  · simp only [Db.hasProposal, hfind, Handling.submits, or_false]
    split
    · simp
    · rfl

theorem submit_does {onChain : Int → Nat → V1Proposal} {index : Nat} {version : Version}
    {msg : MsgSubmitProposal} {tx : Tx} (ha : Answers m onChain (.submit index version msg tx))
    (h : Eff.Returns (handle m (.submit index version msg tx)) s () t) (id : Nat) :
    Does onChain (.submit index version msg tx) s t id := by
  change Eff.Returns (m.handleMsg index (.submitProposal version msg) tx) s () t at h
  unfold Module.handleMsg at h
  split at h
  · rename_i hlogs
    obtain ⟨-, rfl⟩ := Eff.returns_pure.mp h
    have hnone : (Handling.submit index version msg tx).touches = [] := by
      simp [Handling.touches, List.length_eq_zero_iff.mp hlogs]
    exact ⟨fun hin => absurd (hnone ▸ hin) List.not_mem_nil, fun _ => rfl,
      by simp [Handling.submits, hnone]⟩
  · obtain ⟨events, u, hlog, h⟩ := Eff.returns_bind.mp h
    obtain ⟨hevents, rfl⟩ := logEvents_returns.mp hlog
    obtain ⟨k, v, hk, -⟩ := Eff.returns_bind.mp h
    obtain ⟨hid, -⟩ := Eff.returns_ofExcept.mp (Eff.returns_wrap.mp hk)
    have htouches : (Handling.submit index version msg tx).touches = [k] := by
      simp [Handling.touches, hevents, hid]
    obtain ⟨hok, hpid⟩ := ha k (by simp [htouches])
    obtain ⟨⟨row, hrow, hphase⟩, hothers⟩ := handleSubmitProposalEvent_find hid hok hpid h
    refine ⟨?_, ?_, ?_⟩
    · intro hin row' hrow'
      obtain rfl := List.mem_singleton.mp (htouches ▸ hin)
      obtain rfl := Option.some.inj (hrow.symm.trans hrow')
      exact hphase
    · intro hout
      exact hothers id fun he => hout (by simp [htouches, he])
    · simp only [Handling.submits, htouches, List.mem_singleton]
      by_cases he : id = k
      · subst he
        simp [Db.hasProposal, hrow]
      · simp [Db.hasProposal, hothers id he, he]

theorem handle_does {onChain : Int → Nat → V1Proposal} {handling : Handling}
    (ha : Answers m onChain handling) (h : Eff.Returns (handle m handling) s () t) (id : Nat) :
    Does onChain handling s t id := by
  cases handling with
  | block height endBlockEvents txs => exact block_does ha h id
  | submit index version msg tx => exact submit_does ha h id

-- ---------------------------------------------------------------------------
-- Runs
-- ---------------------------------------------------------------------------

variable {onChain : Int → Nat → V1Proposal} {handlings : List Handling}

theorem run_stored (ha : ∀ handling ∈ handlings, Answers m onChain handling)
    (h : Eff.Returns (handlings.forM (handle m)) s () t) (id : Nat) :
    t.hasProposal id = true ↔
      s.hasProposal id = true ∨ ∃ handling ∈ handlings, handling.submits id := by
  induction handlings generalizing s with
  | nil =>
    obtain rfl := Eff.returns_forM_nil.mp h
    simp
  | cons handling handlings ih =>
    obtain ⟨u, hfirst, hrest⟩ := Eff.returns_forM_cons.mp h
    have hu := (handle_does (ha handling (by simp)) hfirst id).stored
    rw [ih (fun other hin => ha other (List.mem_cons_of_mem _ hin)) hrest, hu, or_assoc]
    simp

/-- A run leaves the phase at the height of the last handling that touched the
proposal, and without such a handling it leaves the row alone. -/
theorem run_phase (ha : ∀ handling ∈ handlings, Answers m onChain handling)
    (h : Eff.Returns (handlings.forM (handle m)) s () t) (id : Nat) :
    match lastTouch handlings id with
    | some last => ∀ row, t.proposal.find id = some row →
        rowPhase row = phaseOf (onChain last.height id)
    | none => t.proposal.find id = s.proposal.find id := by
  induction handlings generalizing s with
  | nil =>
    obtain rfl := Eff.returns_forM_nil.mp h
    rfl
  | cons handling handlings ih =>
    obtain ⟨u, hfirst, hrest⟩ := Eff.returns_forM_cons.mp h
    have hdoes := handle_does (ha handling (by simp)) hfirst id
    have hlater := ih (fun other hin => ha other (List.mem_cons_of_mem _ hin)) hrest
    by_cases hin : id ∈ handling.touches
    · have hlast : lastTouch (handling :: handlings) id =
          some ((lastTouch handlings id).getD handling) := by
        simp [lastTouch, hin, List.getLast?_cons]
      rw [hlast]
      cases hl : lastTouch handlings id with
      | none =>
        rw [hl] at hlater
        intro row hrow
        exact hdoes.touched hin row (hlater.symm.trans hrow)
      | some last =>
        rw [hl] at hlater
        exact hlater
    · have hlast : lastTouch (handling :: handlings) id = lastTouch handlings id := by
        simp [lastTouch, hin]
      rw [hlast]
      cases hl : lastTouch handlings id with
      | none =>
        rw [hl] at hlater
        exact hlater.trans (hdoes.untouched hin)
      | some last =>
        rw [hl] at hlater
        exact hlater

/-- In whatever order the handlings come, every stored proposal ends with its
phase at the highest height that touched it, exactly if that phase is also the
one at the height of the handling that touched it last. -/
theorem status_order_iff (ha : ∀ handling ∈ handlings, Answers m onChain handling)
    (h : Eff.Returns (handlings.forM (handle m)) s () t) :
    (∀ id row top, t.proposal.find id = some row → Highest handlings id top →
      rowPhase row = phaseOf (onChain top id)) ↔
    ∀ id last top, (s.hasProposal id = true ∨ ∃ handling ∈ handlings, handling.submits id) →
      lastTouch handlings id = some last → Highest handlings id top →
        phaseOf (onChain last.height id) = phaseOf (onChain top id) := by
  have hphase : ∀ id row last, t.proposal.find id = some row → lastTouch handlings id = some last →
      rowPhase row = phaseOf (onChain last.height id) := by
    intro id row last hrow hlast
    have hrun := run_phase ha h id
    rw [hlast] at hrun
    exact hrun row hrow
  constructor
  · intro hright id last top hstored hlast htop
    obtain ⟨row, hrow⟩ := Option.isSome_iff_exists.mp ((run_stored ha h id).mpr hstored)
    exact (hphase id row last hrow hlast).symm.trans (hright id row top hrow htop)
  · intro hsame id row top hrow htop
    have hstored := (run_stored ha h id).mp (Option.isSome_iff_exists.mpr ⟨row, hrow⟩)
    obtain ⟨handling, hin, htouch, -⟩ := htop.1
    obtain ⟨last, hlast⟩ : ∃ last, lastTouch handlings id = some last :=
      ⟨_, List.getLast?_eq_some_getLast
        (List.ne_nil_of_mem (List.mem_filter.mpr ⟨hin, decide_eq_true htouch⟩))⟩
    exact (hphase id row last hrow hlast).trans (hsame id last top hstored hlast htop)

def votedAt (height : Int) (id : Nat) : V1Proposal :=
  ⟨id, "", "", "", [], if height < 5 then .votingPeriod else .passed, some 0, some 1, some 2, some 3⟩

def votedSource : Module :=
  { plain with source := { plain.source with proposal := fun height id => .ok (votedAt height id) } }

def depositBlock : Handling :=
  .block 3 []
    [⟨3, "deposit", "", [], [⟨"proposal_deposit", [⟨"voting_period_start", "1"⟩]⟩]⟩]

def tallyBlock : Handling :=
  .block 5 [⟨"active_proposal", [⟨"proposal_id", "1"⟩]⟩] []

theorem votedSource_answers {handling : Handling} : Answers votedSource votedAt handling :=
  fun _ _ => ⟨rfl, rfl⟩

theorem touches_depositBlock : depositBlock.touches = [1] := by decide

theorem touches_tallyBlock : tallyBlock.touches = [1] := by decide

theorem highest_tallyBlock {handlings : List Handling} (h : tallyBlock ∈ handlings)
    (hall : ∀ handling ∈ handlings, handling = tallyBlock ∨ handling = depositBlock) :
    Highest handlings 1 5 := by
  refine ⟨⟨tallyBlock, h, by simp [touches_tallyBlock], rfl⟩, ?_⟩
  rintro _ ⟨handling, hin, -, rfl⟩
  rcases hall handling hin with rfl | rfl
  · exact le_rfl
  · decide

theorem status_order_iff_ascending :
    ∃ t, Eff.Returns ([depositBlock, tallyBlock].forM (handle votedSource)) storedProposals () t ∧
      ∀ id row top, t.proposal.find id = some row → Highest [depositBlock, tallyBlock] id top →
        rowPhase row = phaseOf (votedAt top id) := by
  have hrun : Eff.Returns ([depositBlock, tallyBlock].forM (handle votedSource)) storedProposals ()
      _ := rfl
  refine ⟨_, hrun, (status_order_iff (fun _ _ => votedSource_answers) hrun).mpr ?_⟩
  intro id last top _ hlast htop
  by_cases hid : id = 1
  · subst hid
    have hhighest : Highest [depositBlock, tallyBlock] 1 5 :=
      highest_tallyBlock (by simp) (by simp)
    obtain rfl := htop.unique hhighest
    have hlast' : lastTouch [depositBlock, tallyBlock] 1 = some tallyBlock := by
      simp [lastTouch, touches_depositBlock, touches_tallyBlock]
    obtain rfl := Option.some.inj (hlast'.symm.trans hlast)
    rfl
  · simp [lastTouch, touches_depositBlock, touches_tallyBlock, hid] at hlast

/-- The lower block, handled after the higher one, puts a passed proposal back
into its voting period. -/
theorem late_block_reverts_status :
    ∃ t, Eff.Returns ([tallyBlock, depositBlock].forM (handle votedSource)) storedProposals () t ∧
      ¬ ∀ id row top, t.proposal.find id = some row → Highest [tallyBlock, depositBlock] id top →
        rowPhase row = phaseOf (votedAt top id) := by
  have hrun : Eff.Returns ([tallyBlock, depositBlock].forM (handle votedSource)) storedProposals ()
      _ := rfl
  refine ⟨_, hrun, fun h => ?_⟩
  have hhighest : Highest [tallyBlock, depositBlock] 1 5 := highest_tallyBlock (by simp) (by simp)
  have hphase := h 1 _ 5 rfl hhighest
  revert hphase
  decide

end SafrochainIndexer.Callisto.Gov
