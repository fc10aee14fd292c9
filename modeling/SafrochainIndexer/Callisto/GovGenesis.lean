import SafrochainIndexer.Callisto.AuthzLaws
import SafrochainIndexer.Callisto.ProposalLaws
import SafrochainIndexer.Lib.Replays

/-!
# The genesis of the gov module

The genesis handler stores the proposals of the genesis file with a deposit, of
nobody, and a tally at the initial height. A command can parse the file into a
database that blocks have been indexed into: `genesis_reparsed`.
-/

namespace SafrochainIndexer.Callisto.Gov

structure GenesisDoc where
  genesisTime : Int
  initialHeight : Int
  deriving DecidableEq, Repr

structure GenesisProposal extends V1Proposal where
  finalTallyResult : Option TallyCounts
  totalDeposit : List Coin
  deriving DecidableEq, Repr

structure GenesisState where
  proposals : List GenesisProposal
  params : String
  deriving DecidableEq, Repr

structure GenesisRecords where
  proposal : Proposal
  tallyResult : TallyResult
  deposit : Deposit
  deriving DecidableEq, Repr

def newGenesisRecords (genDoc : GenesisDoc) (proposal : GenesisProposal) (submitTime depositEndTime : Int)
    (finalTallyResult : TallyCounts) : GenesisRecords where
  proposal :=
    { id := proposal.id
      title := proposal.title
      summary := proposal.summary
      metadata := proposal.metadata
      messages := proposal.messages
      status := proposal.status.string
      submitTime := submitTime
      depositEndTime := depositEndTime
      votingStartTime := proposal.votingStartTime
      votingEndTime := proposal.votingEndTime
      proposer := "" }
  tallyResult :=
    ⟨proposal.id, finalTallyResult.yesCount, finalTallyResult.abstainCount, finalTallyResult.noCount,
      finalTallyResult.noWithVetoCount, genDoc.initialHeight⟩
  deposit := ⟨proposal.id, "", proposal.totalDeposit, genDoc.genesisTime, "", genDoc.initialHeight⟩

def genesisRecords (genDoc : GenesisDoc) (proposal : GenesisProposal) : Eff Db GenesisRecords := do
  let submitTime ← deref proposal.submitTime
  let depositEndTime ← deref proposal.depositEndTime
  match proposal.finalTallyResult with
  | some finalTallyResult =>
    pure (newGenesisRecords genDoc proposal submitTime depositEndTime finalTallyResult)
  | none => Eff.panicking "runtime error: invalid memory address or nil pointer dereference"

def saveGovParams (marshal : String → Except String String) (params : String) (height : Int) :
    Eff Db Unit := do
  let paramsBz ← Eff.wrap "error while marshalling gov params: " (Eff.ofExcept (marshal params))
  Eff.wrap "error while storing gov params: " (govParamsTable.insert paramsConflict [⟨paramsBz, height⟩])

section
variable (m : Module)

def Module.saveGenesisProposals (slice : List GenesisProposal) (genDoc : GenesisDoc) :
    Eff Db Unit := do
  let records ← slice.mapM (genesisRecords genDoc)
  saveProposals m.protoMarshalJSON (records.map GenesisRecords.proposal)
  saveDeposits (records.map GenesisRecords.deposit)
  saveTallyResults (records.map GenesisRecords.tallyResult)

/-- `genState` is what the codec reads in the genesis file. -/
def Module.handleGenesis (doc : GenesisDoc) (genState : Except String GenesisState) : Eff Db Unit := do
  let genState ← Eff.wrap "error while reading gov genesis data: " (Eff.ofExcept genState)
  Eff.wrap "error while storing genesis governance proposals: "
    (m.saveGenesisProposals genState.proposals doc)
  Eff.wrap "error while storing genesis governance params: "
    (saveGovParams m.source.params.marshal genState.params doc.initialHeight)

end

-- ---------------------------------------------------------------------------
-- The loop
-- ---------------------------------------------------------------------------

/-- The pointers that the loop follows are there. -/
def GenesisProposal.Complete (proposal : GenesisProposal) : Prop :=
  proposal.submitTime.isSome ∧ proposal.depositEndTime.isSome ∧ proposal.finalTallyResult.isSome

def GenesisProposal.records (proposal : GenesisProposal) (genDoc : GenesisDoc) : GenesisRecords :=
  newGenesisRecords genDoc proposal (proposal.submitTime.getD zeroTime)
    (proposal.depositEndTime.getD zeroTime) (proposal.finalTallyResult.getD ⟨"", "", "", ""⟩)

theorem genesisRecords_complete (genDoc : GenesisDoc) {proposal : GenesisProposal}
    (h : proposal.Complete) (s : Db) :
    Eff.Returns (genesisRecords genDoc proposal) s (proposal.records genDoc) s := by
  obtain ⟨hsubmit, hend, htally⟩ := h
  obtain ⟨submitTime, hsubmit⟩ := Option.isSome_iff_exists.mp hsubmit
  obtain ⟨depositEndTime, hend⟩ := Option.isSome_iff_exists.mp hend
  obtain ⟨finalTallyResult, htally⟩ := Option.isSome_iff_exists.mp htally
  unfold genesisRecords GenesisProposal.records
  rw [hsubmit, hend, htally]
  exact Eff.returns_bind.mpr ⟨submitTime, s, Eff.returns_pure.mpr ⟨rfl, rfl⟩,
    Eff.returns_bind.mpr ⟨depositEndTime, s, Eff.returns_pure.mpr ⟨rfl, rfl⟩,
      Eff.returns_pure.mpr ⟨rfl, rfl⟩⟩⟩

theorem genesisRecords_panics (genDoc : GenesisDoc) {proposal : GenesisProposal}
    (h : ¬proposal.Complete) (s : Db) :
    Eff.exec (genesisRecords genDoc proposal) s =
      (.error (.panic "runtime error: invalid memory address or nil pointer dereference"), s) := by
  unfold genesisRecords
  cases hsubmit : proposal.submitTime with
  | none => rfl
  | some submitTime =>
    cases hend : proposal.depositEndTime with
    | none => rfl
    | some depositEndTime =>
      cases htally : proposal.finalTallyResult with
      | none => rfl
      | some finalTallyResult =>
        exact absurd ⟨by simp [hsubmit], by simp [hend], by simp [htally]⟩ h

theorem mapM_genesisRecords_returns {genDoc : GenesisDoc} {slice : List GenesisProposal}
    {records : List GenesisRecords} {s t : Db} :
    Eff.Returns (slice.mapM (genesisRecords genDoc)) s records t ↔
      (∀ proposal ∈ slice, proposal.Complete) ∧ slice.map (·.records genDoc) = records ∧ s = t := by
  constructor
  · intro h
    have hall : ∀ proposal ∈ slice, proposal.Complete := by
      by_contra hnot
      have hpanics := Eff.mapM_panics (P := GenesisProposal.Complete)
        (fun proposal _ hp => genesisRecords_complete genDoc hp s)
        (fun proposal _ hp => genesisRecords_panics genDoc hp s) (by simpa using hnot)
      exact nomatch (congrArg Prod.fst h).symm.trans (congrArg Prod.fst hpanics)
    have hmap := Eff.returns_mapM fun proposal hp => genesisRecords_complete genDoc (hall proposal hp) s
    obtain ⟨hrecords, hst⟩ := hmap.unique h
    exact ⟨hall, hrecords, hst⟩
  · rintro ⟨hall, rfl, rfl⟩
    exact Eff.returns_mapM fun proposal hp => genesisRecords_complete genDoc (hall proposal hp) s

-- ---------------------------------------------------------------------------
-- The tables
-- ---------------------------------------------------------------------------

theorem mapM_proposalRow_returns {protoMarshalJSON : Any → Except String String}
    {proposals : List Proposal} :
    (∃ rows, proposals.mapM (proposalRow protoMarshalJSON) = .ok rows) ↔
      ∀ proposal ∈ proposals, ∀ msg ∈ proposal.messages, ∃ text, protoMarshalJSON msg = .ok text := by
  rw [mapM_returns_iff]
  refine forall₂_congr fun proposal _ => ?_
  rw [← mapM_returns_iff]
  constructor
  · rintro ⟨row, hrow⟩
    simp only [proposalRow, Eff.bind_ok] at hrow
    obtain ⟨jsonMessages, hmessages, -⟩ := hrow
    exact ⟨jsonMessages, hmessages⟩
  · rintro ⟨jsonMessages, hmessages⟩
    exact ⟨_, Eff.bind_ok.mpr ⟨jsonMessages, hmessages, rfl⟩⟩

theorem proposal_violation_none {s : Db} {row : ProposalRow} :
    proposalTable.violation s row = none ↔
      row.id < 2 ^ 31 ∧ s.hasAccount row.proposerAddress = true := by
  show (integerColumn row.id <|> foreignKey "proposal" "proposer_address" _) = none ↔ _
  unfold integerColumn foreignKey
  split
  · rename_i hn
    cases s.hasAccount row.proposerAddress with
    | true => exact iff_of_true rfl ⟨hn, rfl⟩
    | false => exact iff_of_false (by simp) fun h => nomatch h.2
  · rename_i hn
    exact iff_of_false (by simp) fun h => hn h.1

theorem violation_resolve {s : Db} {stored : Option ProposalRow} {row : ProposalRow}
    (hid : ∀ o ∈ stored, o.id = row.id) :
    proposalTable.violation s (proposalConflict.resolve stored row) =
      proposalTable.violation s row := by
  cases stored with
  | none => rfl
  | some o => simp [proposalTable, Conflict.merge, proposalConflict, hid o rfl]

theorem proposalConflict_writes (stored : Option ProposalRow) (row : ProposalRow) :
    proposalConflict.writes stored row = true := by
  cases stored <;> rfl

/-- Every row of a statement is written, so two of one proposal break it. -/
theorem insert_proposals_returns {rows : List ProposalRow} {s t : Db} :
    Eff.Returns (proposalTable.insert proposalConflict rows) s () t ↔
      (rows.map ProposalRow.id).Nodup ∧
        (∀ row ∈ rows, row.id < 2 ^ 31 ∧ s.hasAccount row.proposerAddress = true) ∧
        proposalTable.write (rows.foldl (Table.upsert proposalConflict) s.proposal) s = t := by
  constructor
  · intro h
    obtain ⟨u, written, hu, hb, -⟩ := Relation.insert_returns.mp h
    have hpairs := (Table.insertAll_isSome_iff.mp (Option.isSome_of_eq_some hu)).2
    have hn : (rows.map ProposalRow.id).Nodup :=
      List.pairwise_map.mpr (hpairs.imp fun hab he => hab (proposalConflict_writes _ _) he.symm)
    refine ⟨hn, fun row hrow => ?_, (Relation.insert_write h).symm⟩
    have hin : row.id ∈ written :=
      (Table.mem_insertAll hu).mpr (.inr ⟨row, hrow, rfl, proposalConflict_writes _ _⟩)
    have hfind : u.find row.id = some (proposalConflict.resolve (s.proposal.find row.id) row) := by
      rw [Table.insertAll_foldl hu]
      exact Table.find_foldl_upsert_of_mem proposalConflict _ hn hrow
    have hnone := List.findSome?_eq_none_iff.mp hb row.id hin
    rw [hfind, Option.bind_some, violation_resolve fun o ho => Table.find_key ho] at hnone
    exact proposal_violation_none.mp hnone
  · rintro ⟨hn, hvalid, rfl⟩
    refine Relation.insert_ok hn fun row hrow _ => ?_
    exact (violation_resolve fun o ho => Table.find_key ho).trans
      (proposal_violation_none.mpr (hvalid row hrow))

theorem proposalRow_proposer {protoMarshalJSON : Any → Except String String} {proposal : Proposal}
    {row : ProposalRow} (h : proposalRow protoMarshalJSON proposal = .ok row) :
    row.proposerAddress = proposal.proposer := by
  simp only [proposalRow, Eff.bind_ok, Eff.pure_ok] at h
  obtain ⟨jsonMessages, -, rfl⟩ := h
  rfl

def withProposals (s : Db) (accounts : List Account) (rows : List ProposalRow) : Db :=
  proposalTable.write (rows.foldl (Table.upsert proposalConflict) s.proposal) (s.addAccounts accounts)

theorem saveProposals_returns {protoMarshalJSON : Any → Except String String}
    {proposals : List Proposal} {s t : Db} :
    Eff.Returns (saveProposals protoMarshalJSON proposals) s () t ↔
      proposals.length * 11 ≤ maxParameters ∧
        ∃ rows, proposals.mapM (proposalRow protoMarshalJSON) = .ok rows ∧
        (proposals.map Proposal.id).Nodup ∧ (∀ proposal ∈ proposals, proposal.id < 2 ^ 31) ∧
        withProposals s (proposals.map fun proposal => ⟨proposal.proposer⟩) rows = t := by
  unfold saveProposals
  split
  · rename_i hnone
    obtain rfl := List.length_eq_zero_iff.mp hnone
    constructor
    · intro h
      obtain ⟨-, rfl⟩ := Eff.returns_pure.mp h
      exact ⟨by simp, [], rfl, List.nodup_nil, by simp, rfl⟩
    · rintro ⟨-, rows, hrows, -, -, rfl⟩
      obtain rfl : [] = rows := Except.ok.inj hrows
      exact Eff.returns_pure.mpr ⟨rfl, rfl⟩
  · have haccounts (hfits : proposals.length * 11 ≤ maxParameters) :
        Eff.Returns (saveAccounts (proposals.map fun proposal => ⟨proposal.proposer⟩)) s () _ :=
      saveAccounts_short s (by simp only [List.length_map, maxPostgreSQLParams, maxParameters] at *; omega)
    constructor
    · intro h
      obtain ⟨rows, u, hrows, h⟩ := Eff.returns_bind.mp h
      obtain ⟨hok, rfl⟩ := Eff.returns_ofExcept.mp (Eff.returns_wrap.mp hrows)
      obtain ⟨_, v, hsaved, hsent⟩ := Eff.returns_bind.mp h
      obtain ⟨hfits, hinsert⟩ := returns_sending.mp (Eff.returns_wrap.mp hsent)
      obtain ⟨-, rfl⟩ := (haccounts hfits).unique (Eff.returns_wrap.mp hsaved)
      obtain ⟨hn, hvalid, rfl⟩ := insert_proposals_returns.mp hinsert
      refine ⟨hfits, rows, hok, proposalRows_ids hok ▸ hn, fun proposal hp => ?_, rfl⟩
      obtain ⟨row, hmem, hrow⟩ := exists_of_mem_forall₂ (mapM_ok_iff.mp hok) proposal hp
      rw [← proposalRow_id hrow]
      exact (hvalid row hmem).1
    · rintro ⟨hfits, rows, hok, hn, hrange, rfl⟩
      refine Eff.returns_bind.mpr ⟨rows, s, Eff.returns_wrap.mpr
        (Eff.returns_ofExcept.mpr ⟨hok, rfl⟩), ?_⟩
      refine Eff.returns_bind.mpr ⟨(), _, Eff.returns_wrap.mpr (haccounts hfits), Eff.returns_wrap.mpr ?_⟩
      refine returns_sending.mpr ⟨hfits, insert_proposals_returns.mpr ⟨(proposalRows_ids hok).symm ▸ hn,
        fun row hmem => ?_, rfl⟩⟩
      obtain ⟨proposal, hp, hrow⟩ :=
        exists_of_mem_forall₂ (mapM_ok_iff.mp hok).flip row hmem
      rw [proposalRow_id hrow, proposalRow_proposer hrow]
      exact ⟨hrange proposal hp, (hasAccount_addAccounts ..).mpr
        (.inr (List.mem_map.mpr ⟨proposal, hp, rfl⟩))⟩

def withDeposits (s : Db) (deposits : List Deposit) : Db :=
  proposalDepositTable.write
    ((deposits.map Deposit.row).foldl (Table.upsert depositConflict) s.proposalDeposit)
    (s.addAccounts (deposits.map fun deposit => ⟨deposit.depositor⟩))

theorem saveDeposits_returns {deposits : List Deposit} {s : Db}
    (hfits : deposits.length * 6 ≤ maxParameters)
    (hn : ((deposits.map Deposit.row).map ProposalDepositRow.uniqueDeposit).Nodup)
    (hproposals : ∀ deposit ∈ deposits, s.hasProposal deposit.proposalId = true) :
    Eff.Returns (saveDeposits deposits) s () (withDeposits s deposits) := by
  unfold saveDeposits
  split
  · rename_i hnone
    obtain rfl := List.length_eq_zero_iff.mp hnone
    exact Eff.returns_pure.mpr ⟨rfl, rfl⟩
  · have haccounts : Eff.Returns (saveAccounts (deposits.map fun deposit => ⟨deposit.depositor⟩))
        s () _ :=
      saveAccounts_short s (by simp only [List.length_map, maxPostgreSQLParams, maxParameters] at *; omega)
    refine Eff.returns_bind.mpr ⟨(), _, Eff.returns_wrap.mpr haccounts, Eff.returns_wrap.mpr ?_⟩
    refine returns_sending.mpr ⟨hfits, depositConflict_guards.insert_ok hn fun row hrow => ?_⟩
    obtain ⟨deposit, hdeposit, rfl⟩ := List.mem_map.mp hrow
    have hdepositor := (hasAccount_addAccounts s (deposits.map fun deposit => ⟨deposit.depositor⟩)
      deposit.depositor).mpr (.inr (List.mem_map.mpr ⟨deposit, hdeposit, rfl⟩))
    have hproposal : ∀ accounts, (s.addAccounts accounts).hasProposal deposit.proposalId = true :=
      fun _ => hproposals deposit hdeposit
    simp [proposalDepositTable, Deposit.row, hproposal, hdepositor]

def withTallyResults (s : Db) (tallys : List TallyResult) : Db :=
  proposalTallyResultTable.write
    ((tallys.map TallyResult.row).foldl (Table.upsert tallyResultConflict) s.proposalTallyResult) s

theorem saveTallyResults_returns {tallys : List TallyResult} {s : Db}
    (hfits : tallys.length * 6 ≤ maxParameters)
    (hn : ((tallys.map TallyResult.row).map ProposalTallyResultRow.proposalId).Nodup)
    (hproposals : ∀ tally ∈ tallys, s.hasProposal tally.proposalId = true) :
    Eff.Returns (saveTallyResults tallys) s () (withTallyResults s tallys) := by
  unfold saveTallyResults
  split
  · rename_i hnone
    obtain rfl := List.length_eq_zero_iff.mp hnone
    exact Eff.returns_pure.mpr ⟨rfl, rfl⟩
  · rw [sending_of_le hfits]
    refine Eff.returns_wrap.mpr (tallyResultConflict_guards.insert_ok hn fun row hrow => ?_)
    obtain ⟨tally, htally, rfl⟩ := List.mem_map.mp hrow
    simp [proposalTallyResultTable, TallyResult.row, hproposals tally htally]

def withGovParams (s : Db) (paramsBz : String) (height : Int) : Db :=
  govParamsTable.write (s.govParams.upsert paramsConflict ⟨paramsBz, height⟩) s

theorem saveGovParams_returns {marshal : String → Except String String} {params : String}
    {height : Int} {s t : Db} :
    Eff.Returns (saveGovParams marshal params height) s () t ↔
      ∃ paramsBz, marshal params = .ok paramsBz ∧ withGovParams s paramsBz height = t :=
  saveParamsOf_returns fun _ _ => rfl

-- ---------------------------------------------------------------------------
-- The handler
-- ---------------------------------------------------------------------------

section
variable (m : Module) (doc : GenesisDoc) (genState : GenesisState)

/-- The genesis states that the handler gets through. All proposals go in one
statement, with eleven parameters each. -/
structure Module.Loads : Prop where
  short : genState.proposals.length * 11 ≤ maxParameters
  complete : ∀ proposal ∈ genState.proposals, proposal.Complete
  ids : (genState.proposals.map fun proposal => proposal.id).Nodup
  range : ∀ proposal ∈ genState.proposals, proposal.id < 2 ^ 31
  messages : ∀ proposal ∈ genState.proposals, ∀ msg ∈ proposal.messages,
    ∃ text, m.protoMarshalJSON msg = .ok text
  params : ∃ paramsBz, m.source.params.marshal genState.params = .ok paramsBz

def Module.genesisRows (slice : List GenesisProposal) : Except String (List ProposalRow) :=
  slice.mapM fun proposal => proposalRow m.protoMarshalJSON (proposal.records doc).proposal

def withGenesisProposals (s : Db) (slice : List GenesisProposal) (rows : List ProposalRow) : Db :=
  let records := slice.map (·.records doc)
  let s := withProposals s (slice.map fun _ => ⟨""⟩) rows
  let s := withDeposits s (records.map GenesisRecords.deposit)
  withTallyResults s (records.map GenesisRecords.tallyResult)

end

section
variable {m : Module} {doc : GenesisDoc} {slice : List GenesisProposal} {genState : GenesisState}
  {s t : Db}

theorem hasProposal_withProposals {accounts : List Account} {rows : List ProposalRow}
    {row : ProposalRow} (h : row ∈ rows) : (withProposals s accounts rows).hasProposal row.id = true :=
  Table.find_foldl_upsert_isSome h

theorem depositKeys_nodup (hn : (slice.map fun proposal => proposal.id).Nodup) :
    (((((slice.map (·.records doc)).map GenesisRecords.deposit).map Deposit.row).map
      ProposalDepositRow.uniqueDeposit)).Nodup := by
  have hkeys : ((((slice.map (·.records doc)).map GenesisRecords.deposit).map Deposit.row).map
      ProposalDepositRow.uniqueDeposit) =
        (slice.map fun proposal => proposal.id).map fun id => (id, "", "") := by
    simp only [List.map_map]
    rfl
  rw [hkeys]
  exact hn.map fun a b h => congrArg Prod.fst h

theorem tallyKeys_nodup (hn : (slice.map fun proposal => proposal.id).Nodup) :
    ((((slice.map (·.records doc)).map GenesisRecords.tallyResult).map TallyResult.row).map
      ProposalTallyResultRow.proposalId).Nodup := by
  simp only [List.map_map]
  exact hn

theorem genesisRows_eq (slice : List GenesisProposal) :
    ((slice.map (·.records doc)).map GenesisRecords.proposal).mapM (proposalRow m.protoMarshalJSON) =
      m.genesisRows doc slice := by
  simp only [List.mapM_map]
  rfl

theorem saveGenesisProposals_returns : Eff.Returns (m.saveGenesisProposals slice doc) s () t ↔
    slice.length * 11 ≤ maxParameters ∧
      (∀ proposal ∈ slice, proposal.Complete) ∧ (slice.map fun proposal => proposal.id).Nodup ∧
        (∀ proposal ∈ slice, proposal.id < 2 ^ 31) ∧
        ∃ rows, m.genesisRows doc slice = .ok rows ∧ withGenesisProposals doc s slice rows = t := by
  let records := slice.map (·.records doc)
  have hids : (records.map GenesisRecords.proposal).map Proposal.id =
      slice.map fun proposal => proposal.id := by
    simp only [records, List.map_map]
    rfl
  have haccounts : (records.map GenesisRecords.proposal).map (fun proposal => ⟨proposal.proposer⟩) =
      slice.map fun _ => (⟨""⟩ : Account) := by
    simp only [records, List.map_map]
    rfl
  have hrange : (∀ proposal ∈ records.map GenesisRecords.proposal, proposal.id < 2 ^ 31) ↔
      ∀ proposal ∈ slice, proposal.id < 2 ^ 31 := by
    simp only [records, List.forall_mem_map]
    rfl
  have hlength : ∀ {α : Type} (f : GenesisRecords → α), (records.map f).length = slice.length := by
    intro α f
    simp [records]
  -- the statements on deposits and tallies succeed once the proposals are stored
  have hrest : ∀ {rows}, slice.length * 11 ≤ maxParameters → m.genesisRows doc slice = .ok rows →
      (slice.map fun proposal => proposal.id).Nodup →
      Eff.Returns (do
        saveDeposits (records.map GenesisRecords.deposit)
        saveTallyResults (records.map GenesisRecords.tallyResult))
        (withProposals s (slice.map fun _ => ⟨""⟩) rows) () (withGenesisProposals doc s slice rows) := by
    intro rows hfits hrows hn
    have hstored : ∀ proposal ∈ slice,
        (withProposals s (slice.map fun _ => ⟨""⟩) rows).hasProposal proposal.id = true := by
      intro proposal hp
      obtain ⟨row, hmem, hrow⟩ := exists_of_mem_forall₂ (mapM_ok_iff.mp hrows) proposal hp
      have hid : row.id = proposal.id := proposalRow_id hrow
      exact hid ▸ hasProposal_withProposals hmem
    refine Eff.returns_bind.mpr ⟨(), _, saveDeposits_returns ?_ (depositKeys_nodup hn) ?_,
      saveTallyResults_returns ?_ (tallyKeys_nodup hn) ?_⟩
    · rw [hlength]
      omega
    · simp only [records, List.map_map, List.forall_mem_map]
      exact hstored
    · rw [hlength]
      omega
    · simp only [records, List.map_map, List.forall_mem_map]
      exact hstored
  constructor
  · intro h
    obtain ⟨_, _, hrecords, h⟩ := Eff.returns_bind.mp h
    obtain ⟨hcomplete, rfl, rfl⟩ := mapM_genesisRecords_returns.mp hrecords
    obtain ⟨_, u, hsaved, h⟩ := Eff.returns_bind.mp h
    obtain ⟨hfits, rows, hrows, hn, hsmall, rfl⟩ := saveProposals_returns.mp hsaved
    rw [hlength] at hfits
    rw [hids] at hn
    rw [genesisRows_eq] at hrows
    rw [haccounts] at h
    exact ⟨hfits, hcomplete, hn, hrange.mp hsmall, rows, hrows, ((hrest hfits hrows hn).unique h).2⟩
  · rintro ⟨hfits, hcomplete, hn, hsmall, rows, hrows, rfl⟩
    refine Eff.returns_bind.mpr ⟨_, s, mapM_genesisRecords_returns.mpr ⟨hcomplete, rfl, rfl⟩, ?_⟩
    refine Eff.returns_bind.mpr ⟨(), _, saveProposals_returns.mpr
      ⟨by rwa [hlength], rows, (genesisRows_eq slice).trans hrows, hids ▸ hn, hrange.mpr hsmall,
        rfl⟩, ?_⟩
    rw [haccounts]
    exact hrest hfits hrows hn

theorem genesisRows_returns :
    (∃ rows, m.genesisRows doc slice = .ok rows) ↔
      ∀ proposal ∈ slice, ∀ msg ∈ proposal.messages, ∃ text, m.protoMarshalJSON msg = .ok text := by
  rw [← genesisRows_eq, mapM_proposalRow_returns]
  simp only [List.forall_mem_map]
  rfl

theorem handleGenesis_returns :
    Eff.Returns (m.handleGenesis doc (.ok genState)) s () t ↔
      m.Loads genState ∧ ∃ rows paramsBz, m.genesisRows doc genState.proposals = .ok rows ∧
        m.source.params.marshal genState.params = .ok paramsBz ∧
        withGovParams (withGenesisProposals doc s genState.proposals rows) paramsBz
          doc.initialHeight = t := by
  constructor
  · intro h
    obtain ⟨_, _, hread, h⟩ := Eff.returns_bind.mp h
    obtain ⟨hok, rfl⟩ := Eff.returns_ofExcept.mp (Eff.returns_wrap.mp hread)
    obtain rfl := Except.ok.inj hok
    obtain ⟨_, u, hsaved, h⟩ := Eff.returns_bind.mp h
    obtain ⟨hfits, hcomplete, hn, hrange, rows, hrows, rfl⟩ :=
      saveGenesisProposals_returns.mp (Eff.returns_wrap.mp hsaved)
    obtain ⟨paramsBz, hparams, rfl⟩ := saveGovParams_returns.mp (Eff.returns_wrap.mp h)
    exact ⟨⟨hfits, hcomplete, hn, hrange, genesisRows_returns.mp ⟨rows, hrows⟩, paramsBz, hparams⟩,
      rows, paramsBz, hrows, hparams, rfl⟩
  · rintro ⟨hloads, rows, paramsBz, hrows, hparams, rfl⟩
    refine Eff.returns_bind.mpr ⟨genState, s, Eff.returns_wrap.mpr
      (Eff.returns_ofExcept.mpr ⟨rfl, rfl⟩), ?_⟩
    refine Eff.returns_bind.mpr ⟨(), _, Eff.returns_wrap.mpr (saveGenesisProposals_returns.mpr
      ⟨hloads.short, hloads.complete, hloads.ids, hloads.range, rows, hrows, rfl⟩), ?_⟩
    exact Eff.returns_wrap.mpr (saveGovParams_returns.mpr ⟨paramsBz, hparams, rfl⟩)

-- ---------------------------------------------------------------------------
-- Parsing the file again
-- ---------------------------------------------------------------------------

/-- What a parse changes in a database and what it does not. A stored proposal
goes back to the genesis file, only its metadata stays; deposits, tallies and
parameters of later heights stay. -/
structure Module.Reparsed (m : Module) (doc : GenesisDoc) (genState : GenesisState) (s t : Db) :
    Prop where
  proposals : ∀ proposal ∈ genState.proposals, ∃ row,
    proposalRow m.protoMarshalJSON (proposal.records doc).proposal = .ok row ∧
      t.proposal.find proposal.id = some { row with
        metadata := ((s.proposal.find proposal.id).map ProposalRow.metadata).getD row.metadata }
  deposits : ∀ proposal ∈ genState.proposals, t.proposalDeposit.find (proposal.id, "", "") =
    some (Register.offer ProposalDepositRow.height (s.proposalDeposit.find (proposal.id, "", ""))
      (proposal.records doc).deposit.row)
  tallies : ∀ proposal ∈ genState.proposals, t.proposalTallyResult.find proposal.id =
    some (Register.offer ProposalTallyResultRow.height (s.proposalTallyResult.find proposal.id)
      (proposal.records doc).tallyResult.row)
  params : ∃ paramsBz, m.source.params.marshal genState.params = .ok paramsBz ∧
    t.govParams.find () =
      some (Register.offer ParamsRow.height (s.govParams.find ()) ⟨paramsBz, doc.initialHeight⟩)
  otherProposals : ∀ id ∉ genState.proposals.map fun proposal => proposal.id,
    t.proposal.find id = s.proposal.find id ∧
      t.proposalTallyResult.find id = s.proposalTallyResult.find id
  otherDeposits : ∀ key, (∀ proposal ∈ genState.proposals, key ≠ (proposal.id, "", "")) →
    t.proposalDeposit.find key = s.proposalDeposit.find key
  others : t = { s with
    account := t.account
    proposal := t.proposal
    proposalDeposit := t.proposalDeposit
    proposalTallyResult := t.proposalTallyResult
    govParams := t.govParams }

theorem proposalConflict_resolve {stored : Option ProposalRow} {row : ProposalRow}
    (hid : ∀ o, stored = some o → o.id = row.id) :
    proposalConflict.resolve stored row =
      { row with metadata := (stored.map ProposalRow.metadata).getD row.metadata } := by
  cases stored with
  | none => rfl
  | some o => simp [Conflict.merge, proposalConflict, hid o rfl]

theorem addAccounts_present {accounts : List Account}
    (h : ∀ account ∈ accounts, s.hasAccount account.address = true) : s.addAccounts accounts = s := by
  induction accounts with
  | nil => rfl
  | cons account accounts ih =>
    obtain ⟨haccount, haccounts⟩ := List.forall_mem_cons.mp h
    obtain ⟨row, hrow⟩ := Option.isSome_iff_exists.mp haccount
    have hone : s.addAccounts [account] = s := by
      unfold Db.addAccounts
      rw [List.foldl_cons, List.foldl_nil, Table.insertNew_of_mem _
        (List.mem_map.mpr ⟨row, Table.mem_of_find hrow, Table.find_key hrow⟩)]
    calc s.addAccounts (account :: accounts)
        = (s.addAccounts [account]).addAccounts accounts := rfl
      _ = s.addAccounts accounts := by rw [hone]
      _ = s := ih haccounts

section
variable {rows : List ProposalRow} {paramsBz : String}

def loaded (doc : GenesisDoc) (genState : GenesisState) (s : Db) (rows : List ProposalRow)
    (paramsBz : String) : Db :=
  withGovParams (withGenesisProposals doc s genState.proposals rows) paramsBz doc.initialHeight

theorem loaded_reparsed (hloads : m.Loads genState)
    (hrows : m.genesisRows doc genState.proposals = .ok rows)
    (hparams : m.source.params.marshal genState.params = .ok paramsBz) :
    m.Reparsed doc genState s (loaded doc genState s rows paramsBz) := by
  have hids : rows.map ProposalRow.id = genState.proposals.map fun proposal => proposal.id :=
    (map_eq_of_forall₂ (mapM_ok_iff.mp hrows) fun _ _ hrow => (proposalRow_id hrow).symm).symm
  have hn : (rows.map ProposalRow.id).Nodup := hids ▸ hloads.ids
  have hmem : ∀ {α : Type} (f : GenesisRecords → α), ∀ proposal ∈ genState.proposals,
      f (proposal.records doc) ∈ (genState.proposals.map (·.records doc)).map f :=
    fun f _ hp => List.mem_map_of_mem (List.mem_map_of_mem hp)
  refine ⟨fun proposal hp => ?_, fun proposal hp => ?_, fun proposal hp => ?_, ?_, fun id hid => ?_,
    fun key hkey => ?_, rfl⟩
  · obtain ⟨row, hrow, hok⟩ := exists_of_mem_forall₂ (mapM_ok_iff.mp hrows) proposal hp
    have hid : row.id = proposal.id := proposalRow_id hok
    refine ⟨row, hok, ?_⟩
    rw [← hid, ← proposalConflict_resolve fun o ho => Table.find_key ho]
    exact Table.find_foldl_upsert_of_mem proposalConflict _ hn hrow
  · have hdeposit := List.mem_map_of_mem (f := Deposit.row) (hmem GenesisRecords.deposit proposal hp)
    have hfind := Table.find_foldl_upsert_of_mem depositConflict s.proposalDeposit
      (depositKeys_nodup hloads.ids) hdeposit
    rwa [depositConflict_guards.resolve_eq fun o ho => Table.find_key ho] at hfind
  · have htally := List.mem_map_of_mem (f := TallyResult.row) (hmem GenesisRecords.tallyResult proposal hp)
    have hfind := Table.find_foldl_upsert_of_mem tallyResultConflict s.proposalTallyResult
      (tallyKeys_nodup hloads.ids) htally
    rwa [tallyResultConflict_guards.resolve_eq fun o ho => Table.find_key ho] at hfind
  · exact ⟨paramsBz, hparams, paramsConflict_guards.find_upsert s.govParams rfl⟩
  · constructor
    · exact Table.find_foldl_upsert_of_not_mem proposalConflict _ (hids ▸ hid)
    · refine Table.find_foldl_upsert_of_not_mem tallyResultConflict _ fun hin => hid ?_
      simp only [List.map_map] at hin
      exact hin
  · refine Table.find_foldl_upsert_of_not_mem depositConflict _ fun hin => ?_
    simp only [List.map_map, List.mem_map] at hin
    obtain ⟨proposal, hp, rfl⟩ := hin
    exact hkey proposal hp rfl

theorem proposalConflict_resolve_twice (stored : Option ProposalRow) (row : ProposalRow)
    (hid : ∀ o, stored = some o → o.id = row.id) :
    proposalConflict.resolve (some (proposalConflict.resolve stored row)) row =
      proposalConflict.resolve stored row := by
  have hkey : (proposalConflict.resolve stored row).id = row.id := proposalConflict.key_resolve hid
  rw [proposalConflict_resolve fun o ho => Option.some.inj ho ▸ hkey, proposalConflict_resolve hid]
  rfl

theorem loaded_twice (hloads : m.Loads genState)
    (hrows : m.genesisRows doc genState.proposals = .ok rows) :
    loaded doc genState (loaded doc genState s rows paramsBz) rows paramsBz =
      loaded doc genState s rows paramsBz := by
  let t := loaded doc genState s rows paramsBz
  have hn : (rows.map ProposalRow.id).Nodup := by
    have hids := map_eq_of_forall₂ (mapM_ok_iff.mp hrows) fun _ _ hrow => (proposalRow_id hrow).symm
    exact hids ▸ hloads.ids
  have hnobody : ∀ proposal ∈ genState.proposals, t.hasAccount "" = true := by
    intro proposal hp
    have haccount : ((s.addAccounts (genState.proposals.map fun _ => ⟨""⟩)).addAccounts
        ((((genState.proposals.map (·.records doc)).map GenesisRecords.deposit).map fun deposit =>
          ⟨deposit.depositor⟩))).hasAccount "" = true := by
      refine (hasAccount_addAccounts ..).mpr (.inl ((hasAccount_addAccounts ..).mpr (.inr ?_)))
      exact List.mem_map.mpr ⟨proposal, hp, rfl⟩
    exact haccount
  have hproposers : t.addAccounts (genState.proposals.map fun _ => ⟨""⟩) = t := by
    refine addAccounts_present fun account haccount => ?_
    obtain ⟨proposal, hp, rfl⟩ := List.mem_map.mp haccount
    exact hnobody proposal hp
  have hdepositors : t.addAccounts (((genState.proposals.map (·.records doc)).map
      GenesisRecords.deposit).map fun deposit => ⟨deposit.depositor⟩) = t := by
    refine addAccounts_present fun account haccount => ?_
    simp only [List.map_map, List.mem_map] at haccount
    obtain ⟨proposal, hp, rfl⟩ := haccount
    exact hnobody proposal hp
  have hproposals : withProposals t (genState.proposals.map fun _ => ⟨""⟩) rows = t := by
    have htwice : rows.foldl (Table.upsert proposalConflict) t.proposal = t.proposal :=
      Table.upserts_twice proposalConflict_resolve_twice hn s.proposal
    rw [withProposals, htwice, hproposers]
    rfl
  have hdeposits : withDeposits t ((genState.proposals.map (·.records doc)).map
      GenesisRecords.deposit) = t := by
    rw [withDeposits, hdepositors]
    exact congrArg (proposalDepositTable.write · t)
      (depositConflict_guards.upserts_twice (depositKeys_nodup hloads.ids) s.proposalDeposit)
  have htallys : withTallyResults t ((genState.proposals.map (·.records doc)).map
      GenesisRecords.tallyResult) = t :=
    congrArg (proposalTallyResultTable.write · t)
      (tallyResultConflict_guards.upserts_twice (tallyKeys_nodup hloads.ids) s.proposalTallyResult)
  have hparams : withGovParams t paramsBz doc.initialHeight = t := by
    let row : ParamsRow := ⟨paramsBz, doc.initialHeight⟩
    have hone : ([row].map oneRowId).Nodup := List.nodup_singleton ()
    have htwice : [row].foldl (Table.upsert paramsConflict)
        ([row].foldl (Table.upsert paramsConflict) s.govParams) =
          [row].foldl (Table.upsert paramsConflict) s.govParams :=
      paramsConflict_guards.upserts_twice hone s.govParams
    exact congrArg (govParamsTable.write · t) htwice
  show withGovParams (withTallyResults (withDeposits (withProposals t _ rows) _) _) paramsBz _ = t
  rw [hproposals, hdeposits, htallys, hparams]

end

end

/-- Into any database the handler parses exactly the genesis states that are
complete, name each proposal once and have not too many. A proposal that later
blocks have changed goes back to its genesis, but for its metadata, and nothing that
they stored with a height is lost. A repeated parse changes nothing. -/
theorem genesis_reparsed (m : Module) (doc : GenesisDoc) (genState : GenesisState) (s : Db) :
    ((∃ t, Eff.Returns (m.handleGenesis doc (.ok genState)) s () t) ↔ m.Loads genState) ∧
      ∀ t, Eff.Returns (m.handleGenesis doc (.ok genState)) s () t →
        m.Reparsed doc genState s t ∧ Eff.Returns (m.handleGenesis doc (.ok genState)) t () t := by
  refine ⟨⟨?_, fun hloads => ?_⟩, fun t ht => ?_⟩
  · rintro ⟨t, ht⟩
    exact (handleGenesis_returns.mp ht).1
  · obtain ⟨paramsBz, hparams⟩ := hloads.params
    obtain ⟨rows, hrows⟩ := genesisRows_returns.mpr hloads.messages
    exact ⟨_, handleGenesis_returns.mpr ⟨hloads, rows, paramsBz, hrows, hparams, rfl⟩⟩
  · obtain ⟨hloads, rows, paramsBz, hrows, hparams, rfl⟩ := handleGenesis_returns.mp ht
    refine ⟨loaded_reparsed hloads hrows hparams, handleGenesis_returns.mpr
      ⟨hloads, rows, paramsBz, hrows, hparams, ?_⟩⟩
    exact loaded_twice hloads hrows

def openGenesis : GenesisState where
  proposals :=
    [{ id := 1
       title := ""
       summary := ""
       metadata := ""
       messages := []
       status := .votingPeriod
       submitTime := some 0
       depositEndTime := some 0
       votingStartTime := some 0
       votingEndTime := some 1
       finalTallyResult := some ⟨"0", "0", "0", "0"⟩
       totalDeposit := [] }]
  params := "\x7b\x7d"

theorem openGenesis_loads : plain.Loads openGenesis where
  short := by decide
  complete := List.forall_mem_singleton.mpr ⟨rfl, rfl, rfl⟩
  ids := by decide
  range := by decide
  messages := List.forall_mem_singleton.mpr (by simp)
  params := ⟨_, rfl⟩

theorem genesis_reparsed_open :
    ∃ t, Eff.Returns (plain.handleGenesis ⟨0, 1⟩ (.ok openGenesis)) storedProposals () t ∧
      (t.proposal.find 1).map ProposalRow.status = some "PROPOSAL_STATUS_VOTING_PERIOD" ∧
      t.proposal.find 2 = storedProposals.proposal.find 2 := by
  obtain ⟨hiff, hreparsed⟩ :=
    genesis_reparsed plain ⟨0, 1⟩ openGenesis storedProposals
  obtain ⟨t, ht⟩ := hiff.mpr openGenesis_loads
  obtain ⟨hr, -⟩ := hreparsed t ht
  obtain ⟨row, hrow, hfind⟩ := hr.proposals _ List.mem_cons_self
  refine ⟨t, ht, ?_, (hr.otherProposals 2 (by decide)).1⟩
  have hstatus : row.status = "PROPOSAL_STATUS_VOTING_PERIOD" := by
    obtain rfl := Except.ok.inj hrow
    rfl
  exact (congrArg (Option.map ProposalRow.status) hfind).trans (congrArg some hstatus)

end SafrochainIndexer.Callisto.Gov
