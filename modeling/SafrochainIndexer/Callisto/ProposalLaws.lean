import SafrochainIndexer.Callisto.GovDatabase
import SafrochainIndexer.Lib.Lockstep
import SafrochainIndexer.Lib.Script

/-!
# Saving and reading proposals

`SaveProposals` inserts eleven columns and updates nine of them: the metadata of
a proposal that is saved again stays what it was (`proposals_upserted_iff`).
`GetProposal` reads back none of the proposals that were saved
(`saved_proposal_unreadable`).
-/

namespace SafrochainIndexer.Callisto

-- ---------------------------------------------------------------------------
-- What a call stores
-- ---------------------------------------------------------------------------

section
variable {protoMarshalJSON : Any → Except String String} {proposals : List Proposal} {s t : Db}

theorem proposalRow_id {proposal : Proposal} {row : ProposalRow}
    (h : proposalRow protoMarshalJSON proposal = .ok row) : row.id = proposal.id := by
  simp only [proposalRow, Eff.bind_ok, Eff.pure_ok] at h
  obtain ⟨jsonMessages, -, rfl⟩ := h
  rfl

theorem proposalRow_metadata {proposal : Proposal} {row : ProposalRow}
    (h : proposalRow protoMarshalJSON proposal = .ok row) : row.metadata = proposal.metadata := by
  simp only [proposalRow, Eff.bind_ok, Eff.pure_ok] at h
  obtain ⟨jsonMessages, -, rfl⟩ := h
  rfl

theorem proposalRows_ids {rows : List ProposalRow}
    (h : proposals.mapM (proposalRow protoMarshalJSON) = .ok rows) :
    rows.map ProposalRow.id = proposals.map Proposal.id :=
  (map_eq_of_forall₂ (mapM_ok_iff.mp h) fun _ _ hrow => (proposalRow_id hrow).symm).symm

theorem saveProposals_rows (h : Eff.Returns (saveProposals protoMarshalJSON proposals) s () t) :
    ∃ rows, proposals.mapM (proposalRow protoMarshalJSON) = .ok rows ∧
      t.proposal = rows.foldl (Table.upsert proposalConflict) s.proposal := by
  unfold saveProposals at h
  split at h
  · rename_i hnone
    obtain rfl := List.length_eq_zero_iff.mp hnone
    obtain ⟨-, rfl⟩ := Eff.returns_pure.mp h
    exact ⟨[], rfl, rfl⟩
  · obtain ⟨rows, u, hrows, h⟩ := Eff.returns_bind.mp h
    obtain ⟨hok, rfl⟩ := Eff.returns_ofExcept.mp (Eff.returns_wrap.mp hrows)
    obtain ⟨_, v, haccounts, hinsert⟩ := Eff.returns_bind.mp h
    have hv : v.proposal = s.proposal :=
      (Eff.Fixes.wrap (saveAccounts_fixes _ fun _ _ => rfl)).of_returns haccounts
    have ht : t.proposal = rows.foldl (Table.upsert proposalConflict) v.proposal :=
      Relation.insert_read (returns_sending.mp (Eff.returns_wrap.mp hinsert)).2
    exact ⟨rows, hok, by rw [ht, hv]⟩

end

-- ---------------------------------------------------------------------------
-- Saving again
-- ---------------------------------------------------------------------------

theorem saveProposals_fails {protoMarshalJSON : Any → Except String String}
    {proposals : List Proposal} {s t : Db}
    (h : Eff.Fails (saveProposals protoMarshalJSON proposals) s t) : t.proposal = s.proposal := by
  unfold saveProposals at h
  split at h
  · simp at h
  · obtain hrows | ⟨rows, u, hrows, h⟩ := Eff.fails_bind.mp h
    · rw [(Eff.fails_ofExcept.mp (Eff.fails_wrap.mp hrows)).2]
    · obtain ⟨-, rfl⟩ := Eff.returns_ofExcept.mp (Eff.returns_wrap.mp hrows)
      have haccounts : Eff.Fixes Db.proposal (Eff.wrap "error while storing proposers accounts: "
          (saveAccounts (proposals.map fun proposal => ⟨proposal.proposer⟩))) :=
        .wrap (saveAccounts_fixes _ fun _ _ => rfl)
      obtain h | ⟨_, v, hsaved, hinsert⟩ := Eff.fails_bind.mp h
      · exact haccounts.of_fails h
      · rw [Relation.sending_insert_fails (Eff.fails_wrap.mp hinsert)]
        exact haccounts.of_returns hsaved

/-- The upsert keeps the metadata of the stored row, and nothing else. -/
theorem resolve_eq_iff {stored : Option ProposalRow} {row : ProposalRow}
    (hid : ∀ o ∈ stored, o.id = row.id) :
    proposalConflict.resolve stored row = row ↔ ∀ o ∈ stored, o.metadata = row.metadata := by
  cases stored with
  | none => simp
  | some stored =>
    obtain ⟨id, title, description, metadata⟩ := stored
    obtain ⟨id', title', description', metadata'⟩ := row
    have hid' : id = id' := hid _ rfl
    simp [Conflict.merge, proposalConflict, hid']

/-- The database, and what was last saved under each id. -/
structure SavedProposals where
  db : Db
  last : Nat → Option ProposalRow

section
variable (protoMarshalJSON : Any → Except String String)

def rowOf (batch : List Proposal) (id : Nat) : Option ProposalRow :=
  (batch.find? fun proposal => proposal.id = id).bind fun proposal =>
    (proposalRow protoMarshalJSON proposal).toOption

/-- A call saves its batch unless it returns an error. -/
def SavedProposals.save (h : SavedProposals) (batch : List Proposal) : SavedProposals :=
  match Eff.exec (saveProposals protoMarshalJSON batch) h.db with
  | (.ok _, t) => ⟨t, fun id => (rowOf protoMarshalJSON batch id).or (h.last id)⟩
  | (.error _, t) => ⟨t, h.last⟩

/-- Every stored row is the last one saved, in every column. -/
def SavedProposals.Upserted (h : SavedProposals) : Prop :=
  ∀ id, h.db.proposal.find id = h.last id

def SavedProposals.KeepsMetadata (h : SavedProposals) (batch : List Proposal) : Prop :=
  Eff.Returns (saveProposals protoMarshalJSON batch) h.db () (h.save protoMarshalJSON batch).db →
    ∀ proposal ∈ batch, ∀ row ∈ h.db.proposal.find proposal.id, row.metadata = proposal.metadata

/-- The rows are the last ones saved before the run, and after every call of it. -/
def UpsertedThroughout (s : Db) (batches : List (List Proposal)) : Prop :=
  Lockstep.Throughout (SavedProposals.save protoMarshalJSON) (fun _ _ => ()) (fun h _ => h.Upserted)
    ⟨s, s.proposal.find⟩ () batches

def MetadataKept (s : Db) (batches : List (List Proposal)) : Prop :=
  Lockstep.Each (SavedProposals.save protoMarshalJSON) (fun _ _ => ())
    (fun h _ batch => h.KeepsMetadata protoMarshalJSON batch) ⟨s, s.proposal.find⟩ () batches

end

section
variable {protoMarshalJSON : Any → Except String String} {batch : List Proposal}

theorem rowOf_mem (hn : (batch.map Proposal.id).Nodup) {proposal : Proposal} {row : ProposalRow}
    (hp : proposal ∈ batch) (hrow : proposalRow protoMarshalJSON proposal = .ok row) :
    rowOf protoMarshalJSON batch proposal.id = some row := by
  have hfind : batch.find? (fun other => other.id = proposal.id) = some proposal :=
    Table.find_of_mem (t := ⟨batch, hn⟩) hp
  simp [rowOf, hfind, hrow, Except.toOption]

theorem rowOf_not_mem {id : Nat} (h : id ∉ batch.map Proposal.id) :
    rowOf protoMarshalJSON batch id = none := by
  have hfind : batch.find? (fun proposal => proposal.id = id) = none := by
    rw [List.find?_eq_none]
    intro proposal hp he
    exact h (List.mem_map.mpr ⟨proposal, hp, by simpa using he⟩)
  simp [rowOf, hfind]

theorem save_of_returns {h : SavedProposals} {t : Db}
    (hr : Eff.Returns (saveProposals protoMarshalJSON batch) h.db () t) :
    h.save protoMarshalJSON batch =
      ⟨t, fun id => (rowOf protoMarshalJSON batch id).or (h.last id)⟩ := by
  rw [SavedProposals.save, hr]

theorem save_of_fails {h : SavedProposals} {t : Db}
    (hf : Eff.Fails (saveProposals protoMarshalJSON batch) h.db t) :
    h.save protoMarshalJSON batch = ⟨t, h.last⟩ := by
  obtain ⟨fault, hf⟩ := hf
  rw [SavedProposals.save, hf]

theorem saved_find (hn : (batch.map Proposal.id).Nodup) {s t : Db}
    (hr : Eff.Returns (saveProposals protoMarshalJSON batch) s () t) {proposal : Proposal}
    (hp : proposal ∈ batch) :
    ∃ row, proposalRow protoMarshalJSON proposal = .ok row ∧
      t.proposal.find proposal.id =
        some (proposalConflict.resolve (s.proposal.find proposal.id) row) := by
  obtain ⟨rows, hrows, ht⟩ := saveProposals_rows hr
  obtain ⟨row, hmem, hrow⟩ := exists_of_mem_forall₂ (mapM_ok_iff.mp hrows) proposal hp
  have hids : (rows.map ProposalRow.id).Nodup := proposalRows_ids hrows ▸ hn
  refine ⟨row, hrow, ?_⟩
  rw [ht, ← proposalRow_id hrow]
  exact Table.find_foldl_upsert_of_mem proposalConflict _ hids hmem

theorem saved_find_other {s t : Db}
    (hr : Eff.Returns (saveProposals protoMarshalJSON batch) s () t) {id : Nat}
    (hid : id ∉ batch.map Proposal.id) : t.proposal.find id = s.proposal.find id := by
  obtain ⟨rows, hrows, ht⟩ := saveProposals_rows hr
  rw [ht]
  exact Table.find_foldl_upsert_of_not_mem proposalConflict _ (proposalRows_ids hrows ▸ hid)

theorem upserted_step_iff {h : SavedProposals} (hup : h.Upserted)
    (hn : (batch.map Proposal.id).Nodup) :
    (h.save protoMarshalJSON batch).Upserted ↔ h.KeepsMetadata protoMarshalJSON batch := by
  unfold SavedProposals.KeepsMetadata
  obtain ⟨_, hr⟩ | hf := Eff.returns_or_fails (saveProposals protoMarshalJSON batch) h.db
  · have hmember : ∀ proposal ∈ batch,
        ((h.save protoMarshalJSON batch).db.proposal.find proposal.id =
            (h.save protoMarshalJSON batch).last proposal.id ↔
          ∀ row ∈ h.db.proposal.find proposal.id, row.metadata = proposal.metadata) := by
      intro proposal hp
      obtain ⟨row, hrow, hfind⟩ := saved_find hn hr hp
      have hid : ∀ o ∈ h.db.proposal.find proposal.id, o.id = row.id :=
        fun o ho => (Table.find_key ho).trans (proposalRow_id hrow).symm
      rw [save_of_returns hr]
      dsimp only
      rw [hfind, rowOf_mem hn hp hrow, Option.some_or, Option.some.injEq, resolve_eq_iff hid,
        proposalRow_metadata hrow]
    have hother : ∀ id, id ∉ batch.map Proposal.id →
        (h.save protoMarshalJSON batch).db.proposal.find id =
          (h.save protoMarshalJSON batch).last id := by
      intro id hid
      rw [save_of_returns hr]
      dsimp only
      rw [saved_find_other hr hid, rowOf_not_mem hid, Option.none_or, hup id]
    constructor
    · intro hnext _ proposal hp
      exact (hmember proposal hp).mp (hnext proposal.id)
    · intro hkeeps id
      by_cases hid : id ∈ batch.map Proposal.id
      · obtain ⟨proposal, hp, rfl⟩ := List.mem_map.mp hid
        rw [save_of_returns hr] at hkeeps
        exact (hmember proposal hp).mpr (hkeeps hr proposal hp)
      · exact hother id hid
  · have hkept : (h.save protoMarshalJSON batch).Upserted := by
      intro id
      rw [save_of_fails hf]
      exact (congrArg (Table.find · id) (saveProposals_fails hf)).trans (hup id)
    rw [save_of_fails hf] at hkept ⊢
    exact ⟨fun _ hreturns => absurd hf hreturns.not_fails, fun _ => hkept⟩

/-- In a run of calls whose batches do not repeat an id, the rows are always the
last ones saved if and only if no call changes the metadata of a stored
proposal. -/
theorem proposals_upserted_iff (protoMarshalJSON : Any → Except String String)
    {batches : List (List Proposal)} (hn : ∀ batch ∈ batches, (batch.map Proposal.id).Nodup)
    (s : Db) :
    UpsertedThroughout protoMarshalJSON s batches ↔ MetadataKept protoMarshalJSON s batches := by
  have hdistinct : Lockstep.Each (SavedProposals.save protoMarshalJSON) (fun _ _ => ())
      (fun _ _ batch => (batch.map Proposal.id).Nodup) ⟨s, s.proposal.find⟩ () batches :=
    .of_forall hn
  refine Lockstep.throughout_iff ?_ hdistinct fun _ => rfl
  intro h _ batch hup hbatch
  exact upserted_step_iff hup hbatch

end

def proposalWith (metadata : String) : Proposal where
  id := 1
  title := "Upgrade"
  summary := ""
  metadata := metadata
  messages := []
  status := "PROPOSAL_STATUS_DEPOSIT_PERIOD"
  submitTime := 0
  depositEndTime := 1
  votingStartTime := none
  votingEndTime := none
  proposer := "safro1"

def noMessage : Any → Except String String := fun _ => .error "unknown message"

theorem proposals_upserted_twice :
    UpsertedThroughout noMessage default
      [[proposalWith "ipfs://a"], [proposalWith "ipfs://a"]] := by
  refine (proposals_upserted_iff noMessage (by decide) default).mpr ⟨?_, ?_, trivial⟩
  · intro _ proposal _ row hrow
    cases hrow
  · intro _
    decide

/-- The metadata of a proposal that is saved again is lost. -/
theorem second_metadata_lost :
    ¬ UpsertedThroughout noMessage default
      [[proposalWith "ipfs://a"], [proposalWith "ipfs://b"]] := by
  rintro ⟨-, -, hsaved⟩
  have hstored := hsaved 1
  revert hstored
  decide

-- ---------------------------------------------------------------------------
-- Reading back
-- ---------------------------------------------------------------------------

structure MessageCodec where
  marshalJSON : Any → Except String String
  unmarshalJSON : String → Except String Any
  object : ∀ msg text, marshalJSON msg = .ok text → text.toList.head? = some '\x7b'
  roundTrip : ∀ msg text, marshalJSON msg = .ok text → unmarshalJSON text = .ok msg
  array : ∀ text : String, text.toList.head? = some '[' →
    ∃ message, unmarshalJSON text = .error message

/-- `GetProposal` returns the messages of the proposal. -/
def MessageCodec.ReadsBack (codec : MessageCodec) (proposal : Proposal) (s : Db) : Prop :=
  ∃ read, Eff.Returns (getProposal codec.unmarshalJSON proposal.id) s read s ∧
    read.messages = proposal.messages

theorem getProposal_saved (codec : MessageCodec) {proposal : Proposal} {s t : Db}
    (h : Eff.Returns (saveProposals codec.marshalJSON [proposal]) s () t) :
    ∃ message, Eff.exec (getProposal codec.unmarshalJSON proposal.id) t =
      (.error (.error message), t) := by
  obtain ⟨row, hrow, hfind⟩ := saved_find (by simp) h (List.mem_singleton.mpr rfl)
  refine getProposal_fails codec.array hfind ?_
  have hcontent := proposalRow_content hrow
  cases s.proposal.find proposal.id with
  | none => exact hcontent
  | some stored => exact hcontent

/-- No proposal that was saved is read back, whatever its messages. -/
theorem saved_proposal_unreadable (codec : MessageCodec) {proposal : Proposal} {s t : Db}
    (h : Eff.Returns (saveProposals codec.marshalJSON [proposal]) s () t) :
    ¬ codec.ReadsBack proposal t := by
  obtain ⟨message, hfails⟩ := getProposal_saved codec h
  rintro ⟨read, hread, -⟩
  exact nomatch congrArg Prod.fst (hread.symm.trans hfails)

def cancelMsg : Any := ⟨"/cosmos.upgrade.v1beta1.MsgCancelUpgrade", "authority: gov"⟩

def cancelText : String :=
  "\x7b\"@type\":\"/cosmos.upgrade.v1beta1.MsgCancelUpgrade\",\"authority\":\"gov\"\x7d"

def cancelCodec : MessageCodec where
  marshalJSON msg := if msg = cancelMsg then .ok cancelText else .error "unknown message"
  unmarshalJSON text := if text = cancelText then .ok cancelMsg else .error "not an object"
  object msg text h := by
    split at h
    · cases h
      decide
    · cases h
  roundTrip msg text h := by
    split at h
    · rename_i hmsg
      cases h
      rw [hmsg, if_pos rfl]
    · cases h
  array text h := by
    refine ⟨"not an object", if_neg ?_⟩
    rintro rfl
    revert h
    decide

def cancelProposal : Proposal := { proposalWith "" with messages := [cancelMsg] }

theorem saved_proposal_unreadable_cancel :
    ¬ cancelCodec.ReadsBack cancelProposal
      (Eff.exec (saveProposals cancelCodec.marshalJSON [cancelProposal]) default).2 :=
  saved_proposal_unreadable cancelCodec (s := default) rfl

/-- One message, saved without an error, and `GetProposal` returns one. -/
theorem cancel_proposal_unreadable :
    ∃ t, Eff.Returns (saveProposals cancelCodec.marshalJSON [cancelProposal]) default () t ∧
      (∃ message, Eff.exec (getProposal cancelCodec.unmarshalJSON 1) t =
        (.error (.error message), t)) ∧
      ¬ cancelCodec.ReadsBack cancelProposal t := by
  have hsaved : Eff.Returns (saveProposals cancelCodec.marshalJSON [cancelProposal]) default ()
      (Eff.exec (saveProposals cancelCodec.marshalJSON [cancelProposal]) default).2 := rfl
  obtain ⟨message, hfails⟩ := getProposal_saved cancelCodec hsaved
  refine ⟨_, hsaved, ⟨message, hfails⟩, ?_⟩
  rintro ⟨read, hread, -⟩
  exact nomatch congrArg Prod.fst (hread.symm.trans hfails)

end SafrochainIndexer.Callisto
