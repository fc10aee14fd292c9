import SafrochainIndexer.Callisto.ParamsSources
import SafrochainIndexer.Callisto.StatusLaws
import SafrochainIndexer.Callisto.UpgradeLaws

/-!
# Blocks with a failing proposal

`updateProposalsStatus` handles the proposals that the events of a block name one
after the other and stops at the first one that fails; `HandleBlock` logs the
error and reports success. A proposal named after a failing one keeps the status
it had (`others_updated_iff`).
-/

namespace SafrochainIndexer.Callisto.Gov

open Upgrade (softwareUpgradePlanConflict_guards)

variable {m : Module} {s t : Db} {height : Int}

-- ---------------------------------------------------------------------------
-- States that the handlers do not tell apart
-- ---------------------------------------------------------------------------

def PlansStored (s : Db) : Prop :=
  ∀ row ∈ s.softwareUpgradePlan.rows, s.hasProposal row.proposalId = true

/-- The same blocks, and the same contents of proposals. -/
structure Alike (s t : Db) : Prop where
  block : s.block = t.block
  contents : ∀ id, (s.proposal.find id).map ProposalRow.content =
    (t.proposal.find id).map ProposalRow.content
  plans : PlansStored s
  plans' : PlansStored t

theorem Alike.refl (h : PlansStored s) : Alike s s := ⟨rfl, fun _ => rfl, h, h⟩

theorem Alike.symm (h : Alike s t) : Alike t s :=
  ⟨h.block.symm, fun id => (h.contents id).symm, h.plans', h.plans⟩

theorem Alike.hasProposal (h : Alike s t) (id : Nat) : s.hasProposal id = t.hasProposal id := by
  have hsome := congrArg Option.isSome (h.contents id)
  simpa [Db.hasProposal] using hsome

def readParts (s : Db) : Table BlockRow.height × Table ProposalRow.id ×
    Table SoftwareUpgradePlanRow.proposalId := (s.block, s.proposal, s.softwareUpgradePlan)

theorem Alike.of_parts {s' t' : Db} (h : Alike s t) (hs : readParts s' = readParts s)
    (ht : readParts t' = readParts t) : Alike s' t' := by
  simp only [readParts, Prod.mk.injEq] at hs ht
  obtain ⟨hblock, hproposal, hplan⟩ := hs
  obtain ⟨hblock', hproposal', hplan'⟩ := ht
  refine ⟨by rw [hblock, hblock', h.block], fun id => ?_, ?_, ?_⟩
  · rw [hproposal, hproposal', h.contents]
  · intro row hrow
    rw [hplan] at hrow
    simpa [Db.hasProposal, hproposal] using h.plans row hrow
  · intro row hrow
    rw [hplan'] at hrow
    simpa [Db.hasProposal, hproposal'] using h.plans' row hrow

section
variable {table : Relation Db (oneRowId (ρ := ParamsRow))}
  (hfree : ∀ s row, table.violation s row = none)
  (hwrite : ∀ u s, readParts (table.write u s) = readParts s)
include hfree hwrite

theorem updateParamsOf_agrees (getting marshaling storing : String) (source : ParamsSource)
    (height : Int) :
    Eff.Agrees Alike (updateParamsOf getting marshaling storing table source height) := by
  intro s t h
  rw [updateParamsOf_outcome _ _ _ _ hfree, updateParamsOf_outcome _ _ _ _ hfree]
  cases source.params height with
  | error message => exact ⟨rfl, h⟩
  | ok params =>
    dsimp only
    cases source.marshal params with
    | error message => exact ⟨rfl, h⟩
    | ok paramsBz => exact ⟨rfl, h.of_parts (hwrite _ s) (hwrite _ t)⟩

end

theorem updateInflation_agrees (getInflation : Int → Except String String) :
    Eff.Agrees Alike (Mint.updateInflation getInflation) := by
  have hlast : Eff.Agrees Alike getLastBlockHeightAndTimestamp :=
    fun s t h => ⟨congrArg (fun t : Table BlockRow.height => some (lastBlock t.rows)) h.block, h⟩
  refine .bind hlast fun block => .bind .ofExcept fun inflation => .wrap ?_
  intro s t h
  have hinsert : ∀ u : Db, Eff.Returns (inflationTable.insert inflationConflict
      [⟨inflation, block.height⟩]) u () _ := fun u =>
    inflationConflict_guards.insert_ok (List.nodup_singleton _) fun _ _ => rfl
  rw [hinsert s, hinsert t]
  exact ⟨rfl, h.of_parts rfl rfl⟩

theorem handleParamChangeProposal_agrees (height : Int) (moduleName : String) :
    Eff.Agrees Alike (m.handleParamChangeProposal height moduleName) := by
  unfold Module.handleParamChangeProposal
  split
  · exact .wrap (updateParamsOf_agrees (fun _ _ => rfl) (fun _ _ => rfl) _ _ _ _ _)
  · exact .wrap (updateParamsOf_agrees (fun _ _ => rfl) (fun _ _ => rfl) _ _ _ _ _)
  · exact .bind (.wrap (updateParamsOf_agrees (fun _ _ => rfl) (fun _ _ => rfl) _ _ _ _ _))
      fun _ => .wrap (updateInflation_agrees _)
  · exact .wrap (updateParamsOf_agrees (fun _ _ => rfl) (fun _ _ => rfl) _ _ _ _ _)
  · exact .wrap (updateParamsOf_agrees (fun _ _ => rfl) (fun _ _ => rfl) _ _ _ _ _)
  · exact .pure

theorem insertPlan_returns (row : SoftwareUpgradePlanRow)
    (hproposal : s.hasProposal row.proposalId = true) :
    Eff.Returns (softwareUpgradePlanTable.insert softwareUpgradePlanConflict [row]) s ()
      (softwareUpgradePlanTable.write
        (s.softwareUpgradePlan.upsert softwareUpgradePlanConflict row) s) := by
  refine softwareUpgradePlanConflict_guards.insert_ok (by simp) ?_
  simp [softwareUpgradePlanTable, hproposal]

theorem insertPlan_fails (row : SoftwareUpgradePlanRow) (hs : PlansStored s)
    (hproposal : ¬s.hasProposal row.proposalId = true) :
    ∃ fault, Eff.exec (softwareUpgradePlanTable.insert softwareUpgradePlanConflict [row]) s =
      (.error fault, s) := by
  rcases Eff.returns_or_fails (softwareUpgradePlanTable.insert softwareUpgradePlanConflict [row]) s
    with ⟨⟨⟩, hreturns⟩ | hfails
  · exfalso
    have hnone : s.softwareUpgradePlan.find row.proposalId = none := by
      refine Option.eq_none_iff_forall_ne_some.mpr fun old hold => hproposal ?_
      rw [← Table.find_key hold]
      exact hs old (Table.mem_of_find hold)
    have hfind := softwareUpgradePlanConflict_guards.find_upsert s.softwareUpgradePlan
      (r := row) rfl
    rw [hnone, Register.offer_none] at hfind
    have hmem : row ∈ (softwareUpgradePlanTable.read (Eff.exec
        (softwareUpgradePlanTable.insert softwareUpgradePlanConflict [row]) s).2).rows := by
      rw [Relation.insert_read hreturns]
      exact Table.mem_of_find hfind
    rcases Relation.insert_valid hreturns hmem with hold | hvalid
    · exact hproposal (hs row hold)
    · simp [softwareUpgradePlanTable, foreignKey, hproposal] at hvalid
  · obtain ⟨fault, hexec⟩ := hfails
    rw [Relation.insert_fails ⟨fault, hexec⟩] at hexec
    exact ⟨fault, hexec⟩

theorem plansStored_upsert {row : SoftwareUpgradePlanRow} (hs : PlansStored s)
    (hproposal : s.hasProposal row.proposalId = true) :
    PlansStored (softwareUpgradePlanTable.write
      (s.softwareUpgradePlan.upsert softwareUpgradePlanConflict row) s) := by
  intro r hr
  change r ∈ ([row].foldl (Table.upsert softwareUpgradePlanConflict)
    s.softwareUpgradePlan).rows at hr
  rcases softwareUpgradePlanConflict_guards.mem_of_upserts hr with hold | hnew
  · exact hs r hold
  · rw [List.mem_singleton.mp hnew]
    exact hproposal

theorem saveSoftwareUpgradePlan_agrees (proposalID : Nat) (plan : Plan) (height : Int) :
    Eff.Agrees Alike (saveSoftwareUpgradePlan proposalID plan height) := by
  refine .wrap fun s t h => ?_
  by_cases hproposal : s.hasProposal proposalID = true
  · have hproposal' := (h.hasProposal proposalID).symm.trans hproposal
    have hreturns := insertPlan_returns (planRow proposalID plan height) hproposal
    have hreturns' := insertPlan_returns (planRow proposalID plan height) hproposal'
    rw [hreturns, hreturns']
    exact ⟨rfl, h.block, h.contents, plansStored_upsert h.plans hproposal,
      plansStored_upsert h.plans' hproposal'⟩
  · have hproposal' : ¬t.hasProposal proposalID = true := by rwa [← h.hasProposal]
    obtain ⟨fault, hfails⟩ := insertPlan_fails (planRow proposalID plan height) h.plans hproposal
    obtain ⟨fault', hfails'⟩ :=
      insertPlan_fails (planRow proposalID plan height) h.plans' hproposal'
    rw [hfails, hfails']
    exact ⟨rfl, h⟩

theorem deleteSoftwareUpgradePlan_agrees (proposalID : Nat) :
    Eff.Agrees Alike (deleteSoftwareUpgradePlan proposalID) := by
  have hparameter : Eff.Agrees Alike (integerParameter proposalID) := by
    unfold integerParameter
    split
    · exact .fail
    · exact .pure
  refine .wrap (.bind hparameter fun _ => ?_)
  intro s t h
  refine ⟨rfl, h.block, h.contents, ?_, ?_⟩
  · intro row hrow
    exact h.plans row (List.mem_of_mem_filter hrow)
  · intro row hrow
    exact h.plans' row (List.mem_of_mem_filter hrow)

theorem handlePassedProposal_agrees (proposal : V1Proposal) (height : Int) :
    Eff.Agrees Alike (m.handlePassedProposal proposal height) := by
  unfold Module.handlePassedProposal
  split
  · exact .pure
  · refine .forM fun msg _ => .bind (.wrap .ofExcept) fun sdkMsg => ?_
    split
    · refine .bind (.wrap .ofFallible) fun content => ?_
      split
      · exact .forM fun _ _ => .wrap (handleParamChangeProposal_agrees _ _)
      · exact .wrap (saveSoftwareUpgradePlan_agrees _ _ _)
      · exact .wrap (deleteSoftwareUpgradePlan_agrees _)
      · exact .pure
    · unfold Module.handlePassedV1Proposal
      split
      · exact .wrap (saveSoftwareUpgradePlan_agrees _ _ _)
      · exact .wrap (deleteSoftwareUpgradePlan_agrees _)
      · split
        · exact handleParamChangeProposal_agrees _ _
        · exact .pure

-- ---------------------------------------------------------------------------
-- Handling one proposal
-- ---------------------------------------------------------------------------

def updated (update : ProposalUpdate) (table : Table ProposalRow.id) : Table ProposalRow.id :=
  table.update (fun row => row.id = update.proposalId) update.set update.id_set

theorem updateProposal_returns {update : ProposalUpdate} :
    Eff.Returns (updateProposal update) s () t ↔
      update.proposalId < 2 ^ 31 ∧ t = { s with proposal := updated update s.proposal } := by
  rw [updateProposal, Eff.returns_wrap, Eff.returns_bind]
  constructor
  · rintro ⟨_, u, hparameter, hupdate⟩
    obtain ⟨hbound, rfl⟩ := integerParameter_returns.mp hparameter
    exact ⟨hbound, (Relation.update_returns.mp hupdate).symm⟩
  · rintro ⟨hbound, rfl⟩
    exact ⟨(), s, integerParameter_returns.mpr ⟨hbound, rfl⟩, Relation.update_returns.mpr rfl⟩

theorem updateProposal_fails (update : ProposalUpdate) (h : ¬update.proposalId < 2 ^ 31) (s : Db) :
    ∃ fault, Eff.exec (updateProposal update) s = (.error fault, s) := by
  unfold updateProposal integerParameter integerColumn
  rw [if_neg h]
  exact ⟨_, rfl⟩

theorem content_updated (update : ProposalUpdate) (table : Table ProposalRow.id) (id : Nat) :
    ((updated update table).find id).map ProposalRow.content =
      (table.find id).map ProposalRow.content := by
  rw [updated, Table.find_update, Option.map_map]
  refine congrFun (congrArg Option.map (funext fun row => ?_)) _
  simp only [Function.comp_apply]
  split <;> rfl

theorem Alike.update (h : Alike s t) (update : ProposalUpdate) :
    Alike { s with proposal := updated update s.proposal } t := by
  refine ⟨h.block, fun id => ?_, ?_, h.plans'⟩
  · exact (content_updated update s.proposal id).trans (h.contents id)
  intro row hrow
  have hcontent := congrArg Option.isSome (content_updated update s.proposal row.proposalId)
  rw [Option.isSome_map, Option.isSome_map] at hcontent
  exact hcontent.trans (h.plans row hrow)

theorem Alike.updateProposal (h : Alike s t) {update update' : ProposalUpdate}
    (hid : update.proposalId = update'.proposalId) :
    (Eff.exec (Callisto.updateProposal update) s).1.toOption =
        (Eff.exec (Callisto.updateProposal update') t).1.toOption ∧
      Alike (Eff.exec (Callisto.updateProposal update) s).2
        (Eff.exec (Callisto.updateProposal update') t).2 := by
  by_cases hbound : update.proposalId < 2 ^ 31
  · have hs := updateProposal_returns.mpr
      ⟨hbound, Eq.refl { s with proposal := updated update s.proposal }⟩
    have ht := updateProposal_returns.mpr
      ⟨hid ▸ hbound, Eq.refl { t with proposal := updated update' t.proposal }⟩
    rw [hs, ht]
    exact ⟨rfl, ((h.update update).symm.update update').symm⟩
  · obtain ⟨fault, hs⟩ := updateProposal_fails update hbound s
    obtain ⟨fault', ht⟩ := updateProposal_fails update' (hid ▸ hbound) t
    rw [hs, ht]
    exact ⟨rfl, h⟩

/-- Of a stored proposal, only the content decides whether it can be read. -/
theorem updateDeletedProposalStatus_agrees (id : Nat) :
    Eff.Agrees Alike (m.updateDeletedProposalStatus id) := by
  intro s t h
  have hcontent := h.contents id
  unfold Module.updateDeletedProposalStatus getProposal integerParameter
  cases integerColumn id with
  | some message => exact ⟨rfl, h⟩
  | none =>
    simp only [Eff.exec_bind, Eff.exec_wrap, Eff.exec_pure, Eff.mapError_ok, Eff.exec_get]
    cases hs : s.proposal.find id with
    | none =>
      rw [hs, Option.map_none, eq_comm, Option.map_eq_none_iff] at hcontent
      rw [hcontent]
      exact h.updateProposal rfl
    | some row =>
      rw [hs, Option.map_some, eq_comm, Option.map_eq_some_iff] at hcontent
      obtain ⟨row', ht, hcontent⟩ := hcontent
      rw [ht]
      dsimp only
      rw [hcontent]
      have hid : row.id = row'.id := (Table.find_key hs).trans (Table.find_key ht).symm
      generalize (Text.splitAt (Text.trimPrefix (Text.trimPrefix row.content "\x7b") "\x7d")
        ',').mapM m.unmarshalJSON = messages
      cases messages with
      | error message => exact ⟨rfl, h⟩
      | ok messages => exact h.updateProposal hid

theorem updateProposalStatus_agrees (m : Module) (height : Int) (id : Nat) :
    Eff.Agrees Alike (m.updateProposalStatus height id) := by
  unfold Module.updateProposalStatus
  split
  · split
    · exact updateDeletedProposalStatus_agrees id
    · exact .fail
  · rename_i proposal _
    refine .bind (.wrap fun s t h => h.updateProposal rfl) fun _ => .wrap ?_
    exact handlePassedProposal_agrees proposal height

-- ---------------------------------------------------------------------------
-- What a proposal does to the rows of others
-- ---------------------------------------------------------------------------

theorem updateProposal_other {update : ProposalUpdate} {id : Nat} (h : update.proposalId ≠ id) :
    Eff.Fixes (fun s => s.proposal.find id) (Callisto.updateProposal update) := by
  refine .wrap (.bind (integerParameter_fixes _) fun _ => fun s => ?_)
  change (updated update s.proposal).find id = s.proposal.find id
  rw [updated, Table.find_update]
  cases hfind : s.proposal.find id with
  | none => rfl
  | some row =>
    have hne : row.id ≠ update.proposalId := by
      rw [Table.find_key hfind]
      exact h.symm
    simp [hne]

theorem getProposal_returns_id {unmarshalJSON : String → Except String Any} {id : Nat}
    {stored : Proposal} (h : Eff.Returns (getProposal unmarshalJSON id) s stored t) :
    (stored.id = id ∨ stored.id = 0) ∧ t = s := by
  obtain ⟨_, u, hparameter, h⟩ := Eff.returns_bind.mp h
  obtain ⟨-, rfl⟩ := integerParameter_returns.mp (Eff.returns_wrap.mp hparameter)
  obtain ⟨_, v, hget, h⟩ := Eff.returns_bind.mp h
  obtain ⟨rfl, rfl⟩ := Eff.returns_get.mp hget
  cases hfind : s.proposal.find id with
  | none =>
    rw [hfind] at h
    obtain ⟨rfl, rfl⟩ := Eff.returns_pure.mp h
    exact ⟨.inr rfl, rfl⟩
  | some row =>
    have hrow : row.id = id := Table.find_key hfind
    rw [hfind] at h
    obtain ⟨messages, w, hmessages, h⟩ := Eff.returns_bind.mp h
    obtain ⟨-, rfl⟩ := Eff.returns_ofExcept.mp hmessages
    obtain ⟨rfl, rfl⟩ := Eff.returns_pure.mp h
    exact ⟨.inl hrow, rfl⟩

theorem getProposal_fixes {β : Type} {f : Db → β} (unmarshalJSON : String → Except String Any)
    (id : Nat) : Eff.Fixes f (getProposal unmarshalJSON id) := by
  refine .bind (.wrap (integerParameter_fixes _)) fun _ => .bind .get fun s => ?_
  split
  · exact .pure
  · exact .bind .ofExcept fun _ => .pure

theorem updateDeletedProposalStatus_other {x id : Nat} (hx : x ≠ id) (hid : id ≠ 0) :
    Eff.Fixes (fun s => s.proposal.find id) (m.updateDeletedProposalStatus x) := by
  intro s
  unfold Module.updateDeletedProposalStatus
  rcases Eff.returns_or_fails (getProposal m.unmarshalJSON x) s with
    ⟨stored, hreturns⟩ | ⟨fault, hfails⟩
  · obtain ⟨hstored, hstate⟩ := getProposal_returns_id hreturns
    have hne : stored.id ≠ id := by
      rcases hstored with he | he
      · rwa [he]
      · rw [he]
        exact hid.symm
    rw [Eff.Returns.exec_bind hreturns, updateProposal_other hne, hstate]
  · rw [Eff.exec_bind, hfails]
    exact getProposal_fixes (f := fun s => s.proposal.find id) m.unmarshalJSON x s

/-- The source returns the proposal that it is asked for, and numbers them from 1. -/
def Identifies (m : Module) : Prop :=
  ∀ height id proposal, m.source.proposal height id = .ok proposal → proposal.id = id ∧ id ≠ 0

theorem updateProposalStatus_other (hm : Identifies m) (height : Int) {x id : Nat} (hx : x ≠ id)
    (hid : id ≠ 0) :
    Eff.Fixes (fun s => s.proposal.find id) (m.updateProposalStatus height x) := by
  unfold Module.updateProposalStatus
  split
  · split
    · exact updateDeletedProposalStatus_other hx hid
    · exact .fail
  · rename_i proposal hsource
    refine .bind (.wrap (updateProposal_other ?_)) fun _ => .wrap ?_
    · change proposal.id ≠ id
      rwa [(hm _ _ _ hsource).1]
    · exact handlePassedProposal_fixes m ⟨fun _ _ => rfl, fun _ _ => rfl, fun _ _ => rfl,
        fun _ _ => rfl, fun _ _ => rfl, fun _ _ => rfl⟩ (fun _ _ => rfl) _ _

/-- Its own row is set before what it does, if it has passed, and stays set. -/
theorem updateProposalStatus_own {id : Nat} {proposal : V1Proposal}
    (hsource : m.source.proposal height id = .ok proposal) (hid : proposal.id = id) (s : Db) :
    (Eff.exec (m.updateProposalStatus height id) s).2.proposal.find id =
      if id < 2 ^ 31 then (s.proposal.find id).map (updateOf proposal).set
      else s.proposal.find id := by
  have hpassed : ∀ _ : Unit, Eff.Fixes Db.proposal
      (Eff.wrap "error while handling passed proposals: "
        (m.handlePassedProposal proposal height)) :=
    fun _ => .wrap (handlePassedProposal_fixes m proposalsUnread (fun _ _ => rfl) _ _)
  unfold Module.updateProposalStatus
  rw [hsource]
  dsimp only
  rw [Eff.exec_bind_of_fixes _ hpassed, Eff.exec_wrap]
  subst hid
  by_cases hbound : proposal.id < 2 ^ 31
  · have hreturns := updateProposal_returns.mpr
      ⟨hbound, Eq.refl { s with proposal := updated (updateOf proposal) s.proposal }⟩
    rw [hreturns, if_pos hbound]
    exact (updateProposal_find hreturns proposal.id).trans (if_pos rfl)
  · obtain ⟨fault, hfails⟩ := updateProposal_fails (updateOf proposal) hbound s
    rw [hfails, if_neg hbound]

-- ---------------------------------------------------------------------------
-- Blocks
-- ---------------------------------------------------------------------------

def Handles (m : Module) (height : Int) (s : Db) (id : Nat) : Prop :=
  ∃ t, Eff.Returns (m.updateProposalStatus height id) s () t

theorem Alike.handles {u : Db} (h : Alike s u) {id : Nat} (hs : Handles m height s id) :
    Handles m height u id := by
  obtain ⟨t, hreturns⟩ := hs
  obtain ⟨v, hv, -⟩ := (updateProposalStatus_agrees m height id).returns h hreturns
  exact ⟨v, hv⟩

/-- An occurrence comes after proposals that are handled only. -/
def NamedInTime (m : Module) (height : Int) (s : Db) (ids : List Nat) (id : Nat) : Prop :=
  ∃ before after, ids = before ++ id :: after ∧ ∀ x ∈ before, Handles m height s x

@[simp] theorem namedInTime_nil {id : Nat} : NamedInTime m height s [] id ↔ False := by
  simp [NamedInTime]

theorem namedInTime_cons {x id : Nat} {ids : List Nat} :
    NamedInTime m height s (x :: ids) id ↔
      x = id ∨ Handles m height s x ∧ NamedInTime m height s ids id := by
  constructor
  · rintro ⟨before, after, hids, hbefore⟩
    cases before with
    | nil => exact .inl (List.cons.inj hids).1
    | cons y before =>
      obtain ⟨rfl, rfl⟩ := List.cons.inj hids
      obtain ⟨hy, hbefore⟩ := List.forall_mem_cons.mp hbefore
      exact .inr ⟨hy, before, after, rfl, hbefore⟩
  · rintro (rfl | ⟨hx, before, after, rfl, hbefore⟩)
    · exact ⟨[], ids, rfl, by simp⟩
    · exact ⟨x :: before, after, rfl, List.forall_mem_cons.mpr ⟨hx, hbefore⟩⟩

theorem updateProposalStatus_contents (m : Module) (height : Int) (x : Nat) :
    Eff.Fixes (fun s => (s.block, fun id => (s.proposal.find id).map ProposalRow.content))
      (m.updateProposalStatus height x) := by
  have hupdate : ∀ update, Eff.Fixes (fun s : Db =>
      (s.block, fun id => (s.proposal.find id).map ProposalRow.content))
      (Callisto.updateProposal update) := by
    intro update
    refine .wrap (.bind (integerParameter_fixes _) fun _ => fun s => ?_)
    exact Prod.ext rfl (funext fun id => content_updated update s.proposal id)
  unfold Module.updateProposalStatus
  split
  · split
    · exact .bind (getProposal_fixes _ _) fun _ => hupdate _
    · exact .fail
  · exact .bind (.wrap (hupdate _)) fun _ => .wrap
      (handlePassedProposal_fixes m ⟨fun _ _ => rfl, fun _ _ => rfl, fun _ _ => rfl,
        fun _ _ => rfl, fun _ _ => rfl, fun _ _ => rfl⟩ (fun _ _ => rfl) _ _)

theorem Alike.step (h : Alike s t) (m : Module) (height : Int) (x : Nat) :
    Alike s (Eff.exec (m.updateProposalStatus height x) t).2 := by
  have hfixes := updateProposalStatus_contents m height x t
  simp only [Prod.mk.injEq] at hfixes
  obtain ⟨hblock, hcontents⟩ := hfixes
  have hplans := (updateProposalStatus_agrees m height x t t (.refl h.plans')).2.plans
  exact ⟨h.block.trans hblock.symm, fun id => (h.contents id).trans (congrFun hcontents id).symm,
    h.plans, hplans⟩

/-- A round of the loop of `updateProposalsStatus`. -/
def round (m : Module) (height : Int) (id : Nat) : Eff Db Unit :=
  Eff.wrap s!"error while updating proposal {id} status: " (m.updateProposalStatus height id)

theorem exec_rounds (m : Module) (height : Int) (x : Nat) (ids : List Nat) (u : Db) :
    (Handles m height u x ∧ Eff.exec ((x :: ids).forM (round m height)) u =
      Eff.exec (ids.forM (round m height)) (Eff.exec (m.updateProposalStatus height x) u).2) ∨
    (¬Handles m height u x ∧ (Eff.exec ((x :: ids).forM (round m height)) u).2 =
      (Eff.exec (m.updateProposalStatus height x) u).2) := by
  rcases Eff.returns_or_fails (m.updateProposalStatus height x) u with ⟨⟨⟩, hreturns⟩ | hfails
  · refine .inl ⟨⟨_, hreturns⟩, ?_⟩
    have hround : Eff.Returns (round m height x) u () _ := Eff.returns_wrap.mpr hreturns
    exact hround.exec_forM_cons
  · refine .inr ⟨fun ⟨t, hreturns⟩ => hreturns.not_fails hfails, ?_⟩
    obtain ⟨fault, hround⟩ : Eff.Fails (round m height x) u _ := Eff.fails_wrap.mpr hfails
    rw [Eff.exec_forM_cons_error hround]

/-- The row of a proposal, if there is one, says what the chain says. -/
def UpToDate (proposal : V1Proposal) (id : Nat) (s : Db) : Prop :=
  ∀ row, s.proposal.find id = some row → rowPhase row = phaseOf proposal

theorem upToDate_congr {proposal : V1Proposal} {id : Nat}
    (h : t.proposal.find id = s.proposal.find id) (hs : UpToDate proposal id s) :
    UpToDate proposal id t :=
  fun row hrow => hs row (h.symm.trans hrow)

/-- From `u`, the loop updates a proposal that it reaches and leaves any other
alone. -/
def Settles (m : Module) (height : Int) (s : Db) (ids : List Nat) (id : Nat)
    (proposal : V1Proposal) (u : Db) : Prop :=
  (id < 2 ^ 31 ∧ NamedInTime m height s ids id) ∧
      UpToDate proposal id (Eff.exec (ids.forM (round m height)) u).2 ∨
    ¬(id < 2 ^ 31 ∧ NamedInTime m height s ids id) ∧
      (Eff.exec (ids.forM (round m height)) u).2.proposal.find id = u.proposal.find id

section
variable {id : Nat} {proposal : V1Proposal} {ids : List Nat} {u : Db}

theorem settles_own (hsource : m.source.proposal height id = .ok proposal) (hpid : proposal.id = id)
    (hrest : Settles m height s ids id proposal (Eff.exec (m.updateProposalStatus height id) u).2) :
    Settles m height s (id :: ids) id proposal u := by
  have hrounds := exec_rounds m height id ids u
  have hown := updateProposalStatus_own hsource hpid u
  by_cases hbound : id < 2 ^ 31
  · rw [if_pos hbound] at hown
    have hset : UpToDate proposal id (Eff.exec (m.updateProposalStatus height id) u).2 := by
      intro row hrow
      obtain ⟨old, -, rfl⟩ := Option.map_eq_some_iff.mp (hown.symm.trans hrow)
      exact phase_set _ _
    refine .inl ⟨⟨hbound, namedInTime_cons.mpr (.inl rfl)⟩, ?_⟩
    rcases hrounds with ⟨-, hexec⟩ | ⟨-, hexec⟩
    · rw [hexec]
      rcases hrest with ⟨-, hrest⟩ | ⟨-, hrest⟩
      · exact hrest
      · exact upToDate_congr hrest hset
    · rwa [hexec]
  · -- the update fails, and with it the loop
    rw [if_neg hbound] at hown
    refine .inr ⟨fun hnamed => hbound hnamed.1, ?_⟩
    rcases hrounds with ⟨-, hexec⟩ | ⟨-, hexec⟩
    · rcases hrest with ⟨⟨hlt, -⟩, -⟩ | ⟨-, hrest⟩
      · exact absurd hlt hbound
      · rw [hexec, hrest, hown]
    · rw [hexec, hown]

/-- The round of another proposal, which ends the loop if it fails. -/
theorem settles_other (hm : Identifies m) {x : Nat} (hx : x ≠ id) (hid : id ≠ 0) (h : Alike s u)
    (hrest : Settles m height s ids id proposal (Eff.exec (m.updateProposalStatus height x) u).2) :
    Settles m height s (x :: ids) id proposal u := by
  have hother := updateProposalStatus_other hm height hx hid u
  unfold Settles
  rw [namedInTime_cons]
  rcases exec_rounds m height x ids u with ⟨hhandles, hexec⟩ | ⟨hfails, hexec⟩
  · rw [hexec]
    have hs := h.symm.handles hhandles
    simp only [hx, hs, false_or, true_and]
    rcases hrest with hrest | ⟨hnot, hrest⟩
    · exact .inl hrest
    · exact .inr ⟨hnot, hrest.trans hother⟩
  · refine .inr ⟨?_, hexec ▸ hother⟩
    rintro ⟨-, he | ⟨hs, -⟩⟩
    · exact hx he
    · exact hfails (h.handles hs)

end

theorem forM_round_settles (hm : Identifies m) {id : Nat} {proposal : V1Proposal}
    (hsource : m.source.proposal height id = .ok proposal) (ids : List Nat) {u : Db}
    (h : Alike s u) : Settles m height s ids id proposal u := by
  obtain ⟨hpid, hid⟩ := hm _ _ _ hsource
  induction ids generalizing u with
  | nil => exact .inr ⟨by simp, rfl⟩
  | cons x ids ih =>
    have hrest := ih (h.step m height x)
    by_cases hx : x = id
    · subst hx
      exact settles_own hsource hpid hrest
    · exact settles_other hm hx hid h hrest

/-- An attribute that one of the three scans reads names the proposal. -/
def Named (txEvents endBlockEvents : List Event) (id : Nat) : Prop :=
  ∃ value ∈ valuesInEvents endBlockEvents "active_proposal" "proposal_id" ++
      valuesInEvents txEvents "submit_proposal" "voting_period_start" ++
      valuesInEvents txEvents "proposal_deposit" "voting_period_start",
    Text.parseUint value = .ok id

/-- A named proposal for which neither the query nor, if it has passed, its
processing fails. -/
structure Other (m : Module) (height : Int) (s : Db) (txEvents endBlockEvents : List Event)
    (id : Nat) (proposal : V1Proposal) : Prop where
  named : Named txEvents endBlockEvents id
  source : m.source.proposal height id = .ok proposal
  processed : ∃ t, Eff.Returns (m.handlePassedProposal proposal height) s () t

theorem exec_handleBlock (m : Module) (height : Int) (endBlockEvents : List Event) (txs : List Tx)
    (s : Db) :
    (Eff.exec (m.handleBlock height endBlockEvents txs) s).2 =
      match updatedProposalIDs (collectTxEvents txs) endBlockEvents with
      | .ok ids => (Eff.exec (ids.forM (round m height)) s).2
      | .error _ => s := by
  rw [Module.handleBlock, Eff.exec_attempt_state, Module.updateProposalsStatus, Eff.exec_bind,
    Eff.exec_ofExcept]
  cases updatedProposalIDs (collectTxEvents txs) endBlockEvents with
  | ok ids => rfl
  | error message => rfl

/-- A block brings every proposal it names and whose handling does not fail up
to date, exactly if each one that is not yet so comes, among the ids the events
name, after ids that `UpdateProposalStatus` handles. -/
theorem others_updated_iff (hm : Identifies m) (hs : PlansStored s) (height : Int)
    (endBlockEvents : List Event) (txs : List Tx) :
    (∀ id proposal, Other m height s (collectTxEvents txs) endBlockEvents id proposal →
      UpToDate proposal id (Eff.exec (m.handleBlock height endBlockEvents txs) s).2) ↔
    ∀ id proposal, Other m height s (collectTxEvents txs) endBlockEvents id proposal →
      ¬UpToDate proposal id s → id < 2 ^ 31 ∧
        ∃ ids, updatedProposalIDs (collectTxEvents txs) endBlockEvents = .ok ids ∧
          NamedInTime m height s ids id := by
  refine forall_congr' fun id => forall_congr' fun proposal => imp_congr_right fun hother => ?_
  rw [exec_handleBlock]
  cases updatedProposalIDs (collectTxEvents txs) endBlockEvents with
  | error message =>
    constructor
    · intro hupdated hnot
      exact absurd hupdated hnot
    · intro hcond
      by_contra hnot
      obtain ⟨-, ids, hids, -⟩ := hcond hnot
      cases hids
  | ok ids =>
    rcases forM_round_settles hm hother.source ids (.refl hs) with
      ⟨hreached, hupdated⟩ | ⟨hmissed, hsame⟩
    · exact ⟨fun _ _ => ⟨hreached.1, ids, rfl, hreached.2⟩, fun _ => hupdated⟩
    · constructor
      · intro hupdated hnot
        exact absurd (upToDate_congr hsame.symm hupdated) hnot
      · intro hcond
        by_contra hnot
        obtain ⟨hbound, found, hfound, hnamed⟩ := hcond fun hold => hnot (upToDate_congr hsame hold)
        cases hfound
        exact hmissed ⟨hbound, hnamed⟩

def rejectedAt (height : Int) : V1Proposal := { votedAt height 2 with status := .rejected }

def flakySource : Module :=
  { plain with
    source :=
      { plain.source with
        proposal := fun height id =>
          if id = 2 then .ok (rejectedAt height)
          else .error "rpc error: code = Unavailable" } }

def ended (ids : List String) : List Event :=
  [⟨"active_proposal", ids.map fun id => ⟨"proposal_id", id⟩⟩]

theorem flakySource_identifies : Identifies flakySource := by
  intro height id proposal h
  change (if id = 2 then _ else _) = _ at h
  split at h
  · rename_i hid
    cases h
    exact ⟨hid.symm, by omega⟩
  · cases h

theorem storedProposals_plans : PlansStored storedProposals :=
  fun _ hrow => absurd hrow List.not_mem_nil

theorem rejected_other {ids : List String} (h : "2" ∈ ids) :
    Other flakySource 5 storedProposals [] (ended ids) 2 (rejectedAt 5) := by
  refine ⟨⟨"2", ?_, by decide⟩, rfl, _, rfl⟩
  simp [valuesInEvents, ended, h]

theorem others_updated_iff_first :
    UpToDate (rejectedAt 5) 2
      (Eff.exec (flakySource.handleBlock 5 (ended ["2", "1"]) []) storedProposals).2 := by
  refine (others_updated_iff flakySource_identifies storedProposals_plans 5 (ended ["2", "1"])
    []).mpr ?_ 2 _ (rejected_other List.mem_cons_self)
  intro id proposal hother _
  have hsource := hother.source
  change (if id = 2 then _ else _) = _ at hsource
  split at hsource
  · rename_i hid
    subst hid
    exact ⟨by decide, [2, 1], by decide, [], [1], rfl, by simp⟩
  · cases hsource

/-- It comes second and keeps its status. -/
theorem second_proposal_not_updated :
    ¬ ∀ id proposal, Other flakySource 5 storedProposals [] (ended ["1", "2"]) id proposal →
      UpToDate proposal id (Eff.exec (flakySource.handleBlock 5 (ended ["1", "2"]) [])
        storedProposals).2 := by
  intro h
  have hphase := h 2 _ (rejected_other (List.mem_cons_of_mem _ List.mem_cons_self)) _ rfl
  revert hphase
  decide

end SafrochainIndexer.Callisto.Gov
