import SafrochainIndexer.Callisto.BondedStatuses
import SafrochainIndexer.Callisto.StakingGenesis
import SafrochainIndexer.Callisto.StakingPool
import SafrochainIndexer.Lib.Ratchet

/-!
# Runs of the staking module

All that the module does to a database: the genesis, the messages, the blocks and what
the scheduler starts. Each of these may fail at any point, after it has stored a part.

`never_back` is about runs of them, in any order of heights and with anything else
stored in between: no validator loses what is known of it, and no row goes back to an
earlier height. All rows are of heights handled, but for the zero row that a refresh of
the statuses leaves if it does not know a validator.
-/

namespace SafrochainIndexer.Callisto.Staking

/-- `none` if the pages of unbonding delegations do not end within `rounds` requests. -/
def updateStakingPool (source : PoolSource) (rounds : Nat) : Eff Db (Option Unit) := do
  let block ← Eff.wrap "error while getting latest block height: " getLastBlockHeightAndTimestamp
  match ← Eff.wrap "error while getting staking pool: " (getStakingPool source rounds block.height) with
  | none => pure none
  | some pool => do
    Eff.wrap "error while saving staking pool: " (saveStakingPool pool)
    pure (some ())

inductive Call
  | genesis (initialHeight : Int) (marshal : String → Except String String) (appState : AppState)
  | message (index : Nat) (msg : Msg) (tx : Tx)
  | block (height : Int) (evidence : List Evidence)
  | updateValidatorStatuses
  | updateStakingPool (source : PoolSource) (rounds : Nat)
  | updateParams (source : ParamsSource) (height : Int)

def Module.handle (m : Module) : Call → Eff Db Unit
  | .genesis initialHeight marshal appState => m.handleGenesis initialHeight marshal appState
  | .message index msg tx => m.handleMsg index msg tx
  | .block height evidence => m.handleBlock height evidence
  | .updateValidatorStatuses => m.updateValidatorStatuses
  | .updateStakingPool source rounds => do
    let _ ← updateStakingPool source rounds
    pure ()
  | .updateParams source height => updateParams source height

def Call.heights (s : Db) : Call → List Int
  | .genesis initialHeight _ _ => [initialHeight]
  | .message _ msg tx =>
    match msg with
    | .createValidator _ | .editValidator _ => [tx.height]
    | .delegate | .beginRedelegate | .undelegate => [lastHeight s]
    | .other => []
  | .block height _ => [height]
  | .updateValidatorStatuses => [lastHeight s]
  | .updateStakingPool _ _ => [lastHeight s]
  | .updateParams _ height => [height]

def stakingTables (s : Db) :=
  (s.validatorInfo, s.validatorDescription, s.validatorCommission, s.validatorVotingPower,
    s.validatorStatus, s.stakingParams, s.stakingPool)

/-- `t` comes after `s` in a run in which all calls handle heights in `P`, each with a
module of its own: what failed may succeed when it is handled again. -/
inductive Runs (P : Int → Prop) (s : Db) : Db → Prop
  | start : Runs P s s
  | handled {t : Db} (m : Module) (call : Call) : Runs P s t → (∀ height ∈ call.heights t, P height) →
      Runs P s (Eff.exec (m.handle call) t).2
  | elsewhere {t u : Db} : Runs P s t → stakingTables u = stakingTables t → Runs P s u

/-- The voting power of a validator that a refresh does not know. -/
def zeroPower : ValidatorVotingPowerRow := ⟨"", 0, 0⟩

/-- No table of the staking module goes back, and what is written has a height in `P`. It
may also be a row of an unknown validator, if `zero`. -/
structure Onward (P : Int → Prop) (zero : Prop) (s t : Db) : Prop where
  info : s.validatorInfo.Ratchets ValidatorInfoRow.height (P ·.height) t.validatorInfo
  description : s.validatorDescription.Ratchets ValidatorDescriptionRow.height (P ·.height)
    t.validatorDescription
  commission : s.validatorCommission.Ratchets ValidatorCommissionRow.height (P ·.height)
    t.validatorCommission
  votingPower : s.validatorVotingPower.Ratchets ValidatorVotingPowerRow.height
    (fun row => P row.height ∨ zero ∧ row = zeroPower) t.validatorVotingPower
  status : s.validatorStatus.Ratchets ValidatorStatusRow.height
    (fun row => P row.height ∨ zero ∧ row = zeroStatus) t.validatorStatus
  params : s.stakingParams.Ratchets ParamsRow.height (P ·.height) t.stakingParams
  pool : s.stakingPool.Ratchets StakingPoolRow.height (P ·.height) t.stakingPool

section
variable {P : Int → Prop} {zero : Prop} {s t u : Db}

theorem Onward.refl : Onward P zero s s := ⟨.refl, .refl, .refl, .refl, .refl, .refl, .refl⟩

theorem Onward.trans (h : Onward P zero s t) (h' : Onward P zero t u) : Onward P zero s u where
  info := h.info.trans h'.info
  description := h.description.trans h'.description
  commission := h.commission.trans h'.commission
  votingPower := h.votingPower.trans h'.votingPower
  status := h.status.trans h'.status
  params := h.params.trans h'.params
  pool := h.pool.trans h'.pool

theorem Onward.of_tables (h : stakingTables t = stakingTables s) : Onward P zero s t := by
  simp only [stakingTables, Prod.mk.injEq] at h
  obtain ⟨hinfo, hdescription, hcommission, hpower, hstatus, hparams, hpool⟩ := h
  constructor
  · exact hinfo ▸ .refl
  · exact hdescription ▸ .refl
  · exact hcommission ▸ .refl
  · exact hpower ▸ .refl
  · exact hstatus ▸ .refl
  · exact hparams ▸ .refl
  · exact hpool ▸ .refl

theorem onward_of_fixes {α : Type} {call : Eff Db α} (h : Eff.Fixes stakingTables call) :
    Eff.Along (Onward P zero) call := h.along fun _ _ => Onward.of_tables

theorem onward_bind {α γ : Type} {call : Eff Db α} {k : α → Eff Db γ}
    (hcall : Eff.Along (Onward P zero) call)
    (hk : ∀ s a t, Eff.Returns call s a t → Eff.Along (Onward P zero) (k a)) :
    Eff.Along (Onward P zero) (call >>= k) := .bind Onward.trans hcall hk

theorem onward_forM {α : Type} {g : α → Eff Db PUnit} {l : List α}
    (h : ∀ x ∈ l, Eff.Along (Onward P zero) (g x)) : Eff.Along (Onward P zero) (l.forM g) :=
  .forM (fun _ => .refl) Onward.trans h

-- ---------------------------------------------------------------------------
-- Commands
-- ---------------------------------------------------------------------------

theorem insertInfos_onward {rows : List ValidatorInfoRow} (hrows : ∀ row ∈ rows, P row.height) :
    Eff.Along (Onward P zero) (validatorInfoTable.insert validatorInfoConflict rows) :=
  validatorInfoConflict_guards.insert_along hrows (fun _ => .refl)
    fun _ _ h => ⟨h, .refl, .refl, .refl, .refl, .refl, .refl⟩

theorem insertDescription_onward {row : ValidatorDescriptionRow} (hrow : P row.height) :
    Eff.Along (Onward P zero) (validatorDescriptionTable.insert descriptionConflict [row]) :=
  descriptionConflict_guards.insert_along (List.forall_mem_singleton.mpr hrow) (fun _ => .refl)
    fun _ _ h => ⟨.refl, h, .refl, .refl, .refl, .refl, .refl⟩

theorem insertCommission_onward {row : ValidatorCommissionRow} (hrow : P row.height) :
    Eff.Along (Onward P zero) (validatorCommissionTable.insert commissionConflict [row]) :=
  commissionConflict_guards.insert_along (List.forall_mem_singleton.mpr hrow) (fun _ => .refl)
    fun _ _ h => ⟨.refl, .refl, h, .refl, .refl, .refl, .refl⟩

theorem insertParams_onward {row : ParamsRow} (hrow : P row.height) :
    Eff.Along (Onward P zero) (stakingParamsTable.insert paramsConflict [row]) :=
  paramsConflict_guards.insert_along (List.forall_mem_singleton.mpr hrow) (fun _ => .refl)
    fun _ _ h => ⟨.refl, .refl, .refl, .refl, .refl, h, .refl⟩

theorem saveStakingPool_onward {pool : Pool} (hpool : P pool.height) :
    Eff.Along (Onward P zero) (saveStakingPool pool) :=
  .wrap (stakingPoolConflict_guards.insert_along (List.forall_mem_singleton.mpr hpool) (fun _ => .refl)
    fun _ _ h => ⟨.refl, .refl, .refl, .refl, .refl, .refl, h⟩)

theorem saveValidatorsVotingPowers_onward {entries : List ValidatorVotingPower}
    (hentries : ∀ entry ∈ entries, P entry.height ∨ zero ∧ entry = ⟨"", 0, 0⟩) :
    Eff.Along (Onward P zero) (saveValidatorsVotingPowers entries) := by
  unfold saveValidatorsVotingPowers
  split
  · exact fun s => .refl
  · refine .wrap (sending_along (fun _ => .refl) ?_)
    refine votingPowerConflict_guards.insert_along ?_ (fun _ => .refl)
      fun _ _ h => ⟨.refl, .refl, .refl, h, .refl, .refl, .refl⟩
    intro row hrow
    obtain ⟨entry, hentry, rfl⟩ := List.mem_map.mp hrow
    obtain hheight | ⟨hzero, rfl⟩ := hentries entry hentry
    · exact .inl hheight
    · exact .inr ⟨hzero, rfl⟩

theorem saveValidatorsStatuses_onward {statuses : List ValidatorStatus}
    (hstatuses : ∀ status ∈ statuses, P status.height ∨ zero ∧ status = ⟨"", "", 0, false, 0⟩) :
    Eff.Along (Onward P zero) (saveValidatorsStatuses statuses) := by
  unfold saveValidatorsStatuses
  split
  · exact fun s => .refl
  · refine onward_bind (onward_of_fixes ?_) fun _ _ _ _ => .wrap ?_
    · exact .wrap (sending_fixes (Relation.insertNew_fixes fun _ _ => rfl))
    · refine sending_along (fun _ => .refl) ?_
      refine statusConflict_guards.insert_along ?_ (fun _ => .refl)
        fun _ _ h => ⟨.refl, .refl, .refl, .refl, h, .refl, .refl⟩
      intro row hrow
      obtain ⟨status, hstatus, rfl⟩ := List.mem_map.mp hrow
      obtain hheight | ⟨hzero, rfl⟩ := hstatuses status hstatus
      · exact .inl hheight
      · exact .inr ⟨hzero, rfl⟩

theorem saveValidatorsData_onward {Dec : Type} {string : Dec → String}
    {validators : List (Validator Dec)} (hvalidators : ∀ v ∈ validators, P v.height) :
    Eff.Along (Onward P zero) (saveValidatorsData string validators) := by
  unfold saveValidatorsData
  split
  · exact fun s => .refl
  · refine onward_bind (onward_of_fixes ?_) fun _ _ _ _ => ?_
    · exact .wrap (sending_fixes (Relation.insertNew_fixes fun _ _ => rfl))
    · refine onward_bind (onward_of_fixes ?_) fun _ _ _ _ => .wrap (sending_along (fun _ => .refl) ?_)
      · exact .wrap (sending_fixes (Relation.insertNew_fixes fun _ _ => rfl))
      · refine onward_bind (onward_of_fixes .get) fun s _ _ _ => ?_
        split
        · refine insertInfos_onward fun row hrow => ?_
          obtain ⟨v, hv, rfl⟩ := List.mem_map.mp hrow
          exact hvalidators v hv
        · exact onward_of_fixes .fail

-- ---------------------------------------------------------------------------
-- Descriptions and commissions
-- ---------------------------------------------------------------------------

variable {m : Module} {sdk : Sdk} {height : Int}

theorem getValidatorConsensusAddress_fixes (operator : String) :
    Eff.Fixes stakingTables (getValidatorConsensusAddress sdk operator) := by
  refine .bind .get fun s => ?_
  split
  · exact .fail
  · exact .ofExcept

theorem descriptionRow_height {consAddr avatarURL : String} {des : Description}
    {row : ValidatorDescriptionRow}
    (h : descriptionRow consAddr des avatarURL height = .ok row) : row.height = height := by
  unfold descriptionRow at h
  split at h
  · cases h
  · cases h
    rfl

theorem saveValidatorDescription_onward {description : ValidatorDescription}
    (hheight : P description.height) :
    Eff.Along (Onward P zero) (saveValidatorDescription sdk description) := by
  refine onward_bind (onward_of_fixes (getValidatorConsensusAddress_fixes _)) fun _ consAddr _ _ => ?_
  refine onward_bind (onward_of_fixes .ofExcept) fun _ des _ _ => ?_
  refine onward_bind (onward_of_fixes (.bind .get fun _ => .pure)) fun _ existing _ _ => ?_
  refine onward_bind (onward_of_fixes .ofExcept) fun _ updated _ _ => .wrap ?_
  refine onward_bind (onward_of_fixes .ofExcept) fun _ row _ hrow => insertDescription_onward ?_
  rw [descriptionRow_height (Eff.returns_ofExcept.mp hrow).1]
  exact hheight

theorem saveValidatorCommission_onward {data : ValidatorCommission} (hheight : P data.height) :
    Eff.Along (Onward P zero) (saveValidatorCommission sdk data) := by
  unfold saveValidatorCommission
  split
  · exact fun s => .refl
  · refine onward_bind (onward_of_fixes (getValidatorConsensusAddress_fixes _))
      fun _ consAddr _ _ => ?_
    refine onward_bind (onward_of_fixes (.bind .get fun _ => .pure)) fun _ existing _ _ => .wrap ?_
    refine onward_bind (onward_of_fixes .ofExcept) fun _ row _ hrow => insertCommission_onward ?_
    obtain ⟨_, _, -, -, -, rfl⟩ := commissionRow_ok.mp (Eff.returns_ofExcept.mp hrow).1
    exact hheight

-- ---------------------------------------------------------------------------
-- Handlers
-- ---------------------------------------------------------------------------

theorem convertValidator_fixes (v : StakingValidator) :
    Eff.Fixes stakingTables (m.convertValidator height v) := by
  refine .bind (.wrap .ofExcept) fun _ => .bind (.wrap .ofExcept) fun _ => ?_
  exact .bind .ofFallible fun _ => .pure

theorem convertValidator_height {v : StakingValidator} {validator : Validator Int}
    (h : Eff.Returns (m.convertValidator height v) s validator t) : validator.height = height := by
  obtain ⟨consAddr, _, -, h⟩ := Eff.returns_bind.mp h
  obtain ⟨consPubKey, _, -, h⟩ := Eff.returns_bind.mp h
  obtain ⟨account, _, -, h⟩ := Eff.returns_bind.mp h
  obtain ⟨rfl, -⟩ := Eff.returns_pure.mp h
  rfl

theorem saveOne_onward {validator : Validator Int} {description : ValidatorDescription}
    {commission : ValidatorCommission} (hvalidator : P validator.height)
    (hdescription : P description.height) (hcommission : P commission.height) :
    Eff.Along (Onward P zero) (do
      saveValidatorsData decString [validator]
      saveValidatorDescription sdk description
      saveValidatorCommission sdk commission) := by
  refine onward_bind (saveValidatorsData_onward (List.forall_mem_singleton.mpr hvalidator))
    fun _ _ _ _ => ?_
  exact onward_bind (saveValidatorDescription_onward hdescription) fun _ _ _ _ =>
    saveValidatorCommission_onward hcommission

theorem refreshValidatorInfos_onward (hheight : P height) (valOper : String) :
    Eff.Along (Onward P zero) (m.refreshValidatorInfos height valOper) := by
  refine onward_bind (onward_of_fixes .ofExcept) fun _ v _ _ => ?_
  refine onward_bind (onward_of_fixes (.wrap (convertValidator_fixes v))) fun _ _ _ h => ?_
  refine saveOne_onward ?_ hheight hheight
  rw [convertValidator_height (Eff.returns_wrap.mp h)]
  exact hheight

theorem statusAndVP_fixes (v : StakingValidator) :
    Eff.Fixes stakingTables (m.statusAndVP height v) := by
  refine .bind .ofExcept fun _ => .bind .get fun s => ?_
  split
  · refine .bind .ofExcept fun _ => .bind ?_ fun _ => .pure
    unfold int64
    split
    · exact .pure
    · exact .panicking
  · exact .pure

theorem statusAndVP_height {v : StakingValidator} {entry : ValidatorVotingPower × ValidatorStatus}
    (h : Eff.Returns (m.statusAndVP height v) s entry t) (hheight : P height) :
    (P entry.1.height ∨ True ∧ entry.1 = ⟨"", 0, 0⟩) ∧
      (P entry.2.height ∨ True ∧ entry.2 = ⟨"", "", 0, false, 0⟩) := by
  obtain ⟨consAddr, _, -, h⟩ := Eff.returns_bind.mp h
  obtain ⟨_, _, -, h⟩ := Eff.returns_bind.mp h
  split at h
  · obtain ⟨consPubKey, _, -, h⟩ := Eff.returns_bind.mp h
    obtain ⟨votingPower, _, -, h⟩ := Eff.returns_bind.mp h
    obtain ⟨rfl, -⟩ := Eff.returns_pure.mp h
    exact ⟨.inl hheight, .inl hheight⟩
  · obtain ⟨rfl, -⟩ := Eff.returns_pure.mp h
    exact ⟨.inr ⟨trivial, rfl⟩, .inr ⟨trivial, rfl⟩⟩

theorem updateValidatorStatusAndVP_onward (hheight : P height)
    (validators : List StakingValidator) :
    Eff.Along (Onward P True) (m.updateValidatorStatusAndVP height validators) := by
  refine onward_bind (onward_of_fixes (.mapM fun v _ => statusAndVP_fixes v))
    fun _ entries _ hentries => ?_
  have hheights : ∀ entry ∈ entries, (P entry.1.height ∨ True ∧ entry.1 = ⟨"", 0, 0⟩) ∧
      (P entry.2.height ∨ True ∧ entry.2 = ⟨"", "", 0, false, 0⟩) :=
    hentries.forall_mapM fun _ _ _ _ h => statusAndVP_height h hheight
  refine onward_bind (.attempt (saveValidatorsVotingPowers_onward fun power hpower => ?_))
    fun _ _ _ _ => .attempt (saveValidatorsStatuses_onward fun status hstatus => ?_)
  · obtain ⟨entry, hentry, rfl⟩ := List.mem_map.mp hpower
    exact (hheights entry hentry).1
  · obtain ⟨entry, hentry, rfl⟩ := List.mem_map.mp hstatus
    exact (hheights entry hentry).2

theorem snapshot_fixes (id : Nat) (validators : List StakingValidator) :
    Eff.Fixes stakingTables (m.updateProposalValidatorStatusSnapshot height id validators) := by
  refine .bind (.mapM fun v _ => ?_) fun snapshots => ?_
  · refine .bind .ofExcept fun _ => .bind ?_ fun _ => .pure
    unfold int64
    split
    · exact .pure
    · exact .panicking
  · unfold saveProposalValidatorsStatusesSnapshots
    split
    · exact .pure
    · exact .wrap (sending_fixes (Relation.insert_fixes fun _ _ => rfl))

theorem updateValidatorStatuses_onward (hheight : P (lastHeight s)) :
    Onward P True s (Eff.exec m.updateValidatorStatuses s).2 := by
  have hlast : Eff.Returns (Eff.wrap "error while getting latest block height from db: "
      getLastBlockHeightAndTimestamp) s (lastBlock s.block.rows) s := rfl
  unfold Module.updateValidatorStatuses
  rw [hlast.exec_bind]
  refine onward_bind (onward_of_fixes fun s => ?_) (fun _ answer _ _ => ?_) s
  · exact congrArg stakingTables ((getValidatorsWithStatus_fixes m _ _).wrap s)
  · obtain ⟨validators, _⟩ := answer
    refine onward_bind (.wrap (updateValidatorStatusAndVP_onward hheight validators))
      fun _ _ _ _ => ?_
    refine onward_bind (onward_of_fixes (.wrap (.bind .get fun _ => .pure))) fun _ ids _ _ => ?_
    exact onward_of_fixes (.forM fun id _ => .wrap (snapshot_fixes id validators))

theorem handleBlock_onward (hheight : P height) (evidence : List Evidence) :
    Eff.Along (Onward P zero) (m.handleBlock height evidence) := by
  refine onward_bind (.wrap ?_) fun _ _ _ _ => onward_of_fixes ?_
  · refine onward_bind (onward_of_fixes fun s => ?_) fun _ answer _ hanswer => ?_
    · exact congrArg stakingTables ((getValidatorsWithStatus_fixes m _ _).wrap s)
    · obtain ⟨vals, validators⟩ := answer
      refine onward_bind (saveValidatorsData_onward ?_) fun _ _ _ _ => onward_of_fixes .pure
      obtain ⟨_, _, -, h⟩ := Eff.returns_bind.mp (Eff.returns_wrap.mp hanswer)
      obtain ⟨_, _, hvals, h⟩ := Eff.returns_bind.mp h
      obtain ⟨hpair, -⟩ := Eff.returns_pure.mp h
      cases hpair
      refine hvals.forall_mapM fun _ _ _ _ h => ?_
      rw [convertValidator_height (Eff.returns_wrap.mp h)]
      exact hheight
  · exact updateDoubleSignEvidence_fixes ⟨fun _ _ => rfl, fun _ _ => rfl, fun _ _ => rfl⟩ _ _

theorem handleMsg_onward (index : Nat) (msg : Msg) (tx : Tx)
    (hheights : ∀ height ∈ (Call.message index msg tx).heights s, P height) :
    Onward P True s (Eff.exec (m.handleMsg index msg tx) s).2 := by
  unfold Module.handleMsg
  split
  · exact .refl
  · cases msg with
    | createValidator operator =>
      exact (refreshValidatorInfos_onward (hheights _ (by simp [Call.heights])) operator).wrap s
    | editValidator operator =>
      exact (refreshValidatorInfos_onward (hheights _ (by simp [Call.heights])) operator).wrap s
    | delegate => exact updateValidatorStatuses_onward (hheights _ List.mem_cons_self)
    | beginRedelegate => exact updateValidatorStatuses_onward (hheights _ List.mem_cons_self)
    | undelegate => exact updateValidatorStatuses_onward (hheights _ List.mem_cons_self)
    | other => exact .refl

theorem parseGenesisMsg_onward (hheight : P height) (msg : GenesisMsg) :
    Eff.Along (Onward P zero) (m.parseGenesisMsg height msg) := by
  cases msg with
  | createValidator msg =>
    refine .wrap (onward_bind (onward_of_fixes (.wrap .ofExcept)) fun _ pubKey _ _ => ?_)
    exact onward_bind (onward_of_fixes (.wrap .ofExcept)) fun _ avatarURL _ _ =>
      saveOne_onward hheight hheight hheight
  | other => exact onward_of_fixes .pure

theorem parseGenesisTransactions_onward (hheight : P height) (appState : AppState) :
    Eff.Along (Onward P zero) (m.parseGenesisTransactions height appState) := by
  refine onward_bind (onward_of_fixes (.wrap .ofExcept)) fun _ genTxs _ _ => ?_
  refine onward_forM fun genTx _ => onward_bind (onward_of_fixes (.wrap .ofExcept)) fun _ msgs _ _ => ?_
  exact onward_forM fun msg _ => parseGenesisMsg_onward hheight msg

theorem handleGenesis_onward (hheight : P height) (marshal : String → Except String String)
    (appState : AppState) : Eff.Along (Onward P zero) (m.handleGenesis height marshal appState) := by
  refine onward_bind (onward_of_fixes (.wrap .ofExcept)) fun _ genState _ _ => ?_
  refine onward_bind (.wrap ?_) fun _ _ _ _ => ?_
  · exact onward_bind (onward_of_fixes (.wrap .ofExcept)) fun _ paramsBz _ _ =>
      .wrap (insertParams_onward hheight)
  refine onward_bind (.wrap (parseGenesisTransactions_onward hheight appState)) fun _ _ _ _ => ?_
  refine onward_bind (.wrap ?_) fun _ _ _ _ => ?_
  · refine onward_bind (onward_of_fixes (.mapM fun v _ => convertValidator_fixes v))
      fun _ vals _ hvals => saveValidatorsData_onward ?_
    refine hvals.forall_mapM fun _ _ _ _ h => ?_
    rw [convertValidator_height h]
    exact hheight
  refine onward_bind (.wrap (onward_forM fun _ _ => ?_)) fun _ _ _ _ =>
    .wrap (onward_forM fun _ _ => ?_)
  · exact saveValidatorDescription_onward hheight
  · exact saveValidatorCommission_onward hheight

theorem addEntries_fixes (unbondingDelegations : List UnbondingDelegation) (unbondingTokens : Int) :
    Eff.Fixes stakingTables (addEntries unbondingTokens unbondingDelegations) :=
  .foldlM fun _ _ => .foldlM fun _ _ => .ofFallible

theorem addUnbondings_fixes {source : PoolSource} {rounds : Nat} {validators : List ValidatorData}
    {unbondingTokens : Int} :
    Eff.Fixes stakingTables (addUnbondings source rounds height validators unbondingTokens) := by
  induction validators generalizing unbondingTokens with
  | nil => exact .pure
  | cons validator rest ih =>
    unfold addUnbondings
    split
    · exact .pure
    · exact .bind (addEntries_fixes _ _) fun _ => ih

theorem updateStakingPool_onward (hheight : P (lastHeight s)) (source : PoolSource) (rounds : Nat) :
    Onward P zero s (Eff.exec (updateStakingPool source rounds) s).2 := by
  have hlast : Eff.Returns (Eff.wrap "error while getting latest block height: "
      getLastBlockHeightAndTimestamp) s (lastBlock s.block.rows) s := rfl
  unfold updateStakingPool
  rw [hlast.exec_bind]
  refine onward_bind (onward_of_fixes (.wrap ?_)) (fun _ answer _ hanswer => ?_) s
  · refine .bind (.wrap .ofExcept) fun _ => .bind (.wrap (.bind .get fun _ => .pure)) fun _ => ?_
    refine .bind addUnbondings_fixes fun total => ?_
    cases total with
    | none => exact .pure
    | some unbondingTokens => exact .bind .ofFallible fun _ => .pure
  · cases answer with
    | none => exact onward_of_fixes .pure
    | some pool =>
      refine onward_bind (.wrap (saveStakingPool_onward ?_)) fun _ _ _ _ => onward_of_fixes .pure
      obtain ⟨_, _, -, h⟩ := Eff.returns_bind.mp (Eff.returns_wrap.mp hanswer)
      obtain ⟨_, _, -, h⟩ := Eff.returns_bind.mp h
      obtain ⟨total, _, -, h⟩ := Eff.returns_bind.mp h
      cases total with
      | none => cases (Eff.returns_pure.mp h).1
      | some unbondingTokens =>
        obtain ⟨_, _, -, h⟩ := Eff.returns_bind.mp h
        cases (Eff.returns_pure.mp h).1
        exact hheight

theorem updateParams_onward (hheight : P height) (source : ParamsSource) :
    Eff.Along (Onward P zero) (updateParams source height) := by
  refine onward_bind (onward_of_fixes (.wrap .ofExcept)) fun _ params _ _ => ?_
  exact onward_bind (onward_of_fixes (.wrap .ofExcept)) fun _ paramsBz _ _ =>
    .wrap (insertParams_onward hheight)

theorem handle_onward (call : Call) (hheights : ∀ height ∈ call.heights s, P height) :
    Onward P True s (Eff.exec (m.handle call) s).2 := by
  cases call with
  | genesis initialHeight marshal appState =>
    exact handleGenesis_onward (hheights _ List.mem_cons_self) marshal appState s
  | message index msg tx => exact handleMsg_onward index msg tx hheights
  | block height evidence => exact handleBlock_onward (hheights _ List.mem_cons_self) evidence s
  | updateValidatorStatuses => exact updateValidatorStatuses_onward (hheights _ List.mem_cons_self)
  | updateStakingPool source rounds =>
    refine Eff.Along.exec_bind (R := Onward P True) (fun _ _ h h' => h'.trans h) ?_ fun _ => ?_
    · exact updateStakingPool_onward (hheights _ List.mem_cons_self) source rounds
    · exact onward_of_fixes .pure
  | updateParams source height => exact updateParams_onward (hheights _ List.mem_cons_self) source s

end

/-- Over any run of calls at heights in `P`, of which any may fail: who has a row in a
table keeps one, never of an earlier height; a row later than all that is written is not
touched; and every other row is of a height in `P`, or the zero row of an unknown
validator. -/
theorem never_back {P : Int → Prop} {s t : Db} (h : Runs P s t) : Onward P True s t := by
  induction h with
  | start => exact .refl
  | handled m call _ hheights ih => exact ih.trans (handle_onward call hheights)
  | elsewhere _ htables ih => exact ih.trans (.of_tables htables)

def unreachable : Module :=
  { offline with
    source :=
      { getValidator := fun _ _ => .error "connection refused"
        getValidatorsWithStatus := fun _ _ => .error "connection refused" } }

/-- A genesis handled again after block 3, and then block 2, which fails at first. -/
theorem never_back_genesis :
    let m : Module := { offline with source := (plain joining).source }
    let first := (Eff.exec (m.handleBlock 3 []) default).2
    let again := (Eff.exec (m.handleGenesis 1 .ok (creating "0123456789ABCDEF")) first).2
    let failed := (Eff.exec (unreachable.handleBlock 2 []) again).2
    let last := (Eff.exec (m.handleBlock 2 []) failed).2
    ∀ row ∈ first.validatorInfo.rows, row ∈ last.validatorInfo.rows := by
  intro m first again failed last row hrow
  have hruns : Runs (· ≤ 2) first last :=
    .handled m (.block 2 []) (.handled unreachable (.block 2 [])
      (.handled m (.genesis 1 .ok (creating "0123456789ABCDEF")) .start (by decide)) (by decide))
      (by decide)
  refine (never_back hruns).info.kept row hrow fun x hx => ?_
  have hthree : ∀ row ∈ first.validatorInfo.rows, row.height = 3 := by decide +kernel
  rw [hthree row hrow]
  exact Int.lt_of_le_of_lt hx (by decide)

end SafrochainIndexer.Callisto.Staking
