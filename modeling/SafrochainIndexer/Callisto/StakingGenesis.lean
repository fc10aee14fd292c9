import SafrochainIndexer.Callisto.Params
import SafrochainIndexer.Callisto.ValidatorBlocks
import SafrochainIndexer.Lib.Readings

/-!
# The genesis of the staking module

The genesis handler stores the validators that the genesis transactions create, one
after the other, and then those of an exported state, in batches.

`genesis_stored_iff` says when it succeeds and what it stores. One asymmetry: a
Keybase that cannot be asked ends the handler at the first genesis transaction, and
costs an exported validator its avatar only.
-/

namespace SafrochainIndexer.Callisto.Staking

structure MsgCreateValidator where
  description : Description
  commission : CommissionRates
  minSelfDelegation : Int
  delegatorAddress : String
  validatorAddress : String
  pubkey : Any
  deriving DecidableEq, Repr

inductive GenesisMsg
  | createValidator (msg : MsgCreateValidator)
  | other
  deriving DecidableEq, Repr

structure GenesisState where
  params : String
  validators : List StakingValidator
  deriving DecidableEq, Repr

/-- What the codec reads of the staking and the genutil module, and in each genesis
transaction. -/
structure AppState where
  staking : Except String GenesisState
  genTxs : Except String (List (Except String (List GenesisMsg)))

def saveStakingParams : (String → Except String String) → String → Int → Eff Db Unit :=
  saveParamsOf "error while marshaling staking params: " "error while storing staking params: "
    stakingParamsTable

section
variable (m : Module) (height : Int)

def Module.storeValidatorsFromMsgCreateValidator (msg : MsgCreateValidator) : Eff Db Unit := do
  let pubKey ← Eff.wrap "error while unpacking pub key: " (Eff.ofExcept (m.unpackPubKey msg.pubkey))
  let avatarURL ← Eff.wrap "error while getting Avatar URL: "
    (Eff.ofExcept (m.getAvatarURL msg.description.identity))
  saveValidatorsData decString [
    { consAddr := pubKey.address
      consPubKey := pubKey.string
      operator := msg.validatorAddress
      selfDelegateAddress := msg.delegatorAddress
      maxChangeRate := msg.commission.maxChangeRate
      maxRate := msg.commission.maxRate
      height := height }]
  saveValidatorDescription m.sdk ⟨msg.validatorAddress, msg.description, avatarURL, height⟩
  saveValidatorCommission m.sdk
    ⟨msg.validatorAddress, some msg.commission.rate, some msg.minSelfDelegation, height⟩

def Module.parseGenesisMsg : GenesisMsg → Eff Db Unit
  | .createValidator msg =>
    Eff.wrap "error while storing validators from MsgCreateValidator: "
      (m.storeValidatorsFromMsgCreateValidator height msg)
  | .other => pure ()

def Module.parseGenesisTransaction (genTx : Except String (List GenesisMsg)) : Eff Db Unit := do
  let msgs ← Eff.wrap "error while unmashasling genesis tx: " (Eff.ofExcept genTx)
  msgs.forM (m.parseGenesisMsg height)

def Module.parseGenesisTransactions (appState : AppState) : Eff Db Unit := do
  let genTxs ← Eff.wrap "error while unmarhsaling genutil state: " (Eff.ofExcept appState.genTxs)
  genTxs.forM (m.parseGenesisTransaction height)

def Module.saveValidators (validators : List StakingValidator) : Eff Db Unit := do
  let vals ← validators.mapM (m.convertValidator height)
  saveValidatorsData decString vals

def Module.saveGenesisDescription (account : StakingValidator) : Eff Db Unit :=
  saveValidatorDescription m.sdk
    (m.convertValidatorDescription height account.operatorAddress account.description)

def Module.saveGenesisCommission (account : StakingValidator) : Eff Db Unit :=
  saveValidatorCommission m.sdk
    ⟨account.operatorAddress, some account.commission.rate, some account.minSelfDelegation, height⟩

/-- `height` is the initial height of the document. -/
def Module.handleGenesis (marshal : String → Except String String) (appState : AppState) :
    Eff Db Unit := do
  let genState ← Eff.wrap "error while unmarshalling staking state: "
    (Eff.ofExcept appState.staking)
  Eff.wrap "error while storing genesis staking params: "
    (saveStakingParams marshal genState.params height)
  Eff.wrap "error while storing genesis transactions: " (m.parseGenesisTransactions height appState)
  Eff.wrap "error while storing staking genesis validators: "
    (m.saveValidators height genState.validators)
  Eff.wrap "error while storing staking genesis validator descriptions: "
    (genState.validators.forM (m.saveGenesisDescription height))
  Eff.wrap "error while storing staking genesis validators commissions: "
    (genState.validators.forM (m.saveGenesisCommission height))

end

-- ---------------------------------------------------------------------------
-- What is read
-- ---------------------------------------------------------------------------

structure Candidate where
  consAddr : String
  consPubKey : String
  operator : String
  selfDelegateAddress : String
  commission : CommissionRates
  minSelfDelegation : Int
  description : Description
  avatarURL : String
  deriving DecidableEq, Repr

namespace Candidate

def validator (height : Int) (c : Candidate) : Validator Int where
  consAddr := c.consAddr
  consPubKey := c.consPubKey
  operator := c.operator
  selfDelegateAddress := c.selfDelegateAddress
  maxChangeRate := c.commission.maxChangeRate
  maxRate := c.commission.maxRate
  height := height

def describedAt (height : Int) (c : Candidate) : ValidatorDescription :=
  ⟨c.operator, c.description, c.avatarURL, height⟩

def chargedAt (height : Int) (c : Candidate) : ValidatorCommission :=
  ⟨c.operator, some c.commission.rate, some c.minSelfDelegation, height⟩

def infoRow (height : Int) (c : Candidate) : ValidatorInfoRow :=
  (c.validator height).infoRow decString

def descriptionRow (height : Int) (s : Db) (c : Candidate) : ValidatorDescriptionRow :=
  (c.describedAt height).written c.consAddr (s.validatorDescription.find c.consAddr)

def commissionRow (height : Int) (c : Candidate) : ValidatorCommissionRow :=
  ⟨c.consAddr, decString c.commission.rate, c.minSelfDelegation, height⟩

def store (sdk : Sdk) (height : Int) (c : Candidate) : Eff Db Unit := do
  saveValidatorsData decString [c.validator height]
  saveValidatorDescription sdk (c.describedAt height)
  saveValidatorCommission sdk (c.chargedAt height)

/-- What the SDK and the column of the minimum take. -/
structure Storable (limits : DescriptionLimits) (c : Candidate) : Prop where
  fits : c.description.Fits limits
  bigint : IsBigint c.minSelfDelegation

end Candidate

section
variable (m : Module) (height : Int)

/-- A message whose key can be unpacked, and whose avatar can be had. -/
def Module.candidateOfMsg (msg : MsgCreateValidator) : Option Candidate := do
  let pubKey ← (m.unpackPubKey msg.pubkey).toOption
  let avatarURL ← (m.getAvatarURL msg.description.identity).toOption
  pure ⟨pubKey.address, pubKey.string, msg.validatorAddress, msg.delegatorAddress, msg.commission,
    msg.minSelfDelegation, msg.description, avatarURL⟩

def Module.candidateOfValidator (v : StakingValidator) : Option Candidate := do
  let pubKey ← (m.getValidatorConsPubKey v).toOption
  let selfDelegateAddress ← (m.selfDelegateAddress v.operatorAddress).toOption
  pure ⟨pubKey.address, pubKey.string, v.operatorAddress, selfDelegateAddress, v.commission,
    v.minSelfDelegation, v.description,
    (m.convertValidatorDescription height v.operatorAddress v.description).avatarURL⟩

def Module.readMsg : GenesisMsg → Option (List Candidate)
  | .createValidator msg => (m.candidateOfMsg msg).map fun c => [c]
  | .other => some []

def Module.readTransaction (genTx : Except String (List GenesisMsg)) : Option (List Candidate) :=
  genTx.toOption.bind fun msgs => (msgs.mapM m.readMsg).map List.flatten

def Module.readTransactions (genTxs : List (Except String (List GenesisMsg))) :
    Option (List Candidate) :=
  (genTxs.mapM m.readTransaction).map List.flatten

/-- What can be read of a genesis: the text of the parameters, and the validators that
are created and exported. -/
structure Module.Reads (marshal : String → Except String String) (appState : AppState)
    (paramsBz : String) (created exported : List Candidate) : Prop where
  staking : ∃ genState, appState.staking = .ok genState ∧ marshal genState.params = .ok paramsBz ∧
    genState.validators.mapM (m.candidateOfValidator height) = some exported
  genTxs : ∃ genTxs, appState.genTxs = .ok genTxs ∧ m.readTransactions genTxs = some created

end

section
variable {m : Module} {height : Int} {s t : Db}

theorem candidateOfMsg_some {msg : MsgCreateValidator} {c : Candidate} :
    m.candidateOfMsg msg = some c ↔ ∃ pubKey avatarURL, m.unpackPubKey msg.pubkey = .ok pubKey ∧
      m.getAvatarURL msg.description.identity = .ok avatarURL ∧
      c = ⟨pubKey.address, pubKey.string, msg.validatorAddress, msg.delegatorAddress,
        msg.commission, msg.minSelfDelegation, msg.description, avatarURL⟩ := by
  unfold Module.candidateOfMsg
  cases m.unpackPubKey msg.pubkey with
  | error _ => simp [Except.toOption]
  | ok pubKey =>
    cases m.getAvatarURL msg.description.identity with
    | error _ => simp [Except.toOption]
    | ok avatarURL => simp [Except.toOption, eq_comm]

theorem storeValidatorsFromMsg_reads (msg : MsgCreateValidator) :
    Eff.ReadsThen (m.storeValidatorsFromMsgCreateValidator height msg)
      ((m.candidateOfMsg msg).map fun c => [c]) (Candidate.store m.sdk height) := by
  intro s t
  constructor
  · intro h
    obtain ⟨pubKey, _, hunpack, hrest⟩ := Eff.returns_bind.mp h
    obtain ⟨hkey, rfl⟩ := Eff.returns_ofExcept.mp (Eff.returns_wrap.mp hunpack)
    obtain ⟨avatarURL, _, hget, hstore⟩ := Eff.returns_bind.mp hrest
    obtain ⟨havatar, rfl⟩ := Eff.returns_ofExcept.mp (Eff.returns_wrap.mp hget)
    obtain ⟨c, hc, hread⟩ : ∃ c : Candidate, m.candidateOfMsg msg = some c ∧
        Eff.Returns (c.store m.sdk height) s () t :=
      ⟨_, candidateOfMsg_some.mpr ⟨pubKey, avatarURL, hkey, havatar, rfl⟩, hstore⟩
    refine ⟨[c], by rw [hc]; rfl, ?_⟩
    exact Eff.returns_forM_cons.mpr ⟨t, hread, Eff.returns_forM_nil.mpr rfl⟩
  · rintro ⟨_, hread, hacts⟩
    obtain ⟨c, hc, rfl⟩ := Option.map_eq_some_iff.mp hread
    obtain ⟨pubKey, avatarURL, hkey, havatar, rfl⟩ := candidateOfMsg_some.mp hc
    obtain ⟨_, hstore, hnil⟩ := Eff.returns_forM_cons.mp hacts
    obtain rfl := Eff.returns_forM_nil.mp hnil
    refine Eff.returns_bind.mpr ⟨pubKey, s, ?_, Eff.returns_bind.mpr ⟨avatarURL, s, ?_, hstore⟩⟩
    · exact Eff.returns_wrap.mpr (Eff.returns_ofExcept.mpr ⟨hkey, rfl⟩)
    · exact Eff.returns_wrap.mpr (Eff.returns_ofExcept.mpr ⟨havatar, rfl⟩)

theorem parseGenesisMsg_reads (msg : GenesisMsg) :
    Eff.ReadsThen (m.parseGenesisMsg height msg) (m.readMsg msg) (Candidate.store m.sdk height) := by
  cases msg with
  | createValidator msg => exact fun s t => Eff.returns_wrap.trans (storeValidatorsFromMsg_reads msg s t)
  | other =>
    intro s t
    simp [Module.parseGenesisMsg, Module.readMsg]

theorem parseGenesisTransaction_reads (genTx : Except String (List GenesisMsg)) :
    Eff.ReadsThen (m.parseGenesisTransaction height genTx) (m.readTransaction genTx)
      (Candidate.store m.sdk height) := by
  intro s t
  unfold Module.parseGenesisTransaction Module.readTransaction
  cases genTx with
  | error message => simp [Except.toOption, Eff.returns_bind]
  | ok msgs =>
    refine Iff.trans ?_ (Eff.returns_forM_reads parseGenesisMsg_reads msgs s t)
    constructor
    · intro h
      obtain ⟨_, _, hmsgs, hrest⟩ := Eff.returns_bind.mp h
      obtain ⟨hmsgs, rfl⟩ := Eff.returns_ofExcept.mp (Eff.returns_wrap.mp hmsgs)
      cases hmsgs
      exact hrest
    · intro h
      exact Eff.returns_bind.mpr
        ⟨msgs, s, Eff.returns_wrap.mpr (Eff.returns_ofExcept.mpr ⟨rfl, rfl⟩), h⟩

theorem convertValidator_reads (v : StakingValidator) (s : Db) (validator : Validator Int) (t : Db) :
    Eff.Returns (m.convertValidator height v) s validator t ↔
      (m.candidateOfValidator height v).map (Candidate.validator height) = some validator ∧ s = t := by
  unfold Module.convertValidator Module.candidateOfValidator Module.getValidatorConsAddr
  cases hkey : m.getValidatorConsPubKey v with
  | error message => simp [Except.toOption, Eff.returns_bind]
  | ok pubKey =>
    cases haccount : m.selfDelegateAddress v.operatorAddress with
    | error fault => simp [-bind_pure_comp, Except.toOption, Eff.returns_bind]
    | ok selfDelegateAddress =>
      simp [-bind_pure_comp, Except.toOption, Eff.returns_bind, Candidate.validator, and_comm]

theorem candidateOfValidator_fields {v : StakingValidator} {c : Candidate}
    (h : m.candidateOfValidator height v = some c) :
    m.saveGenesisDescription height v = saveValidatorDescription m.sdk (c.describedAt height) ∧
      m.saveGenesisCommission height v = saveValidatorCommission m.sdk (c.chargedAt height) := by
  unfold Module.candidateOfValidator at h
  obtain ⟨pubKey, -, h⟩ := Option.bind_eq_some_iff.mp h
  obtain ⟨selfDelegateAddress, -, h⟩ := Option.bind_eq_some_iff.mp h
  obtain rfl := Option.some.inj h
  exact ⟨rfl, rfl⟩

end

-- ---------------------------------------------------------------------------
-- One step
-- ---------------------------------------------------------------------------

/-- The state once the infos of `infos`, the descriptions of `descriptions` and the
commissions of `commissions` are stored. -/
def putCandidates (height : Int) (s : Db) (infos descriptions commissions : List Candidate) : Db :=
  { (s.addAccounts (infos.map fun c => ⟨c.selfDelegateAddress⟩)).addValidators
      (infos.map fun c => (c.validator height).validatorRow) with
    validatorInfo := (infos.map (Candidate.infoRow height)).foldl
      (Table.upsert validatorInfoConflict) s.validatorInfo
    validatorDescription := (descriptions.map (Candidate.descriptionRow height s)).foldl
      (Table.upsert descriptionConflict) s.validatorDescription
    validatorCommission := (commissions.map (Candidate.commissionRow height)).foldl
      (Table.upsert commissionConflict) s.validatorCommission }

/-- No operator of the stored and the new validators has two keys, and no key two
operators. -/
structure Admits (sdk : Sdk) (limits : DescriptionLimits) (height : Int) (s : Db)
    (all : List Candidate) : Prop where
  operators : ∀ x ∈ s.validatorInfo.rows ++ all.map (Candidate.infoRow height),
    ∀ y ∈ s.validatorInfo.rows ++ all.map (Candidate.infoRow height),
      x.operatorAddress = y.operatorAddress ↔ x.consensusAddress = y.consensusAddress
  keys : ∀ x ∈ s.validator.rows ++ all.map fun c => (c.validator height).validatorRow,
    ∀ y ∈ all.map fun c => (c.validator height).validatorRow,
      x.consensusPubkey = y.consensusPubkey → x.consensusAddress = y.consensusAddress
  distinct : (all.map Candidate.consAddr).Nodup
  bech32 : ∀ c ∈ all, sdk.consAddressFromBech32 c.consAddr = .ok c.consAddr
  trimmed : ∀ c ∈ all, toNullString c.consAddr = some c.consAddr
  sound : ∀ row ∈ s.validatorDescription.rows, row.Sound limits

section
variable {sdk : Sdk} {limits : DescriptionLimits} {height : Int} {s t : Db}
  {all infos descriptions commissions new : List Candidate} {c : Candidate}

theorem mem_putInfos {row : ValidatorInfoRow} (hinfos : infos ⊆ all)
    (h : row ∈ (putCandidates height s infos descriptions commissions).validatorInfo.rows) :
    row ∈ s.validatorInfo.rows ++ all.map (Candidate.infoRow height) := by
  rcases validatorInfoConflict_guards.mem_of_upserts h with hold | hnew
  · exact List.mem_append_left _ hold
  · exact List.mem_append_right _ (List.map_subset _ hinfos hnew)

theorem Admits.registered (h : Admits sdk limits height s all) (hinfos : infos ⊆ all)
    (hc : c ∈ infos) :
    Registered sdk c.operator c.consAddr (putCandidates height s infos descriptions commissions) := by
  let t := putCandidates height s infos descriptions commissions
  have hrow : c.infoRow height ∈ s.validatorInfo.rows ++ all.map (Candidate.infoRow height) :=
    List.mem_append_right _ (List.mem_map_of_mem (hinfos hc))
  have hstored : (t.validatorInfo.find c.consAddr).isSome = true :=
    Table.find_foldl_upsert_isSome (List.mem_map_of_mem hc)
  obtain ⟨stored, hfind⟩ := Option.isSome_iff_exists.mp hstored
  have hmem := Table.mem_of_find hfind
  have hoperator : stored.operatorAddress = c.operator :=
    (h.operators _ (mem_putInfos hinfos hmem) _ hrow).mpr (Table.find_key hfind)
  have hsome : (t.validatorInfo.rows.find? fun row => row.operatorAddress = c.operator).isSome =
      true := List.find?_isSome.mpr ⟨stored, hmem, decide_eq_true hoperator⟩
  obtain ⟨row, hfound⟩ := Option.isSome_iff_exists.mp hsome
  have hsame : row.operatorAddress = c.operator := by simpa using List.find?_some hfound
  have haddress : row.consensusAddress = c.consAddr :=
    (h.operators _ (mem_putInfos hinfos (List.mem_of_find?_eq_some hfound)) _ hrow).mp hsame
  refine ⟨⟨row, hfound, ?_⟩, ?_, h.trimmed c (hinfos hc)⟩
  · rw [haddress]
    exact h.bech32 c (hinfos hc)
  · refine addValidators_known (s := s.addAccounts (infos.map fun c => ⟨c.selfDelegateAddress⟩)) ?_
      _ (List.mem_map_of_mem hc)
    intro x hx y hy
    refine h.keys x ?_ y (List.map_subset _ hinfos hy)
    rcases List.mem_append.mp hx with hx | hx
    · exact List.mem_append_left _ hx
    · exact List.mem_append_right _ (List.map_subset _ hinfos hx)

theorem putCandidates_append :
    putCandidates height s (infos ++ new) descriptions commissions =
      { ((putCandidates height s infos descriptions commissions).addAccounts
            (new.map fun c => ⟨c.selfDelegateAddress⟩)).addValidators
          (new.map fun c => (c.validator height).validatorRow) with
        validatorInfo := (new.map (Candidate.infoRow height)).foldl
          (Table.upsert validatorInfoConflict)
          (putCandidates height s infos descriptions commissions).validatorInfo } := by
  simp [putCandidates, Db.addAccounts, Db.addValidators, List.foldl_append]

theorem Admits.saveInfos (h : Admits sdk limits height s all) (hinfos : infos ++ new ⊆ all)
    (hdistinct : (new.map Candidate.consAddr).Nodup) (hfits : new.length * 6 ≤ maxParameters) :
    Eff.Returns (saveValidatorsData decString (new.map (Candidate.validator height)))
      (putCandidates height s infos descriptions commissions) ()
      (putCandidates height s (infos ++ new) descriptions commissions) := by
  let t := putCandidates height s infos descriptions commissions
  obtain ⟨hold, hnew⟩ := List.append_subset.mp hinfos
  have hknown : ∀ v ∈ new.map (Candidate.validator height),
      (t.addValidators ((new.map (Candidate.validator height)).map
        Validator.validatorRow)).hasValidator v.consAddr = true := by
    intro v hv
    obtain ⟨c, hc, rfl⟩ := List.mem_map.mp hv
    have hreg : Registered sdk c.operator c.consAddr
        (putCandidates height s (infos ++ new) descriptions commissions) :=
      h.registered hinfos (List.mem_append_right _ hc)
    rw [putCandidates_append] at hreg
    rw [List.map_map]
    exact hreg.validator
  have hagree : Table.Agree ValidatorInfoRow.consensusAddress ValidatorInfoRow.operatorAddress
      (t.validatorInfo.rows ++ (new.map (Candidate.validator height)).map
        (Validator.infoRow decString)) := by
    have hmem : ∀ z ∈ t.validatorInfo.rows ++ (new.map (Candidate.validator height)).map
        (Validator.infoRow decString),
        z ∈ s.validatorInfo.rows ++ all.map (Candidate.infoRow height) := by
      intro z hz
      rcases List.mem_append.mp hz with hz | hz
      · exact mem_putInfos hold hz
      · rw [List.map_map] at hz
        exact List.mem_append_right _ (List.map_subset _ hnew hz)
    exact fun x hx y hy => (h.operators x (hmem x hx) y (hmem y hy)).mp
  have hsaved := saveValidatorsData_returns (by rwa [List.length_map]) hknown hagree
    (by rw [List.map_map]; exact hdistinct)
  rw [List.map_map, List.map_map, List.map_map] at hsaved
  rw [putCandidates_append]
  exact hsaved

theorem Admits.saveDescription_iff (h : Admits sdk limits height s all)
    (hsdk : sdk.Describes limits) (hinfos : infos ⊆ all) (hc : c ∈ infos)
    (hfresh : c.consAddr ∉ descriptions.map Candidate.consAddr) :
    Eff.Returns (saveValidatorDescription sdk (c.describedAt height))
        (putCandidates height s infos descriptions commissions) () t ↔
      c.description.Fits limits ∧
        t = putCandidates height s infos (descriptions ++ [c]) commissions := by
  let u := putCandidates height s infos descriptions commissions
  have hreg : Registered sdk c.operator c.consAddr u := h.registered hinfos hc
  have hkept : u.validatorDescription.find c.consAddr = s.validatorDescription.find c.consAddr := by
    refine Table.find_foldl_upsert_of_not_mem _ _ ?_
    rw [List.map_map]
    exact hfresh
  have hsound : ∀ row ∈ u.validatorDescription.find c.consAddr, row.Sound limits := by
    intro row hrow
    rw [hkept] at hrow
    exact h.sound row (Table.mem_of_find hrow)
  have hput : validatorDescriptionTable.write (u.validatorDescription.upsert descriptionConflict
      ((c.describedAt height).written c.consAddr (u.validatorDescription.find c.consAddr))) u =
        putCandidates height s infos (descriptions ++ [c]) commissions := by
    rw [hkept]
    simp [u, putCandidates, validatorDescriptionTable, List.foldl_append, Candidate.descriptionRow]
  have hoperator : (c.describedAt height).operatorAddress = c.operator := rfl
  constructor
  · intro hreturns
    have hfits : c.description.Fits limits := by
      by_contra hlong
      obtain ⟨message, hlong⟩ := hsdk.ensureLength_long _ hlong
      obtain ⟨_, _, -, hrest⟩ := Eff.returns_bind.mp hreturns
      obtain ⟨_, _, hlength, -⟩ := Eff.returns_bind.mp hrest
      have hok := (Eff.returns_ofExcept.mp hlength).1
      exact absurd (hlong.symm.trans hok) (by simp)
    have hwrites := saveValidatorDescription_writes hsdk hreg hoperator hfits hsound
    exact ⟨hfits, (hreturns.unique hwrites).2.trans hput⟩
  · rintro ⟨hfits, rfl⟩
    rw [← hput]
    exact saveValidatorDescription_writes hsdk hreg hoperator hfits hsound

theorem saveValidatorCommission_full {operator consAddr : String} {rate n : Int}
    (hreg : Registered sdk operator consAddr s) :
    Eff.Returns (saveValidatorCommission sdk ⟨operator, some rate, some n, height⟩) s () t ↔
      IsBigint n ∧ t = validatorCommissionTable.write
        (s.validatorCommission.upsert commissionConflict ⟨consAddr, decString rate, n, height⟩) s := by
  have hget : Eff.Returns (getValidatorCommission consAddr) s
      (s.validatorCommission.find consAddr) s := rfl
  have hexec : Eff.exec (saveValidatorCommission sdk ⟨operator, some rate, some n, height⟩) s =
      Eff.exec (Eff.wrap "error while storing validator commission: " do
        let row ← Eff.ofExcept (commissionRow consAddr (some (decString rate)) (some n) height)
        validatorCommissionTable.insert commissionConflict [row]) s := by
    rw [saveValidatorCommission, if_neg (by simp),
      (getValidatorConsensusAddress_registered hreg).exec_bind, hget.exec_bind]
    rfl
  have hinsert := insert_commission_returns hreg
    (show (⟨consAddr, decString rate, n, height⟩ : ValidatorCommissionRow).validatorAddress =
      consAddr from rfl)
  unfold Eff.Returns
  rw [hexec]
  change Eff.Returns (Eff.wrap _ _) s () t ↔ _
  rw [Eff.returns_wrap, Eff.returns_bind]
  constructor
  · rintro ⟨row, u, hrow, hreturns⟩
    obtain ⟨hvalue, rfl⟩ := Eff.returns_ofExcept.mp hrow
    obtain ⟨_, _, ⟨⟩, ⟨⟩, hn, rfl⟩ := commissionRow_ok.mp hvalue
    exact ⟨hn, (hreturns.unique hinsert).2⟩
  · rintro ⟨hn, rfl⟩
    exact ⟨_, s, Eff.returns_ofExcept.mpr
      ⟨commissionRow_ok.mpr ⟨_, _, rfl, rfl, hn, rfl⟩, rfl⟩, hinsert⟩

theorem Admits.saveCommission_iff (h : Admits sdk limits height s all) (hinfos : infos ⊆ all)
    (hc : c ∈ infos) :
    Eff.Returns (saveValidatorCommission sdk (c.chargedAt height))
        (putCandidates height s infos descriptions commissions) () t ↔
      IsBigint c.minSelfDelegation ∧
        t = putCandidates height s infos descriptions (commissions ++ [c]) := by
  have hput : validatorCommissionTable.write
      ((putCandidates height s infos descriptions commissions).validatorCommission.upsert
        commissionConflict (c.commissionRow height))
      (putCandidates height s infos descriptions commissions) =
        putCandidates height s infos descriptions (commissions ++ [c]) := by
    simp [putCandidates, validatorCommissionTable, List.foldl_append]
  rw [← hput]
  exact saveValidatorCommission_full (h.registered hinfos hc)

-- ---------------------------------------------------------------------------
-- The loops
-- ---------------------------------------------------------------------------

variable {done : List Candidate}

theorem Admits.store_iff (h : Admits sdk limits height s all) (hsdk : sdk.Describes limits)
    (hc : done ++ [c] ⊆ all) (hfresh : c.consAddr ∉ done.map Candidate.consAddr) :
    Eff.Returns (c.store sdk height) (putCandidates height s done done done) () t ↔
      c.Storable limits ∧
        t = putCandidates height s (done ++ [c]) (done ++ [c]) (done ++ [c]) := by
  have hinfos : Eff.Returns (saveValidatorsData decString [c.validator height])
      (putCandidates height s done done done) () (putCandidates height s (done ++ [c]) done done) :=
    h.saveInfos hc (List.nodup_singleton _) (by simp [maxParameters])
  have hmem : c ∈ done ++ [c] := List.mem_append_right _ (List.mem_singleton.mpr rfl)
  constructor
  · intro hreturns
    obtain ⟨_, _, hfirst, hrest⟩ := Eff.returns_bind.mp hreturns
    obtain ⟨-, rfl⟩ := hinfos.unique hfirst
    obtain ⟨_, _, hdescription, hcommission⟩ := Eff.returns_bind.mp hrest
    obtain ⟨hfits, rfl⟩ := (h.saveDescription_iff hsdk hc hmem hfresh).mp hdescription
    obtain ⟨hbigint, rfl⟩ := (h.saveCommission_iff hc hmem).mp hcommission
    exact ⟨⟨hfits, hbigint⟩, rfl⟩
  · rintro ⟨hstorable, rfl⟩
    exact Eff.returns_bind.mpr ⟨(), _, hinfos, Eff.returns_bind.mpr ⟨(), _,
      (h.saveDescription_iff hsdk hc hmem hfresh).mpr ⟨hstorable.fits, rfl⟩,
      (h.saveCommission_iff hc hmem).mpr ⟨hstorable.bigint, rfl⟩⟩⟩

theorem Admits.storeAll_iff (h : Admits sdk limits height s all) (hsdk : sdk.Describes limits)
    (hnew : done ++ new ⊆ all) (hdistinct : ((done ++ new).map Candidate.consAddr).Nodup) :
    Eff.Returns (new.forM (Candidate.store sdk height)) (putCandidates height s done done done) () t ↔
      (∀ c ∈ new, c.Storable limits) ∧
        t = putCandidates height s (done ++ new) (done ++ new) (done ++ new) := by
  induction new generalizing done with
  | nil => simp [eq_comm]
  | cons c new ih =>
    have hsplit : done ++ c :: new = (done ++ [c]) ++ new := by simp
    rw [hsplit] at hnew hdistinct ⊢
    have hfirst : done ++ [c] ⊆ all := (List.append_subset.mp hnew).1
    have hfresh : c.consAddr ∉ done.map Candidate.consAddr := by
      rw [List.map_append, List.map_append] at hdistinct
      have hpair := (List.nodup_append.mp (List.nodup_append.mp hdistinct).1).2.2
      exact fun hmem => hpair _ hmem _ (List.mem_singleton.mpr rfl) rfl
    rw [Eff.returns_forM_cons, List.forall_mem_cons]
    constructor
    · rintro ⟨u, hstore, hrest⟩
      obtain ⟨hc, rfl⟩ := (h.store_iff hsdk hfirst hfresh).mp hstore
      obtain ⟨hall, ht⟩ := (ih hnew hdistinct).mp hrest
      exact ⟨⟨hc, hall⟩, ht⟩
    · rintro ⟨⟨hc, hall⟩, ht⟩
      exact ⟨_, (h.store_iff hsdk hfirst hfresh).mpr ⟨hc, rfl⟩, (ih hnew hdistinct).mpr ⟨hall, ht⟩⟩

theorem Admits.describeAll_iff (h : Admits sdk limits height s all) (hsdk : sdk.Describes limits)
    (hinfos : infos ⊆ all) (hnew : new ⊆ infos)
    (hdistinct : ((descriptions ++ new).map Candidate.consAddr).Nodup) :
    Eff.Returns (new.forM fun c => saveValidatorDescription sdk (c.describedAt height))
        (putCandidates height s infos descriptions commissions) () t ↔
      (∀ c ∈ new, c.description.Fits limits) ∧
        t = putCandidates height s infos (descriptions ++ new) commissions := by
  induction new generalizing descriptions with
  | nil => simp [eq_comm]
  | cons c new ih =>
    obtain ⟨hc, hnew⟩ := List.cons_subset.mp hnew
    have hsplit : descriptions ++ c :: new = (descriptions ++ [c]) ++ new := by simp
    rw [hsplit] at hdistinct ⊢
    have hfresh : c.consAddr ∉ descriptions.map Candidate.consAddr := by
      rw [List.map_append, List.map_append] at hdistinct
      have hpair := (List.nodup_append.mp (List.nodup_append.mp hdistinct).1).2.2
      exact fun hmem => hpair _ hmem _ (List.mem_singleton.mpr rfl) rfl
    rw [Eff.returns_forM_cons, List.forall_mem_cons]
    constructor
    · rintro ⟨u, hsave, hrest⟩
      obtain ⟨hfits, rfl⟩ := (h.saveDescription_iff hsdk hinfos hc hfresh).mp hsave
      obtain ⟨hall, ht⟩ := (ih hnew hdistinct).mp hrest
      exact ⟨⟨hfits, hall⟩, ht⟩
    · rintro ⟨⟨hfits, hall⟩, ht⟩
      exact ⟨_, (h.saveDescription_iff hsdk hinfos hc hfresh).mpr ⟨hfits, rfl⟩,
        (ih hnew hdistinct).mpr ⟨hall, ht⟩⟩

theorem Admits.chargeAll_iff (h : Admits sdk limits height s all) (hinfos : infos ⊆ all)
    (hnew : new ⊆ infos) :
    Eff.Returns (new.forM fun c => saveValidatorCommission sdk (c.chargedAt height))
        (putCandidates height s infos descriptions commissions) () t ↔
      (∀ c ∈ new, IsBigint c.minSelfDelegation) ∧
        t = putCandidates height s infos descriptions (commissions ++ new) := by
  induction new generalizing commissions with
  | nil => simp [eq_comm]
  | cons c new ih =>
    obtain ⟨hc, hnew⟩ := List.cons_subset.mp hnew
    have hsplit : commissions ++ c :: new = (commissions ++ [c]) ++ new := by simp
    rw [hsplit, Eff.returns_forM_cons, List.forall_mem_cons]
    constructor
    · rintro ⟨u, hsave, hrest⟩
      obtain ⟨hbigint, rfl⟩ := (h.saveCommission_iff hinfos hc).mp hsave
      obtain ⟨hall, ht⟩ := (ih hnew).mp hrest
      exact ⟨⟨hbigint, hall⟩, ht⟩
    · rintro ⟨⟨hbigint, hall⟩, ht⟩
      exact ⟨_, (h.saveCommission_iff hinfos hc).mpr ⟨hbigint, rfl⟩, (ih hnew).mpr ⟨hall, ht⟩⟩

end

-- ---------------------------------------------------------------------------
-- The handler
-- ---------------------------------------------------------------------------

def putParams (height : Int) (s : Db) (paramsBz : String) : Db :=
  stakingParamsTable.write (s.stakingParams.upsert paramsConflict ⟨paramsBz, height⟩) s

def genesisStored (height : Int) (s : Db) (paramsBz : String) (all : List Candidate) : Db :=
  putCandidates height (putParams height s paramsBz) all all all

section
variable {m : Module} {limits : DescriptionLimits} {height : Int} {s t : Db}
  {marshal : String → Except String String} {appState : AppState}

def saveExported (sdk : Sdk) (height : Int) (exported : List Candidate) : Eff Db Unit := do
  saveValidatorsData decString (exported.map (Candidate.validator height))
  exported.forM fun c => saveValidatorDescription sdk (c.describedAt height)
  exported.forM fun c => saveValidatorCommission sdk (c.chargedAt height)

theorem saveExported_returns {validators : List StakingValidator}
    {exported : List Candidate}
    (hread : validators.mapM (m.candidateOfValidator height) = some exported) :
    (∃ u v, Eff.Returns (m.saveValidators height validators) s () u ∧
      Eff.Returns (validators.forM (m.saveGenesisDescription height)) u () v ∧
      Eff.Returns (validators.forM (m.saveGenesisCommission height)) v () t) ↔
        Eff.Returns (saveExported m.sdk height exported) s () t := by
  have hdescribe : validators.forM (m.saveGenesisDescription height) =
      exported.forM fun c => saveValidatorDescription m.sdk (c.describedAt height) :=
    Eff.forM_eq_of_reads (fun _ _ h => (candidateOfValidator_fields h).1) hread
  have hcharge : validators.forM (m.saveGenesisCommission height) =
      exported.forM fun c => saveValidatorCommission m.sdk (c.chargedAt height) :=
    Eff.forM_eq_of_reads (fun _ _ h => (candidateOfValidator_fields h).2) hread
  have hconvert : Eff.Returns (validators.mapM (m.convertValidator height)) s
      (exported.map (Candidate.validator height)) s :=
    (Eff.returns_mapM_reads convertValidator_reads).mpr ⟨by rw [hread]; rfl, rfl⟩
  rw [hdescribe, hcharge]
  constructor
  · rintro ⟨u, v, hsave, hdescriptions, hcommissions⟩
    obtain ⟨_, _, hvals, hdata⟩ := Eff.returns_bind.mp hsave
    obtain ⟨rfl, rfl⟩ := hconvert.unique hvals
    exact Eff.returns_bind.mpr ⟨(), u, hdata, Eff.returns_bind.mpr ⟨(), v, hdescriptions, hcommissions⟩⟩
  · intro h
    obtain ⟨_, u, hdata, hrest⟩ := Eff.returns_bind.mp h
    obtain ⟨_, v, hdescriptions, hcommissions⟩ := Eff.returns_bind.mp hrest
    exact ⟨u, v, Eff.returns_bind.mpr ⟨_, s, hconvert, hdata⟩, hdescriptions, hcommissions⟩

theorem parseGenesisTransactions_reads {genTxs : List (Except String (List GenesisMsg))}
    (hread : appState.genTxs = .ok genTxs) :
    Eff.ReadsThen (m.parseGenesisTransactions height appState) (m.readTransactions genTxs)
      (Candidate.store m.sdk height) := by
  intro s t
  unfold Module.parseGenesisTransactions
  rw [hread]
  refine Iff.trans ?_ (Eff.returns_forM_reads parseGenesisTransaction_reads genTxs s t)
  constructor
  · intro h
    obtain ⟨_, _, hgenTxs, hrest⟩ := Eff.returns_bind.mp h
    obtain ⟨hgenTxs, rfl⟩ := Eff.returns_ofExcept.mp (Eff.returns_wrap.mp hgenTxs)
    cases hgenTxs
    exact hrest
  · intro h
    exact Eff.returns_bind.mpr
      ⟨genTxs, s, Eff.returns_wrap.mpr (Eff.returns_ofExcept.mpr ⟨rfl, rfl⟩), h⟩

theorem saveStakingParams_returns {params : String} :
    Eff.Returns (saveStakingParams marshal params height) s () t ↔
      ∃ paramsBz, marshal params = .ok paramsBz ∧ putParams height s paramsBz = t :=
  saveParamsOf_returns fun _ _ => rfl

theorem handleGenesis_reads :
    Eff.Returns (m.handleGenesis height marshal appState) s () t ↔
      ∃ paramsBz created exported, m.Reads height marshal appState paramsBz created exported ∧
        ∃ u, Eff.Returns (created.forM (Candidate.store m.sdk height)) (putParams height s paramsBz)
          () u ∧ Eff.Returns (saveExported m.sdk height exported) u () t := by
  constructor
  · intro h
    obtain ⟨genState, _, hread, h⟩ := Eff.returns_bind.mp h
    obtain ⟨hstate, rfl⟩ := Eff.returns_ofExcept.mp (Eff.returns_wrap.mp hread)
    obtain ⟨_, _, hparams, h⟩ := Eff.returns_bind.mp h
    obtain ⟨paramsBz, hmarshal, rfl⟩ := saveStakingParams_returns.mp (Eff.returns_wrap.mp hparams)
    obtain ⟨_, u, hparse, h⟩ := Eff.returns_bind.mp h
    obtain ⟨_, v, hvalidators, h⟩ := Eff.returns_bind.mp h
    obtain ⟨_, w, hdescriptions, hcommissions⟩ := Eff.returns_bind.mp h
    obtain ⟨genTxs, _, hgenTxs, -⟩ := Eff.returns_bind.mp (Eff.returns_wrap.mp hparse)
    have hgenTxs := (Eff.returns_ofExcept.mp (Eff.returns_wrap.mp hgenTxs)).1
    obtain ⟨created, hcreated, hstore⟩ :=
      (parseGenesisTransactions_reads hgenTxs _ _).mp (Eff.returns_wrap.mp hparse)
    obtain ⟨vals, _, hvals, -⟩ := Eff.returns_bind.mp (Eff.returns_wrap.mp hvalidators)
    obtain ⟨hvals, -⟩ := (Eff.returns_mapM_reads convertValidator_reads).mp hvals
    obtain ⟨exported, hexported, -⟩ := Option.map_eq_some_iff.mp hvals
    refine ⟨paramsBz, created, exported, ⟨⟨genState, hstate, hmarshal, hexported⟩, genTxs, hgenTxs,
      hcreated⟩, u, hstore, (saveExported_returns hexported).mp ⟨v, w, ?_, ?_, ?_⟩⟩
    · exact Eff.returns_wrap.mp hvalidators
    · exact Eff.returns_wrap.mp hdescriptions
    · exact Eff.returns_wrap.mp hcommissions
  · rintro ⟨paramsBz, created, exported, hreads, u, hstore, hexport⟩
    obtain ⟨genState, hstate, hmarshal, hexported⟩ := hreads.staking
    obtain ⟨genTxs, hgenTxs, hcreated⟩ := hreads.genTxs
    obtain ⟨v, w, hvalidators, hdescriptions, hcommissions⟩ :=
      (saveExported_returns hexported).mpr hexport
    have hparse := (parseGenesisTransactions_reads hgenTxs _ _).mpr ⟨created, hcreated, hstore⟩
    refine Eff.returns_bind.mpr ⟨genState, s, ?_, Eff.returns_bind.mpr
      ⟨(), putParams height s paramsBz, ?_, ?_⟩⟩
    · exact Eff.returns_wrap.mpr (Eff.returns_ofExcept.mpr ⟨hstate, rfl⟩)
    · exact Eff.returns_wrap.mpr (saveStakingParams_returns.mpr ⟨paramsBz, hmarshal, rfl⟩)
    · refine Eff.returns_bind.mpr ⟨(), u, Eff.returns_wrap.mpr hparse, ?_⟩
      refine Eff.returns_bind.mpr ⟨(), v, Eff.returns_wrap.mpr hvalidators, ?_⟩
      exact Eff.returns_bind.mpr
        ⟨(), w, Eff.returns_wrap.mpr hdescriptions, Eff.returns_wrap.mpr hcommissions⟩

theorem Admits.putParams {sdk : Sdk} {all : List Candidate} (h : Admits sdk limits height s all)
    (paramsBz : String) : Admits sdk limits height (putParams height s paramsBz) all :=
  ⟨h.operators, h.keys, h.distinct, h.bech32, h.trimmed, h.sound⟩

theorem Admits.distinct_parts {sdk : Sdk} {created exported : List Candidate}
    (h : Admits sdk limits height s (created ++ exported)) :
    (created.map Candidate.consAddr).Nodup ∧ (exported.map Candidate.consAddr).Nodup := by
  have hboth := h.distinct
  rw [List.map_append] at hboth
  exact ⟨(List.nodup_append.mp hboth).1, (List.nodup_append.mp hboth).2.1⟩

theorem Admits.storeCreated_iff {sdk : Sdk} {created exported : List Candidate}
    (h : Admits sdk limits height s (created ++ exported)) (hsdk : sdk.Describes limits) :
    Eff.Returns (created.forM (Candidate.store sdk height)) s () t ↔
      (∀ c ∈ created, c.Storable limits) ∧ t = putCandidates height s created created created :=
  have hdistinct : (([] ++ created).map Candidate.consAddr).Nodup := h.distinct_parts.1
  h.storeAll_iff hsdk (List.subset_append_left created exported) hdistinct

theorem Admits.saveExported_iff {sdk : Sdk} {all done exported : List Candidate}
    (h : Admits sdk limits height s all) (hsdk : sdk.Describes limits) (hall : all = done ++ exported) :
    Eff.Returns (saveExported sdk height exported) (putCandidates height s done done done) () t ↔
      exported.length * 6 ≤ maxParameters ∧
        (∀ c ∈ exported, c.Storable limits) ∧ t = putCandidates height s all all all := by
  subst hall
  have hinfos (hfits : exported.length * 6 ≤ maxParameters) :
      Eff.Returns (saveValidatorsData decString (exported.map (Candidate.validator height)))
      (putCandidates height s done done done) ()
      (putCandidates height s (done ++ exported) done done) :=
    h.saveInfos (List.Subset.refl _) h.distinct_parts.2 hfits
  have hnew : exported ⊆ done ++ exported := List.subset_append_right _ _
  constructor
  · intro hreturns
    obtain ⟨_, _, hdata, hrest⟩ := Eff.returns_bind.mp hreturns
    have hfits : exported.length * 6 ≤ maxParameters := by
      simpa only [List.length_map] using saveValidatorsData_fits hdata
    obtain ⟨-, rfl⟩ := (hinfos hfits).unique hdata
    obtain ⟨_, _, hdescriptions, hcommissions⟩ := Eff.returns_bind.mp hrest
    obtain ⟨htexts, rfl⟩ :=
      (h.describeAll_iff hsdk (List.Subset.refl _) hnew h.distinct).mp hdescriptions
    obtain ⟨hbigint, rfl⟩ := (h.chargeAll_iff (List.Subset.refl _) hnew).mp hcommissions
    exact ⟨hfits, fun c hc => ⟨htexts c hc, hbigint c hc⟩, rfl⟩
  · rintro ⟨hfits, hstorable, rfl⟩
    refine Eff.returns_bind.mpr ⟨(), _, hinfos hfits, Eff.returns_bind.mpr ⟨(), putCandidates height s
      (done ++ exported) (done ++ exported) done, ?_, ?_⟩⟩
    · exact (h.describeAll_iff hsdk (List.Subset.refl _) hnew h.distinct).mpr
        ⟨fun c hc => (hstorable c hc).fits, rfl⟩
    · exact (h.chargeAll_iff (List.Subset.refl _) hnew).mpr
        ⟨fun c hc => (hstorable c hc).bigint, rfl⟩

end

/-- For a genesis whose operators and keys fit each other and what is stored: the
handler succeeds if and only if all of it can be read, the avatars of the validators of
genesis transactions included, every validator is within the limits, and the exported
ones have room in one statement. The database then differs by the rows of these
validators, and by the parameters. -/
theorem genesis_stored_iff {m : Module} {limits : DescriptionLimits} (hsdk : m.sdk.Describes limits)
    (height : Int) (marshal : String → Except String String) (appState : AppState) (s t : Db)
    (hadmits : ∀ paramsBz created exported,
      m.Reads height marshal appState paramsBz created exported →
        Admits m.sdk limits height s (created ++ exported)) :
    Eff.Returns (m.handleGenesis height marshal appState) s () t ↔
      ∃ paramsBz created exported, m.Reads height marshal appState paramsBz created exported ∧
        exported.length * 6 ≤ maxParameters ∧ (∀ c ∈ created ++ exported, c.Storable limits) ∧
        t = genesisStored height s paramsBz (created ++ exported) := by
  rw [handleGenesis_reads]
  constructor
  · rintro ⟨paramsBz, created, exported, hreads, u, hstore, hexport⟩
    have hput := (hadmits _ _ _ hreads).putParams paramsBz
    obtain ⟨hcreated, rfl⟩ := (hput.storeCreated_iff hsdk).mp hstore
    obtain ⟨hfits, hexported, ht⟩ := (hput.saveExported_iff hsdk rfl).mp hexport
    refine ⟨paramsBz, created, exported, hreads, hfits, fun c hc => ?_, ht⟩
    exact (List.mem_append.mp hc).elim (hcreated c) (hexported c)
  · rintro ⟨paramsBz, created, exported, hreads, hfits, hstorable, rfl⟩
    have hput := (hadmits _ _ _ hreads).putParams paramsBz
    refine ⟨paramsBz, created, exported, hreads, _,
      (hput.storeCreated_iff hsdk).mpr ⟨fun c hc => ?_, rfl⟩, ?_⟩
    · exact hstorable c (List.mem_append_left _ hc)
    · exact (hput.saveExported_iff hsdk rfl).mpr
        ⟨hfits, fun c hc => hstorable c (List.mem_append_right _ hc), rfl⟩

def offline : Module := { plain fun _ => [] with sdk := plainSdk }

def creating (identity : String) : AppState where
  staking := .ok ⟨"params", [{ plainValidator "b" false 3 5 with
    description := ⟨"b", "0123456789ABCDEF", "", "", ""⟩ }]⟩
  genTxs := .ok [.ok [.other, .createValidator
    ⟨⟨"a", identity, "", "", ""⟩, ⟨0, 0, 0⟩, 1, "addr_a", "a", ⟨"", "a"⟩⟩]]

def createdOffline : Candidate := ⟨"a", "a", "a", "addr_a", ⟨0, 0, 0⟩, 1, ⟨"a", "", "", "", ""⟩, ""⟩

def exportedOffline : Candidate :=
  ⟨"b", "b", "b", "b", ⟨0, 0, 0⟩, 1, ⟨"b", "0123456789ABCDEF", "", "", ""⟩, ""⟩

theorem offline_reads : offline.Reads 1 .ok (creating "") "params" [createdOffline]
    [exportedOffline] :=
  ⟨⟨_, rfl, rfl, by decide +kernel⟩, _, rfl, by decide +kernel⟩

theorem offline_admits {paramsBz : String} {created exported : List Candidate}
    (h : offline.Reads 1 .ok (creating "") paramsBz created exported) :
    Admits offline.sdk sdkLimits 1 default (created ++ exported) := by
  obtain ⟨⟨genState, hstate, -, hexported⟩, genTxs, hgenTxs, hcreated⟩ := h
  obtain ⟨⟨genState', hstate', -, hexported'⟩, genTxs', hgenTxs', hcreated'⟩ := offline_reads
  obtain rfl := Except.ok.inj (hstate.symm.trans hstate')
  obtain rfl := Except.ok.inj (hgenTxs.symm.trans hgenTxs')
  obtain rfl := Option.some.inj (hcreated.symm.trans hcreated')
  obtain rfl := Option.some.inj (hexported.symm.trans hexported')
  exact
    { operators := by decide +kernel
      keys := by decide +kernel
      distinct := by decide +kernel
      bech32 := fun _ _ => rfl
      trimmed := by decide +kernel
      sound := fun _ hrow => absurd hrow List.not_mem_nil }

/-- The exported validator goes without its avatar, the created one must have its own. -/
theorem genesis_stored_iff_offline :
    Eff.Returns (offline.handleGenesis 1 .ok (creating "")) default ()
        (genesisStored 1 default "params" [createdOffline, exportedOffline]) ∧
      ∀ t, ¬Eff.Returns (offline.handleGenesis 1 .ok (creating "0123456789ABCDEF")) default () t := by
  have hunread : ∀ paramsBz created exported,
      ¬offline.Reads 1 .ok (creating "0123456789ABCDEF") paramsBz created exported := by
    rintro paramsBz created exported ⟨-, genTxs, hgenTxs, hcreated⟩
    obtain rfl := Except.ok.inj hgenTxs
    have hnone : offline.readTransactions [.ok [.other, .createValidator
        ⟨⟨"a", "0123456789ABCDEF", "", "", ""⟩, ⟨0, 0, 0⟩, 1, "addr_a", "a", ⟨"", "a"⟩⟩]] = none := by
      decide +kernel
    rw [hnone] at hcreated
    cases hcreated
  constructor
  · refine (genesis_stored_iff plainSdk_describes 1 .ok (creating "") default _
      fun _ _ _ h => offline_admits h).mpr ⟨_, _, _, offline_reads, by decide, ?_, rfl⟩
    intro c hc
    rcases List.mem_cons.mp hc with rfl | hc
    · exact ⟨by decide +kernel, by decide +kernel⟩
    · obtain rfl := List.mem_singleton.mp hc
      exact ⟨by decide +kernel, by decide +kernel⟩
  · intro t h
    obtain ⟨_, _, _, hreads, -⟩ := (genesis_stored_iff plainSdk_describes 1 .ok
      (creating "0123456789ABCDEF") default t fun _ _ _ h => absurd h (hunread _ _ _)).mp h
    exact hunread _ _ _ hreads

end SafrochainIndexer.Callisto.Staking
