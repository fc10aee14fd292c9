import SafrochainIndexer.Callisto.DoubleSigns
import SafrochainIndexer.Callisto.PartialUpdates
import SafrochainIndexer.Callisto.ValidatorRefresh
import SafrochainIndexer.Lib.Snapshots
import SafrochainIndexer.Lib.UniqueIndex

/-!
# The validators of a block

At every block the staking module asks for all validators and saves them in one
batch, with the height of the block. Blocks may be handled in any order and more
than once. A batch that is too long for a statement saves no info.

`validators_registered` says what is known of the validators then, if no operator
changes its consensus key. If one does, its batch breaks the unique index on the
operators, and `validators_frozen`: no block that lists it saves anything of any
validator.
-/

namespace SafrochainIndexer.Callisto.Staking

section
variable (m : Module)

def Module.updateValidators (height : Int) : Eff Db (List StakingValidator) := do
  let (vals, validators) ← Eff.wrap "error while getting validator: "
    (m.getValidatorsWithStatus height "")
  saveValidatorsData decString validators
  pure vals

/-- The evidence has a goroutine of its own, and its error is logged. -/
def Module.handleBlock (height : Int) (evidenceList : List Evidence) : Eff Db Unit := do
  let _ ← Eff.wrap "error while updating validators: " (m.updateValidators height)
  updateDoubleSignEvidence height evidenceList

end

/-- A block that is handled, with the module as the source answers then. -/
structure Block where
  m : Module
  height : Int
  evidence : List Evidence

/-- Blocks handled one after the other; an error is logged. -/
def handleBlocks (s : Db) (blocks : List Block) : Db :=
  blocks.foldl (fun s block => (Eff.exec (block.m.handleBlock block.height block.evidence) s).2) s

-- ---------------------------------------------------------------------------
-- The chain
-- ---------------------------------------------------------------------------

/-- The validators of the chain at each height. -/
structure Roster (consAddr : StakingValidator → String) (consPubKey : StakingValidator → PubKey)
    (chain : Int → List StakingValidator) : Prop where
  address : ∀ height, ∀ v ∈ chain height, (consPubKey v).address = consAddr v
  trimmed : ∀ height, ∀ v ∈ chain height, toNullString (consAddr v) = some (consAddr v)
  distinct : ∀ height, ((chain height).map consAddr).Nodup
  key : ∀ height, ∀ v ∈ chain height, ∀ height', ∀ v' ∈ chain height',
    (consPubKey v).string = (consPubKey v').string → consAddr v = consAddr v'

/-- What the SDK makes of them, and what the source says if it answers. -/
structure RosterRead (m : Module) (consAddr : StakingValidator → String)
    (consPubKey : StakingValidator → PubKey) (account : StakingValidator → String)
    (chain : Int → List StakingValidator) : Prop where
  getConsPubKey : ∀ height, ∀ v ∈ chain height, m.getValidatorConsPubKey v = .ok (consPubKey v)
  account : ∀ height, ∀ v ∈ chain height, m.selfDelegateAddress v.operatorAddress = .ok (account v)
  bech32 : ∀ height, ∀ v ∈ chain height, m.sdk.consAddressFromBech32 (consAddr v) = .ok (consAddr v)
  answer : ∀ height validators,
    m.source.getValidatorsWithStatus height "" = .ok validators → validators = chain height

/-- No operator ever has two consensus keys, and no key two operators. -/
def KeepsKeys (consAddr : StakingValidator → String) (chain : Int → List StakingValidator) : Prop :=
  ∀ height, ∀ v ∈ chain height, ∀ height', ∀ v' ∈ chain height',
    v.operatorAddress = v'.operatorAddress ↔ consAddr v = consAddr v'

def Module.answers (m : Module) (height : Int) : Bool :=
  (m.source.getValidatorsWithStatus height "").isOk

section
variable (consAddr : StakingValidator → String) (consPubKey : StakingValidator → PubKey)
  (account : StakingValidator → String)

def validatorOf (height : Int) (v : StakingValidator) : Validator Int where
  consAddr := consAddr v
  consPubKey := (consPubKey v).string
  operator := v.operatorAddress
  selfDelegateAddress := account v
  maxChangeRate := v.commission.maxChangeRate
  maxRate := v.commission.maxRate
  height := height

def listedInfos (chain : Int → List StakingValidator) (height : Int) : List ValidatorInfoRow :=
  (chain height).map fun v => (validatorOf consAddr consPubKey account height v).infoRow decString

end

-- ---------------------------------------------------------------------------
-- One block
-- ---------------------------------------------------------------------------

def rosterTables (s : Db) := (s.account, s.validator, s.validatorInfo)

section
variable {β : Type} {f : Db → β}

structure EvidenceUnread (f : Db → β) : Prop where
  votes : ∀ votes s, f { s with doubleSignVote := votes } = f s
  seq : ∀ seq s, f { s with doubleSignVoteIdSeq := seq } = f s
  evidence : ∀ rows s, f { s with doubleSignEvidence := rows } = f s

theorem saveVotes_fixes (hf : EvidenceUnread f) (ev : DoubleSignEvidence) :
    Eff.Fixes f (saveVotes ev) := by
  have hvote (vote : DoubleSignVote) : Eff.Fixes f (saveDoubleSignVote vote) := by
    unfold saveDoubleSignVote
    split
    · exact .fail
    · refine .bind (fun s => hf.seq _ s) fun id => .bind .get fun s => ?_
      split
      · exact .fail
      · exact .bind (Relation.insert_fixes hf.votes) fun _ => .pure
  exact .bind (.wrap (hvote _)) fun _ => .bind (.wrap (hvote _)) fun _ => .pure

theorem updateDoubleSignEvidence_fixes (hf : EvidenceUnread f) (height : Int)
    (evidenceList : List Evidence) : Eff.Fixes f (updateDoubleSignEvidence height evidenceList) := by
  refine .attempt ?_
  unfold saveDoubleSignEvidences
  split
  · exact .pure
  · refine .bind (.mapM fun ev _ => saveVotes_fixes hf ev) fun rows => .wrap ?_
    unfold insertEvidences
    refine sending_fixes fun s => ?_
    rw [Eff.exec_bind, Eff.exec_get]
    dsimp only
    split
    · rfl
    · exact hf.evidence _ s

end

section
variable {m : Module} {consAddr : StakingValidator → String}
  {consPubKey : StakingValidator → PubKey}
  {account : StakingValidator → String} {chain : Int → List StakingValidator} {height : Int}
  {s t : Db}

theorem convertValidator_returns (hroster : Roster consAddr consPubKey chain)
    (hread : RosterRead m consAddr consPubKey account chain) {v : StakingValidator} (hv : v ∈ chain height) :
    Eff.Returns (m.convertValidator height v) s (validatorOf consAddr consPubKey account height v)
      s := by
  have hkey := hread.getConsPubKey height v hv
  have haddr : m.getValidatorConsAddr v = .ok (consAddr v) := by
    unfold Module.getValidatorConsAddr
    rw [hkey]
    exact congrArg Except.ok (hroster.address height v hv)
  unfold Module.convertValidator
  rw [haddr, hkey, hread.account height v hv]
  rfl

theorem getAllValidators (hroster : Roster consAddr consPubKey chain)
    (hread : RosterRead m consAddr consPubKey account chain) (height : Int) (s : Db) :
    if m.answers height then
      Eff.Returns (m.getValidatorsWithStatus height "") s
        (chain height, (chain height).map (validatorOf consAddr consPubKey account height)) s
    else Eff.Fails (m.getValidatorsWithStatus height "") s s := by
  unfold Module.answers Module.getValidatorsWithStatus
  cases hanswer : m.source.getValidatorsWithStatus height "" with
  | error message => exact ⟨_, rfl⟩
  | ok validators =>
    obtain rfl := hread.answer height validators hanswer
    refine Eff.returns_bind.mpr ⟨chain height, s, Eff.returns_ofExcept.mpr ⟨rfl, rfl⟩, ?_⟩
    have hall : Eff.Returns ((chain height).mapM fun v =>
        Eff.wrap "error while converting validator: " (m.convertValidator height v)) s
        ((chain height).map (validatorOf consAddr consPubKey account height)) s :=
      Eff.returns_mapM fun v hv => Eff.returns_wrap.mpr (convertValidator_returns hroster hread hv)
    exact Eff.returns_bind.mpr ⟨_, s, hall, Eff.returns_pure.mpr ⟨rfl, rfl⟩⟩

theorem mem_addValidators {rows : List ValidatorRow} {row : ValidatorRow}
    (h : row ∈ (s.addValidators rows).validator.rows) : row ∈ s.validator.rows ∨ row ∈ rows := by
  induction rows generalizing s with
  | nil => exact .inl h
  | cons first rows ih =>
    let u : Db := { s with validator := s.validator.insertNew samePubkey first }
    have hstep : row ∈ u.validator.rows ∨ row ∈ rows := ih h
    rcases hstep with hu | hrest
    · rcases Table.mem_insertNew hu with hold | rfl
      · exact .inl hold
      · exact .inr List.mem_cons_self
    · exact .inr (List.mem_cons_of_mem _ hrest)

theorem insertNew_known {row : ValidatorRow}
    (h : ∀ x ∈ s.validator.rows, x.consensusPubkey = row.consensusPubkey →
      x.consensusAddress = row.consensusAddress) :
    ((s.validator.insertNew samePubkey row).find row.consensusAddress).isSome = true := by
  unfold Table.insertNew
  split
  · rename_i hclash
    obtain ⟨x, hx, hsame⟩ := List.any_eq_true.mp hclash
    rw [← h x hx (of_decide_eq_true hsame), Table.find_of_mem hx]
    rfl
  · rw [Table.find_upsert_same]
    rfl

theorem addValidators_known {rows : List ValidatorRow}
    (h : ∀ x ∈ s.validator.rows ++ rows, ∀ y ∈ rows, x.consensusPubkey = y.consensusPubkey →
      x.consensusAddress = y.consensusAddress) :
    ∀ row ∈ rows, (s.addValidators rows).hasValidator row.consensusAddress = true := by
  induction rows generalizing s with
  | nil => simp
  | cons first rows ih =>
    let u : Db := { s with validator := s.validator.insertNew samePubkey first }
    have hfirst : u.hasValidator first.consensusAddress = true :=
      insertNew_known fun x hx => h x (List.mem_append_left _ hx) first List.mem_cons_self
    have hrest : ∀ x ∈ u.validator.rows ++ rows, ∀ y ∈ rows,
        x.consensusPubkey = y.consensusPubkey → x.consensusAddress = y.consensusAddress := by
      intro x hx y hy
      refine h x ?_ y (List.mem_cons_of_mem _ hy)
      rcases List.mem_append.mp hx with hx | hx
      · rcases Table.mem_insertNew hx with hold | rfl
        · exact List.mem_append_left _ hold
        · exact List.mem_append_right _ List.mem_cons_self
      · exact List.mem_append_right _ (List.mem_cons_of_mem _ hx)
    intro row hrow
    rcases List.mem_cons.mp hrow with rfl | hrow
    · exact hasValidator_addValidators hfirst rows
    · exact ih hrest row hrow

end

/-- No stored row has a consensus key of the chain under another address. -/
def NoImpostor (consAddr : StakingValidator → String) (consPubKey : StakingValidator → PubKey)
    (chain : Int → List StakingValidator) (s : Db) : Prop :=
  ∀ row ∈ s.validator.rows, ∀ height, ∀ v ∈ chain height,
    row.consensusPubkey = (consPubKey v).string → row.consensusAddress = consAddr v

/-- Every info is what the chain listed at its height. -/
def AsListed (consAddr : StakingValidator → String) (consPubKey : StakingValidator → PubKey)
    (account : StakingValidator → String) (chain : Int → List StakingValidator) (s : Db) : Prop :=
  ∀ row ∈ s.validatorInfo.rows, row ∈ listedInfos consAddr consPubKey account chain row.height

def addListed (consAddr : StakingValidator → String) (consPubKey : StakingValidator → PubKey)
    (account : StakingValidator → String) (s : Db) (height : Int)
    (validators : List StakingValidator) : Db :=
  (s.addAccounts (validators.map fun v => ⟨account v⟩)).addValidators
    (validators.map fun v => (validatorOf consAddr consPubKey account height v).validatorRow)

/-- What a block leaves if its batch goes through. -/
def putListed (consAddr : StakingValidator → String) (consPubKey : StakingValidator → PubKey)
    (account : StakingValidator → String) (chain : Int → List StakingValidator) (s : Db)
    (height : Int) : Db :=
  { addListed consAddr consPubKey account s height (chain height) with
    validatorInfo := (listedInfos consAddr consPubKey account chain height).foldl
      (Table.upsert validatorInfoConflict) s.validatorInfo }

section
variable {m : Module} {consAddr : StakingValidator → String}
  {consPubKey : StakingValidator → PubKey}
  {account : StakingValidator → String} {chain : Int → List StakingValidator} {height : Int}
  {s t : Db}

theorem addListed_known (hroster : Roster consAddr consPubKey chain)
    (hs : NoImpostor consAddr consPubKey chain s) {v : StakingValidator} (hv : v ∈ chain height) :
    (addListed consAddr consPubKey account s height (chain height)).hasValidator (consAddr v) =
      true := by
  suffices h : ∀ x ∈ s.validator.rows ++ (chain height).map fun v =>
        (validatorOf consAddr consPubKey account height v).validatorRow,
      ∀ y ∈ (chain height).map fun v =>
        (validatorOf consAddr consPubKey account height v).validatorRow,
      x.consensusPubkey = y.consensusPubkey → x.consensusAddress = y.consensusAddress from
    addValidators_known h _ (List.mem_map_of_mem hv)
  intro x hx y hy hkey
  obtain ⟨w, hw, rfl⟩ := List.mem_map.mp hy
  rcases List.mem_append.mp hx with hx | hx
  · exact hs x hx height w hw hkey
  · obtain ⟨z, hz, rfl⟩ := List.mem_map.mp hx
    exact hroster.key height z hz height w hw hkey

theorem NoImpostor.added (hroster : Roster consAddr consPubKey chain)
    (hs : NoImpostor consAddr consPubKey chain s) :
    NoImpostor consAddr consPubKey chain
      (addListed consAddr consPubKey account s height (chain height)) := by
  intro row hrow height' v hv hkey
  rcases mem_addValidators hrow with hold | hnew
  · exact hs row hold height' v hv hkey
  · obtain ⟨w, hw, rfl⟩ := List.mem_map.mp hnew
    exact hroster.key height w hw height' v hv hkey

theorem AsListed.put (hs : AsListed consAddr consPubKey account chain s) :
    AsListed consAddr consPubKey account chain
      (putListed consAddr consPubKey account chain s height) := by
  intro row hrow
  rcases validatorInfoConflict_guards.mem_of_upserts hrow with hold | hnew
  · exact hs row hold
  · obtain ⟨v, -, rfl⟩ := List.mem_map.mp hnew
    exact hnew

theorem listedInfos_agree (hkeeps : KeepsKeys consAddr chain)
    (hs : AsListed consAddr consPubKey account chain s) :
    Table.Agree ValidatorInfoRow.consensusAddress ValidatorInfoRow.operatorAddress
      (s.validatorInfo.rows ++ listedInfos consAddr consPubKey account chain height) := by
  have hlisted : ∀ x ∈ s.validatorInfo.rows ++ listedInfos consAddr consPubKey account chain height,
      ∃ at_, ∃ v ∈ chain at_, x.consensusAddress = consAddr v ∧
        x.operatorAddress = v.operatorAddress := by
    intro x hx
    rcases List.mem_append.mp hx with hx | hx
    · obtain ⟨v, hv, hrow⟩ := List.mem_map.mp (hs x hx)
      exact ⟨x.height, v, hv, hrow ▸ rfl, hrow ▸ rfl⟩
    · obtain ⟨v, hv, rfl⟩ := List.mem_map.mp hx
      exact ⟨height, v, hv, rfl, rfl⟩
  intro x hx y hy hoperator
  obtain ⟨_, v, hv, hxa, hxo⟩ := hlisted x hx
  obtain ⟨_, w, hw, hya, hyo⟩ := hlisted y hy
  rw [hxa, hya]
  exact (hkeeps _ v hv _ w hw).mp (hxo.symm.trans (hoperator.trans hyo))

theorem listedInfos_keys (hroster : Roster consAddr consPubKey chain) (height : Int) :
    ((listedInfos consAddr consPubKey account chain height).map
      ValidatorInfoRow.consensusAddress).Nodup := by
  unfold listedInfos
  rw [List.map_map]
  exact hroster.distinct height

/-- A batch goes through if its validators are known then, no operator of it has two
consensus addresses, and it is not too long. -/
theorem saveValidatorsData_returns {validators : List (Validator Int)}
    (hfits : validators.length * 6 ≤ maxParameters)
    (hknown : ∀ v ∈ validators,
      (s.addValidators (validators.map Validator.validatorRow)).hasValidator v.consAddr = true)
    (hagree : Table.Agree ValidatorInfoRow.consensusAddress ValidatorInfoRow.operatorAddress
      (s.validatorInfo.rows ++ validators.map (Validator.infoRow decString)))
    (hdistinct : (validators.map Validator.consAddr).Nodup) :
    Eff.Returns (saveValidatorsData decString validators) s ()
      { (s.addAccounts (validators.map fun v => ⟨v.selfDelegateAddress⟩)).addValidators
          (validators.map Validator.validatorRow) with
        validatorInfo := (validators.map (Validator.infoRow decString)).foldl
          (Table.upsert validatorInfoConflict) s.validatorInfo } := by
  unfold saveValidatorsData
  split
  · rename_i hnil
    obtain rfl := List.length_eq_zero_iff.mp hnil
    exact Eff.returns_pure.mpr ⟨rfl, rfl⟩
  · let u := s.addAccounts (validators.map fun v => ⟨v.selfDelegateAddress⟩)
    let w := u.addValidators (validators.map Validator.validatorRow)
    have hvalid : ∀ row ∈ validators.map (Validator.infoRow decString),
        validatorInfoTable.violation w row = none := by
      intro row hrow
      obtain ⟨v, hv, rfl⟩ := List.mem_map.mp hrow
      have hvalidator : w.hasValidator v.consAddr = true := hknown v hv
      have haccount : w.hasAccount v.selfDelegateAddress = true :=
        (hasAccount_addAccounts s _ _).mpr (.inr (List.mem_map_of_mem hv))
      simp [validatorInfoTable, Validator.infoRow, hvalidator, haccount]
    have hkeys : ((validators.map (Validator.infoRow decString)).map
        ValidatorInfoRow.consensusAddress).Nodup := by
      rw [List.map_map]
      exact hdistinct
    have hunique := Relation.insertUnique_ok (R := validatorInfoTable) (s := w)
      "validator_info_operator_address_key"
      (Table.keepsUnique_of_agree validatorInfoConflict_guards hagree)
      (validatorInfoConflict_guards.insert_ok hkeys hvalid)
    rw [sending_of_le (by omega), sending_of_le (by omega), sending_of_le hfits]
    refine Eff.returns_bind.mpr ⟨(), u, ?_, Eff.returns_bind.mpr ⟨(), w, ?_, ?_⟩⟩
    · simp [u, Db.addAccounts, accountTable, List.foldl_map, Validator.accountRow]
    · exact Eff.returns_wrap.mpr (Relation.insertNew_returns.mpr rfl)
    · exact Eff.returns_wrap.mpr hunique

/-- Of a batch that is too long, accounts and validators are stored while each of them
has room in its statement. -/
theorem saveValidatorsData_long {validators : List (Validator Int)}
    (hlong : maxParameters < validators.length * 6) (s : Db) :
    ∃ t, Eff.Fails (saveValidatorsData decString validators) s t ∧
      (t.validator = s.validator ∨
        t.validator = (s.addValidators (validators.map Validator.validatorRow)).validator) ∧
      t = { s with account := t.account, validator := t.validator } := by
  unfold saveValidatorsData
  rw [if_neg (by omega)]
  by_cases haccounts : validators.length ≤ maxParameters
  · let u := s.addAccounts (validators.map fun v => ⟨v.selfDelegateAddress⟩)
    have hfirst : Eff.Returns (Eff.wrap "error while storing accounts: " (sending validators.length
        (accountTable.insertNew (fun _ _ => false) (validators.map Validator.accountRow)))) s () u := by
      rw [sending_of_le haccounts]
      simp [u, Db.addAccounts, accountTable, List.foldl_map, Validator.accountRow]
    by_cases hvalidators : validators.length * 2 ≤ maxParameters
    · refine ⟨u.addValidators (validators.map Validator.validatorRow), ?_, .inr rfl, rfl⟩
      refine Eff.fails_bind.mpr (.inr ⟨(), u, hfirst, Eff.fails_bind.mpr (.inr ⟨(), _, ?_,
        Eff.fails_wrap.mpr (sending_fails hlong)⟩)⟩)
      rw [sending_of_le hvalidators]
      exact Eff.returns_wrap.mpr (Relation.insertNew_returns.mpr rfl)
    · refine ⟨u, Eff.fails_bind.mpr (.inr ⟨(), u, hfirst, Eff.fails_bind.mpr (.inl ?_)⟩), .inl rfl, rfl⟩
      exact Eff.fails_wrap.mpr (sending_fails (Nat.not_le.mp hvalidators))
  · refine ⟨s, Eff.fails_bind.mpr (.inl (Eff.fails_wrap.mpr ?_)), .inl rfl, rfl⟩
    exact sending_fails (Nat.not_le.mp haccounts)

theorem saveListed_returns (hroster : Roster consAddr consPubKey chain)
    (hkeeps : KeepsKeys consAddr chain) (hkeys : NoImpostor consAddr consPubKey chain s)
    (hs : AsListed consAddr consPubKey account chain s)
    (hfits : (chain height).length * 6 ≤ maxParameters) :
    Eff.Returns (saveValidatorsData decString
        ((chain height).map (validatorOf consAddr consPubKey account height))) s ()
      (putListed consAddr consPubKey account chain s height) := by
  let validators := (chain height).map (validatorOf consAddr consPubKey account height)
  have hrows : validators.map (Validator.infoRow decString) =
      listedInfos consAddr consPubKey account chain height := List.map_map
  have hknown : ∀ v ∈ validators,
      (s.addValidators (validators.map Validator.validatorRow)).hasValidator v.consAddr = true := by
    intro v hv
    obtain ⟨w, hw, rfl⟩ := List.mem_map.mp hv
    have hadded : (addListed consAddr consPubKey account s height (chain height)).hasValidator
        (consAddr w) = true := addListed_known hroster hkeys hw
    rw [List.map_map]
    exact hadded
  have hagree : Table.Agree ValidatorInfoRow.consensusAddress ValidatorInfoRow.operatorAddress
      (s.validatorInfo.rows ++ validators.map (Validator.infoRow decString)) := by
    rw [hrows]
    exact listedInfos_agree hkeeps hs
  have hdistinct : (validators.map Validator.consAddr).Nodup := by
    rw [List.map_map]
    exact hroster.distinct height
  have hsaved := saveValidatorsData_returns (by simpa only [validators, List.length_map] using hfits)
    hknown hagree hdistinct
  rw [hrows, List.map_map, List.map_map] at hsaved
  exact hsaved

theorem handleBlock_tables (m : Module) (height : Int) (evidenceList : List Evidence) (s : Db) :
    rosterTables (Eff.exec (m.handleBlock height evidenceList) s).2 =
      rosterTables (Eff.exec (m.updateValidators height) s).2 := by
  have hevidence : Eff.Fixes rosterTables (updateDoubleSignEvidence height evidenceList) :=
    updateDoubleSignEvidence_fixes ⟨fun _ _ => rfl, fun _ _ => rfl, fun _ _ => rfl⟩ _ _
  unfold Module.handleBlock
  rw [Eff.exec_bind_of_fixes (f := rosterTables) _ fun _ => hevidence, Eff.exec_wrap]

end

-- ---------------------------------------------------------------------------
-- Many blocks
-- ---------------------------------------------------------------------------

/-- The source answers for the block, with a list that has room in one statement. -/
def Block.stored (chain : Int → List StakingValidator) (block : Block) : Bool :=
  block.m.answers block.height && decide ((chain block.height).length * 6 ≤ maxParameters)

def storedHeights (chain : Int → List StakingValidator) (blocks : List Block) : List Int :=
  (blocks.filter (Block.stored chain)).map Block.height

/-- What the blocks at these heights make of a state. -/
structure Followed (consAddr : StakingValidator → String) (consPubKey : StakingValidator → PubKey)
    (account : StakingValidator → String) (chain : Int → List StakingValidator)
    (heights : List Int) (s t : Db) : Prop where
  infos : t.validatorInfo =
    (heights.flatMap (listedInfos consAddr consPubKey account chain)).foldl
      (Table.upsert validatorInfoConflict) s.validatorInfo
  noImpostor : NoImpostor consAddr consPubKey chain t
  asListed : AsListed consAddr consPubKey account chain t
  grown : ∀ address, s.hasValidator address = true → t.hasValidator address = true
  known : ∀ height ∈ heights, ∀ v ∈ chain height, t.hasValidator (consAddr v) = true

section
variable {m : Module} {consAddr : StakingValidator → String}
  {consPubKey : StakingValidator → PubKey}
  {account : StakingValidator → String} {chain : Int → List StakingValidator} {height : Int}
  {s t u : Db}

theorem Followed.nil (hkeys : NoImpostor consAddr consPubKey chain s)
    (hs : AsListed consAddr consPubKey account chain s) :
    Followed consAddr consPubKey account chain [] s s where
  infos := rfl
  noImpostor := hkeys
  asListed := hs
  grown _ h := h
  known _ h := absurd h List.not_mem_nil

theorem Followed.append {heights heights' : List Int}
    (h : Followed consAddr consPubKey account chain heights s t)
    (h' : Followed consAddr consPubKey account chain heights' t u) :
    Followed consAddr consPubKey account chain (heights ++ heights') s u where
  infos := by rw [h'.infos, h.infos, List.flatMap_append, List.foldl_append]
  noImpostor := h'.noImpostor
  asListed := h'.asListed
  grown address hs := h'.grown address (h.grown address hs)
  known height hheight v hv := by
    rcases List.mem_append.mp hheight with hfirst | hsecond
    · exact h'.grown _ (h.known height hfirst v hv)
    · exact h'.known height hsecond v hv

theorem Followed.of_tables {heights : List Int} (htables : rosterTables u = rosterTables t)
    (h : Followed consAddr consPubKey account chain heights s t) :
    Followed consAddr consPubKey account chain heights s u := by
  simp only [rosterTables, Prod.mk.injEq] at htables
  obtain ⟨-, hvalidator, hinfo⟩ := htables
  obtain ⟨hinfos, hkeys, hlisted, hgrown, hknown⟩ := h
  unfold NoImpostor at hkeys
  unfold AsListed at hlisted
  unfold Db.hasValidator at hgrown hknown
  rw [← hvalidator] at hkeys hgrown hknown
  rw [← hinfo] at hinfos hlisted
  exact ⟨hinfos, hkeys, hlisted, hgrown, hknown⟩

theorem Followed.put (hroster : Roster consAddr consPubKey chain)
    (hkeys : NoImpostor consAddr consPubKey chain s)
    (hs : AsListed consAddr consPubKey account chain s) :
    Followed consAddr consPubKey account chain [height] s
      (putListed consAddr consPubKey account chain s height) where
  infos := by rw [List.flatMap_singleton]; rfl
  noImpostor := hkeys.added hroster
  asListed := hs.put
  grown _ h := hasValidator_addValidators h _
  known height' hheight v hv := by
    obtain rfl := List.mem_singleton.mp hheight
    exact addListed_known hroster hkeys hv

theorem Followed.long (hroster : Roster consAddr consPubKey chain)
    (hkeys : NoImpostor consAddr consPubKey chain s)
    (hs : AsListed consAddr consPubKey account chain s)
    (hvalidator : t.validator = s.validator ∨ t.validator =
      (addListed consAddr consPubKey account s height (chain height)).validator)
    (hinfos : t.validatorInfo = s.validatorInfo) :
    Followed consAddr consPubKey account chain [] s t where
  infos := hinfos
  noImpostor := by
    unfold NoImpostor
    rcases hvalidator with hsame | hadded
    · rw [hsame]
      exact hkeys
    · rw [hadded]
      exact hkeys.added hroster
  asListed := by
    unfold AsListed
    rw [hinfos]
    exact hs
  grown address h := by
    unfold Db.hasValidator at h ⊢
    rcases hvalidator with hsame | hadded
    · rw [hsame]
      exact h
    · rw [hadded]
      exact hasValidator_addValidators h _
  known _ h := absurd h List.not_mem_nil

theorem Followed.block {block : Block} (hroster : Roster consAddr consPubKey chain)
    (hread : RosterRead block.m consAddr consPubKey account chain)
    (hkeeps : KeepsKeys consAddr chain) (hkeys : NoImpostor consAddr consPubKey chain s)
    (hs : AsListed consAddr consPubKey account chain s) :
    Followed consAddr consPubKey account chain (storedHeights chain [block]) s
      (Eff.exec (block.m.handleBlock block.height block.evidence) s).2 := by
  refine .of_tables (handleBlock_tables block.m block.height block.evidence s) ?_
  have hget := getAllValidators hroster hread block.height s
  unfold Module.updateValidators
  unfold storedHeights Block.stored
  cases hanswers : block.m.answers block.height with
  | true =>
    rw [if_pos hanswers] at hget
    by_cases hfits : (chain block.height).length * 6 ≤ maxParameters
    · have hsaved := saveListed_returns hroster hkeeps hkeys hs hfits
      have hupdate : Eff.Returns (block.m.updateValidators block.height) s (chain block.height) _ :=
        Eff.returns_bind.mpr ⟨_, s, Eff.returns_wrap.mpr hget,
          Eff.returns_bind.mpr ⟨(), _, hsaved, Eff.returns_pure.mpr ⟨rfl, rfl⟩⟩⟩
      unfold Module.updateValidators at hupdate
      rw [hupdate.state]
      simp only [hanswers, hfits, decide_true, Bool.and_self, List.filter_cons_of_pos,
        List.filter_nil, List.map_cons, List.map_nil]
      exact .put hroster hkeys hs
    · have hlong : maxParameters < ((chain block.height).map
          (validatorOf consAddr consPubKey account block.height)).length * 6 := by
        rw [List.length_map]
        exact Nat.not_le.mp hfits
      obtain ⟨t, hfails, hvalidator, ht⟩ := saveValidatorsData_long hlong s
      have hupdate : Eff.Fails (block.m.updateValidators block.height) s t :=
        Eff.fails_bind.mpr (.inr ⟨_, s, Eff.returns_wrap.mpr hget, Eff.fails_bind.mpr (.inl hfails)⟩)
      unfold Module.updateValidators at hupdate
      rw [hupdate.state]
      simp only [hanswers, hfits, decide_false, Bool.and_false, Bool.false_eq_true,
        not_false_eq_true, List.filter_cons_of_neg, List.filter_nil, List.map_nil]
      have hlisted : t.validator = s.validator ∨ t.validator =
          (addListed consAddr consPubKey account s block.height (chain block.height)).validator := by
        rw [List.map_map] at hvalidator
        exact hvalidator
      exact .long hroster hkeys hs hlisted (by rw [ht])
  | false =>
    rw [if_neg (by simp [hanswers])] at hget
    have hupdate : Eff.Fails (block.m.updateValidators block.height) s s :=
      Eff.fails_bind.mpr (.inl (Eff.fails_wrap.mpr hget))
    unfold Module.updateValidators at hupdate
    rw [hupdate.state]
    simp only [hanswers, Bool.false_and, Bool.false_eq_true, not_false_eq_true,
      List.filter_cons_of_neg, List.filter_nil, List.map_nil]
    exact .nil hkeys hs

theorem Followed.blocks {blocks : List Block}
    (hroster : Roster consAddr consPubKey chain)
    (hread : ∀ block ∈ blocks, RosterRead block.m consAddr consPubKey account chain)
    (hkeeps : KeepsKeys consAddr chain) (hkeys : NoImpostor consAddr consPubKey chain s)
    (hs : AsListed consAddr consPubKey account chain s) :
    Followed consAddr consPubKey account chain (storedHeights chain blocks) s
      (handleBlocks s blocks) := by
  induction blocks generalizing s with
  | nil => exact .nil hkeys hs
  | cons block blocks ih =>
    obtain ⟨hblock, hblocks⟩ := List.forall_mem_cons.mp hread
    have hfirst := Followed.block hroster hblock hkeeps hkeys hs
    have hrest := ih hblocks hfirst.noImpostor hfirst.asListed
    have hheights : storedHeights chain (block :: blocks) =
        storedHeights chain [block] ++ storedHeights chain blocks := by
      unfold storedHeights
      rw [← List.map_append, ← List.filter_append]
      rfl
    rw [hheights]
    exact hfirst.append hrest

/-- What a database has been told of a validator. -/
def toldOf (consAddr : StakingValidator → String) (consPubKey : StakingValidator → PubKey)
    (account : StakingValidator → String) (chain : Int → List StakingValidator) (s : Db)
    (heights : List Int) (address : String) : List ValidatorInfoRow :=
  historyOf s.validatorInfo (heights.flatMap (listedInfos consAddr consPubKey account chain)) address

theorem asListed_of_told (hs : AsListed consAddr consPubKey account chain s) {heights : List Int}
    {address : String} {row : ValidatorInfoRow}
    (hrow : row ∈ toldOf consAddr consPubKey account chain s heights address) :
    row ∈ listedInfos consAddr consPubKey account chain row.height ∧
      row.consensusAddress = address := by
  rcases List.mem_append.mp hrow with hrow | hrow
  · have hfind := Option.mem_toList.mp hrow
    exact ⟨hs row (Table.mem_of_find hfind), Table.find_key hfind⟩
  · obtain ⟨hrow, haddress⟩ := List.mem_filter.mp hrow
    obtain ⟨height, -, hlisted⟩ := List.mem_flatMap.mp hrow
    refine ⟨?_, of_decide_eq_true haddress⟩
    obtain ⟨v, -, rfl⟩ := List.mem_map.mp hlisted
    exact hlisted

theorem listedInfos_snapshots (hroster : Roster consAddr consPubKey chain)
    (hs : AsListed consAddr consPubKey account chain s) (heights : List Int) (address : String) :
    Register.Snapshots ValidatorInfoRow.height
      (toldOf consAddr consPubKey account chain s heights address) := by
  intro x hx y hy hheight
  obtain ⟨hx, hxa⟩ := asListed_of_told hs hx
  obtain ⟨hy, hya⟩ := asListed_of_told hs hy
  rw [← hheight] at hy
  exact List.inj_on_of_nodup_map (listedInfos_keys hroster x.height) hx hy (hxa.trans hya.symm)

theorem AsListed.found (hkeeps : KeepsKeys consAddr chain)
    (hs : AsListed consAddr consPubKey account chain s) {v : StakingValidator}
    (hv : v ∈ chain height) (hstored : (s.validatorInfo.find (consAddr v)).isSome = true) :
    ∃ row, s.validatorInfo.rows.find? (fun row => row.operatorAddress = v.operatorAddress) =
      some row ∧ row.consensusAddress = consAddr v := by
  obtain ⟨stored, hfind⟩ := Option.isSome_iff_exists.mp hstored
  have hmem := Table.mem_of_find hfind
  obtain ⟨w, hw, hrow⟩ := List.mem_map.mp (hs stored hmem)
  have haddress : consAddr w = consAddr v :=
    (congrArg ValidatorInfoRow.consensusAddress hrow).trans (Table.find_key hfind)
  have hoperator : stored.operatorAddress = v.operatorAddress :=
    (congrArg ValidatorInfoRow.operatorAddress hrow).symm.trans
      ((hkeeps _ w hw _ v hv).mpr haddress)
  have hsome : (s.validatorInfo.rows.find? fun row =>
      row.operatorAddress = v.operatorAddress).isSome = true :=
    List.find?_isSome.mpr ⟨stored, hmem, decide_eq_true hoperator⟩
  obtain ⟨row, hfound⟩ := Option.isSome_iff_exists.mp hsome
  refine ⟨row, hfound, ?_⟩
  obtain ⟨x, hx, hrow⟩ := List.mem_map.mp (hs row (List.mem_of_find?_eq_some hfound))
  have hsame : x.operatorAddress = v.operatorAddress := by
    have hrow' : row.operatorAddress = v.operatorAddress := by simpa using List.find?_some hfound
    exact (congrArg ValidatorInfoRow.operatorAddress hrow).trans hrow'
  exact (congrArg ValidatorInfoRow.consensusAddress hrow).symm.trans
    ((hkeeps _ x hx _ v hv).mp hsame)

end

/-- If no operator changes its key: after blocks at any heights, in any order and any
number of times, of which any may fail, and succeed later, the info under an address is
what the chain listed at the greatest height that a block has stored, and every
validator that was listed at one of these heights is registered. -/
theorem validators_registered {consAddr : StakingValidator → String}
    {consPubKey : StakingValidator → PubKey} {account : StakingValidator → String}
    {chain : Int → List StakingValidator} (hroster : Roster consAddr consPubKey chain)
    (hkeeps : KeepsKeys consAddr chain) (blocks : List Block)
    (hread : ∀ block ∈ blocks, RosterRead block.m consAddr consPubKey account chain)
    {s : Db} (hkeys : NoImpostor consAddr consPubKey chain s)
    (hs : AsListed consAddr consPubKey account chain s) :
    (∀ address row, (handleBlocks s blocks).validatorInfo.find address = some row ↔
      row ∈ toldOf consAddr consPubKey account chain s (storedHeights chain blocks) address ∧
        ∀ other ∈ toldOf consAddr consPubKey account chain s (storedHeights chain blocks) address,
          other.height ≤ row.height) ∧
      ∀ block ∈ blocks, block.stored chain = true → ∀ v ∈ chain block.height,
        Registered block.m.sdk v.operatorAddress (consAddr v) (handleBlocks s blocks) := by
  have hfollowed := Followed.blocks hroster hread hkeeps hkeys hs
  have hlatest := latest_upserts validatorInfoConflict_guards s.validatorInfo
    ((storedHeights chain blocks).flatMap (listedInfos consAddr consPubKey account chain))
  rw [← hfollowed.infos] at hlatest
  refine ⟨fun address row => hlatest.find_iff (listedInfos_snapshots hroster hs _ address), ?_⟩
  intro block hblock hstored v hv
  have hheight : block.height ∈ storedHeights chain blocks :=
    List.mem_map_of_mem (List.mem_filter.mpr ⟨hblock, hstored⟩)
  have hrow : (validatorOf consAddr consPubKey account block.height v).infoRow decString ∈
      (storedHeights chain blocks).flatMap (listedInfos consAddr consPubKey account chain) :=
    List.mem_flatMap.mpr ⟨block.height, hheight, List.mem_map_of_mem hv⟩
  have hinfo : ((handleBlocks s blocks).validatorInfo.find (consAddr v)).isSome = true := by
    rw [hfollowed.infos]
    exact Table.find_foldl_upsert_isSome hrow
  obtain ⟨row, hfound, haddress⟩ := hfollowed.asListed.found hkeeps hv hinfo
  refine ⟨⟨row, hfound, ?_⟩, hfollowed.known block.height hheight v hv,
    hroster.trimmed block.height v hv⟩
  rw [haddress]
  exact (hread block hblock).bech32 block.height v hv

def joining (height : Int) : List StakingValidator :=
  if height < 2 then [plainValidator "a" false 3 7]
  else [plainValidator "a" false 3 7, plainValidator "b" false 3 5]

theorem mem_joining {height : Int} {v : StakingValidator} (h : v ∈ joining height) :
    v = plainValidator "a" false 3 7 ∨ v = plainValidator "b" false 3 5 := by
  unfold joining at h
  split at h
  all_goals simp_all

theorem joining_roster : Roster plainAddr plainKey joining where
  address _ _ _ := rfl
  trimmed height v hv := by
    rcases mem_joining hv with rfl | rfl <;> decide
  distinct height := by
    unfold joining
    split <;> decide
  key _ _ _ _ _ _ h := h

def forgetful (lost : Int) (chain : Int → List StakingValidator) : Module :=
  { plain chain with
    source :=
      { (plain chain).source with
        getValidatorsWithStatus := fun height status =>
          if height = lost then .error "rpc error: code = Unknown"
          else (plain chain).source.getValidatorsWithStatus height status } }

theorem forgetful_reads (lost : Int) (chain : Int → List StakingValidator) :
    RosterRead (forgetful lost chain) plainAddr plainKey StakingValidator.operatorAddress chain where
  getConsPubKey _ _ _ := rfl
  account _ _ _ := rfl
  bech32 _ _ _ := rfl
  answer height validators h := by
    simp only [forgetful] at h
    split at h
    · cases h
    · obtain rfl := Except.ok.inj h
      simp

theorem joining_keepsKeys : KeepsKeys plainAddr joining := by
  intro height v hv height' v' hv'
  rcases mem_joining hv with rfl | rfl
  all_goals rcases mem_joining hv' with rfl | rfl <;> decide

def retried : List Block :=
  [⟨forgetful 3 joining, 3, []⟩, ⟨forgetful 3 joining, 1, []⟩, ⟨forgetful 2 joining, 3, []⟩]

theorem validators_registered_joining :
    (handleBlocks default retried).validatorInfo.find "a" =
        some ((validatorOf plainAddr plainKey StakingValidator.operatorAddress 3
          (plainValidator "a" false 3 7)).infoRow decString) ∧
      Registered (forgetful 2 joining).sdk "b" "b" (handleBlocks default retried) := by
  have hread : ∀ block ∈ retried,
      RosterRead block.m plainAddr plainKey StakingValidator.operatorAddress joining := by
    simp [retried, forgetful_reads]
  obtain ⟨hinfo, hknown⟩ := validators_registered joining_roster joining_keepsKeys retried hread
    (s := default) (fun _ h => absurd h List.not_mem_nil) fun _ h => absurd h List.not_mem_nil
  refine ⟨(hinfo _ _).mpr ⟨by decide, by decide⟩, ?_⟩
  exact hknown ⟨forgetful 2 joining, 3, []⟩ (by simp [retried]) (by decide)
    (plainValidator "b" false 3 5) (by decide)

-- ---------------------------------------------------------------------------
-- A key that changes
-- ---------------------------------------------------------------------------

/-- An operator whose info is stored comes with a consensus address that has none,
and nobody comes with its stored one. -/
def Rekeyed (consAddr : StakingValidator → String) (s : Db) (validators : List StakingValidator) :
    Prop :=
  ∃ v ∈ validators, ∃ row ∈ s.validatorInfo.rows, row.operatorAddress = v.operatorAddress ∧
    s.validatorInfo.find (consAddr v) = none ∧ row.consensusAddress ∉ validators.map consAddr

section
variable {m : Module} {consAddr : StakingValidator → String}
  {consPubKey : StakingValidator → PubKey}
  {account : StakingValidator → String} {chain : Int → List StakingValidator} {height : Int}
  {s t : Db}

theorem saveListed_fails (hroster : Roster consAddr consPubKey chain)
    (hs : Rekeyed consAddr s (chain height)) :
    ∃ accounts validators, Eff.Fails (saveValidatorsData decString
        ((chain height).map (validatorOf consAddr consPubKey account height))) s
      { s with account := accounts, validator := validators } := by
  obtain ⟨v, hv, stored, hstored, hoperator, hnew, hgone⟩ := hs
  let validators := (chain height).map (validatorOf consAddr consPubKey account height)
  by_cases hlong : maxParameters < validators.length * 6
  · obtain ⟨t, hfails, -, ht⟩ := saveValidatorsData_long hlong s
    exact ⟨t.account, t.validator, ht ▸ hfails⟩
  have hne : validators.length ≠ 0 := by
    rw [List.length_map]
    exact List.length_pos_of_mem hv |>.ne'
  let u := s.addAccounts ((chain height).map fun v => ⟨account v⟩)
  let w := addListed consAddr consPubKey account s height (chain height)
  have hkeys : (listedInfos consAddr consPubKey account chain height).map
      ValidatorInfoRow.consensusAddress = (chain height).map consAddr := by
    rw [listedInfos, List.map_map]
    rfl
  have hbroken : w.validatorInfo.keepsUnique validatorInfoConflict ValidatorInfoRow.operatorAddress
      (listedInfos consAddr consPubKey account chain height) = false := by
    refine Table.not_keepsUnique (listedInfos_keys hroster height) (List.mem_map_of_mem hv) hstored
      ?_ hnew hoperator
    rw [hkeys]
    exact hgone
  have hunique := Relation.insertUnique_fails (R := validatorInfoTable) (s := w)
    "validator_info_operator_address_key" hbroken
  refine ⟨w.account, w.validator, ?_⟩
  unfold saveValidatorsData
  rw [if_neg hne, sending_of_le (by omega : validators.length ≤ maxParameters),
    sending_of_le (by omega : validators.length * 2 ≤ maxParameters),
    sending_of_le (by omega : validators.length * 6 ≤ maxParameters), List.map_map, List.map_map,
    List.map_map]
  refine Eff.fails_bind.mpr (.inr ⟨(), u, ?_, Eff.fails_bind.mpr (.inr ⟨(), w, ?_, ?_⟩)⟩)
  · simp [u, Db.addAccounts, accountTable, List.foldl_map, Validator.accountRow, validatorOf]
  · exact Eff.returns_wrap.mpr (Relation.insertNew_returns.mpr rfl)
  · exact Eff.fails_wrap.mpr hunique

theorem handleBlock_rekeyed (hroster : Roster consAddr consPubKey chain)
    (hread : RosterRead m consAddr consPubKey account chain)
    (hs : Rekeyed consAddr s (chain height)) (evidenceList : List Evidence) :
    ∃ accounts validators, Eff.Fails (m.handleBlock height evidenceList) s
      { s with account := accounts, validator := validators } := by
  have hget := getAllValidators hroster hread height s
  unfold Module.handleBlock Module.updateValidators
  split at hget
  · obtain ⟨accounts, validators, hfails⟩ := saveListed_fails hroster hs
    refine ⟨accounts, validators, Eff.fails_bind.mpr (.inl (Eff.fails_wrap.mpr ?_))⟩
    exact Eff.fails_bind.mpr (.inr ⟨_, s, Eff.returns_wrap.mpr hget,
      Eff.fails_bind.mpr (.inl hfails)⟩)
  · refine ⟨s.account, s.validator, Eff.fails_bind.mpr (.inl (Eff.fails_wrap.mpr ?_))⟩
    exact Eff.fails_bind.mpr (.inl (Eff.fails_wrap.mpr hget))

end

/-- If every block lists an operator under a new consensus address, and nobody under
the stored one: of all that the blocks bring, the evidence included, only accounts and
consensus keys are ever stored. -/
theorem validators_frozen {consAddr : StakingValidator → String}
    {consPubKey : StakingValidator → PubKey} {account : StakingValidator → String}
    {chain : Int → List StakingValidator} (hroster : Roster consAddr consPubKey chain)
    {s : Db} (blocks : List Block)
    (hread : ∀ block ∈ blocks, RosterRead block.m consAddr consPubKey account chain)
    (hs : ∀ block ∈ blocks, Rekeyed consAddr s (chain block.height)) :
    ∃ accounts validators,
      handleBlocks s blocks = { s with account := accounts, validator := validators } := by
  induction blocks generalizing s with
  | nil => exact ⟨s.account, s.validator, rfl⟩
  | cons block blocks ih =>
    obtain ⟨hblock, hblocks⟩ := List.forall_mem_cons.mp hs
    obtain ⟨hfirst, hrest⟩ := List.forall_mem_cons.mp hread
    obtain ⟨accounts, validators, hstep⟩ :=
      handleBlock_rekeyed hroster hfirst hblock block.evidence
    rw [handleBlocks, List.foldl_cons, ← handleBlocks, hstep.state]
    exact ih (s := { s with account := accounts, validator := validators }) hrest hblocks

def recreated (height : Int) : List StakingValidator :=
  if height < 2 then [plainValidator "a" false 3 7]
  else [{ plainValidator "k" false 3 7 with operatorAddress := "a" }, plainValidator "b" false 3 5]

theorem recreated_roster : Roster plainAddr plainKey recreated where
  address _ _ _ := rfl
  trimmed height v hv := by
    unfold recreated at hv
    split at hv
    · obtain rfl := List.mem_singleton.mp hv
      decide
    · rcases List.mem_pair.mp hv with rfl | rfl <;> decide
  distinct height := by
    unfold recreated
    split <;> decide
  key _ _ _ _ _ _ h := h

def beforeRecreation : Db := handleBlocks default [⟨plain recreated, 1, []⟩]

def frozenBlocks : List Block :=
  [⟨forgetful 3 recreated, 2, []⟩, ⟨forgetful 3 recreated, 3, []⟩, ⟨forgetful 1 recreated, 3, []⟩]

theorem validators_frozen_recreated :
    (handleBlocks beforeRecreation frozenBlocks).validatorInfo.find "b" = none := by
  have hread : ∀ block ∈ frozenBlocks,
      RosterRead block.m plainAddr plainKey StakingValidator.operatorAddress recreated := by
    simp [frozenBlocks, forgetful_reads]
  have hlisted : ∀ block ∈ frozenBlocks,
      Rekeyed plainAddr beforeRecreation (recreated block.height) := by
    simp only [frozenBlocks, List.forall_mem_cons, List.not_mem_nil, false_implies, implies_true,
      and_true]
    unfold Rekeyed
    decide
  obtain ⟨_, _, hrun⟩ := validators_frozen recreated_roster frozenBlocks hread hlisted
  rw [hrun]
  change beforeRecreation.validatorInfo.find "b" = none
  decide

end SafrochainIndexer.Callisto.Staking
