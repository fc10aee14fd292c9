import SafrochainIndexer.Callisto.Accounts
import SafrochainIndexer.Callisto.LatestState
import SafrochainIndexer.Lib.Text
import Mathlib.Algebra.Group.Int.Defs

/-!
# Validators

`SaveValidatorsData` and the functions that read a validator back. The two rates
of a validator are an `sdk.Dec`: they are stored as the text that `Dec.String`
renders, and read back by `strconv.ParseInt` and `sdk.NewDec`.

Everything but the rates survives the way through the database
(`getValidator_saved`). No rate does: the text has a decimal point, which
`ParseInt` rejects, and the getters panic on every validator that was saved.
-/

namespace SafrochainIndexer.Callisto

/-- `types.Validator`; `Dec` is `sdk.Dec`. -/
structure Validator (Dec : Type) where
  consAddr : String
  consPubKey : String
  operator : String
  selfDelegateAddress : String
  maxChangeRate : Dec
  maxRate : Dec
  height : Int
  deriving DecidableEq, Repr

/-- `dbtypes.ValidatorData`. -/
structure ValidatorData where
  consAddress : String
  valAddress : String
  consPubKey : String
  selfDelegateAddress : String
  maxRate : String
  maxChangeRate : String
  height : Int
  deriving DecidableEq, Repr

section
variable {Dec : Type} (string : Dec → String) (newDec : Int → Dec)

/-- The body that `GetMaxChangeRate` and `GetMaxRate` share. -/
def parseRate (rate : String) : Except Fault Dec :=
  match Text.parseInt rate with
  | .error err => .error (.panic err)
  | .ok n => .ok (newDec n)

def ValidatorData.getMaxChangeRate (v : ValidatorData) : Except Fault Dec :=
  parseRate newDec v.maxChangeRate

def ValidatorData.getMaxRate (v : ValidatorData) : Except Fault Dec := parseRate newDec v.maxRate

-- ---------------------------------------------------------------------------
-- Saving
-- ---------------------------------------------------------------------------

def validatorInfoConflict : Conflict ValidatorInfoRow.consensusAddress where
  set stored excluded :=
    { stored with
      operatorAddress := excluded.operatorAddress
      selfDelegateAddress := excluded.selfDelegateAddress
      maxChangeRate := excluded.maxChangeRate
      maxRate := excluded.maxRate
      height := excluded.height }
  guard stored excluded := stored.height ≤ excluded.height
  key_set _ _ := rfl

def Validator.accountRow (v : Validator Dec) : AccountRow := ⟨v.selfDelegateAddress⟩

def Validator.validatorRow (v : Validator Dec) : ValidatorRow := ⟨v.consAddr, v.consPubKey⟩

def Validator.infoRow (v : Validator Dec) : ValidatorInfoRow :=
  ⟨v.consAddr, v.operator, v.selfDelegateAddress, string v.maxChangeRate, string v.maxRate, v.height⟩

def saveValidatorsData (validators : List (Validator Dec)) : Eff Db Unit :=
  if validators.length = 0 then pure ()
  else do
    Eff.wrap "error while storing accounts: "
      (sending validators.length
        (accountTable.insertNew (fun _ _ => false) (validators.map (·.accountRow))))
    Eff.wrap "error while storing valdiators: "
      (sending (validators.length * 2)
        (validatorTable.insertNew samePubkey (validators.map (·.validatorRow))))
    Eff.wrap "error while storing validator infos: "
      (sending (validators.length * 6)
        (validatorInfoTable.insertUnique "validator_info_operator_address_key"
          ValidatorInfoRow.operatorAddress validatorInfoConflict
          (validators.map (·.infoRow string))))

end

-- ---------------------------------------------------------------------------
-- Reading
-- ---------------------------------------------------------------------------

/-- `validator INNER JOIN validator_info`, with the columns that a query selects. -/
def joinValidators (s : Db) (select : ValidatorRow → ValidatorInfoRow → ValidatorData)
    (p : ValidatorInfoRow → Bool) : List ValidatorData :=
  s.validator.rows.flatMap fun v =>
    (s.validatorInfo.rows.filter fun i => v.consensusAddress = i.consensusAddress ∧ p i).map (select v)

def selectValidator (v : ValidatorRow) (i : ValidatorInfoRow) : ValidatorData :=
  ⟨v.consensusAddress, i.operatorAddress, v.consensusPubkey, i.selfDelegateAddress, i.maxRate,
    i.maxChangeRate, 0⟩

def getValidator (valAddress : String) : Eff Db ValidatorData := do
  let s ← get
  match joinValidators s selectValidator (·.operatorAddress = valAddress) with
  | [] => Eff.fail s!"no validator with validator address {valAddress} could be found"
  | data :: _ => pure data

def getValidatorBySelfDelegateAddress (address : String) : Eff Db ValidatorData := do
  let s ← get
  match joinValidators s selectValidator (·.selfDelegateAddress = address) with
  | [] => Eff.fail s!"no validator with self delegate address {address} could be found"
  | data :: _ => pure data

/-- `DISTINCT ON` keeps the first of the sorted rows with one address. -/
def distinctOn : List ValidatorData → List ValidatorData
  | [] => []
  | data :: rest => data :: (distinctOn rest).filter (·.consAddress ≠ data.consAddress)

def getValidators : Eff Db (List ValidatorData) := do
  let s ← get
  let rows := joinValidators s
    (fun v i => { selectValidator v i with height := i.height }) fun _ => true
  pure (distinctOn (rows.mergeSort fun a b => a.consAddress ≤ b.consAddress))

-- ---------------------------------------------------------------------------
-- Joins
-- ---------------------------------------------------------------------------

theorem distinctOn_eq {rows : List ValidatorData}
    (h : (rows.map ValidatorData.consAddress).Nodup) : distinctOn rows = rows := by
  induction rows with
  | nil => rfl
  | cons data rest ih =>
    obtain ⟨hne, hrest⟩ := List.nodup_cons.mp h
    have hother : ∀ other ∈ rest, other.consAddress ≠ data.consAddress := by
      intro other hm he
      exact hne (List.mem_map.mpr ⟨other, hm, he⟩)
    rw [distinctOn, ih hrest, List.filter_eq_self.mpr]
    exact fun other hm => decide_eq_true (hother other hm)

/-- The batch may be saved together: no two validators of it share an address, a
key or an operator. -/
structure Distinct {Dec : Type} (validators : List (Validator Dec)) : Prop where
  consAddr : (validators.map Validator.consAddr).Nodup
  consPubKey : (validators.map Validator.consPubKey).Nodup
  operator : (validators.map Validator.operator).Nodup

section
variable {Dec : Type} {string : Dec → String} {newDec : Int → Dec}
  {validators : List (Validator Dec)} {v : Validator Dec}

theorem filter_same_address (hd : Distinct validators) (p : Validator Dec → Bool)
    (hv : v ∈ validators) :
    (validators.filter fun w => v.consAddr = w.consAddr ∧ p w) = if p v then [v] else [] := by
  have hsame : (validators.filter fun w => w.consAddr = v.consAddr) = [v] :=
    Table.filter_key_eq_singleton hd.consAddr hv
  have hsplit : (validators.filter fun w => v.consAddr = w.consAddr ∧ p w) =
      (validators.filter fun w => w.consAddr = v.consAddr).filter p := by
    rw [List.filter_filter]
    refine List.filter_congr fun w _ => ?_
    rw [Bool.decide_and, Bool.decide_eq_true, Bool.and_comm]
    congr 1
    exact decide_eq_decide.mpr eq_comm
  rw [hsplit, hsame]
  cases hp : p v <;> simp [hp]

theorem flatMap_if {α β : Type} (l : List α) (p : α → Bool) (f : α → β) :
    (l.flatMap fun a => (if p a then [a] else []).map f) = (l.filter p).map f := by
  induction l with
  | nil => rfl
  | cons a l ih =>
    rw [List.flatMap_cons, ih]
    cases hp : p a <;> simp [hp]

theorem joinValidators_saved {s : Db} (hd : Distinct validators)
    (hvalidator : s.validator.rows = validators.map Validator.validatorRow)
    (hinfo : s.validatorInfo.rows = validators.map (Validator.infoRow string))
    (select : ValidatorRow → ValidatorInfoRow → ValidatorData) (p : ValidatorInfoRow → Bool) :
    joinValidators s select p =
      (validators.filter fun w => p (w.infoRow string)).map fun w =>
        select w.validatorRow (w.infoRow string) := by
  unfold joinValidators
  rw [hvalidator, hinfo, List.flatMap_map, ← flatMap_if]
  refine List.flatMap_congr fun w hw => ?_
  have hown := congrArg (List.map fun u => select w.validatorRow (u.infoRow string))
    (filter_same_address hd (fun u => p (u.infoRow string)) hw)
  rw [List.filter_map, List.map_map]
  refine Eq.trans hown ?_
  split <;> rfl

end

-- ---------------------------------------------------------------------------
-- Into an empty database
-- ---------------------------------------------------------------------------

theorem validatorInfoConflict_guards : validatorInfoConflict.Guards ValidatorInfoRow.height where
  set_eq stored excluded hk := by
    cases stored; cases excluded
    simpa [validatorInfoConflict] using hk
  guard_iff _ _ := decide_eq_true_iff

section
variable {Dec : Type} {string : Dec → String} {newDec : Int → Dec}
  {validators : List (Validator Dec)} {v : Validator Dec}

theorem Distinct.validatorRows_keys (hd : Distinct validators) :
    ((validators.map Validator.validatorRow).map ValidatorRow.consensusAddress).Nodup := by
  simpa [Function.comp_def, Validator.validatorRow] using hd.consAddr

theorem Distinct.infoRows_keys (hd : Distinct validators) :
    ((validators.map (Validator.infoRow string)).map ValidatorInfoRow.consensusAddress).Nodup := by
  simpa [Function.comp_def, Validator.infoRow] using hd.consAddr

theorem Distinct.infoRows_operators (hd : Distinct validators) :
    ((validators.map (Validator.infoRow string)).map ValidatorInfoRow.operatorAddress).Nodup := by
  simpa [Function.comp_def, Validator.infoRow] using hd.operator

theorem addValidators_rows {s : Db} (hempty : s.validator = Table.empty) (hd : Distinct validators) :
    (s.addValidators (validators.map Validator.validatorRow)).validator.rows =
      validators.map Validator.validatorRow := by
  have hpubkeys : (validators.map Validator.validatorRow).Pairwise
      fun stored r => samePubkey r stored = false := by
    rw [List.pairwise_map]
    refine (List.pairwise_map.mp hd.consPubKey).imp fun hne => ?_
    exact decide_eq_false hne
  simp only [Db.addValidators, hempty]
  exact Table.foldl_insertNew_fresh samePubkey hd.validatorRows_keys hpubkeys

theorem infoRow_valid {s : Db} (hvalidator : v.validatorRow ∈ s.validator.rows)
    (haccount : s.hasAccount v.selfDelegateAddress = true) :
    validatorInfoTable.violation s (v.infoRow string) = none := by
  have hfound : s.hasValidator v.consAddr = true :=
    Option.isSome_iff_exists.mpr ⟨v.validatorRow, Table.find_of_mem hvalidator⟩
  simp [validatorInfoTable, Validator.infoRow, hfound, haccount]

theorem saveValidatorsData_fits {s t : Db}
    (h : Eff.Returns (saveValidatorsData string validators) s () t) :
    validators.length * 6 ≤ maxParameters := by
  unfold saveValidatorsData at h
  split at h
  · omega
  · obtain ⟨_, _, -, hvalidators⟩ := Eff.returns_bind.mp h
    obtain ⟨_, _, -, hinfos⟩ := Eff.returns_bind.mp hvalidators
    exact (returns_sending.mp (Eff.returns_wrap.mp hinfos)).1

theorem saveValidatorsData_saved (hne : validators ≠ []) (hd : Distinct validators)
    (hfits : validators.length * 6 ≤ maxParameters) :
    ∃ t, Eff.Returns (saveValidatorsData string validators) default () t ∧
      t.validator.rows = validators.map Validator.validatorRow ∧
      t.validatorInfo.rows = validators.map (Validator.infoRow string) := by
  let accounts : List Account := validators.map fun v => ⟨v.selfDelegateAddress⟩
  let s : Db := (default : Db).addAccounts accounts
  let u : Db := s.addValidators (validators.map Validator.validatorRow)
  have hvalidators : u.validator.rows = validators.map Validator.validatorRow :=
    addValidators_rows rfl hd
  have hinfos : ∀ r ∈ validators.map (Validator.infoRow string),
      validatorInfoTable.violation u r = none := by
    refine List.forall_mem_map.mpr fun v hv => infoRow_valid ?_ ?_
    · rw [hvalidators]
      exact List.mem_map_of_mem hv
    · exact (hasAccount_addAccounts default accounts _).mpr (.inr (List.mem_map_of_mem hv))
  let infos : Table ValidatorInfoRow.consensusAddress :=
    (validators.map (Validator.infoRow string)).foldl (Table.upsert validatorInfoConflict) Table.empty
  have hrows : infos.rows = validators.map (Validator.infoRow string) :=
    Table.foldl_upsert_fresh validatorInfoConflict hd.infoRows_keys
  have hkept : (Table.empty : Table ValidatorInfoRow.consensusAddress).keepsUnique
      validatorInfoConflict ValidatorInfoRow.operatorAddress
      (validators.map (Validator.infoRow string)) = true :=
    Table.keepsUnique_fresh validatorInfoConflict hd.infoRows_keys hd.infoRows_operators
  have hunique := Relation.insertUnique_ok "validator_info_operator_address_key" hkept
    (validatorInfoConflict_guards.insert_ok hd.infoRows_keys hinfos)
  have hlength : ¬validators.length = 0 := by simpa using hne
  refine ⟨validatorInfoTable.write infos u, ?_, hvalidators, hrows⟩
  unfold saveValidatorsData
  rw [if_neg hlength]
  rw [sending_of_le (by omega), sending_of_le (by omega), sending_of_le hfits]
  refine Eff.returns_bind.mpr ⟨(), s, ?_, Eff.returns_bind.mpr ⟨(), u, ?_, ?_⟩⟩
  · simp [s, accounts, Db.addAccounts, accountTable, List.foldl_map, Validator.accountRow]
  · simp [u, Db.addValidators, validatorTable]
  · exact Eff.returns_wrap.mpr hunique

def Validator.data (string : Dec → String) (v : Validator Dec) : ValidatorData :=
  selectValidator v.validatorRow (v.infoRow string)

theorem getValidator_saved {s : Db} (hd : Distinct validators)
    (hvalidator : s.validator.rows = validators.map Validator.validatorRow)
    (hinfo : s.validatorInfo.rows = validators.map (Validator.infoRow string))
    (hv : v ∈ validators) : Eff.Returns (getValidator v.operator) s (v.data string) s := by
  have hjoin := joinValidators_saved hd hvalidator hinfo selectValidator
    (·.operatorAddress = v.operator)
  have hone : (validators.filter fun w => w.operator = v.operator) = [v] :=
    Table.filter_key_eq_singleton hd.operator hv
  have hrows : joinValidators s selectValidator (·.operatorAddress = v.operator) =
      [v.data string] := by
    rw [hjoin]
    exact congrArg (List.map (Validator.data string)) hone
  refine Eff.returns_bind.mpr ⟨s, s, by simp, ?_⟩
  rw [hrows]
  simp

theorem getValidators_saved {s : Db} (hd : Distinct validators)
    (hvalidator : s.validator.rows = validators.map Validator.validatorRow)
    (hinfo : s.validatorInfo.rows = validators.map (Validator.infoRow string)) :
    ∃ data, Eff.Returns getValidators s data s ∧
      data.Perm (validators.map fun v => { v.data string with height := v.height }) := by
  have hjoin := joinValidators_saved hd hvalidator hinfo
    (fun v i => { selectValidator v i with height := i.height }) fun _ => true
  rw [List.filter_eq_self.mpr fun _ _ => rfl] at hjoin
  have hperm := List.mergeSort_perm (joinValidators s
    (fun v i => { selectValidator v i with height := i.height }) fun _ => true)
    fun a b => decide (a.consAddress ≤ b.consAddress)
  have hn : ((validators.map fun v => { v.data string with height := v.height }).map
      ValidatorData.consAddress).Nodup := by
    simpa [Function.comp_def, Validator.data, selectValidator, Validator.validatorRow]
      using hd.consAddr
  refine ⟨_, Eff.returns_bind.mpr ⟨s, s, by simp, by simp; rfl⟩, ?_⟩
  rw [distinctOn_eq ((hperm.map _).nodup_iff.mpr (by rw [hjoin]; exact hn))]
  rw [hjoin] at hperm ⊢
  exact hperm

-- ---------------------------------------------------------------------------
-- Round trips
-- ---------------------------------------------------------------------------

/-- The getters of `data` return what those of `v` did when it was saved. -/
structure Validator.Equals (newDec : Int → Dec) (v : Validator Dec) (data : ValidatorData) :
    Prop where
  consAddr : data.consAddress = v.consAddr
  consPubKey : data.consPubKey = v.consPubKey
  operator : data.valAddress = v.operator
  selfDelegateAddress : data.selfDelegateAddress = v.selfDelegateAddress
  maxRate : data.getMaxRate newDec = .ok v.maxRate
  maxChangeRate : data.getMaxChangeRate newDec = .ok v.maxChangeRate

/-- Saved in an empty database, each validator is read back as it was. -/
def RoundTrips (string : Dec → String) (newDec : Int → Dec) (validators : List (Validator Dec)) :
    Prop :=
  ∃ t, Eff.Returns (saveValidatorsData string validators) default () t ∧
    (∀ v ∈ validators, ∃ data, Eff.Returns (getValidator v.operator) t data t ∧
      v.Equals newDec data) ∧
    ∃ rows, Eff.Returns getValidators t rows t ∧
      ∀ v ∈ validators, ∃ data ∈ rows, v.Equals newDec data

def Pointed (string : Dec → String) : Prop :=
  ∀ d, ∃ whole fraction, string d = whole ++ "." ++ fraction ∧ fraction.length = 18

theorem parseRate_panics (hs : Pointed string) (newDec : Int → Dec) (d : Dec) :
    ∃ err, parseRate newDec (string d) = .error (.panic err) := by
  obtain ⟨whole, fraction, hd, -⟩ := hs d
  have hpoint : '.' ∈ (string d).toList := by
    rw [hd]
    simp
  obtain ⟨err, herr⟩ := Text.parseInt_error hpoint (by decide) (by decide) (by decide)
  exact ⟨err, by rw [parseRate, herr]⟩

/-- A batch that has room in one statement is saved. Everything but the rates is
read back, and the rates panic. -/
def RatesPanic (string : Dec → String) (newDec : Int → Dec) (validators : List (Validator Dec)) :
    Prop :=
  (validators.length * 6 ≤ maxParameters →
    ∃ t, Eff.Returns (saveValidatorsData string validators) default () t) ∧
  ∀ t, Eff.Returns (saveValidatorsData string validators) default () t →
    ∀ v ∈ validators, ∃ data, Eff.Returns (getValidator v.operator) t data t ∧
      data.consAddress = v.consAddr ∧ data.consPubKey = v.consPubKey ∧
      data.valAddress = v.operator ∧ data.selfDelegateAddress = v.selfDelegateAddress ∧
      (∃ err, data.getMaxRate newDec = .error (.panic err)) ∧
      ∃ err, data.getMaxChangeRate newDec = .error (.panic err)

theorem ratesPanic (hs : Pointed string) (newDec : Int → Dec) (hne : validators ≠ [])
    (hd : Distinct validators) : RatesPanic string newDec validators := by
  constructor
  · intro hfits
    obtain ⟨t, ht, -⟩ := saveValidatorsData_saved hne hd hfits
    exact ⟨t, ht⟩
  intro t ht v hv
  obtain ⟨u, hu, hvalidator, hinfo⟩ :=
    saveValidatorsData_saved hne hd (saveValidatorsData_fits ht)
  obtain ⟨-, rfl⟩ := ht.unique hu
  refine ⟨v.data string, getValidator_saved hd hvalidator hinfo hv, rfl, rfl, rfl, rfl, ?_, ?_⟩
  · exact parseRate_panics hs newDec v.maxRate
  · exact parseRate_panics hs newDec v.maxChangeRate

theorem RatesPanic.not_roundTrips (h : RatesPanic string newDec validators)
    (hne : validators ≠ []) : ¬RoundTrips string newDec validators := by
  rintro ⟨t, ht, hget, -⟩
  obtain ⟨v, hv⟩ := List.exists_mem_of_ne_nil validators hne
  obtain ⟨data, hdata, -, -, -, -, ⟨err, herr⟩, -⟩ := h.2 t ht v hv
  obtain ⟨other, hother, hequals⟩ := hget v hv
  obtain ⟨rfl, -⟩ := hdata.unique hother
  rw [hequals.maxRate] at herr
  nomatch herr

/-- No batch of validators makes the round trip, on account of the rates alone. -/
theorem validators_never_round_trip (string : Dec → String) (newDec : Int → Dec)
    (hs : Pointed string) (validators : List (Validator Dec)) (hne : validators ≠ [])
    (hd : Distinct validators) :
    ¬RoundTrips string newDec validators ∧ RatesPanic string newDec validators :=
  have hpanic := ratesPanic hs newDec hne hd
  ⟨hpanic.not_roundTrips hne, hpanic⟩

end

/-- `Dec.String` of the number of `d` units of 18 decimals. -/
def decString (d : Int) : String :=
  (if d < 0 then "-" else "") ++ toString (d.natAbs / 10 ^ 18) ++ "." ++
    .ofList ((List.range 18).map fun i => Nat.digitChar (d.natAbs / 10 ^ (17 - i) % 10))

def decOfInt (n : Int) : Int := n * 10 ^ 18

theorem decString_pointed : Pointed decString := fun _ => ⟨_, _, rfl, by simp⟩

theorem validators_never_round_trip_two :
    let validators : List (Validator Int) :=
      [⟨"cons1", "pub1", "val1", "acc1", 10 ^ 16, 2 * 10 ^ 17, 1⟩,
        ⟨"cons2", "pub2", "val2", "acc2", 10 ^ 18, 0, 1⟩]
    ¬RoundTrips decString decOfInt validators ∧ RatesPanic decString decOfInt validators :=
  validators_never_round_trip decString decOfInt decString_pointed _ (by simp)
    ⟨by decide, by decide, by decide⟩

/-- A validator with the whole rates 1 and 2 of the tests. -/
theorem rates_of_saved_validator_panic :
    ¬RoundTrips decString decOfInt [⟨"cons1", "pub1", "val1", "acc1", 2 * 10 ^ 18, 10 ^ 18, 1⟩] :=
  (ratesPanic decString_pointed decOfInt (by simp) ⟨by simp, by simp, by simp⟩).not_roundTrips
    (by simp)

end SafrochainIndexer.Callisto
