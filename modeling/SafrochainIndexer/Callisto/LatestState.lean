import SafrochainIndexer.Callisto.Database
import SafrochainIndexer.Lib.Latest

/-!
# Latest-state tables

`SaveValidatorsVotingPowers`, `SaveValidatorsStatuses`, `SaveSupply` and
`SaveTokensPrices`: hand-written upserts with a guard on the height, or on the
timestamp of a price. Each of the four tables is a register of its guard.
-/

namespace SafrochainIndexer.Callisto

structure ValidatorVotingPower where
  consensusAddress : String
  votingPower : Int
  height : Int
  deriving DecidableEq, Repr

structure ValidatorStatus where
  consensusAddress : String
  consensusPubKey : String
  status : Int
  jailed : Bool
  height : Int
  deriving DecidableEq, Repr

/-- `price` is the decimal text of the `float64`. -/
structure TokenPrice where
  unitName : String
  price : String
  marketCap : Int
  timestamp : Int
  deriving DecidableEq, Repr

-- ---------------------------------------------------------------------------
-- Voting powers
-- ---------------------------------------------------------------------------

def votingPowerConflict : Conflict ValidatorVotingPowerRow.validatorAddress where
  set stored excluded :=
    { stored with votingPower := excluded.votingPower, height := excluded.height }
  guard stored excluded := stored.height ≤ excluded.height
  key_set _ _ := rfl

def votingPowerRows (entries : List ValidatorVotingPower) : List ValidatorVotingPowerRow :=
  entries.map fun entry => ⟨entry.consensusAddress, entry.votingPower, entry.height⟩

def saveValidatorsVotingPowers (entries : List ValidatorVotingPower) : Eff Db Unit :=
  if entries.length = 0 then pure ()
  else
    Eff.wrap "error while storing validators voting power: "
      (sending (entries.length * 3)
        (validatorVotingPowerTable.insert votingPowerConflict (votingPowerRows entries)))

-- ---------------------------------------------------------------------------
-- Statuses
-- ---------------------------------------------------------------------------

def statusConflict : Conflict ValidatorStatusRow.validatorAddress where
  set stored excluded :=
    { stored with
      status := excluded.status
      jailed := excluded.jailed
      height := excluded.height }
  guard stored excluded := stored.height ≤ excluded.height
  key_set _ _ := rfl

/-- `consensus_pubkey` is unique too. -/
def samePubkey (r s : ValidatorRow) : Bool := decide (s.consensusPubkey = r.consensusPubkey)

def statusValidators (statuses : List ValidatorStatus) : List ValidatorRow :=
  statuses.map fun status => ⟨status.consensusAddress, status.consensusPubKey⟩

def statusRows (statuses : List ValidatorStatus) : List ValidatorStatusRow :=
  statuses.map fun status => ⟨status.consensusAddress, status.status, status.jailed, status.height⟩

def saveValidatorsStatuses (statuses : List ValidatorStatus) : Eff Db Unit :=
  if statuses.length = 0 then pure ()
  else do
    Eff.wrap "error while storing validators: "
      (sending (statuses.length * 2)
        (validatorTable.insertNew samePubkey (statusValidators statuses)))
    Eff.wrap "error while storing validators statuses: "
      (sending (statuses.length * 4)
        (validatorStatusTable.insert statusConflict (statusRows statuses)))

-- ---------------------------------------------------------------------------
-- Supply
-- ---------------------------------------------------------------------------

def supplyConflict : Conflict (oneRowId (ρ := SupplyRow)) where
  set _ excluded := { coins := excluded.coins, height := excluded.height }
  guard stored excluded := stored.height ≤ excluded.height
  key_set _ _ := rfl

def saveSupply (coins : List Coin) (height : Int) : Eff Db Unit :=
  Eff.wrap "error while storing supply: "
    (supplyTable.insert supplyConflict [⟨newDbCoins coins, height⟩])

-- ---------------------------------------------------------------------------
-- Prices
-- ---------------------------------------------------------------------------

def tokenPriceConflict : Conflict TokenPriceRow.unitName where
  set stored excluded :=
    { stored with
      price := excluded.price
      marketCap := excluded.marketCap
      timestamp := excluded.timestamp }
  guard stored excluded := stored.timestamp ≤ excluded.timestamp
  key_set _ _ := rfl

def tokenPriceRows (prices : List TokenPrice) : List TokenPriceRow :=
  prices.map fun ticker => ⟨ticker.unitName, ticker.price, ticker.marketCap, ticker.timestamp⟩

def saveTokensPrices (prices : List TokenPrice) : Eff Db Unit :=
  if prices.length = 0 then pure ()
  else
    Eff.wrap "error while saving tokens prices: "
      (sending (prices.length * 4)
        (tokenPriceTable.insert tokenPriceConflict (tokenPriceRows prices)))

-- ---------------------------------------------------------------------------
-- Guards
-- ---------------------------------------------------------------------------

theorem votingPowerConflict_guards : votingPowerConflict.Guards ValidatorVotingPowerRow.height where
  set_eq stored excluded hk := by
    cases stored; cases excluded
    simpa [votingPowerConflict] using hk
  guard_iff _ _ := decide_eq_true_iff

theorem statusConflict_guards : statusConflict.Guards ValidatorStatusRow.height where
  set_eq stored excluded hk := by
    cases stored; cases excluded
    simpa [statusConflict] using hk
  guard_iff _ _ := decide_eq_true_iff

theorem supplyConflict_guards : supplyConflict.Guards SupplyRow.height where
  set_eq _ _ _ := rfl
  guard_iff _ _ := decide_eq_true_iff

theorem tokenPriceConflict_guards : tokenPriceConflict.Guards TokenPriceRow.timestamp where
  set_eq stored excluded hk := by
    cases stored; cases excluded
    simpa [tokenPriceConflict] using hk
  guard_iff _ _ := decide_eq_true_iff

-- ---------------------------------------------------------------------------
-- Valid batches
-- ---------------------------------------------------------------------------

/-- Distinct validators that are stored, at heights whose blocks are stored. -/
def ValidVotingPowers (s : Db) (entries : List ValidatorVotingPower) : Prop :=
  (entries.map (·.consensusAddress)).Nodup ∧
    ∀ entry ∈ entries, s.hasValidator entry.consensusAddress = true ∧ s.hasBlock entry.height = true

def Db.addValidators (s : Db) (validators : List ValidatorRow) : Db :=
  { s with validator := validators.foldl (Table.insertNew samePubkey) s.validator }

/-- Distinct validators, stored at the latest by the call itself. -/
def ValidStatuses (s : Db) (statuses : List ValidatorStatus) : Prop :=
  (statuses.map (·.consensusAddress)).Nodup ∧
    ∀ status ∈ statuses,
      (s.addValidators (statusValidators statuses)).hasValidator status.consensusAddress = true

def ValidPrices (s : Db) (prices : List TokenPrice) : Prop :=
  (prices.map (·.unitName)).Nodup ∧ ∀ ticker ∈ prices, s.hasUnit ticker.unitName = true

-- ---------------------------------------------------------------------------
-- Calls
-- ---------------------------------------------------------------------------

theorem saveValidatorsVotingPowers_ok {s : Db} {entries : List ValidatorVotingPower}
    (hv : ValidVotingPowers s entries) (hfits : entries.length * 3 ≤ maxParameters) :
    ∃ t, Eff.Returns (saveValidatorsVotingPowers entries) s () t := by
  unfold saveValidatorsVotingPowers
  split
  · exact ⟨s, by simp⟩
  · have hn : ((votingPowerRows entries).map (·.validatorAddress)).Nodup := by
      simpa [votingPowerRows, Function.comp_def] using hv.1
    rw [sending_of_le hfits]
    refine ⟨_, Eff.returns_wrap.mpr (votingPowerConflict_guards.insert_ok hn fun r hr => ?_)⟩
    obtain ⟨entry, hm, rfl⟩ := List.mem_map.mp hr
    obtain ⟨hval, hblock⟩ := hv.2 entry hm
    simp [validatorVotingPowerTable, hval, hblock]

theorem saveValidatorsVotingPowers_returns {s t : Db} {entries : List ValidatorVotingPower}
    (h : Eff.Returns (saveValidatorsVotingPowers entries) s () t) :
    t.validatorVotingPower =
      (votingPowerRows entries).foldl (Table.upsert votingPowerConflict) s.validatorVotingPower := by
  unfold saveValidatorsVotingPowers at h
  split at h
  · rename_i hnil
    obtain ⟨-, rfl⟩ := Eff.returns_pure.mp h
    simp [votingPowerRows, List.length_eq_zero_iff.mp hnil]
  · exact Relation.insert_read (returns_sending.mp (Eff.returns_wrap.mp h)).2

theorem saveValidatorsVotingPowers_write {s : Db} {entries : List ValidatorVotingPower}
    (hv : ValidVotingPowers s entries) (hfits : entries.length * 3 ≤ maxParameters) :
    (Eff.exec (saveValidatorsVotingPowers entries) s).2 =
      validatorVotingPowerTable.write ((votingPowerRows entries).foldl
        (Table.upsert votingPowerConflict) s.validatorVotingPower) s := by
  obtain ⟨t, ht⟩ := saveValidatorsVotingPowers_ok hv hfits
  rw [ht.state]
  unfold saveValidatorsVotingPowers at ht
  split at ht
  · rename_i hnil
    obtain ⟨-, rfl⟩ := Eff.returns_pure.mp ht
    rw [List.length_eq_zero_iff.mp hnil]
    rfl
  · exact Relation.insert_write (returns_sending.mp (Eff.returns_wrap.mp ht)).2

theorem storeStatusValidators_returns {statuses : List ValidatorStatus}
    (hfits : statuses.length * 2 ≤ maxParameters) (s : Db) :
    Eff.Returns (Eff.wrap "error while storing validators: "
      (sending (statuses.length * 2)
        (validatorTable.insertNew samePubkey (statusValidators statuses)))) s ()
      (s.addValidators (statusValidators statuses)) :=
  Eff.returns_wrap.mpr (returns_sending.mpr ⟨hfits, Relation.insertNew_returns.mpr rfl⟩)

theorem saveValidatorsStatuses_ok {s : Db} {statuses : List ValidatorStatus}
    (hv : ValidStatuses s statuses) (hfits : statuses.length * 4 ≤ maxParameters) :
    ∃ t, Eff.Returns (saveValidatorsStatuses statuses) s () t := by
  unfold saveValidatorsStatuses
  split
  · exact ⟨s, by simp⟩
  · have hn : ((statusRows statuses).map (·.validatorAddress)).Nodup := by
      simpa [statusRows, Function.comp_def] using hv.1
    have hins := statusConflict_guards.insert_ok (R := validatorStatusTable)
      (s := s.addValidators (statusValidators statuses)) hn fun r hr => by
        obtain ⟨status, hm, rfl⟩ := List.mem_map.mp hr
        simp [validatorStatusTable, hv.2 status hm]
    exact ⟨_, Eff.returns_bind.mpr ⟨_, _, storeStatusValidators_returns (by omega) s,
      Eff.returns_wrap.mpr (returns_sending.mpr ⟨hfits, hins⟩)⟩⟩

theorem saveValidatorsStatuses_returns {s t : Db} {statuses : List ValidatorStatus}
    (h : Eff.Returns (saveValidatorsStatuses statuses) s () t) :
    t.validatorStatus = (statusRows statuses).foldl (Table.upsert statusConflict) s.validatorStatus := by
  unfold saveValidatorsStatuses at h
  split at h
  · rename_i hnil
    obtain ⟨-, rfl⟩ := Eff.returns_pure.mp h
    simp [statusRows, List.length_eq_zero_iff.mp hnil]
  · obtain ⟨_, u, hval, hstatus⟩ := Eff.returns_bind.mp h
    have hu := Relation.insertNew_returns.mp (returns_sending.mp (Eff.returns_wrap.mp hval)).2
    have ht := Relation.insert_read (returns_sending.mp (Eff.returns_wrap.mp hstatus)).2
    subst hu
    exact ht

theorem saveValidatorsStatuses_write {s : Db} {statuses : List ValidatorStatus}
    (hv : ValidStatuses s statuses) (hfits : statuses.length * 4 ≤ maxParameters) :
    (Eff.exec (saveValidatorsStatuses statuses) s).2 =
      validatorStatusTable.write ((statusRows statuses).foldl (Table.upsert statusConflict)
        s.validatorStatus) (s.addValidators (statusValidators statuses)) := by
  obtain ⟨t, ht⟩ := saveValidatorsStatuses_ok hv hfits
  rw [ht.state]
  unfold saveValidatorsStatuses at ht
  split at ht
  · rename_i hnil
    obtain ⟨-, rfl⟩ := Eff.returns_pure.mp ht
    rw [List.length_eq_zero_iff.mp hnil]
    rfl
  · obtain ⟨_, u, hval, hstatus⟩ := Eff.returns_bind.mp ht
    have hu := Relation.insertNew_returns.mp (returns_sending.mp (Eff.returns_wrap.mp hval)).2
    subst hu
    exact Relation.insert_write (returns_sending.mp (Eff.returns_wrap.mp hstatus)).2

-- ---------------------------------------------------------------------------
-- Any batch
-- ---------------------------------------------------------------------------

section
variable {s : Db}

theorem saveValidatorsVotingPowers_quiet (entries : List ValidatorVotingPower) :
    Eff.Quiet (saveValidatorsVotingPowers entries) := by
  unfold saveValidatorsVotingPowers
  split
  · exact .pure
  · exact .wrap (sending_quiet Relation.insert_quiet)

theorem saveValidatorsStatuses_quiet (statuses : List ValidatorStatus) :
    Eff.Quiet (saveValidatorsStatuses statuses) := by
  unfold saveValidatorsStatuses
  split
  · exact .pure
  · refine .bind (.wrap (sending_quiet Relation.insertNew_quiet)) fun _ => ?_
    exact .wrap (sending_quiet Relation.insert_quiet)

theorem saveValidatorsVotingPowers_fixes {β : Type} {f : Db → β} {entries : List ValidatorVotingPower}
    (hf : ∀ u s, f (validatorVotingPowerTable.write u s) = f s) :
    Eff.Fixes f (saveValidatorsVotingPowers entries) := by
  unfold saveValidatorsVotingPowers
  split
  · exact .pure
  · exact .wrap (sending_fixes (Relation.insert_fixes hf))

theorem exec_saveValidatorsStatuses_validator {statuses : List ValidatorStatus}
    (hfits : statuses.length * 2 ≤ maxParameters) (s : Db) :
    (Eff.exec (saveValidatorsStatuses statuses) s).2.validator =
      (s.addValidators (statusValidators statuses)).validator := by
  unfold saveValidatorsStatuses
  split
  · rename_i hnil
    rw [List.length_eq_zero_iff.mp hnil]
    rfl
  · refine (Eff.exec_bind_of_fixes (f := Db.validator) _ (fun _ => ?_) s).trans ?_
    · exact .wrap (sending_fixes (Relation.insert_fixes fun _ _ => rfl))
    · exact congrArg Db.validator (storeStatusValidators_returns hfits s).state

theorem saveValidatorsVotingPowers_rejected {entries : List ValidatorVotingPower}
    (h : maxParameters < entries.length * 3) (s : Db) :
    Eff.Fails (saveValidatorsVotingPowers entries) s s := by
  unfold saveValidatorsVotingPowers
  rw [if_neg (by omega)]
  exact Eff.fails_wrap.mpr (sending_fails h)

theorem saveValidatorsStatuses_fixes {β : Type} {f : Db → β} {statuses : List ValidatorStatus}
    (hvalidator : ∀ u s, f (validatorTable.write u s) = f s)
    (hstatus : ∀ u s, f (validatorStatusTable.write u s) = f s) :
    Eff.Fixes f (saveValidatorsStatuses statuses) := by
  unfold saveValidatorsStatuses
  split
  · exact .pure
  · refine .bind (.wrap (sending_fixes (Relation.insertNew_fixes hvalidator))) fun _ => ?_
    exact .wrap (sending_fixes (Relation.insert_fixes hstatus))

theorem saveValidatorsStatuses_rejected {statuses : List ValidatorStatus}
    (h : maxParameters < statuses.length * 4) (s : Db) :
    (Eff.exec (saveValidatorsStatuses statuses) s).2.validatorStatus = s.validatorStatus := by
  unfold saveValidatorsStatuses
  rw [if_neg (by omega)]
  refine Eff.Fixes.bind ?_ (fun _ => ?_) s
  · exact .wrap (sending_fixes (Relation.insertNew_fixes fun _ _ => rfl))
  · intro t
    exact congrArg Db.validatorStatus (Eff.fails_wrap.mpr (sending_fails h)).state

theorem saveValidatorsVotingPowers_fails {t : Db} {entries : List ValidatorVotingPower}
    (h : Eff.Fails (saveValidatorsVotingPowers entries) s t) : t = s := by
  unfold saveValidatorsVotingPowers at h
  split at h
  · exact absurd h (Eff.fails_pure.mp ·)
  · exact Relation.sending_insert_fails (Eff.fails_wrap.mp h)

theorem saveValidatorsStatuses_fails {t : Db} {statuses : List ValidatorStatus}
    (h : Eff.Fails (saveValidatorsStatuses statuses) s t) :
    t.validatorStatus = s.validatorStatus := by
  unfold saveValidatorsStatuses at h
  split at h
  · exact absurd h (Eff.fails_pure.mp ·)
  · have hfirst : Eff.Fixes Db.validatorStatus (Eff.wrap "error while storing validators: "
        (sending (statuses.length * 2)
          (validatorTable.insertNew samePubkey (statusValidators statuses)))) :=
      .wrap (sending_fixes (Relation.insertNew_fixes fun _ _ => rfl))
    rcases Eff.fails_bind.mp h with hvalidators | ⟨_, u, hvalidators, hstatuses⟩
    · exact hfirst.of_fails hvalidators
    · obtain rfl := Relation.sending_insert_fails (Eff.fails_wrap.mp hstatuses)
      exact hfirst.of_returns hvalidators

/-- A batch is stored as a whole or not at all. -/
theorem savedPowers (entries : List ValidatorVotingPower) (s : Db) :
    (Eff.exec (saveValidatorsVotingPowers entries) s).2.validatorVotingPower =
        s.validatorVotingPower ∨
      (Eff.exec (saveValidatorsVotingPowers entries) s).2.validatorVotingPower =
        (votingPowerRows entries).foldl (Table.upsert votingPowerConflict) s.validatorVotingPower := by
  rcases Eff.returns_or_fails (saveValidatorsVotingPowers entries) s with ⟨_, hreturns⟩ | hfails
  · exact .inr (saveValidatorsVotingPowers_returns hreturns)
  · exact .inl (congrArg Db.validatorVotingPower (saveValidatorsVotingPowers_fails hfails))

theorem savedStatuses (statuses : List ValidatorStatus) (s : Db) :
    (Eff.exec (saveValidatorsStatuses statuses) s).2.validatorStatus = s.validatorStatus ∨
      (Eff.exec (saveValidatorsStatuses statuses) s).2.validatorStatus =
        (statusRows statuses).foldl (Table.upsert statusConflict) s.validatorStatus := by
  rcases Eff.returns_or_fails (saveValidatorsStatuses statuses) s with ⟨_, hreturns⟩ | hfails
  · exact .inr (saveValidatorsStatuses_returns hreturns)
  · exact .inl (saveValidatorsStatuses_fails hfails)

theorem savedPower_new {entries : List ValidatorVotingPower} {row : ValidatorVotingPowerRow}
    (hrow : row ∈ (Eff.exec (saveValidatorsVotingPowers entries) s).2.validatorVotingPower.rows) :
    row ∈ s.validatorVotingPower.rows ∨
      s.hasBlock row.height = true ∧ row ∈ votingPowerRows entries := by
  rcases Eff.returns_or_fails (saveValidatorsVotingPowers entries) s with ⟨_, hreturns⟩ | hfails
  · generalize (Eff.exec (saveValidatorsVotingPowers entries) s).2 = t at hrow hreturns
    unfold saveValidatorsVotingPowers at hreturns
    split at hreturns
    · obtain ⟨-, rfl⟩ := Eff.returns_pure.mp hreturns
      exact .inl hrow
    · have hinsert := (returns_sending.mp (Eff.returns_wrap.mp hreturns)).2
      obtain hold | hvalid := Relation.insert_valid hinsert hrow
      · exact .inl hold
      · have hblock : s.hasBlock row.height = true := by
          cases hblock : s.hasBlock row.height with
          | true => rfl
          | false =>
            cases hvalidator : s.hasValidator row.validatorAddress <;>
              simp [validatorVotingPowerTable, foreignKey, hblock, hvalidator] at hvalid
        have hread := Relation.insert_read hinsert
        exact (votingPowerConflict_guards.mem_of_upserts (hread ▸ hrow)).imp_right fun hmem =>
          ⟨hblock, hmem⟩
  · rw [saveValidatorsVotingPowers_fails hfails] at hrow
    exact .inl hrow

theorem find_saved_power {entries : List ValidatorVotingPower} {address : String}
    (h : address ∉ entries.map (·.consensusAddress)) :
    (Eff.exec (saveValidatorsVotingPowers entries) s).2.validatorVotingPower.find address =
      s.validatorVotingPower.find address := by
  obtain hsame | hwritten := savedPowers entries s
  · rw [hsame]
  · rw [hwritten]
    refine Table.find_foldl_upsert_of_not_mem votingPowerConflict s.validatorVotingPower ?_
    simpa [votingPowerRows, Function.comp_def] using h

theorem find_saved_status {statuses : List ValidatorStatus} {address : String}
    (h : address ∉ statuses.map (·.consensusAddress)) :
    (Eff.exec (saveValidatorsStatuses statuses) s).2.validatorStatus.find address =
      s.validatorStatus.find address := by
  obtain hsame | hwritten := savedStatuses statuses s
  · rw [hsame]
  · rw [hwritten]
    refine Table.find_foldl_upsert_of_not_mem statusConflict s.validatorStatus ?_
    simpa [statusRows, Function.comp_def] using h

theorem addValidators_of_stored {rows : List ValidatorRow}
    (h : ∀ row ∈ rows, s.hasValidator row.consensusAddress = true) : s.addValidators rows = s := by
  induction rows with
  | nil => rfl
  | cons row rows ih =>
    obtain ⟨hrow, hrows⟩ := List.forall_mem_cons.mp h
    have hmem : row.consensusAddress ∈ s.validator.rows.map ValidatorRow.consensusAddress := by
      by_contra hnot
      simp [Db.hasValidator, Table.find_eq_none_iff.mpr hnot] at hrow
    have hfirst : s.validator.insertNew samePubkey row = s.validator :=
      Table.insertNew_of_mem samePubkey hmem
    have hrest := ih hrows
    unfold Db.addValidators at hrest ⊢
    rw [List.foldl_cons, hfirst]
    exact hrest

theorem hasValidator_addValidators {address : String} (h : s.hasValidator address = true)
    (rows : List ValidatorRow) : (s.addValidators rows).hasValidator address = true := by
  induction rows generalizing s with
  | nil => exact h
  | cons row rows ih =>
    exact ih (s := { s with validator := s.validator.insertNew samePubkey row })
      (Table.find_insertNew_isSome h)

theorem hasValidator_saveValidatorsStatuses {address : String} (h : s.hasValidator address = true)
    (statuses : List ValidatorStatus) :
    (Eff.exec (saveValidatorsStatuses statuses) s).2.hasValidator address = true := by
  by_cases hfits : statuses.length * 2 ≤ maxParameters
  · unfold Db.hasValidator
    rw [exec_saveValidatorsStatuses_validator hfits]
    exact hasValidator_addValidators h _
  · have hunsent : Eff.Fails (saveValidatorsStatuses statuses) s s := by
      unfold saveValidatorsStatuses
      rw [if_neg (by omega)]
      exact Eff.fails_bind.mpr (.inl (Eff.fails_wrap.mpr (sending_fails (Nat.not_le.mp hfits))))
    rw [hunsent.state]
    exact h

end

-- ---------------------------------------------------------------------------
-- Supply and prices
-- ---------------------------------------------------------------------------

theorem saveSupply_ok (s : Db) (coins : List Coin) (height : Int) :
    ∃ t, Eff.Returns (saveSupply coins height) s () t :=
  ⟨_, Eff.returns_wrap.mpr (supplyConflict_guards.insert_ok (by simp) fun _ _ => rfl)⟩

theorem saveSupply_returns {s t : Db} {coins : List Coin} {height : Int}
    (h : Eff.Returns (saveSupply coins height) s () t) :
    t.supply = [⟨newDbCoins coins, height⟩].foldl (Table.upsert supplyConflict) s.supply :=
  Relation.insert_read (Eff.returns_wrap.mp h)

theorem saveTokensPrices_ok {s : Db} {prices : List TokenPrice} (hv : ValidPrices s prices)
    (hfits : prices.length * 4 ≤ maxParameters) :
    ∃ t, Eff.Returns (saveTokensPrices prices) s () t := by
  unfold saveTokensPrices
  split
  · exact ⟨s, by simp⟩
  · have hn : ((tokenPriceRows prices).map (·.unitName)).Nodup := by
      simpa [tokenPriceRows, Function.comp_def] using hv.1
    rw [sending_of_le hfits]
    refine ⟨_, Eff.returns_wrap.mpr (tokenPriceConflict_guards.insert_ok hn fun r hr => ?_)⟩
    obtain ⟨ticker, hm, rfl⟩ := List.mem_map.mp hr
    simp [tokenPriceTable, hv.2 ticker hm]

theorem saveTokensPrices_returns {s t : Db} {prices : List TokenPrice}
    (h : Eff.Returns (saveTokensPrices prices) s () t) :
    t.tokenPrice = (tokenPriceRows prices).foldl (Table.upsert tokenPriceConflict) s.tokenPrice := by
  unfold saveTokensPrices at h
  split at h
  · rename_i hnil
    obtain ⟨-, rfl⟩ := Eff.returns_pure.mp h
    simp [tokenPriceRows, List.length_eq_zero_iff.mp hnil]
  · exact Relation.insert_read (returns_sending.mp (Eff.returns_wrap.mp h)).2

/-- A call of `SaveSupply`. -/
structure SupplyCall where
  coins : List Coin
  height : Int

def SupplyCall.save (call : SupplyCall) : Eff Db Unit := saveSupply call.coins call.height

/-- From any state the four tables are registers of their guards, in all columns, for
batches that fit a statement. -/
theorem latest_state_tables (s : Db) :
    MaxRegister validatorVotingPowerTable ValidatorVotingPowerRow.height saveValidatorsVotingPowers
      (fun entries => entries.map fun entry =>
        ⟨entry.consensusAddress, entry.votingPower, entry.height⟩)
      (fun s entries => ValidVotingPowers s entries ∧ entries.length ≤ 21845) s ∧
    MaxRegister validatorStatusTable ValidatorStatusRow.height saveValidatorsStatuses
      (fun statuses => statuses.map fun status =>
        ⟨status.consensusAddress, status.status, status.jailed, status.height⟩)
      (fun s statuses => ValidStatuses s statuses ∧ statuses.length ≤ 16383) s ∧
    MaxRegister supplyTable SupplyRow.height SupplyCall.save
      (fun call => [⟨call.coins.map fun coin => ⟨coin.denom, toString coin.amount⟩, call.height⟩])
      (fun _ _ => True) s ∧
    MaxRegister tokenPriceTable TokenPriceRow.timestamp saveTokensPrices
      (fun prices => prices.map fun price =>
        ⟨price.unitName, price.price, price.marketCap, price.timestamp⟩)
      (fun s prices => ValidPrices s prices ∧ prices.length ≤ 16383) s := by
  have hthree : ∀ n : Nat, n ≤ 21845 → n * 3 ≤ maxParameters := by
    unfold maxParameters
    omega
  have hfour : ∀ n : Nat, n ≤ 16383 → n * 4 ≤ maxParameters := by
    unfold maxParameters
    omega
  refine ⟨?_, ?_, ?_, ?_⟩
  · exact maxRegister votingPowerConflict_guards
      (fun _ _ hv => saveValidatorsVotingPowers_ok hv.1 (hthree _ hv.2))
      (fun _ _ _ => saveValidatorsVotingPowers_returns) s
  · exact maxRegister statusConflict_guards
      (fun _ _ hv => saveValidatorsStatuses_ok hv.1 (hfour _ hv.2))
      (fun _ _ _ => saveValidatorsStatuses_returns) s
  · exact maxRegister supplyConflict_guards (fun call s _ => saveSupply_ok s call.coins call.height)
      (fun _ _ _ => saveSupply_returns) s
  · exact maxRegister tokenPriceConflict_guards
      (fun _ _ hv => saveTokensPrices_ok hv.1 (hfour _ hv.2))
      (fun _ _ _ => saveTokensPrices_returns) s

/-- A validator and its blocks at two heights, the higher one saved first. -/
theorem latest_state_tables_late_save :
    let s : Db := { (default : Db) with
      validator := Table.empty.upsert .ignore ⟨"val", "key"⟩
      block := (Table.empty.upsert .ignore ⟨1, 0⟩).upsert .ignore ⟨2, 0⟩ }
    ∃ t, Eff.Returns ([[⟨"val", 5, 2⟩], [⟨"val", 9, 1⟩]].forM saveValidatorsVotingPowers) s () t ∧
      t.validatorVotingPower.find "val" = some ⟨"val", 5, 2⟩ := by
  intro s
  have ha : Admissible saveValidatorsVotingPowers
      (fun s entries => ValidVotingPowers s entries ∧ entries.length ≤ 21845) s
      [[⟨"val", 5, 2⟩], [⟨"val", 9, 1⟩]] := by
    refine ⟨⟨⟨by simp, ?_⟩, by simp⟩, ⟨⟨by simp, ?_⟩, by simp⟩, trivial⟩
    · decide
    · decide
  obtain ⟨t, ht, hl, -⟩ := (latest_state_tables s).1 _ ha
  refine ⟨t, ht, (hl "val" _).mpr ⟨[], [⟨"val", 9, 1⟩], ?_, by simp, by simp⟩⟩
  decide

-- ---------------------------------------------------------------------------
-- A batch too large
-- ---------------------------------------------------------------------------

section
variable (n : Nat)

def manyAddresses : List String :=
  (List.range n).map fun i => String.ofList (List.replicate (i + 1) 'v')

theorem manyAddresses_nodup : (manyAddresses n).Nodup := by
  refine (List.nodup_range).map fun i j h => ?_
  have hlength := congrArg String.length h
  simpa using hlength

def manyValidators : Db :=
  { (default : Db) with
    validator := ⟨(manyAddresses n).map fun address => ⟨address, address⟩, by
      rw [List.map_map]
      exact (List.map_id (manyAddresses n)).symm ▸ manyAddresses_nodup n⟩
    block := Table.empty.upsert .ignore ⟨5, 0⟩ }

def manyPowers : List ValidatorVotingPower := (manyAddresses n).map fun address => ⟨address, 1, 5⟩

theorem manyPowers_valid : ValidVotingPowers (manyValidators n) (manyPowers n) := by
  refine ⟨?_, fun entry hentry => ?_⟩
  · simpa [manyPowers, Function.comp_def] using manyAddresses_nodup n
  · obtain ⟨address, haddress, rfl⟩ := List.mem_map.mp hentry
    have hrow : (⟨address, address⟩ : ValidatorRow) ∈ (manyValidators n).validator.rows :=
      List.mem_map.mpr ⟨address, haddress, rfl⟩
    have hfind : (manyValidators n).validator.find address = some ⟨address, address⟩ :=
      Table.find_of_mem hrow
    exact ⟨by simp [Db.hasValidator, hfind], rfl⟩

theorem manyPowers_not_stored (h : maxParameters < n * 3) :
    ¬Latest ValidatorVotingPowerRow.height (manyValidators n).validatorVotingPower
      (votingPowerRows (manyPowers n))
      (Eff.exec (saveValidatorsVotingPowers (manyPowers n)) (manyValidators n)).2.validatorVotingPower := by
  have hlength : (manyPowers n).length = n := by simp [manyPowers, manyAddresses]
  have hfails : Eff.Fails (saveValidatorsVotingPowers (manyPowers n)) (manyValidators n)
      (manyValidators n) := by
    refine saveValidatorsVotingPowers_rejected ?_ _
    rw [hlength]
    exact h
  intro hlatest
  rw [hfails.state] at hlatest
  obtain ⟨entry, hentry⟩ := List.exists_mem_of_length_pos (l := votingPowerRows (manyPowers n))
    (by simp only [votingPowerRows, List.length_map, hlength]; omega)
  have hsome := Table.find_foldl_upsert_isSome (c := votingPowerConflict)
    (t := (manyValidators n).validatorVotingPower) hentry
  obtain ⟨row, hfind⟩ := Option.isSome_iff_exists.mp hsome
  have hnewest := (latest_upserts votingPowerConflict_guards _ _ _ row).mp hfind
  have hstored : (manyValidators n).validatorVotingPower.find entry.validatorAddress = none := rfl
  have hfound := (hlatest _ row).mpr hnewest
  rw [hstored] at hfound
  cases hfound

end

/-- The voting powers of 21846 validators are valid, and none is stored. -/
theorem large_batch_not_stored :
    Admissible saveValidatorsVotingPowers ValidVotingPowers (manyValidators 21846)
        [manyPowers 21846] ∧
      ¬Latest ValidatorVotingPowerRow.height (manyValidators 21846).validatorVotingPower
        ((manyPowers 21846).map fun entry =>
          ⟨entry.consensusAddress, entry.votingPower, entry.height⟩)
        (Eff.exec (saveValidatorsVotingPowers (manyPowers 21846))
          (manyValidators 21846)).2.validatorVotingPower :=
  ⟨⟨manyPowers_valid 21846, trivial⟩, manyPowers_not_stored 21846 (by decide)⟩

end SafrochainIndexer.Callisto
