import SafrochainIndexer.Callisto.Staking
import SafrochainIndexer.Lib.Patches

/-!
# Partial updates of validators

A description with `[do-not-modify]` in a field, or a commission with one of its
two parts absent, is completed from the stored row, and the whole row is written
if its height is not below the stored one. Seen at one field, the saves are
patches under the height of the row (`Patches`), and `fields_merge_iff` says in
which orders every field ends up as its highest update sets it.
-/

namespace SafrochainIndexer.Callisto

open Patches (Patch)

-- ---------------------------------------------------------------------------
-- Updates
-- ---------------------------------------------------------------------------

inductive ValidatorUpdate
  | commission (data : ValidatorCommission)
  | description (description : ValidatorDescription)
  deriving DecidableEq, Repr

namespace ValidatorUpdate

def height : ValidatorUpdate → Int
  | .commission data => data.height
  | .description des => des.height

def operator : ValidatorUpdate → String
  | .commission data => data.valAddress
  | .description des => des.operatorAddress

def save (sdk : Sdk) : ValidatorUpdate → Eff Db Unit
  | .commission data => saveValidatorCommission sdk data
  | .description des => saveValidatorDescription sdk des

def commission? : ValidatorUpdate → Option ValidatorCommission
  | .commission data => some data
  | .description _ => none

def description? : ValidatorUpdate → Option ValidatorDescription
  | .commission _ => none
  | .description des => some des

/-- The updates are applied in this order, one that fails as well as any other. -/
def applyAll (sdk : Sdk) (us : List ValidatorUpdate) (s : Db) : Db :=
  us.foldl (fun s u => (Eff.exec (u.save sdk) s).2) s

end ValidatorUpdate

inductive DescriptionField
  | moniker
  | identity
  | avatarUrl
  | website
  | securityContact
  | details
  deriving DecidableEq, Repr

namespace DescriptionField

def text (description : ValidatorDescription) : DescriptionField → String
  | moniker => description.description.moniker
  | identity => description.description.identity
  | avatarUrl => description.avatarURL
  | website => description.description.website
  | securityContact => description.description.securityContact
  | details => description.description.details

def column (row : ValidatorDescriptionRow) : DescriptionField → Option String
  | moniker => row.moniker
  | identity => row.identity
  | avatarUrl => row.avatarUrl
  | website => row.website
  | securityContact => row.securityContact
  | details => row.details

def patch (f : DescriptionField) (description : ValidatorDescription) :
    Patch Int (Option String) where
  stamp := description.height
  sets :=
    if f.text description = doNotModifyDesc then none
    else some (toNullString (f.text description))

end DescriptionField

/-- A value of a column `BIGINT`. -/
def IsBigint (n : Int) : Prop := -2 ^ 63 ≤ n ∧ n < 2 ^ 63

instance (n : Int) : Decidable (IsBigint n) := inferInstanceAs (Decidable (_ ∧ _))

namespace ValidatorCommission

def commissionPatch (data : ValidatorCommission) : Patch Int String :=
  ⟨data.height, data.commission.map decString⟩

def minSelfDelegationPatch (data : ValidatorCommission) : Patch Int Int :=
  ⟨data.height, data.minSelfDelegation⟩

def Storable (data : ValidatorCommission) : Prop :=
  (data.commission ≠ none ∨ data.minSelfDelegation ≠ none) ∧
    ∀ n ∈ data.minSelfDelegation, IsBigint n

instance (data : ValidatorCommission) : Decidable data.Storable := inferInstanceAs (Decidable (_ ∧ _))

/-- It sets both parts. -/
def Full (data : ValidatorCommission) : Prop :=
  data.commission ≠ none ∧ data.minSelfDelegation ≠ none

instance (data : ValidatorCommission) : Decidable data.Full := inferInstanceAs (Decidable (_ ∧ _))

/-- The updates that reach the table: none does before the first full one. -/
def counted (updates : List ValidatorCommission) : List ValidatorCommission :=
  (updates.filter fun data => data.Storable).dropWhile fun data => ¬data.Full

end ValidatorCommission

def ValidatorCommission.row (data : ValidatorCommission) (consAddr : String)
    (existing : Option ValidatorCommissionRow) : Except String ValidatorCommissionRow :=
  commissionRow consAddr ((data.commission.map decString) <|> existing.map (·.commission))
    (data.minSelfDelegation <|> existing.map (·.minSelfDelegation)) data.height

/-- How many bytes the SDK lets a text of a description have. -/
structure DescriptionLimits where
  moniker : Nat
  identity : Nat
  website : Nat
  securityContact : Nat
  details : Nat
  deriving DecidableEq, Repr

structure Description.Fits (limits : DescriptionLimits) (des : Description) : Prop where
  moniker : des.moniker.utf8ByteSize ≤ limits.moniker
  identity : des.identity.utf8ByteSize ≤ limits.identity
  website : des.website.utf8ByteSize ≤ limits.website
  securityContact : des.securityContact.utf8ByteSize ≤ limits.securityContact
  details : des.details.utf8ByteSize ≤ limits.details

instance (limits : DescriptionLimits) (des : Description) : Decidable (des.Fits limits) :=
  decidable_of_iff (des.moniker.utf8ByteSize ≤ limits.moniker ∧
      des.identity.utf8ByteSize ≤ limits.identity ∧ des.website.utf8ByteSize ≤ limits.website ∧
      des.securityContact.utf8ByteSize ≤ limits.securityContact ∧
      des.details.utf8ByteSize ≤ limits.details)
    ⟨fun ⟨h1, h2, h3, h4, h5⟩ => ⟨h1, h2, h3, h4, h5⟩,
      fun h => ⟨h.moniker, h.identity, h.website, h.securityContact, h.details⟩⟩

/-- A text, unless it is `[do-not-modify]`. -/
def modified (old new : String) : String := if new = doNotModifyDesc then old else new

/-- What the SDK promises of its functions on descriptions: the first checks the
lengths, the second replaces the texts that are to be modified and checks again. -/
structure Sdk.Describes (sdk : Sdk) (limits : DescriptionLimits) : Prop where
  ensureLength_fits : ∀ des, des.Fits limits → sdk.ensureLength des = .ok des
  ensureLength_long : ∀ des, ¬des.Fits limits → ∃ message, sdk.ensureLength des = .error message
  updateDescription : ∀ existing des, sdk.updateDescription existing des = sdk.ensureLength
    { moniker := modified existing.moniker des.moniker
      identity := modified existing.identity des.identity
      website := modified existing.website des.website
      securityContact := modified existing.securityContact des.securityContact
      details := modified existing.details des.details }

/-- The validator of the operator is known under this consensus address, whose text
has no white space around it. -/
structure Registered (sdk : Sdk) (operator consAddr : String) (s : Db) : Prop where
  info : ∃ row, s.validatorInfo.rows.find? (fun row => row.operatorAddress = operator) = some row ∧
    sdk.consAddressFromBech32 row.consensusAddress = .ok consAddr
  validator : s.hasValidator consAddr = true
  trimmed : toNullString consAddr = some consAddr

theorem commissionConflict_guards : commissionConflict.Guards ValidatorCommissionRow.height where
  set_eq stored excluded hkey := by
    cases stored
    cases excluded
    cases hkey
    rfl
  guard_iff _ _ := by simp [commissionConflict]

theorem descriptionConflict_guards : descriptionConflict.Guards ValidatorDescriptionRow.height where
  set_eq stored excluded hkey := by
    cases stored
    cases excluded
    cases hkey
    rfl
  guard_iff _ _ := by simp [descriptionConflict]

-- ---------------------------------------------------------------------------
-- One update
-- ---------------------------------------------------------------------------

section
variable {sdk : Sdk} {operator consAddr : String} {s : Db} (hreg : Registered sdk operator consAddr s)
include hreg

theorem getValidatorConsensusAddress_registered :
    Eff.Returns (getValidatorConsensusAddress sdk operator) s consAddr s := by
  obtain ⟨row, hrow, haddr⟩ := hreg.info
  refine Eff.returns_bind.mpr ⟨s, s, Eff.returns_get.mpr ⟨rfl, rfl⟩, ?_⟩
  simp only [hrow, haddr]
  rfl

omit hreg in
theorem commissionRow_ok {commission : Option String} {minSelfDelegation : Option Int} {height : Int}
    {row : ValidatorCommissionRow} :
    commissionRow consAddr commission minSelfDelegation height = .ok row ↔
      ∃ text n, commission = some text ∧ minSelfDelegation = some n ∧ IsBigint n ∧
        row = ⟨consAddr, text, n, height⟩ := by
  cases commission with
  | none => simp [commissionRow]
  | some text =>
    cases minSelfDelegation with
    | none => simp [commissionRow]
    | some n =>
      constructor
      · intro h
        simp only [commissionRow] at h
        split at h
        · rename_i hn
          exact ⟨text, n, rfl, rfl, hn, (Except.ok.inj h).symm⟩
        · cases h
      · rintro ⟨_, _, ⟨⟩, ⟨⟩, hn, rfl⟩
        exact if_pos hn

theorem insert_commission_returns {row : ValidatorCommissionRow}
    (hrow : row.validatorAddress = consAddr) :
    Eff.Returns (validatorCommissionTable.insert commissionConflict [row]) s ()
      (validatorCommissionTable.write (s.validatorCommission.upsert commissionConflict row) s) := by
  refine commissionConflict_guards.insert_ok (by simp) ?_
  simp [validatorCommissionTable, hrow, hreg.validator]

theorem saveValidatorCommission_state {data : ValidatorCommission}
    (hval : data.valAddress = operator) :
    (Eff.exec (saveValidatorCommission sdk data) s).2 =
      match data.row consAddr (s.validatorCommission.find consAddr) with
      | .ok row =>
        if data.minSelfDelegation = none ∧ data.commission = none then s
        else validatorCommissionTable.write (s.validatorCommission.upsert commissionConflict row) s
      | .error _ => s := by
  subst hval
  unfold saveValidatorCommission
  by_cases hnothing : data.minSelfDelegation = none ∧ data.commission = none
  · rw [if_pos hnothing]
    simp only [hnothing, and_self, if_true, Eff.exec_pure]
    split <;> rfl
  · have hget : Eff.Returns (getValidatorCommission consAddr) s
        (s.validatorCommission.find consAddr) s := rfl
    rw [if_neg hnothing, (getValidatorConsensusAddress_registered hreg).exec_bind, hget.exec_bind,
      Eff.exec_wrap, Eff.exec_bind, Eff.exec_ofExcept]
    simp only [if_neg hnothing]
    unfold ValidatorCommission.row
    cases hrow : commissionRow consAddr _ _ data.height with
    | error message => rfl
    | ok row =>
      obtain ⟨commission, n, -, -, -, rfl⟩ := commissionRow_ok.mp hrow
      exact congrArg Prod.snd (insert_commission_returns hreg rfl)

end

-- ---------------------------------------------------------------------------
-- Commissions
-- ---------------------------------------------------------------------------

namespace ValidatorCommission

theorem counted_append (updates : List ValidatorCommission) (data : ValidatorCommission) :
    counted (updates ++ [data]) =
      if data.Storable ∧ (counted updates ≠ [] ∨ data.Full) then counted updates ++ [data]
      else counted updates := by
  unfold counted
  rw [List.filter_append, List.dropWhile_append]
  generalize (updates.filter fun data => data.Storable).dropWhile (fun data => ¬data.Full) = before
  by_cases hstorable : data.Storable
  · cases before with
    | nil => by_cases hfull : data.Full <;> simp [hstorable, hfull]
    | cons first before => simp [hstorable]
  · cases before <;> simp [hstorable]

def written (data : ValidatorCommission) (consAddr : String)
    (existing : Option ValidatorCommissionRow) : ValidatorCommissionRow where
  validatorAddress := consAddr
  commission := (data.commission.map decString).getD ((existing.map (·.commission)).getD "")
  minSelfDelegation := data.minSelfDelegation.getD ((existing.map (·.minSelfDelegation)).getD 0)
  height := data.height

theorem row_ok_iff {data : ValidatorCommission} {consAddr : String}
    {existing : Option ValidatorCommissionRow} {row : ValidatorCommissionRow}
    (hbigint : ∀ row ∈ existing, IsBigint row.minSelfDelegation) :
    (data.row consAddr existing = .ok row ∧
      ¬(data.minSelfDelegation = none ∧ data.commission = none)) ↔
    (data.Storable ∧ (existing ≠ none ∨ data.Full)) ∧ row = data.written consAddr existing := by
  obtain ⟨val, commission, minSelfDelegation, height⟩ := data
  unfold ValidatorCommission.row
  rw [commissionRow_ok]
  simp only [Storable, Full, written]
  cases commission <;> cases minSelfDelegation <;> cases existing <;>
    simp_all [eq_comm]

end ValidatorCommission

/-- The stored commission is what the counted updates make of it. -/
structure CommissionHolds (consAddr : String) (s : Db) (updates : List ValidatorCommission) :
    Prop where
  commission : (s.validatorCommission.find consAddr).map (fun row => (row.height, row.commission)) =
    Patches.run "" (updates.map ValidatorCommission.commissionPatch)
  minSelfDelegation :
    (s.validatorCommission.find consAddr).map (fun row => (row.height, row.minSelfDelegation)) =
      Patches.run 0 (updates.map ValidatorCommission.minSelfDelegationPatch)
  bigint : ∀ row ∈ s.validatorCommission.find consAddr, IsBigint row.minSelfDelegation

namespace CommissionHolds
variable {consAddr : String} {s : Db} {updates : List ValidatorCommission}

theorem stored_iff (h : CommissionHolds consAddr s updates) :
    updates ≠ [] ↔ s.validatorCommission.find consAddr ≠ none := by
  have hnone := congrArg Option.isNone h.commission
  rw [Option.isNone_map, Patches.run_isNone, List.isEmpty_map] at hnone
  rw [ne_eq, ne_eq, ← Option.isNone_iff_eq_none, hnone, List.isEmpty_iff]

theorem upsert (h : CommissionHolds consAddr s updates) {data : ValidatorCommission}
    (hrow : data.row consAddr (s.validatorCommission.find consAddr) =
      .ok (data.written consAddr (s.validatorCommission.find consAddr))) :
    CommissionHolds consAddr (validatorCommissionTable.write
      (s.validatorCommission.upsert commissionConflict
        (data.written consAddr (s.validatorCommission.find consAddr))) s)
      (updates ++ [data]) := by
  have hfind : (s.validatorCommission.upsert commissionConflict
      (data.written consAddr (s.validatorCommission.find consAddr))).find consAddr =
        some (Register.offer ValidatorCommissionRow.height (s.validatorCommission.find consAddr)
          (data.written consAddr (s.validatorCommission.find consAddr))) :=
    commissionConflict_guards.find_upsert _ rfl
  refine ⟨?_, ?_, ?_⟩
  · rw [List.map_append, List.map_singleton, Patches.run_append, ← h.commission]
    exact (congrArg _ hfind).trans (Patches.map_offer rfl rfl)
  · rw [List.map_append, List.map_singleton, Patches.run_append, ← h.minSelfDelegation]
    exact (congrArg _ hfind).trans (Patches.map_offer rfl rfl)
  · intro row hmem
    obtain rfl := Option.some.inj (hfind.symm.trans hmem)
    rcases Register.offer_eq_or ValidatorCommissionRow.height _ _ with hold | hnew
    · exact h.bigint _ hold
    · obtain ⟨_, n, -, -, hn, hwritten⟩ := commissionRow_ok.mp hrow
      rw [hnew, hwritten]
      exact hn

end CommissionHolds

theorem commissionHolds_save {sdk : Sdk} {operator consAddr : String} {s : Db}
    (hreg : Registered sdk operator consAddr s) {updates : List ValidatorCommission}
    {data : ValidatorCommission} (hval : data.valAddress = operator)
    (h : CommissionHolds consAddr s (ValidatorCommission.counted updates)) :
    CommissionHolds consAddr (Eff.exec (saveValidatorCommission sdk data) s).2
      (ValidatorCommission.counted (updates ++ [data])) := by
  rw [saveValidatorCommission_state hreg hval, ValidatorCommission.counted_append]
  by_cases hmade : data.Storable ∧ (ValidatorCommission.counted updates ≠ [] ∨ data.Full)
  · obtain ⟨hrow, hsets⟩ := (ValidatorCommission.row_ok_iff h.bigint).mpr
      ⟨hmade.imp_right (Or.imp_left h.stored_iff.mp), rfl⟩
    rw [if_pos hmade, hrow]
    simp only [if_neg hsets]
    exact h.upsert hrow
  · rw [if_neg hmade]
    cases hrow : data.row consAddr (s.validatorCommission.find consAddr) with
    | error message => exact h
    | ok row =>
      have hnothing : data.minSelfDelegation = none ∧ data.commission = none := by
        by_contra hsets
        obtain ⟨⟨hstorable, hor⟩, -⟩ := (ValidatorCommission.row_ok_iff h.bigint).mp ⟨hrow, hsets⟩
        exact hmade ⟨hstorable, hor.imp_left h.stored_iff.mpr⟩
      simp only [if_pos hnothing]
      exact h

-- ---------------------------------------------------------------------------
-- Descriptions
-- ---------------------------------------------------------------------------

theorem toNullString_ofNullString (value : String) :
    toNullString (ofNullString (toNullString value)) = toNullString value := by
  by_cases htrim : Text.trimSpace value = ""
  · simp only [toNullString, htrim, ne_eq, not_true, if_false]
    rfl
  · simp only [toNullString, ne_eq, htrim, not_false_eq_true, if_true, ofNullString, Option.getD_some,
      Text.trimSpace_trimSpace]

theorem size_ofNullString_le (value : String) :
    (ofNullString (toNullString value)).utf8ByteSize ≤ value.utf8ByteSize := by
  by_cases htrim : Text.trimSpace value = ""
  · simp [toNullString, htrim, ofNullString]
  · simpa [toNullString, htrim, ofNullString] using Text.utf8ByteSize_trimSpace_le value

/-- What `getValidatorDescription` makes of a row. -/
def ValidatorDescriptionRow.read (row : ValidatorDescriptionRow) : ValidatorDescription where
  operatorAddress := row.validatorAddress
  description :=
    { moniker := ofNullString row.moniker
      identity := ofNullString row.identity
      website := ofNullString row.website
      securityContact := ofNullString row.securityContact
      details := ofNullString row.details }
  avatarURL := ofNullString row.avatarUrl
  height := row.height

theorem DescriptionField.text_read (row : ValidatorDescriptionRow) (f : DescriptionField) :
    f.text row.read = ofNullString (f.column row) := by
  cases f <;> rfl

namespace ValidatorDescription

/-- The text of a field once it is completed from the stored row. -/
def completed (des : ValidatorDescription) (existing : Option ValidatorDescriptionRow)
    (f : DescriptionField) : String :=
  match existing with
  | none => f.text des
  | some row => modified (f.text row.read) (f.text des)

def completedDescription (des : ValidatorDescription) (existing : Option ValidatorDescriptionRow) :
    Description where
  moniker := des.completed existing .moniker
  identity := des.completed existing .identity
  website := des.completed existing .website
  securityContact := des.completed existing .securityContact
  details := des.completed existing .details

def written (des : ValidatorDescription) (consAddr : String)
    (existing : Option ValidatorDescriptionRow) : ValidatorDescriptionRow where
  validatorAddress := consAddr
  moniker := toNullString (des.completed existing .moniker)
  identity := toNullString (des.completed existing .identity)
  avatarUrl := toNullString (des.completed existing .avatarUrl)
  website := toNullString (des.completed existing .website)
  securityContact := toNullString (des.completed existing .securityContact)
  details := toNullString (des.completed existing .details)
  height := des.height

theorem column_written (des : ValidatorDescription) (consAddr : String)
    (existing : Option ValidatorDescriptionRow) (f : DescriptionField) :
    f.column (des.written consAddr existing) = toNullString (des.completed existing f) := by
  cases f <;> simp only [DescriptionField.column, written]

end ValidatorDescription

/-- A stored row that the SDK takes, without white space around its texts. -/
structure ValidatorDescriptionRow.Sound (limits : DescriptionLimits) (row : ValidatorDescriptionRow) :
    Prop where
  trimmed : ∀ f : DescriptionField, toNullString (ofNullString (f.column row)) = f.column row
  fits : row.read.description.Fits limits

theorem fits_modified {limit : Nat} {old new : String} (hold : old.utf8ByteSize ≤ limit)
    (hnew : new.utf8ByteSize ≤ limit) : (modified old new).utf8ByteSize ≤ limit := by
  unfold modified
  split
  · exact hold
  · exact hnew

theorem completed_fits {limits : DescriptionLimits} {des : ValidatorDescription}
    {existing : Option ValidatorDescriptionRow} (hfits : des.description.Fits limits)
    (hsound : ∀ row ∈ existing, row.Sound limits) :
    (des.completedDescription existing).Fits limits := by
  cases existing with
  | none => exact hfits
  | some row =>
    have hold := (hsound row rfl).fits
    exact {
      moniker := fits_modified hold.moniker hfits.moniker
      identity := fits_modified hold.identity hfits.identity
      website := fits_modified hold.website hfits.website
      securityContact := fits_modified hold.securityContact hfits.securityContact
      details := fits_modified hold.details hfits.details }

theorem written_sound {limits : DescriptionLimits} {des : ValidatorDescription} (consAddr : String)
    {existing : Option ValidatorDescriptionRow} (hfits : des.description.Fits limits)
    (hsound : ∀ row ∈ existing, row.Sound limits) : (des.written consAddr existing).Sound limits := by
  have hsize : ∀ f : DescriptionField, (f.text (des.written consAddr existing).read).utf8ByteSize ≤
      (des.completed existing f).utf8ByteSize := by
    intro f
    rw [f.text_read, des.column_written]
    exact size_ofNullString_le _
  have h := completed_fits hfits hsound
  constructor
  · intro f
    rw [des.column_written, toNullString_ofNullString]
  · exact {
      moniker := (hsize .moniker).trans h.moniker
      identity := (hsize .identity).trans h.identity
      website := (hsize .website).trans h.website
      securityContact := (hsize .securityContact).trans h.securityContact
      details := (hsize .details).trans h.details }

theorem column_patched {limits : DescriptionLimits} (des : ValidatorDescription) (consAddr : String)
    {existing : Option ValidatorDescriptionRow} (hsound : ∀ row ∈ existing, row.Sound limits)
    (f : DescriptionField) : f.column (des.written consAddr existing) =
      (f.patch des).sets.getD ((existing.map f.column).getD (toNullString doNotModifyDesc)) := by
  rw [des.column_written, DescriptionField.patch]
  by_cases hmarker : f.text des = doNotModifyDesc
  · cases existing with
    | none => simp [ValidatorDescription.completed, hmarker]
    | some row =>
      simp [ValidatorDescription.completed, hmarker, modified, f.text_read, (hsound row rfl).trimmed f]
  · cases existing with
    | none => simp [ValidatorDescription.completed, hmarker]
    | some row => simp [ValidatorDescription.completed, hmarker, modified]

section
variable {sdk : Sdk} {limits : DescriptionLimits} (hsdk : sdk.Describes limits)
include hsdk

/-- The SDK takes the completed texts, as both sides of them are within the limits. -/
theorem updateExisting_completed {des : ValidatorDescription}
    {existing : Option ValidatorDescriptionRow} (hfits : des.description.Fits limits)
    (hsound : ∀ row ∈ existing, row.Sound limits) :
    updateExisting sdk des.description des.avatarURL
      (existing.map ValidatorDescriptionRow.read) =
        .ok (des.completedDescription existing, des.completed existing .avatarUrl) := by
  have hcompleted := hsdk.ensureLength_fits _ (completed_fits hfits hsound)
  cases existing with
  | none => rfl
  | some row =>
    have hupdated := (hsdk.updateDescription row.read.description des.description).trans hcompleted
    rw [Option.map_some, updateExisting, hupdated]
    rfl

variable {operator consAddr : String} {s : Db} (hreg : Registered sdk operator consAddr s)
include hreg

theorem saveValidatorDescription_writes {des : ValidatorDescription}
    (hop : des.operatorAddress = operator) (hfits : des.description.Fits limits)
    (hsound : ∀ row ∈ s.validatorDescription.find consAddr, row.Sound limits) :
    Eff.Returns (saveValidatorDescription sdk des) s ()
      (validatorDescriptionTable.write (s.validatorDescription.upsert descriptionConflict
        (des.written consAddr (s.validatorDescription.find consAddr))) s) := by
  subst hop
  have hget : Eff.Returns (getValidatorDescription consAddr) s
      ((s.validatorDescription.find consAddr).map ValidatorDescriptionRow.read) s := rfl
  have hupdate := updateExisting_completed hsdk hfits hsound
  have hrow : descriptionRow consAddr
      (des.completedDescription (s.validatorDescription.find consAddr))
      (des.completed (s.validatorDescription.find consAddr) .avatarUrl) des.height =
        .ok (des.written consAddr (s.validatorDescription.find consAddr)) := by
    rw [descriptionRow, hreg.trimmed]
    rfl
  have hinsert : Eff.Returns (validatorDescriptionTable.insert descriptionConflict
      [des.written consAddr (s.validatorDescription.find consAddr)]) s () _ :=
    descriptionConflict_guards.insert_ok (by simp) (by
      simp [validatorDescriptionTable, ValidatorDescription.written, hreg.validator])
  refine Eff.returns_bind.mpr ⟨_, s, getValidatorConsensusAddress_registered hreg, ?_⟩
  refine Eff.returns_bind.mpr ⟨_, s,
    Eff.returns_ofExcept.mpr ⟨hsdk.ensureLength_fits _ hfits, rfl⟩, ?_⟩
  refine Eff.returns_bind.mpr ⟨_, s, hget, ?_⟩
  refine Eff.returns_bind.mpr ⟨_, s, Eff.returns_ofExcept.mpr ⟨hupdate, rfl⟩, ?_⟩
  refine Eff.returns_wrap.mpr (Eff.returns_bind.mpr ⟨_, s, Eff.returns_ofExcept.mpr ⟨hrow, rfl⟩, ?_⟩)
  exact hinsert

theorem saveValidatorDescription_state {des : ValidatorDescription}
    (hop : des.operatorAddress = operator)
    (hsound : ∀ row ∈ s.validatorDescription.find consAddr, row.Sound limits) :
    (Eff.exec (saveValidatorDescription sdk des) s).2 =
      if des.description.Fits limits then
        validatorDescriptionTable.write (s.validatorDescription.upsert descriptionConflict
          (des.written consAddr (s.validatorDescription.find consAddr))) s
      else s := by
  by_cases hfits : des.description.Fits limits
  · rw [if_pos hfits]
    exact (saveValidatorDescription_writes hsdk hreg hop hfits hsound).state
  · subst hop
    obtain ⟨message, hlong⟩ := hsdk.ensureLength_long _ hfits
    rw [if_neg hfits, saveValidatorDescription,
      (getValidatorConsensusAddress_registered hreg).exec_bind, Eff.exec_bind, Eff.exec_ofExcept,
      hlong]
    rfl

end

structure DescriptionHolds (limits : DescriptionLimits) (consAddr : String) (s : Db)
    (updates : List ValidatorDescription) : Prop where
  column : ∀ f : DescriptionField,
    (s.validatorDescription.find consAddr).map (fun row => (row.height, f.column row)) =
      Patches.run (toNullString doNotModifyDesc) (updates.map f.patch)
  sound : ∀ row ∈ s.validatorDescription.find consAddr, row.Sound limits

/-- The updates that the SDK does not refuse for their length. -/
def ValidatorDescription.counted (limits : DescriptionLimits) (updates : List ValidatorDescription) :
    List ValidatorDescription :=
  updates.filter fun des => des.description.Fits limits

section
variable {sdk : Sdk} {limits : DescriptionLimits} (hsdk : sdk.Describes limits)
  {operator consAddr : String} {s : Db} (hreg : Registered sdk operator consAddr s)
include hsdk hreg

theorem descriptionHolds_save {updates : List ValidatorDescription} {des : ValidatorDescription}
    (hop : des.operatorAddress = operator)
    (h : DescriptionHolds limits consAddr s (ValidatorDescription.counted limits updates)) :
    DescriptionHolds limits consAddr (Eff.exec (saveValidatorDescription sdk des) s).2
      (ValidatorDescription.counted limits (updates ++ [des])) := by
  rw [saveValidatorDescription_state hsdk hreg hop h.sound, ValidatorDescription.counted,
    List.filter_append]
  by_cases hfits : des.description.Fits limits
  · have hfind : (s.validatorDescription.upsert descriptionConflict
        (des.written consAddr (s.validatorDescription.find consAddr))).find consAddr =
          some (Register.offer ValidatorDescriptionRow.height (s.validatorDescription.find consAddr)
            (des.written consAddr (s.validatorDescription.find consAddr))) :=
      descriptionConflict_guards.find_upsert _ rfl
    rw [if_pos hfits, List.filter_cons_of_pos (by simpa using hfits), List.filter_nil]
    constructor
    · intro f
      have hcolumn := h.column f
      unfold ValidatorDescription.counted at hcolumn
      rw [List.map_append, List.map_singleton, Patches.run_append, ← hcolumn]
      exact (congrArg _ hfind).trans (Patches.map_offer rfl (column_patched des consAddr h.sound f))
    · intro row hmem
      obtain rfl := Option.some.inj (hfind.symm.trans hmem)
      rcases Register.offer_eq_or ValidatorDescriptionRow.height _ _ with hold | hnew
      · exact h.sound _ hold
      · rw [hnew]
        exact written_sound consAddr hfits h.sound
  · rw [if_neg hfits, List.filter_cons_of_neg (by simpa using hfits), List.filter_nil,
      List.append_nil]
    exact h

end

-- ---------------------------------------------------------------------------
-- Any order of updates
-- ---------------------------------------------------------------------------

def countedCommissions (us : List ValidatorUpdate) : List ValidatorCommission :=
  ValidatorCommission.counted (us.filterMap ValidatorUpdate.commission?)

def countedDescriptions (limits : DescriptionLimits) (us : List ValidatorUpdate) :
    List ValidatorDescription :=
  ValidatorDescription.counted limits (us.filterMap ValidatorUpdate.description?)

structure UpdatesHold (sdk : Sdk) (limits : DescriptionLimits) (operator consAddr : String) (s : Db)
    (us : List ValidatorUpdate) : Prop where
  registered : Registered sdk operator consAddr s
  commission : CommissionHolds consAddr s (countedCommissions us)
  description : DescriptionHolds limits consAddr s (countedDescriptions limits us)

theorem Registered.of_eq {sdk : Sdk} {operator consAddr : String} {s t : Db}
    (h : Registered sdk operator consAddr s) (hinfo : t.validatorInfo = s.validatorInfo)
    (hvalidator : t.validator = s.validator) : Registered sdk operator consAddr t where
  info := hinfo ▸ h.info
  validator := by
    have hval := h.validator
    unfold Db.hasValidator at hval ⊢
    rw [hvalidator, hval]
  trimmed := h.trimmed

section
variable {sdk : Sdk} {operator consAddr : String} {s : Db} (hreg : Registered sdk operator consAddr s)
include hreg

theorem saveValidatorCommission_frame {data : ValidatorCommission}
    (hval : data.valAddress = operator) :
    (Eff.exec (saveValidatorCommission sdk data) s).2.validatorInfo = s.validatorInfo ∧
      (Eff.exec (saveValidatorCommission sdk data) s).2.validator = s.validator ∧
      (Eff.exec (saveValidatorCommission sdk data) s).2.validatorDescription =
        s.validatorDescription := by
  rw [saveValidatorCommission_state hreg hval]
  split
  · split <;> exact ⟨rfl, rfl, rfl⟩
  · exact ⟨rfl, rfl, rfl⟩

theorem saveValidatorDescription_frame {limits : DescriptionLimits} (hsdk : sdk.Describes limits)
    {des : ValidatorDescription} (hop : des.operatorAddress = operator)
    (hsound : ∀ row ∈ s.validatorDescription.find consAddr, row.Sound limits) :
    (Eff.exec (saveValidatorDescription sdk des) s).2.validatorInfo = s.validatorInfo ∧
      (Eff.exec (saveValidatorDescription sdk des) s).2.validator = s.validator ∧
      (Eff.exec (saveValidatorDescription sdk des) s).2.validatorCommission =
        s.validatorCommission := by
  rw [saveValidatorDescription_state hsdk hreg hop hsound]
  split <;> exact ⟨rfl, rfl, rfl⟩

end

theorem updatesHold_save {sdk : Sdk} {limits : DescriptionLimits} (hsdk : sdk.Describes limits)
    {operator consAddr : String} {s : Db} {us : List ValidatorUpdate} {u : ValidatorUpdate}
    (hop : u.operator = operator) (h : UpdatesHold sdk limits operator consAddr s us) :
    UpdatesHold sdk limits operator consAddr (Eff.exec (u.save sdk) s).2 (us ++ [u]) := by
  cases u with
  | commission data =>
    obtain ⟨hinfo, hvalidator, hdescription⟩ := saveValidatorCommission_frame h.registered hop
    have hcommissions : countedCommissions (us ++ [.commission data]) =
        ValidatorCommission.counted (us.filterMap ValidatorUpdate.commission? ++ [data]) := by
      rw [countedCommissions, List.filterMap_append]
      rfl
    have hdescriptions : countedDescriptions limits (us ++ [.commission data]) =
        countedDescriptions limits us := by
      rw [countedDescriptions, List.filterMap_append]
      exact congrArg _ (List.append_nil _)
    refine ⟨h.registered.of_eq hinfo hvalidator, ?_, ?_⟩
    · rw [hcommissions]
      exact commissionHolds_save h.registered hop h.commission
    · rw [hdescriptions]
      exact ⟨hdescription ▸ h.description.column, hdescription ▸ h.description.sound⟩
  | description des =>
    obtain ⟨hinfo, hvalidator, hcommission⟩ :=
      saveValidatorDescription_frame h.registered hsdk hop h.description.sound
    have hcommissions : countedCommissions (us ++ [.description des]) = countedCommissions us := by
      rw [countedCommissions, List.filterMap_append]
      exact congrArg _ (List.append_nil _)
    have hdescriptions : countedDescriptions limits (us ++ [.description des]) =
        ValidatorDescription.counted limits
          (us.filterMap ValidatorUpdate.description? ++ [des]) := by
      rw [countedDescriptions, List.filterMap_append]
      rfl
    refine ⟨h.registered.of_eq hinfo hvalidator, ?_, ?_⟩
    · rw [hcommissions]
      exact ⟨hcommission ▸ h.commission.commission, hcommission ▸ h.commission.minSelfDelegation,
        hcommission ▸ h.commission.bigint⟩
    · rw [hdescriptions]
      exact descriptionHolds_save hsdk h.registered hop h.description

theorem updatesHold_applyAll {sdk : Sdk} {limits : DescriptionLimits} (hsdk : sdk.Describes limits)
    {operator consAddr : String} {s : Db} (hreg : Registered sdk operator consAddr s)
    (hcommission : s.validatorCommission.find consAddr = none)
    (hdescription : s.validatorDescription.find consAddr = none) {us : List ValidatorUpdate}
    (hop : ∀ u ∈ us, u.operator = operator) :
    UpdatesHold sdk limits operator consAddr (ValidatorUpdate.applyAll sdk us s) us := by
  induction us using List.reverseRecOn with
  | nil =>
    refine ⟨hreg, ⟨?_, ?_, ?_⟩, ⟨fun f => ?_, ?_⟩⟩
    · exact congrArg _ hcommission
    · exact congrArg _ hcommission
    · intro row hrow
      cases hcommission.symm.trans hrow
    · exact congrArg _ hdescription
    · intro row hrow
      cases hdescription.symm.trans hrow
  | append_singleton us u ih =>
    have hu := hop u (by simp)
    have hbefore := ih fun v hv => hop v (List.mem_append_left _ hv)
    rw [ValidatorUpdate.applyAll, List.foldl_append]
    exact updatesHold_save hsdk hu hbefore

/-- Every field is what the highest update says that sets it. -/
structure FieldsMerged (t : Db) (consAddr : String) (us : List ValidatorUpdate) : Prop where
  commission : Patches.Merged
    ((us.filterMap ValidatorUpdate.commission?).map ValidatorCommission.commissionPatch)
    ((t.validatorCommission.find consAddr).map (·.commission))
  minSelfDelegation : Patches.Merged
    ((us.filterMap ValidatorUpdate.commission?).map ValidatorCommission.minSelfDelegationPatch)
    ((t.validatorCommission.find consAddr).map (·.minSelfDelegation))
  description : ∀ f : DescriptionField, Patches.Merged
    ((us.filterMap ValidatorUpdate.description?).map f.patch)
    ((t.validatorDescription.find consAddr).map f.column)

/-- What the highest update says of a field is what the updates leave of it that
reach the table and come before any higher one that does. -/
structure FieldsKeptInTime (limits : DescriptionLimits) (us : List ValidatorUpdate) : Prop where
  commission : Patches.KeptInTime ""
    ((us.filterMap ValidatorUpdate.commission?).map ValidatorCommission.commissionPatch)
    ((countedCommissions us).map ValidatorCommission.commissionPatch)
  minSelfDelegation : Patches.KeptInTime 0
    ((us.filterMap ValidatorUpdate.commission?).map ValidatorCommission.minSelfDelegationPatch)
    ((countedCommissions us).map ValidatorCommission.minSelfDelegationPatch)
  description : ∀ f : DescriptionField, Patches.KeptInTime (toNullString doNotModifyDesc)
    ((us.filterMap ValidatorUpdate.description?).map f.patch)
    ((countedDescriptions limits us).map f.patch)

theorem heights_sublist {ρ : Type} {view : ValidatorUpdate → Option ρ} {height : ρ → Int}
    (hview : ∀ u r, view u = some r → height r = u.height) (us : List ValidatorUpdate) :
    ((us.filterMap view).map height).Sublist (us.map ValidatorUpdate.height) := by
  induction us with
  | nil => exact List.Sublist.refl _
  | cons u us ih =>
    cases hu : view u with
    | none =>
      rw [List.filterMap_cons_none hu]
      exact ih.cons _
    | some r =>
      rw [List.filterMap_cons_some hu, List.map_cons, List.map_cons, hview u r hu]
      exact ih.cons_cons _

theorem countedCommissions_nodup {us : List ValidatorUpdate}
    (hn : (us.map ValidatorUpdate.height).Nodup) :
    ((countedCommissions us).map ValidatorCommission.height).Nodup := by
  have hview : ∀ u data, ValidatorUpdate.commission? u = some data → data.height = u.height := by
    rintro (data | des) r hr <;> cases hr
    rfl
  have hcounted : (countedCommissions us).Sublist (us.filterMap ValidatorUpdate.commission?) :=
    (List.dropWhile_sublist _).trans List.filter_sublist
  exact (hn.sublist (heights_sublist hview us)).sublist (hcounted.map _)

theorem countedDescriptions_nodup (limits : DescriptionLimits) {us : List ValidatorUpdate}
    (hn : (us.map ValidatorUpdate.height).Nodup) :
    ((countedDescriptions limits us).map ValidatorDescription.height).Nodup := by
  have hview : ∀ u des, ValidatorUpdate.description? u = some des → des.height = u.height := by
    rintro (data | des) r hr <;> cases hr
    rfl
  exact (hn.sublist (heights_sublist hview us)).sublist (List.filter_sublist.map _)

/-- The updates of a new validator merge exactly if the highest ones are kept. -/
theorem fields_merge_iff {sdk : Sdk} {limits : DescriptionLimits} (hsdk : sdk.Describes limits)
    {operator consAddr : String} {s : Db} (hreg : Registered sdk operator consAddr s)
    (hcommission : s.validatorCommission.find consAddr = none)
    (hdescription : s.validatorDescription.find consAddr = none) {us : List ValidatorUpdate}
    (hop : ∀ u ∈ us, u.operator = operator) (hn : (us.map ValidatorUpdate.height).Nodup) :
    FieldsMerged (ValidatorUpdate.applyAll sdk us s) consAddr us ↔ FieldsKeptInTime limits us := by
  obtain ⟨-, hcommissions, hdescriptions⟩ :=
    updatesHold_applyAll hsdk hreg hcommission hdescription hop
  have hncommission := countedCommissions_nodup hn
  have hndescription := countedDescriptions_nodup limits hn
  have hrate := Patches.merged_iff ""
    ((us.filterMap ValidatorUpdate.commission?).map ValidatorCommission.commissionPatch)
    ((countedCommissions us).map ValidatorCommission.commissionPatch)
    (by simpa [Function.comp_def, ValidatorCommission.commissionPatch] using hncommission)
  have hmin := Patches.merged_iff 0
    ((us.filterMap ValidatorUpdate.commission?).map ValidatorCommission.minSelfDelegationPatch)
    ((countedCommissions us).map ValidatorCommission.minSelfDelegationPatch)
    (by simpa [Function.comp_def, ValidatorCommission.minSelfDelegationPatch] using hncommission)
  have htexts := fun f : DescriptionField => Patches.merged_iff (toNullString doNotModifyDesc)
    ((us.filterMap ValidatorUpdate.description?).map f.patch)
    ((countedDescriptions limits us).map f.patch)
    (by simpa [Function.comp_def, DescriptionField.patch] using hndescription)
  rw [← Patches.field_of_run hcommissions.commission] at hrate
  rw [← Patches.field_of_run hcommissions.minSelfDelegation] at hmin
  simp only [← Patches.field_of_run (hdescriptions.column _)] at htexts
  constructor
  · exact fun h => ⟨hrate.mp h.commission, hmin.mp h.minSelfDelegation,
      fun f => (htexts f).mp (h.description f)⟩
  · exact fun h => ⟨hrate.mpr h.commission, hmin.mpr h.minSelfDelegation,
      fun f => (htexts f).mpr (h.description f)⟩

def sdkLimits : DescriptionLimits := ⟨70, 3000, 140, 140, 280⟩

def checkLength (des : Description) : Except String Description :=
  if des.Fits sdkLimits then .ok des else .error "invalid length"

def plainSdk : Sdk where
  consAddressFromBech32 := .ok
  ensureLength := checkLength
  updateDescription existing des := checkLength
    { moniker := modified existing.moniker des.moniker
      identity := modified existing.identity des.identity
      website := modified existing.website des.website
      securityContact := modified existing.securityContact des.securityContact
      details := modified existing.details des.details }

theorem plainSdk_describes : plainSdk.Describes sdkLimits where
  ensureLength_fits _ h := if_pos h
  ensureLength_long _ h := ⟨_, if_neg h⟩
  updateDescription _ _ := rfl

def knownOperator : Db :=
  { (default : Db) with
    validator := ⟨[⟨"safrovalcons1a", "safrovalconspub1a"⟩], by decide⟩
    validatorInfo := ⟨[⟨"safrovalcons1a", "safrovaloper1a", "addr_safro1a", "0.01", "0.2", 1⟩],
      by decide⟩ }

theorem knownOperator_registered :
    Registered plainSdk "safrovaloper1a" "safrovalcons1a" knownOperator :=
  ⟨⟨_, rfl, rfl⟩, rfl, by decide +kernel⟩

def commissionOf (rate minSelfDelegation : Option Int) (height : Int) : ValidatorUpdate :=
  .commission ⟨"safrovaloper1a", rate.map (· * 10 ^ 17), minSelfDelegation, height⟩

theorem fields_merge_ascending :
    let us := [commissionOf (some 1) (some 7) 1, commissionOf (some 2) none 2,
      .description ⟨"safrovaloper1a", ⟨"node", "", "", "", ""⟩, "", 3⟩]
    FieldsMerged (ValidatorUpdate.applyAll plainSdk us knownOperator) "safrovalcons1a" us := by
  intro us
  refine (fields_merge_iff plainSdk_describes knownOperator_registered rfl rfl (by decide)
    (by decide)).mpr ⟨?_, ?_, fun f => ?_⟩
  · exact Patches.keptInTime_of_ascending (by decide)
  · exact Patches.keptInTime_of_ascending (by decide)
  · exact Patches.keptInTime_of_ascending (List.pairwise_singleton _ _)

/-- The update of height 2 comes after that of height 3 and is dropped, though it is
the highest that sets the commission. -/
theorem late_commission_lost :
    let us := [commissionOf (some 1) (some 7) 1, commissionOf none (some 8) 3,
      commissionOf (some 2) none 2]
    ¬FieldsMerged (ValidatorUpdate.applyAll plainSdk us knownOperator) "safrovalcons1a" us := by
  intro us h
  have hlost := h.commission (decString (2 * 10 ^ 17))
    ⟨⟨2, some (decString (2 * 10 ^ 17))⟩, by decide +kernel, trivial, rfl, by decide⟩
  revert hlost
  decide +kernel

end SafrochainIndexer.Callisto
