import SafrochainIndexer.Callisto.LatestState
import SafrochainIndexer.Callisto.Staking

/-!
# Refreshing validators

`updateValidatorStatusAndVP` fills two slices of the length of the list, and
leaves the entries of unknown validators zero. A batch with a zero entry is
rejected by the table of voting powers, and stores a validator without address
(`known_validators_refreshed_iff`). Each slice goes in one statement, which must
not have too many parameters.

An amount of tokens is read by `sdk.Int.Int64`, which panics from 2^63 on
(`tokens_stored_iff`).
-/

namespace SafrochainIndexer.Callisto.Staking

/-- What the SDK reads off a validator of the chain. -/
structure Readable (m : Module) (consAddr : StakingValidator → String)
    (consPubKey : StakingValidator → PubKey) (v : StakingValidator) : Prop where
  getConsAddr : m.getConsAddr v = .ok (consAddr v)
  getConsPubKey : m.getValidatorConsPubKey v = .ok (consPubKey v)
  address_ne : consAddr v ≠ ""

def plain (chain : Int → List StakingValidator) : Module where
  source :=
    { getValidator := fun _ operator => .error ("validator " ++ operator ++ " not found")
      getValidatorsWithStatus := fun height status =>
        .ok ((chain height).filter fun v => status = "" ∨ status = bonded ∧ v.status = 3) }
  sdk := ⟨.ok, .ok, fun _ des => .ok des⟩
  unpackPubKey key := .ok ⟨key.value, key.value⟩
  getConsAddr v := .ok v.consensusPubkey.value
  selfDelegateAddress operator := .ok operator
  queryKeyBase _ := .error "no connection"

def plainAddr (v : StakingValidator) : String := v.consensusPubkey.value

def plainKey (v : StakingValidator) : PubKey := ⟨v.consensusPubkey.value, v.consensusPubkey.value⟩

def plainValidator (key : String) (jailed : Bool) (status tokens : Int) : StakingValidator where
  operatorAddress := key
  consensusPubkey := ⟨"", key⟩
  jailed := jailed
  status := status
  tokens := tokens
  description := ⟨"", "", "", "", ""⟩
  commission := ⟨0, 0, 0⟩
  minSelfDelegation := 1

theorem plain_readable (chain : Int → List StakingValidator) {v : StakingValidator}
    (h : v.consensusPubkey.value ≠ "") : Readable (plain chain) plainAddr plainKey v := ⟨rfl, rfl, h⟩

def IsInt64 (n : Int) : Prop := -2 ^ 63 ≤ n ∧ n < 2 ^ 63

instance (n : Int) : Decidable (IsInt64 n) := inferInstanceAs (Decidable (_ ∧ _))

theorem int64_returns {n : Int} (h : IsInt64 n) (s : Db) : Eff.Returns (int64 n) s n s :=
  congrArg (Eff.exec · s) (if_pos h)

theorem int64_panics {n : Int} (h : ¬IsInt64 n) (s : Db) :
    Eff.exec (int64 n) s = (.error (.panic "Int64() out of bound"), s) :=
  congrArg (Eff.exec · s) (if_neg h)

-- ---------------------------------------------------------------------------
-- Entries
-- ---------------------------------------------------------------------------

section
variable {m : Module} {consAddr : StakingValidator → String} {consPubKey : StakingValidator → PubKey}
  {height : Int} {s t : Db} {v : StakingValidator} {validators : List StakingValidator}

def powerEntry (consAddr : StakingValidator → String) (height : Int) (v : StakingValidator) :
    ValidatorVotingPower := ⟨consAddr v, v.tokens, height⟩

def statusEntry (consAddr : StakingValidator → String) (consPubKey : StakingValidator → PubKey)
    (height : Int) (v : StakingValidator) : ValidatorStatus :=
  ⟨consAddr v, (consPubKey v).string, v.status, v.jailed, height⟩

/-- The two entries of a validator: those of an unknown one stay zero. -/
def refreshEntry (consAddr : StakingValidator → String) (consPubKey : StakingValidator → PubKey)
    (height : Int) (s : Db) (v : StakingValidator) : ValidatorVotingPower × ValidatorStatus :=
  if s.hasValidator (consAddr v) then
    (powerEntry consAddr height v, statusEntry consAddr consPubKey height v)
  else (⟨"", 0, 0⟩, ⟨"", "", 0, false, 0⟩)

theorem statusAndVP_returns (hread : Readable m consAddr consPubKey v)
    (hfits : s.hasValidator (consAddr v) = true → IsInt64 v.tokens) :
    Eff.Returns (m.statusAndVP height v) s (refreshEntry consAddr consPubKey height s v) s := by
  unfold Module.statusAndVP refreshEntry
  rw [hread.getConsAddr]
  refine Eff.returns_bind.mpr ⟨_, _, rfl, Eff.returns_bind.mpr ⟨_, _, rfl, ?_⟩⟩
  cases hknown : s.hasValidator (consAddr v) with
  | true =>
    rw [if_pos rfl, if_pos rfl, hread.getConsPubKey]
    refine Eff.returns_bind.mpr ⟨_, _, rfl, ?_⟩
    exact Eff.returns_bind.mpr ⟨_, _, int64_returns (hfits hknown) s, rfl⟩
  | false => rfl

theorem statusAndVP_panics (hread : Readable m consAddr consPubKey v)
    (hknown : s.hasValidator (consAddr v) = true) (hlarge : ¬IsInt64 v.tokens) :
    Eff.exec (m.statusAndVP height v) s = (.error (.panic "Int64() out of bound"), s) := by
  unfold Module.statusAndVP
  rw [hread.getConsAddr]
  have haddr : Eff.Returns (Eff.ofExcept (.ok (consAddr v)) : Eff Db String) s (consAddr v) s := rfl
  have hkey : Eff.Returns (Eff.ofExcept (.ok (consPubKey v)) : Eff Db PubKey) s (consPubKey v) s := rfl
  rw [haddr.exec_bind, Eff.exec_bind, Eff.exec_get]
  dsimp only
  rw [if_pos hknown, hread.getConsPubKey, hkey.exec_bind, Eff.exec_bind, int64_panics hlarge]

def refreshed (consAddr : StakingValidator → String) (consPubKey : StakingValidator → PubKey)
    (height : Int) (validators : List StakingValidator) (s : Db) : Db :=
  let entries := validators.map (refreshEntry consAddr consPubKey height s)
  (Eff.exec (saveValidatorsStatuses (entries.map Prod.snd))
    (Eff.exec (saveValidatorsVotingPowers (entries.map Prod.fst)) s).2).2

theorem update_returns (hread : ∀ v ∈ validators, Readable m consAddr consPubKey v)
    (hfits : ∀ v ∈ validators, s.hasValidator (consAddr v) = true → IsInt64 v.tokens) :
    Eff.Returns (m.updateValidatorStatusAndVP height validators) s ()
      (refreshed consAddr consPubKey height validators s) := by
  have hentries : Eff.Returns (validators.mapM (m.statusAndVP height)) s
      (validators.map (refreshEntry consAddr consPubKey height s)) s :=
    Eff.returns_mapM fun v hv => statusAndVP_returns (hread v hv) (hfits v hv)
  refine Eff.returns_bind.mpr ⟨_, _, hentries, ?_⟩
  have hpowers := (saveValidatorsVotingPowers_quiet
    ((validators.map (refreshEntry consAddr consPubKey height s)).map Prod.fst)).attempt_returns s
  exact Eff.returns_bind.mpr
    ⟨_, _, hpowers, (saveValidatorsStatuses_quiet _).attempt_returns _⟩

theorem update_panics (hread : ∀ v ∈ validators, Readable m consAddr consPubKey v)
    (hlarge : ∃ v ∈ validators, s.hasValidator (consAddr v) = true ∧ ¬IsInt64 v.tokens) :
    Eff.exec (m.updateValidatorStatusAndVP height validators) s =
      (.error (.panic "Int64() out of bound"), s) := by
  have hentries : Eff.exec (validators.mapM (m.statusAndVP height)) s =
      (.error (.panic "Int64() out of bound"), s) := by
    refine Eff.mapM_panics (fun v hv => statusAndVP_returns (hread v hv)) (fun v hv hnot => ?_) ?_
    · obtain ⟨hknown, hlarge⟩ := Classical.not_imp.mp hnot
      exact statusAndVP_panics (hread v hv) hknown hlarge
    · obtain ⟨v, hv, hknown, hlarge⟩ := hlarge
      exact ⟨v, hv, fun hfits => hlarge (hfits hknown)⟩
  unfold Module.updateValidatorStatusAndVP
  rw [Eff.exec_bind, hentries]

/-- Errors of the two save functions are logged: only an amount that is too
large ends the call early. -/
theorem update_returns_iff (hread : ∀ v ∈ validators, Readable m consAddr consPubKey v) :
    Eff.Returns (m.updateValidatorStatusAndVP height validators) s () t ↔
      (∀ v ∈ validators, s.hasValidator (consAddr v) = true → IsInt64 v.tokens) ∧
        t = refreshed consAddr consPubKey height validators s := by
  constructor
  · intro h
    have hfits : ∀ v ∈ validators, s.hasValidator (consAddr v) = true → IsInt64 v.tokens := by
      intro v hv hknown
      by_contra hlarge
      exact h.not_fails ⟨_, update_panics hread ⟨v, hv, hknown, hlarge⟩⟩
    exact ⟨hfits, (h.unique (update_returns hread hfits)).2⟩
  · rintro ⟨hfits, rfl⟩
    exact update_returns hread hfits

-- ---------------------------------------------------------------------------
-- Known validators
-- ---------------------------------------------------------------------------

def powerRow (consAddr : StakingValidator → String) (height : Int) (v : StakingValidator) :
    ValidatorVotingPowerRow := ⟨consAddr v, v.tokens, height⟩

def statusRow (consAddr : StakingValidator → String) (height : Int) (v : StakingValidator) :
    ValidatorStatusRow := ⟨consAddr v, v.status, v.jailed, height⟩

def putPowers (s : Db) (rows : List ValidatorVotingPowerRow) : Db :=
  { s with validatorVotingPower := rows.foldl (Table.upsert votingPowerConflict) s.validatorVotingPower }

def putStatuses (s : Db) (rows : List ValidatorStatusRow) : Db :=
  { s with validatorStatus := rows.foldl (Table.upsert statusConflict) s.validatorStatus }

theorem entries_of_known (hknown : ∀ v ∈ validators, s.hasValidator (consAddr v) = true) :
    validators.map (refreshEntry consAddr consPubKey height s) =
      validators.map fun v =>
        (powerEntry consAddr height v, statusEntry consAddr consPubKey height v) := by
  refine List.map_congr_left fun v hv => ?_
  rw [refreshEntry, if_pos (hknown v hv)]

theorem powers_of_known (hd : (validators.map consAddr).Nodup)
    (hknown : ∀ v ∈ validators, s.hasValidator (consAddr v) = true)
    (hblock : validators = [] ∨ s.hasBlock height = true)
    (hshort : validators.length * 3 ≤ maxParameters) :
    (Eff.exec (saveValidatorsVotingPowers (validators.map (powerEntry consAddr height))) s).2 =
      putPowers s (validators.map (powerRow consAddr height)) := by
  have hpowers : ValidVotingPowers s (validators.map (powerEntry consAddr height)) := by
    refine ⟨by simpa [powerEntry, Function.comp_def] using hd, fun entry hentry => ?_⟩
    obtain ⟨v, hv, rfl⟩ := List.mem_map.mp hentry
    exact ⟨hknown v hv, hblock.resolve_left (List.ne_nil_of_mem hv)⟩
  rw [saveValidatorsVotingPowers_write hpowers (by rwa [List.length_map]), votingPowerRows,
    List.map_map]
  rfl

theorem refreshed_of_known (hd : (validators.map consAddr).Nodup)
    (hknown : ∀ v ∈ validators, s.hasValidator (consAddr v) = true)
    (hblock : validators = [] ∨ s.hasBlock height = true)
    (hshort : validators.length * 4 ≤ maxParameters) :
    refreshed consAddr consPubKey height validators s =
      putStatuses (putPowers s (validators.map (powerRow consAddr height)))
        (validators.map (statusRow consAddr height)) := by
  let u := putPowers s (validators.map (powerRow consAddr height))
  have hstored : u.addValidators
      (statusValidators (validators.map (statusEntry consAddr consPubKey height))) = u := by
    refine addValidators_of_stored fun row hrow => ?_
    simp only [statusValidators, List.map_map, List.mem_map, Function.comp_apply] at hrow
    obtain ⟨v, hv, rfl⟩ := hrow
    exact hknown v hv
  have hstatuses : ValidStatuses u (validators.map (statusEntry consAddr consPubKey height)) := by
    refine ⟨by simpa [statusEntry, Function.comp_def] using hd, fun status hstatus => ?_⟩
    rw [hstored]
    obtain ⟨v, hv, rfl⟩ := List.mem_map.mp hstatus
    exact hknown v hv
  have hfirst := powers_of_known hd hknown hblock (by omega : validators.length * 3 ≤ maxParameters)
  have hsecond := saveValidatorsStatuses_write hstatuses (by rwa [List.length_map])
  rw [hstored, statusRows, List.map_map] at hsecond
  unfold refreshed
  simp only [entries_of_known hknown, List.map_map, Function.comp_def]
  rw [hfirst]
  exact hsecond

theorem refreshed_powers (consAddr : StakingValidator → String)
    (consPubKey : StakingValidator → PubKey) (height : Int) (validators : List StakingValidator)
    (s : Db) :
    (refreshed consAddr consPubKey height validators s).validatorVotingPower =
      (Eff.exec (saveValidatorsVotingPowers
        ((validators.map (refreshEntry consAddr consPubKey height s)).map Prod.fst))
        s).2.validatorVotingPower :=
  saveValidatorsStatuses_fixes (fun _ _ => rfl) (fun _ _ => rfl) _

theorem refreshed_powers_of_known (hd : (validators.map consAddr).Nodup)
    (hknown : ∀ v ∈ validators, s.hasValidator (consAddr v) = true)
    (hblock : validators = [] ∨ s.hasBlock height = true)
    (hshort : validators.length * 3 ≤ maxParameters) :
    (refreshed consAddr consPubKey height validators s).validatorVotingPower =
      (putPowers s (validators.map (powerRow consAddr height))).validatorVotingPower := by
  rw [refreshed_powers, entries_of_known hknown, List.map_map]
  exact congrArg Db.validatorVotingPower (powers_of_known hd hknown hblock hshort)

theorem refreshed_powers_long (hlong : maxParameters < validators.length * 3) :
    (refreshed consAddr consPubKey height validators s).validatorVotingPower =
      s.validatorVotingPower := by
  rw [refreshed_powers]
  exact congrArg Db.validatorVotingPower
    (saveValidatorsVotingPowers_rejected (by simpa only [List.length_map] using hlong) s).state

theorem refreshed_statuses_long (hlong : maxParameters < validators.length * 4) :
    (refreshed consAddr consPubKey height validators s).validatorStatus = s.validatorStatus := by
  have hpowers : Eff.Fixes Db.validatorStatus (saveValidatorsVotingPowers
      ((validators.map (refreshEntry consAddr consPubKey height s)).map Prod.fst)) :=
    saveValidatorsVotingPowers_fixes fun _ _ => rfl
  unfold refreshed
  exact (saveValidatorsStatuses_rejected (by simpa only [List.length_map] using hlong) _).trans
    (hpowers s)

structure NoNewer (consAddr : StakingValidator → String) (height : Int)
    (validators : List StakingValidator) (s : Db) : Prop where
  power : ∀ v ∈ validators, ∀ row ∈ s.validatorVotingPower.find (consAddr v), row.height ≤ height
  status : ∀ v ∈ validators, ∀ row ∈ s.validatorStatus.find (consAddr v), row.height ≤ height

/-- The rows of the known validators are those of the chain, and nothing else changes. -/
structure KnownRefreshed (consAddr : StakingValidator → String) (height : Int)
    (validators : List StakingValidator) (s t : Db) : Prop where
  power : ∀ v ∈ validators, s.hasValidator (consAddr v) = true →
    t.validatorVotingPower.find (consAddr v) = some (powerRow consAddr height v)
  status : ∀ v ∈ validators, s.hasValidator (consAddr v) = true →
    t.validatorStatus.find (consAddr v) = some (statusRow consAddr height v)
  others : ∀ address,
    (∀ v ∈ validators, s.hasValidator (consAddr v) = true → consAddr v ≠ address) →
    t.validatorVotingPower.find address = s.validatorVotingPower.find address ∧
      t.validatorStatus.find address = s.validatorStatus.find address
  validator : t.validator = s.validator

theorem put_refreshed (hd : (validators.map consAddr).Nodup)
    (hnewer : NoNewer consAddr height validators s)
    (hknown : ∀ v ∈ validators, s.hasValidator (consAddr v) = true) :
    KnownRefreshed consAddr height validators s
      (putStatuses (putPowers s (validators.map (powerRow consAddr height)))
        (validators.map (statusRow consAddr height))) := by
  have hpowers : ((validators.map (powerRow consAddr height)).map
      ValidatorVotingPowerRow.validatorAddress).Nodup := by
    simpa [powerRow, Function.comp_def] using hd
  have hstatuses : ((validators.map (statusRow consAddr height)).map
      ValidatorStatusRow.validatorAddress).Nodup := by
    simpa [statusRow, Function.comp_def] using hd
  constructor
  · intro v hv _
    exact votingPowerConflict_guards.find_upserts_of_mem hpowers (List.mem_map_of_mem hv)
      (hnewer.power v hv)
  · intro v hv _
    exact statusConflict_guards.find_upserts_of_mem hstatuses (List.mem_map_of_mem hv)
      (hnewer.status v hv)
  · intro address hother
    have hnot : address ∉ validators.map consAddr := by
      intro hmem
      obtain ⟨v, hv, he⟩ := List.mem_map.mp hmem
      exact hother v hv (hknown v hv) he
    constructor
    · refine Table.find_foldl_upsert_of_not_mem votingPowerConflict s.validatorVotingPower ?_
      simpa [powerRow, Function.comp_def] using hnot
    · refine Table.find_foldl_upsert_of_not_mem statusConflict s.validatorStatus ?_
      simpa [statusRow, Function.comp_def] using hnot
  · rfl

-- ---------------------------------------------------------------------------
-- Unknown validators
-- ---------------------------------------------------------------------------

structure Unspoiled (s : Db) : Prop where
  address_ne : ∀ row ∈ s.validator.rows, row.consensusAddress ≠ ""
  pubkey_ne : ∀ row ∈ s.validator.rows, row.consensusPubkey ≠ ""

theorem Unspoiled.no_empty (h : Unspoiled s) : s.hasValidator "" = false := by
  have hnone : s.validator.find "" = none := by
    rw [Table.find_eq_none_iff]
    intro hmem
    obtain ⟨row, hrow, he⟩ := List.mem_map.mp hmem
    exact h.address_ne row hrow he
  simp [Db.hasValidator, hnone]

theorem empty_added (h : Unspoiled s) {rows : List ValidatorRow}
    (hrows : ∀ row ∈ rows, s.hasValidator row.consensusAddress = true ∨ row = ⟨"", ""⟩)
    (hmem : (⟨"", ""⟩ : ValidatorRow) ∈ rows) : (s.addValidators rows).hasValidator "" = true := by
  obtain ⟨before, after, rfl, hfirst⟩ := List.eq_append_cons_of_mem hmem
  have hbefore : s.addValidators before = s := by
    refine addValidators_of_stored fun row hrow => ?_
    exact (hrows row (List.mem_append_left _ hrow)).resolve_right fun he => hfirst (he ▸ hrow)
  have hsplit : s.addValidators (before ++ ⟨"", ""⟩ :: after) =
      ((s.addValidators before).addValidators [⟨"", ""⟩]).addValidators after := by
    simp [Db.addValidators]
  rw [hsplit, hbefore]
  refine hasValidator_addValidators ?_ after
  have hclash : s.validator.rows.any (samePubkey ⟨"", ""⟩) = false := by
    simp only [List.any_eq_false, samePubkey, decide_eq_true_eq]
    exact h.pubkey_ne
  have hinsert : s.validator.insertNew samePubkey ⟨"", ""⟩ =
      s.validator.upsert .ignore ⟨"", ""⟩ := by
    simp [Table.insertNew, hclash]
  have hfind := Table.find_upsert_same .ignore s.validator ⟨"", ""⟩
  simp [Db.hasValidator, Db.addValidators, hinsert, hfind]

theorem refreshed_validator (hshort : validators.length * 2 ≤ maxParameters) :
    (refreshed consAddr consPubKey height validators s).validator =
      (s.addValidators (statusValidators
        ((validators.map (refreshEntry consAddr consPubKey height s)).map Prod.snd))).validator := by
  unfold refreshed
  rw [exec_saveValidatorsStatuses_validator (by simpa only [List.length_map] using hshort)]
  have hfixes : Eff.Fixes Db.validator (saveValidatorsVotingPowers
      ((validators.map (refreshEntry consAddr consPubKey height s)).map Prod.fst)) :=
    saveValidatorsVotingPowers_fixes fun _ _ => rfl
  simp only [Db.addValidators, hfixes s]

theorem refreshed_of_unknown (h : Unspoiled s) (hshort : validators.length * 2 ≤ maxParameters)
    (hv : v ∈ validators) (hunknown : s.hasValidator (consAddr v) = false) :
    (refreshed consAddr consPubKey height validators s).hasValidator "" = true := by
  unfold Db.hasValidator
  rw [refreshed_validator hshort]
  refine empty_added h (fun row hrow => ?_) ?_
  · simp only [statusValidators, List.map_map, List.mem_map, Function.comp_apply] at hrow
    obtain ⟨w, -, rfl⟩ := hrow
    cases hknown : s.hasValidator (consAddr w) with
    | true => exact .inl (by simp [refreshEntry, hknown, statusEntry])
    | false => exact .inr (by simp [refreshEntry, hknown])
  · simp only [statusValidators, List.map_map, List.mem_map, Function.comp_apply]
    exact ⟨v, hv, by simp [refreshEntry, hunknown]⟩

theorem refreshed_power {row : ValidatorVotingPowerRow}
    (hrow : row ∈ (refreshed consAddr consPubKey height validators s).validatorVotingPower.rows) :
    row ∈ s.validatorVotingPower.rows ∨ s.hasBlock row.height = true ∧
      (row = ⟨"", 0, 0⟩ ∨ ∃ v ∈ validators, row = powerRow consAddr height v) := by
  rw [refreshed_powers] at hrow
  refine (savedPower_new hrow).imp_right fun ⟨hblock, hmem⟩ => ⟨hblock, ?_⟩
  simp only [votingPowerRows, List.map_map, List.mem_map, Function.comp_apply] at hmem
  obtain ⟨v, hv, rfl⟩ := hmem
  cases hknown : s.hasValidator (consAddr v) with
  | true => exact .inr ⟨v, hv, by simp [refreshEntry, hknown, powerEntry, powerRow]⟩
  | false => exact .inl (by simp [refreshEntry, hknown])

/-- The zero entry of an unknown validator is no voting power that could be stored. -/
theorem refreshed_powers_rejected (hread : ∀ v ∈ validators, Readable m consAddr consPubKey v)
    (hblock : s.hasBlock 0 = false) (hnone : s.validatorVotingPower.find "" = none)
    (hv : v ∈ validators) (hunknown : s.hasValidator (consAddr v) = false) :
    (refreshed consAddr consPubKey height validators s).validatorVotingPower =
      s.validatorVotingPower := by
  have habsent : (refreshed consAddr consPubKey height validators s).validatorVotingPower.find "" =
      none := by
    refine Table.find_eq_none_iff.mpr fun hmem => ?_
    obtain ⟨row, hrow, hkey⟩ := List.mem_map.mp hmem
    obtain hold | ⟨hstored, rfl | ⟨w, hw, rfl⟩⟩ := refreshed_power hrow
    · exact Table.find_eq_none_iff.mp hnone (hkey ▸ List.mem_map_of_mem hold)
    · simp [hblock] at hstored
    · exact (hread w hw).address_ne hkey
  have hentry : (⟨"", 0, 0⟩ : ValidatorVotingPower) ∈
      (validators.map (refreshEntry consAddr consPubKey height s)).map Prod.fst := by
    rw [List.map_map]
    exact List.mem_map.mpr ⟨v, hv, by simp [refreshEntry, hunknown]⟩
  rw [refreshed_powers] at habsent ⊢
  obtain hsame | hwritten := savedPowers
    ((validators.map (refreshEntry consAddr consPubKey height s)).map Prod.fst) s
  · exact hsame
  · have hrow : (⟨"", 0, 0⟩ : ValidatorVotingPowerRow) ∈ votingPowerRows
        ((validators.map (refreshEntry consAddr consPubKey height s)).map Prod.fst) :=
      List.mem_map_of_mem hentry
    have hfound := Table.find_foldl_upsert_isSome (c := votingPowerConflict)
      (t := s.validatorVotingPower) hrow
    rw [← hwritten] at hfound
    change (Table.find _ "").isSome = true at hfound
    rw [habsent] at hfound
    exact absurd hfound Bool.false_ne_true

def RefreshesKnown (m : Module) (consAddr : StakingValidator → String) (height : Int)
    (validators : List StakingValidator) (s : Db) : Prop :=
  ∃ t, Eff.Returns (m.updateValidatorStatusAndVP height validators) s () t ∧
    KnownRefreshed consAddr height validators s t

structure AllKnown (consAddr : StakingValidator → String) (height : Int)
    (validators : List StakingValidator) (s : Db) : Prop where
  known : ∀ v ∈ validators, s.hasValidator (consAddr v) = true
  fits : ∀ v ∈ validators, IsInt64 v.tokens
  block : validators = [] ∨ s.hasBlock height = true
  short : validators.length * 4 ≤ maxParameters

def StatusDue (consAddr : StakingValidator → String) (height : Int)
    (validators : List StakingValidator) (s : Db) : Prop :=
  ∃ v ∈ validators, s.hasValidator (consAddr v) = true ∧
    s.validatorStatus.find (consAddr v) ≠ some (statusRow consAddr height v)

/-- A voting power of the list is still to be written. Blocks count from 1, and the
address of a voting power is not empty. -/
structure HasWork (consAddr : StakingValidator → String) (height : Int)
    (validators : List StakingValidator) (s : Db) : Prop where
  noBlock : s.hasBlock 0 = false
  noPower : s.validatorVotingPower.find "" = none
  stale : ∃ v ∈ validators, s.hasValidator (consAddr v) = true ∧
    s.validatorVotingPower.find (consAddr v) ≠ some (powerRow consAddr height v)

theorem RefreshesKnown.short (hread : ∀ v ∈ validators, Readable m consAddr consPubKey v)
    (h : RefreshesKnown m consAddr height validators s)
    (hdue : StatusDue consAddr height validators s) : validators.length * 4 ≤ maxParameters := by
  obtain ⟨t, hreturns, hrefreshed⟩ := h
  obtain ⟨-, rfl⟩ := (update_returns_iff hread).mp hreturns
  obtain ⟨v, hv, hknown, hstale⟩ := hdue
  by_contra hlong
  have hstatus := hrefreshed.status v hv hknown
  rw [refreshed_statuses_long (Nat.not_le.mp hlong)] at hstatus
  exact hstale hstatus

theorem RefreshesKnown.known (hread : ∀ v ∈ validators, Readable m consAddr consPubKey v)
    (h : RefreshesKnown m consAddr height validators s)
    (hshort : validators.length * 4 ≤ maxParameters)
    (hs : Unspoiled s ∨ HasWork consAddr height validators s) :
    ∀ v ∈ validators, s.hasValidator (consAddr v) = true := by
  obtain ⟨t, hreturns, hrefreshed⟩ := h
  obtain ⟨-, rfl⟩ := (update_returns_iff hread).mp hreturns
  intro v hv
  by_contra hnot
  have hunknown := Bool.eq_false_of_not_eq_true hnot
  cases hs with
  | inl hunspoiled =>
    have hempty : (refreshed consAddr consPubKey height validators s).hasValidator "" = true :=
      refreshed_of_unknown hunspoiled (by omega) hv hunknown
    have hnone := hunspoiled.no_empty
    unfold Db.hasValidator at hempty hnone
    rw [hrefreshed.validator, hnone] at hempty
    exact Bool.false_ne_true hempty
  | inr hwork =>
    obtain ⟨w, hw, hknown, hstale⟩ := hwork.stale
    have hpower := hrefreshed.power w hw hknown
    rw [refreshed_powers_rejected hread hwork.noBlock hwork.noPower hv hunknown] at hpower
    exact hstale hpower

/-- The known validators are refreshed if there are no others and the list is not
too long. A list that is too long refreshes no status that has to change; and one
with other validators refreshes none, as long as no validator without address is
stored or one of the voting powers has to change. -/
theorem known_validators_refreshed_iff (hread : ∀ v ∈ validators, Readable m consAddr consPubKey v)
    (hd : (validators.map consAddr).Nodup) (hnewer : NoNewer consAddr height validators s)
    (hforeign : ∀ row ∈ s.validatorVotingPower.rows, s.hasBlock row.height = true) :
    (AllKnown consAddr height validators s → RefreshesKnown m consAddr height validators s) ∧
    (validators.length * 4 ≤ maxParameters ∨ StatusDue consAddr height validators s →
      Unspoiled s ∨ HasWork consAddr height validators s →
        RefreshesKnown m consAddr height validators s → AllKnown consAddr height validators s) := by
  constructor
  · rintro ⟨hknown, hfits, hblock, hshort⟩
    refine ⟨_, update_returns hread fun v hv _ => hfits v hv, ?_⟩
    rw [refreshed_of_known hd hknown hblock hshort]
    exact put_refreshed hd hnewer hknown
  · intro hdue hs h
    have hshort := hdue.elim id (h.short hread)
    have hknown := h.known hread hshort hs
    obtain ⟨t, hreturns, hrefreshed⟩ := h
    obtain ⟨hfits, rfl⟩ := (update_returns_iff hread).mp hreturns
    refine ⟨hknown, fun v hv => hfits v hv (hknown v hv), ?_, hshort⟩
    cases validators with
    | nil => exact .inl rfl
    | cons v validators =>
      have hv : v ∈ v :: validators := List.mem_cons_self
      have hrow := Table.mem_of_find (hrefreshed.power v hv (hknown v hv))
      exact .inr ((refreshed_power hrow).elim (hforeign _) And.left)

end

def knownAtFive : Db :=
  { (default : Db) with
    validator := ⟨[⟨"a", "a"⟩], by decide⟩
    block := ⟨[⟨5, 0⟩], by decide⟩ }

def pairAtFive : Db :=
  { knownAtFive with
    validator := ⟨[⟨"a", "a"⟩, ⟨"b", "b"⟩], by decide⟩
    block := ⟨[⟨4, 0⟩, ⟨5, 0⟩], by decide⟩
    validatorVotingPower := ⟨[⟨"b", 8, 4⟩], by decide⟩ }

theorem known_validators_refreshed_pair :
    RefreshesKnown (plain fun _ => []) plainAddr 5
      [plainValidator "a" false 3 7, plainValidator "b" false 3 9] pairAtFive := by
  have hv : ∀ v ∈ [plainValidator "a" false 3 7, plainValidator "b" false 3 9],
      Readable (plain fun _ => []) plainAddr plainKey v :=
    List.forall_mem_cons.mpr ⟨plain_readable _ (by decide),
      List.forall_mem_singleton.mpr (plain_readable _ (by decide))⟩
  refine (known_validators_refreshed_iff hv (by decide) ⟨by decide, by decide⟩ (by decide)).1 ?_
  exact ⟨by decide, by decide, .inr (by decide), by decide⟩

/-- The voting power of `a` is not stored because `b` is unknown. -/
theorem known_validators_disturbed :
    ¬ RefreshesKnown (plain fun _ => []) plainAddr 5
      [plainValidator "a" false 3 7, plainValidator "b" false 3 9] knownAtFive := by
  rintro ⟨t, hreturns, hrefreshed⟩
  have ht := hreturns.state
  have hpower := hrefreshed.power (plainValidator "a" false 3 7) List.mem_cons_self (by decide)
  rw [← ht] at hpower
  revert hpower
  decide

-- ---------------------------------------------------------------------------
-- Amounts of tokens
-- ---------------------------------------------------------------------------

section
variable {m : Module} {consAddr : StakingValidator → String} {consPubKey : StakingValidator → PubKey}
  {height : Int} {proposalID : Nat} {s t : Db} {v : StakingValidator}
  {validators : List StakingValidator}

def snapshotOf (consAddr : StakingValidator → String) (height : Int) (proposalID : Nat)
    (v : StakingValidator) : ProposalValidatorStatusSnapshot :=
  ⟨proposalID, consAddr v, v.tokens, v.status, v.jailed, height⟩

theorem statusSnapshot_returns (hread : Readable m consAddr consPubKey v) (hfits : IsInt64 v.tokens) :
    Eff.Returns (m.statusSnapshot height proposalID v) s (snapshotOf consAddr height proposalID v) s := by
  unfold Module.statusSnapshot
  rw [hread.getConsAddr]
  exact Eff.returns_bind.mpr
    ⟨_, _, rfl, Eff.returns_bind.mpr ⟨_, _, int64_returns hfits s, rfl⟩⟩

theorem statusSnapshot_panics (hread : Readable m consAddr consPubKey v)
    (hlarge : ¬IsInt64 v.tokens) :
    Eff.exec (m.statusSnapshot height proposalID v) s =
      (.error (.panic "Int64() out of bound"), s) := by
  unfold Module.statusSnapshot
  rw [hread.getConsAddr]
  change Eff.exec (int64 v.tokens >>= _) s = _
  rw [Eff.exec_bind, int64_panics hlarge]

theorem snapshots_return (hread : ∀ v ∈ validators, Readable m consAddr consPubKey v)
    (hfits : ∀ v ∈ validators, IsInt64 v.tokens) :
    Eff.exec (m.updateProposalValidatorStatusSnapshot height proposalID validators) s =
      Eff.exec (saveProposalValidatorsStatusesSnapshots
        (validators.map (snapshotOf consAddr height proposalID))) s := by
  have hentries : Eff.Returns (validators.mapM (m.statusSnapshot height proposalID)) s
      (validators.map (snapshotOf consAddr height proposalID)) s :=
    Eff.returns_mapM fun v hv => statusSnapshot_returns (hread v hv) (hfits v hv)
  exact hentries.exec_bind _

theorem snapshots_panic (hread : ∀ v ∈ validators, Readable m consAddr consPubKey v)
    (hlarge : ∃ v ∈ validators, ¬IsInt64 v.tokens) :
    Eff.exec (m.updateProposalValidatorStatusSnapshot height proposalID validators) s =
      (.error (.panic "Int64() out of bound"), s) := by
  have hentries : Eff.exec (validators.mapM (m.statusSnapshot height proposalID)) s =
      (.error (.panic "Int64() out of bound"), s) :=
    Eff.mapM_panics (fun v hv => statusSnapshot_returns (hread v hv))
      (fun v hv => statusSnapshot_panics (hread v hv)) hlarge
  unfold Module.updateProposalValidatorStatusSnapshot
  rw [Eff.exec_bind, hentries]

theorem saveSnapshots_quiet (snapshots : List ProposalValidatorStatusSnapshot) :
    Eff.Quiet (saveProposalValidatorsStatusesSnapshots snapshots) := by
  unfold saveProposalValidatorsStatusesSnapshots
  split
  · exact .pure
  · exact .wrap (sending_quiet Relation.insert_quiet)

theorem saveSnapshots_returns {snapshots : List ProposalValidatorStatusSnapshot}
    (h : Eff.Returns (saveProposalValidatorsStatusesSnapshots snapshots) s () t) :
    t.proposalValidatorStatusSnapshot =
      (snapshots.map ProposalValidatorStatusSnapshot.row).foldl (Table.upsert snapshotConflict)
        s.proposalValidatorStatusSnapshot := by
  unfold saveProposalValidatorsStatusesSnapshots at h
  split at h
  · rename_i hnil
    obtain ⟨-, rfl⟩ := Eff.returns_pure.mp h
    simp [List.length_eq_zero_iff.mp hnil]
  · exact Relation.insert_read (returns_sending.mp (Eff.returns_wrap.mp h)).2

theorem snapshotConflict_guards :
    snapshotConflict.Guards ProposalValidatorStatusSnapshotRow.height where
  set_eq stored excluded hk := by
    cases stored; cases excluded
    simpa [snapshotConflict, ProposalValidatorStatusSnapshotRow.uniqueValidatorStatusSnapshot] using hk
  guard_iff _ _ := decide_eq_true_iff

/-- Nothing but the length of the list keeps its voting powers from being stored. -/
structure Writable (consAddr : StakingValidator → String) (height : Int)
    (validators : List StakingValidator) (s : Db) : Prop where
  known : ∀ v ∈ validators, s.hasValidator (consAddr v) = true
  block : s.hasBlock height = true
  newer : NoNewer consAddr height validators s

/-- Neither function panics, and the voting powers that they store are the tokens
of the validators. -/
structure TokensStored (m : Module) (consAddr : StakingValidator → String) (height : Int)
    (proposalID : Nat) (validators : List StakingValidator) (s : Db) : Prop where
  refresh_quiet : ∀ message,
    (Eff.exec (m.updateValidatorStatusAndVP height validators) s).1 ≠ .error (.panic message)
  snapshot_quiet : ∀ message,
    (Eff.exec (m.updateProposalValidatorStatusSnapshot height proposalID validators) s).1 ≠
      .error (.panic message)
  refresh_only : ∀ v ∈ validators, ∀ row ∈
    (Eff.exec (m.updateValidatorStatusAndVP height validators) s).2.validatorVotingPower.find
      (consAddr v),
    row.votingPower = v.tokens ∨ s.validatorVotingPower.find (consAddr v) = some row
  refresh_all : Writable consAddr height validators s → ∀ v ∈ validators,
    (Eff.exec (m.updateValidatorStatusAndVP height validators) s).2.validatorVotingPower.find
      (consAddr v) = some (powerRow consAddr height v)
  snapshot : ∀ t,
    Eff.Returns (m.updateProposalValidatorStatusSnapshot height proposalID validators) s () t →
    ∀ v ∈ validators,
    (∀ row ∈ s.proposalValidatorStatusSnapshot.find (proposalID, consAddr v), row.height ≤ height) →
    t.proposalValidatorStatusSnapshot.find (proposalID, consAddr v) =
      some (snapshotOf consAddr height proposalID v).row

theorem refreshed_power_only (hread : ∀ v ∈ validators, Readable m consAddr consPubKey v)
    (hd : (validators.map consAddr).Nodup) (hv : v ∈ validators) {row : ValidatorVotingPowerRow}
    (hrow : (refreshed consAddr consPubKey height validators s).validatorVotingPower.find
      (consAddr v) = some row) :
    row.votingPower = v.tokens ∨ s.validatorVotingPower.find (consAddr v) = some row := by
  have hkey : row.validatorAddress = consAddr v := Table.find_key hrow
  obtain hold | ⟨-, rfl | ⟨w, hw, rfl⟩⟩ := refreshed_power (Table.mem_of_find hrow)
  · exact .inr (hkey ▸ Table.find_of_mem hold)
  · exact absurd hkey.symm (hread v hv).address_ne
  · obtain rfl := List.inj_on_of_nodup_map hd hw hv hkey
    exact .inl rfl

theorem snapshots_stored (hd : (validators.map consAddr).Nodup)
    (h : Eff.Returns (saveProposalValidatorsStatusesSnapshots
      (validators.map (snapshotOf consAddr height proposalID))) s () t)
    (hv : v ∈ validators)
    (hnewer : ∀ row ∈ s.proposalValidatorStatusSnapshot.find (proposalID, consAddr v),
      row.height ≤ height) :
    t.proposalValidatorStatusSnapshot.find (proposalID, consAddr v) =
      some (snapshotOf consAddr height proposalID v).row := by
  have hkeys : ((validators.map (ProposalValidatorStatusSnapshot.row ∘
      snapshotOf consAddr height proposalID)).map
      ProposalValidatorStatusSnapshotRow.uniqueValidatorStatusSnapshot).Nodup := by
    have hpairs := hd.map (f := Prod.mk proposalID) fun a b he => congrArg Prod.snd he
    rw [List.map_map] at hpairs ⊢
    exact hpairs
  rw [saveSnapshots_returns h, List.map_map]
  exact snapshotConflict_guards.find_upserts_of_mem hkeys (List.mem_map_of_mem hv) hnewer

/-- The amounts are below 2^63, and the list is not too long where a voting power
is still to be written. -/
structure TokensFit (consAddr : StakingValidator → String) (height : Int)
    (validators : List StakingValidator) (s : Db) : Prop where
  small : ∀ v ∈ validators, v.tokens < 2 ^ 63
  short : Writable consAddr height validators s →
    (∃ v ∈ validators,
      s.validatorVotingPower.find (consAddr v) ≠ some (powerRow consAddr height v)) →
    validators.length * 3 ≤ maxParameters

/-- Exactly then are they stored. -/
theorem tokens_stored_iff (hread : ∀ v ∈ validators, Readable m consAddr consPubKey v)
    (hd : (validators.map consAddr).Nodup) (hnonneg : ∀ v ∈ validators, 0 ≤ v.tokens) :
    TokensStored m consAddr height proposalID validators s ↔
      TokensFit consAddr height validators s := by
  have hrefresh (hsmall : ∀ v ∈ validators, v.tokens < 2 ^ 63) :
      Eff.Returns (m.updateValidatorStatusAndVP height validators) s ()
        (refreshed consAddr consPubKey height validators s) :=
    update_returns hread fun v hv _ => ⟨le_trans (by decide) (hnonneg v hv), hsmall v hv⟩
  constructor
  · intro h
    have hsmall : ∀ v ∈ validators, v.tokens < 2 ^ 63 := by
      intro v hv
      by_contra hlarge
      have hpanic : Eff.exec (m.updateProposalValidatorStatusSnapshot height proposalID validators)
          s = (.error (.panic "Int64() out of bound"), s) :=
        snapshots_panic hread ⟨v, hv, fun hfits => hlarge hfits.2⟩
      exact h.snapshot_quiet _ (congrArg Prod.fst hpanic)
    refine ⟨hsmall, fun hwritable ⟨v, hv, hstale⟩ => ?_⟩
    by_contra hlong
    have hpower := h.refresh_all hwritable v hv
    rw [(hrefresh hsmall).state, refreshed_powers_long (Nat.not_le.mp hlong)] at hpower
    exact hstale hpower
  · rintro ⟨hsmall, hshort⟩
    have hfits : ∀ v ∈ validators, IsInt64 v.tokens := fun v hv =>
      ⟨le_trans (by decide) (hnonneg v hv), hsmall v hv⟩
    have hrefresh := hrefresh hsmall
    constructor
    · intro message hpanic
      rw [hrefresh] at hpanic
      cases hpanic
    · intro message
      rw [snapshots_return hread hfits]
      exact saveSnapshots_quiet _ s message
    · intro v hv row hrow
      rw [hrefresh.state] at hrow
      exact refreshed_power_only hread hd hv hrow
    · intro hwritable v hv
      rw [hrefresh.state]
      by_cases hlength : validators.length * 3 ≤ maxParameters
      · rw [refreshed_powers_of_known hd hwritable.known (.inr hwritable.block) hlength]
        exact (put_refreshed hd hwritable.newer hwritable.known).power v hv (hwritable.known v hv)
      · -- too many to be stored, so all must be there
        rw [refreshed_powers_long (Nat.not_le.mp hlength)]
        by_contra hstale
        exact hlength (hshort hwritable ⟨v, hv, hstale⟩)
    · intro t hreturns v hv hnewer
      rw [Eff.Returns, snapshots_return hread hfits] at hreturns
      exact snapshots_stored hd hreturns hv hnewer

end

/-- `a` with the largest amount that fits, next to `b`. -/
theorem tokens_stored_largest :
    TokensStored (plain fun _ => []) plainAddr 5 1
      [plainValidator "a" false 3 (2 ^ 63 - 1), plainValidator "b" false 3 9] pairAtFive := by
  have hv : ∀ v ∈ [plainValidator "a" false 3 (2 ^ 63 - 1), plainValidator "b" false 3 9],
      Readable (plain fun _ => []) plainAddr plainKey v :=
    List.forall_mem_cons.mpr ⟨plain_readable _ (by decide),
      List.forall_mem_singleton.mpr (plain_readable _ (by decide))⟩
  exact (tokens_stored_iff hv (by decide) (by decide)).mpr ⟨by decide, fun _ _ => by decide⟩

/-- Ten tokens of 18 decimals end both functions, and nothing of `b` is stored. -/
theorem tokens_of_18_decimals :
    ¬ TokensStored (plain fun _ => []) plainAddr 5 1
      [plainValidator "b" false 3 1, plainValidator "a" false 3 (10 * 10 ^ 18)] knownAtFive := by
  intro h
  refine h.snapshot_quiet "Int64() out of bound" ?_
  decide

end SafrochainIndexer.Callisto.Staking
