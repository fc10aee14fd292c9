import SafrochainIndexer.Callisto.LatestState
import SafrochainIndexer.Callisto.Params
import SafrochainIndexer.Callisto.Pruning
import SafrochainIndexer.Lib.Lockstep

/-!
# Pruning and the latest records

Seven tables keep one record for each key, the newest that was saved. A record
that is not saved again stays current at its old height, and pruning that
height deletes it. `current_records_kept_iff`: in a run of saves and prunings
the tables hold the current records throughout exactly when no pruning reaches
the height of one.
-/

namespace SafrochainIndexer.Callisto

inductive LatestTable
  | supply
  | inflation
  | communityPool
  | stakingPool
  | slashingParams
  | validatorStatus
  | validatorVotingPower

namespace LatestTable

def Row : LatestTable → Type
  | .supply => SupplyRow
  | .inflation => InflationRow
  | .communityPool => CommunityPoolRow
  | .stakingPool => StakingPoolRow
  | .slashingParams => ParamsRow
  | .validatorStatus => ValidatorStatusRow
  | .validatorVotingPower => ValidatorVotingPowerRow

def Key : LatestTable → Type
  | .validatorStatus | .validatorVotingPower => String
  | _ => Unit

instance : (i : LatestTable) → DecidableEq i.Key
  | .validatorStatus | .validatorVotingPower => inferInstanceAs (DecidableEq String)
  | .supply | .inflation | .communityPool | .stakingPool | .slashingParams =>
    inferInstanceAs (DecidableEq Unit)

def key : (i : LatestTable) → i.Row → i.Key
  | .supply | .inflation | .communityPool | .stakingPool | .slashingParams => oneRowId
  | .validatorStatus => ValidatorStatusRow.validatorAddress
  | .validatorVotingPower => ValidatorVotingPowerRow.validatorAddress

def stamp : (i : LatestTable) → i.Row → Int
  | .supply => SupplyRow.height
  | .inflation => InflationRow.height
  | .communityPool => CommunityPoolRow.height
  | .stakingPool => StakingPoolRow.height
  | .slashingParams => ParamsRow.height
  | .validatorStatus => ValidatorStatusRow.height
  | .validatorVotingPower => ValidatorVotingPowerRow.height

def conflict : (i : LatestTable) → Conflict i.key
  | .supply => supplyConflict
  | .inflation => inflationConflict
  | .communityPool => communityPoolConflict
  | .stakingPool => stakingPoolConflict
  | .slashingParams => paramsConflict
  | .validatorStatus => statusConflict
  | .validatorVotingPower => votingPowerConflict

def relation : (i : LatestTable) → Relation Db i.key
  | .supply => supplyTable
  | .inflation => inflationTable
  | .communityPool => communityPoolTable
  | .stakingPool => stakingPoolTable
  | .slashingParams => slashingParamsTable
  | .validatorStatus => validatorStatusTable
  | .validatorVotingPower => validatorVotingPowerTable

theorem conflict_guards : (i : LatestTable) → i.conflict.Guards i.stamp
  | .supply => supplyConflict_guards
  | .inflation => inflationConflict_guards
  | .communityPool => communityPoolConflict_guards
  | .stakingPool => stakingPoolConflict_guards
  | .slashingParams => paramsConflict_guards
  | .validatorStatus => statusConflict_guards
  | .validatorVotingPower => votingPowerConflict_guards

/-- Whether pruning gets to the table. It ends at a vote that is held back, or
else with `inflation`. -/
def prunedAt (s : Db) (height : Int) : LatestTable → Bool
  | .supply | .stakingPool | .validatorStatus | .validatorVotingPower => true
  | .inflation => (s.heldVote height).isNone
  | .communityPool | .slashingParams => false

end LatestTable

-- ---------------------------------------------------------------------------
-- Runs
-- ---------------------------------------------------------------------------

/-- `other` is any call that has nothing to do with the seven tables. -/
inductive RetentionInput
  | saveSupply (coins : List Coin) (height : Int)
  | saveInflation (inflation : String) (height : Int)
  | saveCommunityPool (coin : List DecCoin) (height : Int)
  | saveStakingPool (pool : Staking.Pool)
  | saveSlashingParams (marshal : String → Except String String) (params : String) (height : Int)
  | saveValidatorsStatuses (statuses : List ValidatorStatus)
  | saveValidatorsVotingPowers (entries : List ValidatorVotingPower)
  | other (call : Eff Db Unit)
  | prune (height : Int)

namespace RetentionInput

def call (juno : Int → Eff Db Unit) : RetentionInput → Eff Db Unit
  | .saveSupply coins height => Callisto.saveSupply coins height
  | .saveInflation inflation height => Mint.saveInflation inflation height
  | .saveCommunityPool coin height => Distribution.saveCommunityPool coin height
  | .saveStakingPool pool => Staking.saveStakingPool pool
  | .saveSlashingParams marshal params height => Slashing.saveSlashingParams marshal params height
  | .saveValidatorsStatuses statuses => Callisto.saveValidatorsStatuses statuses
  | .saveValidatorsVotingPowers entries => Callisto.saveValidatorsVotingPowers entries
  | .other call => call
  | .prune height => Callisto.prune juno height

def step (juno : Int → Eff Db Unit) (s : Db) (input : RetentionInput) : Db :=
  (Eff.exec (input.call juno) s).2

/-- Of a statement with `n` parameters, the rows that are written: all or none. -/
def fitting {ρ : Type} (n : Nat) (rows : List ρ) : List ρ := if n ≤ maxParameters then rows else []

theorem fitting_foldl {ρ κ : Type} {key : ρ → κ} [DecidableEq κ] {c : Conflict key} {t : Table key}
    {n : Nat} {rows : List ρ} : (fitting n rows).foldl (Table.upsert c) t =
      if n ≤ maxParameters then rows.foldl (Table.upsert c) t else t := by
  unfold fitting
  split <;> rfl

def saved : RetentionInput → (i : LatestTable) → List i.Row
  | .saveSupply coins height, .supply => [⟨newDbCoins coins, height⟩]
  | .saveInflation inflation height, .inflation => [⟨inflation, height⟩]
  | .saveCommunityPool coin height, .communityPool => [⟨newDbDecCoins coin, height⟩]
  | .saveStakingPool pool, .stakingPool => [pool.row]
  | .saveSlashingParams marshal params height, .slashingParams =>
    (marshal params).toOption.toList.map fun paramsBz => ⟨paramsBz, height⟩
  | .saveValidatorsStatuses statuses, .validatorStatus =>
    fitting (statuses.length * 4) (statusRows statuses)
  | .saveValidatorsVotingPowers entries, .validatorVotingPower =>
    fitting (entries.length * 3) (votingPowerRows entries)
  | _, _ => []

def Valid (s : Db) : RetentionInput → Prop
  | .saveValidatorsStatuses statuses => ValidStatuses s statuses
  | .saveValidatorsVotingPowers entries => ValidVotingPowers s entries
  | .other call => ∀ i : LatestTable, Eff.Fixes i.relation.read call
  | _ => True

def change (s : Db) : RetentionInput → (i : LatestTable) → Change i.Row
  | .prune height, i => if i.prunedAt s height then .delete (i.stamp · = height) else .upsert []
  | input, i => .upsert (input.saved i)

theorem change_saved (s : Db) (input : RetentionInput) (i : LatestTable) :
    (input.change s i).saved = input.saved i := by
  cases input with
  | prune height =>
    simp only [change]
    split <;> rfl
  | _ => rfl

end RetentionInput

-- ---------------------------------------------------------------------------
-- One input
-- ---------------------------------------------------------------------------

section
variable {s t : Db}

theorem saveSupply_write {coins : List Coin} {height : Int} :
    Eff.Returns (saveSupply coins height) s ()
      (supplyTable.write (s.supply.upsert supplyConflict ⟨newDbCoins coins, height⟩) s) :=
  Eff.returns_wrap.mpr (supplyConflict_guards.insert_ok (List.nodup_singleton _) fun _ _ => rfl)

theorem saveInflation_write {inflation : String} {height : Int} :
    Eff.Returns (Mint.saveInflation inflation height) s ()
      (inflationTable.write (s.inflation.upsert inflationConflict ⟨inflation, height⟩) s) :=
  Eff.returns_wrap.mpr (inflationConflict_guards.insert_ok (List.nodup_singleton _) fun _ _ => rfl)

theorem saveCommunityPool_write {coin : List DecCoin} {height : Int} :
    Eff.Returns (Distribution.saveCommunityPool coin height) s ()
      (communityPoolTable.write
        (s.communityPool.upsert communityPoolConflict ⟨newDbDecCoins coin, height⟩) s) :=
  Eff.returns_wrap.mpr
    (communityPoolConflict_guards.insert_ok (List.nodup_singleton _) fun _ _ => rfl)

theorem saveStakingPool_write {pool : Staking.Pool} :
    Eff.Returns (Staking.saveStakingPool pool) s ()
      (stakingPoolTable.write (s.stakingPool.upsert stakingPoolConflict pool.row) s) :=
  Eff.returns_wrap.mpr (stakingPoolConflict_guards.insert_ok (List.nodup_singleton _) fun _ _ => rfl)

theorem exec_saveSlashingParams {marshal : String → Except String String} {params : String}
    {height : Int} :
    (Eff.exec (Slashing.saveSlashingParams marshal params height) s).2 =
      slashingParamsTable.write
        (((marshal params).toOption.toList.map fun paramsBz => (⟨paramsBz, height⟩ : ParamsRow)).foldl
          (Table.upsert paramsConflict) s.slashingParams) s := by
  unfold Slashing.saveSlashingParams
  rw [Eff.exec_bind, Eff.exec_ofExcept]
  cases marshal params with
  | error message => rfl
  | ok paramsBz =>
    have hinsert : Eff.Returns
        (slashingParamsTable.insert paramsConflict [⟨paramsBz, height⟩]) s () _ :=
      paramsConflict_guards.insert_ok (List.nodup_singleton _) fun _ _ => rfl
    exact (Eff.returns_wrap.mpr hinsert).state

theorem relation_read_ofModules (i : LatestTable) (s : Db) :
    i.relation.read s.ofModules = i.relation.read s := by
  cases i <;> rfl

theorem prune_read {juno : Int → Eff Db Unit} (hj : JunoPrunes juno) (s : Db) (height : Int)
    (i : LatestTable) :
    i.relation.read (Eff.exec (prune juno height) s).2 =
      if i.prunedAt s height then (i.relation.read s).delete (i.stamp · = height)
      else i.relation.read s := by
  obtain ⟨t, ht, hsame⟩ := hj height s
  have hheld : t.heldVote height = s.heldVote height :=
    (congrArg (Db.heldVote · height) hsame :)
  have hread : i.relation.read t = i.relation.read s := by
    rw [← relation_read_ofModules, hsame, relation_read_ofModules]
  rw [exec_prune ht, ← hread]
  unfold LatestTable.prunedAt
  rw [← hheld]
  cases t.heldVote height <;> cases i <;> rfl

theorem step_read {juno : Int → Eff Db Unit} (hj : JunoPrunes juno) {input : RetentionInput}
    (hv : input.Valid s) (i : LatestTable) :
    i.relation.read (input.step juno s) =
      (input.change s i).apply i.conflict (i.relation.read s) := by
  unfold RetentionInput.step
  cases input with
  | saveSupply coins height =>
    simp only [RetentionInput.call, saveSupply_write.state]
    cases i <;> rfl
  | saveInflation inflation height =>
    simp only [RetentionInput.call, saveInflation_write.state]
    cases i <;> rfl
  | saveCommunityPool coin height =>
    simp only [RetentionInput.call, saveCommunityPool_write.state]
    cases i <;> rfl
  | saveStakingPool pool =>
    simp only [RetentionInput.call, saveStakingPool_write.state]
    cases i <;> rfl
  | saveSlashingParams marshal params height =>
    simp only [RetentionInput.call, exec_saveSlashingParams]
    cases i <;> rfl
  | saveValidatorsStatuses statuses =>
    by_cases hfits : statuses.length * 4 ≤ maxParameters
    · simp only [RetentionInput.call, saveValidatorsStatuses_write hv hfits]
      cases i with
      | validatorStatus => exact (RetentionInput.fitting_foldl.trans (if_pos hfits)).symm
      | _ => rfl
    · have hkept := saveValidatorsStatuses_rejected (Nat.lt_of_not_le hfits) s
      cases i with
      | validatorStatus => exact hkept.trans (RetentionInput.fitting_foldl.trans (if_neg hfits)).symm
      | _ => exact saveValidatorsStatuses_fixes (fun _ _ => rfl) (fun _ _ => rfl) s
  | saveValidatorsVotingPowers entries =>
    by_cases hfits : entries.length * 3 ≤ maxParameters
    · simp only [RetentionInput.call, saveValidatorsVotingPowers_write hv hfits]
      cases i with
      | validatorVotingPower => exact (RetentionInput.fitting_foldl.trans (if_pos hfits)).symm
      | _ => rfl
    · simp only [RetentionInput.call,
        (saveValidatorsVotingPowers_rejected (Nat.lt_of_not_le hfits) s).state]
      cases i with
      | validatorVotingPower => exact (RetentionInput.fitting_foldl.trans (if_neg hfits)).symm
      | _ => rfl
  | other call => exact hv i s
  | prune height =>
    refine (prune_read hj s height i).trans ?_
    simp only [RetentionInput.change]
    split <;> rfl

end

-- ---------------------------------------------------------------------------
-- Current records
-- ---------------------------------------------------------------------------

/-- Of each table and key the record of the largest height that was saved. -/
abbrev Current := (i : LatestTable) → i.Key → Option i.Row

def Current.next (current : Current) (input : RetentionInput) : Current := fun i k =>
  Register.hold i.stamp (current i k) ((input.saved i).filter fun r => i.key r = k)

def HoldsCurrent (s : Db) (current : Current) : Prop :=
  ∀ i k, (LatestTable.relation i |>.read s).find k = current i k

/-- No current record of a table that the pruning gets to has its height. -/
def SparesCurrent (s : Db) (current : Current) : RetentionInput → Prop
  | .prune height => ∀ (i : LatestTable) k r, i.prunedAt s height = true → current i k = some r →
      i.stamp r ≠ height
  | _ => True

theorem spares_change_iff (s : Db) (current : Current) (input : RetentionInput) :
    (∀ i, (input.change s i).Spares (current i)) ↔ SparesCurrent s current input := by
  cases input with
  | prune height =>
    simp only [RetentionInput.change, SparesCurrent]
    refine forall_congr' fun i => ?_
    split
    · rename_i h
      simp [Change.Spares, h]
    · rename_i h
      simp [Change.Spares, h]
  | _ => exact ⟨fun _ => trivial, fun _ _ => trivial⟩

theorem holdsCurrent_step_iff {juno : Int → Eff Db Unit} (hj : JunoPrunes juno) {s : Db}
    {current : Current} {input : RetentionInput} (h : HoldsCurrent s current)
    (hv : input.Valid s) :
    HoldsCurrent (input.step juno s) (current.next input) ↔ SparesCurrent s current input := by
  rw [← spares_change_iff]
  refine forall_congr' fun i => ?_
  have hchange := Change.find_apply_iff i.conflict_guards (h i) (input.change s i)
  rw [RetentionInput.change_saved] at hchange
  rw [step_read hj hv]
  exact hchange

/-- A run keeps the current records exactly if every pruning spares them. -/
theorem current_records_kept_iff (juno : Int → Eff Db Unit) (hj : JunoPrunes juno) (s : Db)
    (current : Current) (inputs : List RetentionInput) (hstart : HoldsCurrent s current)
    (hvalid : Lockstep.Each (fun s input => input.step juno s) Current.next
      (fun s _ input => input.Valid s) s current inputs) :
    Lockstep.Throughout (fun s input => input.step juno s) Current.next HoldsCurrent s current
        inputs ↔
      Lockstep.Each (fun s input => input.step juno s) Current.next SparesCurrent s current inputs :=
  Lockstep.throughout_iff (fun _ _ _ h hv => holdsCurrent_step_iff hj h hv) hvalid hstart

theorem holdsCurrent_default : HoldsCurrent default fun _ _ => none := by
  intro i k
  cases i <;> rfl

/-- The supply is saved again before its first height is pruned. -/
theorem current_records_kept_saved_again :
    Lockstep.Throughout (fun s input => RetentionInput.step (fun _ => pure ()) s input) Current.next
      HoldsCurrent default (fun _ _ => none)
      [.saveSupply [⟨"saf", 5⟩] 1, .saveSupply [⟨"saf", 7⟩] 2, .prune 1] := by
  have hkept := current_records_kept_iff _ junoPrunes_pure default (fun _ _ => none)
    [.saveSupply [⟨"saf", 5⟩] 1, .saveSupply [⟨"saf", 7⟩] 2, .prune 1] holdsCurrent_default
    ⟨trivial, trivial, trivial, trivial⟩
  refine hkept.mpr ⟨trivial, trivial, ?_, trivial⟩
  intro i k r hp hr
  cases i with
  | supply =>
    obtain rfl : (⟨[⟨"saf", "7"⟩], 2⟩ : SupplyRow) = r := Option.some.inj hr
    decide
  | _ => nomatch hr

/-- The supply does not change after height 1, which is pruned at height 2. -/
theorem pruning_deletes_current_supply :
    ¬Lockstep.Throughout (fun s input => RetentionInput.step (fun _ => pure ()) s input)
      Current.next HoldsCurrent default (fun _ _ => none)
      [.saveSupply [⟨"saf", 5⟩] 1, .saveInflation "0.130000000000000000" 2, .prune 1] := by
  rintro ⟨-, -, -, h⟩
  have hlost := h .supply ()
  nomatch hlost

end SafrochainIndexer.Callisto
