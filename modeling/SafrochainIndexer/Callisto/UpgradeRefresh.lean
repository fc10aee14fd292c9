import SafrochainIndexer.Callisto.StakingRuns
import SafrochainIndexer.Callisto.Upgrade

/-!
# Refreshes of all validators

`RefreshAllValidatorInfos` of the staking module, which the command for validators runs,
and the upgrade module at the height of a plan. It asks for the validators of the height,
and then for each of them once more.

`upgrade_refreshed_iff` says when the block of an upgrade succeeds, and what it stores.
One that fails keeps its plan.
-/

namespace SafrochainIndexer.Callisto.Staking

/-- One round of the loop of `refreshAllValidatorInfos`. -/
def Module.refreshListed (m : Module) (height : Int) (validator : StakingValidator) : Eff Db Unit :=
  Eff.wrap "error while refreshing validator: "
    (m.refreshValidatorInfos height validator.operatorAddress)

def Module.refreshAllValidatorInfos (m : Module) (height : Int) : Eff Db Unit := do
  let validators ← Eff.wrap "error while getting validators: "
    (Eff.ofExcept (m.source.getValidatorsWithStatus height ""))
  validators.forM (m.refreshListed height)

def Module.readOperator (m : Module) (height : Int) (valOper : String) : Option Candidate :=
  (m.source.getValidator height valOper).toOption.bind (m.candidateOfValidator height)

def Module.readListed (m : Module) (height : Int) : Option (List Candidate) :=
  (m.source.getValidatorsWithStatus height "").toOption.bind fun validators =>
    (validators.mapM fun v => (m.readOperator height v.operatorAddress).map fun c => [c]).map
      List.flatten

section
variable {m : Module} {height : Int} {s t : Db}

-- ---------------------------------------------------------------------------
-- One validator
-- ---------------------------------------------------------------------------

theorem candidateOfValidator_store {v : StakingValidator} {c : Candidate}
    (h : m.candidateOfValidator height v = some c) :
    (do
      saveValidatorsData decString [c.validator height]
      m.saveGenesisDescription height v
      m.saveGenesisCommission height v) = c.store m.sdk height := by
  obtain ⟨hdescription, hcommission⟩ := candidateOfValidator_fields h
  rw [hdescription, hcommission]
  rfl

theorem refreshValidatorInfos_reads (valOper : String) :
    Eff.ReadsThen (m.refreshValidatorInfos height valOper)
      ((m.readOperator height valOper).map fun c => [c]) (Candidate.store m.sdk height) := by
  intro s t
  unfold Module.refreshValidatorInfos Module.readOperator
  cases hsource : m.source.getValidator height valOper with
  | error message => simp [Except.toOption, Eff.returns_bind]
  | ok v =>
    constructor
    · intro h
      obtain ⟨_, _, hget, h⟩ := Eff.returns_bind.mp h
      obtain ⟨hget, rfl⟩ := Eff.returns_ofExcept.mp hget
      cases hget
      obtain ⟨validator, _, hconvert, hstore⟩ := Eff.returns_bind.mp h
      obtain ⟨hread, rfl⟩ := (convertValidator_reads v s validator _).mp (Eff.returns_wrap.mp hconvert)
      obtain ⟨c, hc, rfl⟩ := Option.map_eq_some_iff.mp hread
      refine ⟨[c], by simp [Except.toOption, hc], ?_⟩
      have hstore : Eff.Returns (c.store m.sdk height) s () t := candidateOfValidator_store hc ▸ hstore
      exact Eff.returns_forM_cons.mpr ⟨t, hstore, Eff.returns_forM_nil.mpr rfl⟩
    · rintro ⟨_, hread, hacts⟩
      obtain ⟨c, hc, rfl⟩ := Option.map_eq_some_iff.mp hread
      have hc : m.candidateOfValidator height v = some c := hc
      obtain ⟨_, hstore, hnil⟩ := Eff.returns_forM_cons.mp hacts
      obtain rfl := Eff.returns_forM_nil.mp hnil
      refine Eff.returns_bind.mpr ⟨v, s, Eff.returns_ofExcept.mpr ⟨rfl, rfl⟩, ?_⟩
      refine Eff.returns_bind.mpr ⟨c.validator height, s, Eff.returns_wrap.mpr ?_, ?_⟩
      · exact (convertValidator_reads v s _ _).mpr ⟨by rw [hc]; rfl, rfl⟩
      · rw [← candidateOfValidator_store hc] at hstore
        exact hstore

theorem refreshAllValidatorInfos_reads :
    Eff.ReadsThen (m.refreshAllValidatorInfos height) (m.readListed height)
      (Candidate.store m.sdk height) := by
  intro s t
  unfold Module.refreshAllValidatorInfos Module.readListed
  cases hsource : m.source.getValidatorsWithStatus height "" with
  | error message => simp [Except.toOption, Eff.returns_bind]
  | ok validators =>
    have hloop : Eff.ReadsThen (validators.forM (m.refreshListed height)) _
        (Candidate.store m.sdk height) :=
      Eff.returns_forM_reads (f := fun v => (m.readOperator height v.operatorAddress).map fun c => [c])
        (fun v s t => Eff.returns_wrap.trans (refreshValidatorInfos_reads v.operatorAddress s t))
        validators
    refine Iff.trans ?_ (hloop s t)
    constructor
    · intro h
      obtain ⟨_, _, hget, h⟩ := Eff.returns_bind.mp h
      obtain ⟨hget, rfl⟩ := Eff.returns_ofExcept.mp (Eff.returns_wrap.mp hget)
      cases hget
      exact h
    · intro h
      exact Eff.returns_bind.mpr
        ⟨validators, s, Eff.returns_wrap.mpr (Eff.returns_ofExcept.mpr ⟨rfl, rfl⟩), h⟩

theorem refreshAllValidatorInfos_onward (height : Int) :
    Eff.Along (Onward (· = height) False) (m.refreshAllValidatorInfos height) := by
  refine onward_bind (onward_of_fixes (.wrap .ofExcept)) fun _ _ _ _ => ?_
  exact onward_forM fun _ _ => .wrap (refreshValidatorInfos_onward (P := fun x => x = height) rfl _)

/-- All validators are within the limits, or the refresh ends at the first that is not. -/
theorem refreshAllValidatorInfos_iff {limits : DescriptionLimits} (hsdk : m.sdk.Describes limits)
    (hadmits : ∀ listed, m.readListed height = some listed → Admits m.sdk limits height s listed) :
    Eff.Returns (m.refreshAllValidatorInfos height) s () t ↔
      ∃ listed, m.readListed height = some listed ∧ (∀ c ∈ listed, c.Storable limits) ∧
        t = putCandidates height s listed listed listed := by
  rw [refreshAllValidatorInfos_reads s t]
  refine exists_congr fun listed => and_congr_right fun hread => ?_
  have hdistinct : (([] ++ listed).map Candidate.consAddr).Nodup := (hadmits listed hread).distinct
  exact (hadmits listed hread).storeAll_iff hsdk (List.Subset.refl _) hdistinct

-- ---------------------------------------------------------------------------
-- Plans
-- ---------------------------------------------------------------------------

theorem getValidatorConsensusAddress_plan (sdk : Sdk) (operator : String) :
    Eff.Fixes Db.softwareUpgradePlan (getValidatorConsensusAddress sdk operator) := by
  refine .bind .get fun s => ?_
  split
  · exact .fail
  · exact .ofExcept

theorem saveValidatorsData_plan (validators : List (Validator Int)) :
    Eff.Fixes Db.softwareUpgradePlan (saveValidatorsData decString validators) := by
  unfold saveValidatorsData
  split
  · exact .pure
  · refine .bind (.wrap (sending_fixes (Relation.insertNew_fixes fun _ _ => rfl))) fun _ => ?_
    refine .bind (.wrap (sending_fixes (Relation.insertNew_fixes fun _ _ => rfl))) fun _ => ?_
    refine .wrap (sending_fixes (.bind .get fun s => ?_))
    split
    · exact Relation.insert_fixes fun _ _ => rfl
    · exact .fail

theorem saveValidatorDescription_plan (sdk : Sdk) (description : ValidatorDescription) :
    Eff.Fixes Db.softwareUpgradePlan (saveValidatorDescription sdk description) := by
  refine .bind (getValidatorConsensusAddress_plan sdk _) fun _ => .bind .ofExcept fun _ => ?_
  refine .bind (.bind .get fun _ => .pure) fun _ => .bind .ofExcept fun _ => .wrap ?_
  exact .bind .ofExcept fun _ => Relation.insert_fixes fun _ _ => rfl

theorem saveValidatorCommission_plan (sdk : Sdk) (data : ValidatorCommission) :
    Eff.Fixes Db.softwareUpgradePlan (saveValidatorCommission sdk data) := by
  unfold saveValidatorCommission
  split
  · exact .pure
  · refine .bind (getValidatorConsensusAddress_plan sdk _) fun _ => ?_
    refine .bind (.bind .get fun _ => .pure) fun _ => .wrap ?_
    exact .bind .ofExcept fun _ => Relation.insert_fixes fun _ _ => rfl

theorem refreshAllValidatorInfos_plan (m : Module) (height : Int) :
    Eff.Fixes Db.softwareUpgradePlan (m.refreshAllValidatorInfos height) := by
  refine .bind (.wrap .ofExcept) fun validators => .forM fun v _ => .wrap ?_
  refine .bind .ofExcept fun _ => .bind (.wrap ?_) fun validator => ?_
  · refine .bind (.wrap .ofExcept) fun _ => .bind (.wrap .ofExcept) fun _ => ?_
    exact .bind .ofFallible fun _ => .pure
  · refine .bind (saveValidatorsData_plan [validator]) fun _ => ?_
    exact .bind (saveValidatorDescription_plan _ _) fun _ => saveValidatorCommission_plan _ _

def Module.forUpgrades (m : Module) : Upgrade.StakingModule where
  refreshAllValidatorInfos := m.refreshAllValidatorInfos
  refresh_fixes := refreshAllValidatorInfos_plan m

section
variable {stakingModule : Upgrade.StakingModule}

theorem checkSoftwareUpgradePlan_reached
    (hplan : ∃ row ∈ s.softwareUpgradePlan.rows, row.upgradeHeight = height) :
    Eff.Returns (checkSoftwareUpgradePlan height) s true s := by
  have hany : (s.softwareUpgradePlan.rows.any fun row => row.upgradeHeight = height) = true := by
    simpa using hplan
  refine Eff.returns_bind.mpr ⟨s, s, rfl, ?_⟩
  rw [hany]
  rfl

theorem refreshData_reached
    (hplan : ∃ row ∈ s.softwareUpgradePlan.rows, row.upgradeHeight = height) :
    Eff.exec (stakingModule.refreshDataUponSoftwareUpgrade height) s =
      Eff.exec (do
        Eff.wrap "error while refreshing validator infos upon software upgrade: "
          (stakingModule.refreshAllValidatorInfos height)
        Eff.wrap "error while truncating software upgrade plan: "
          (truncateSoftwareUpgradePlan height)) s :=
  Eff.Returns.exec_bind (Eff.returns_wrap.mpr (checkSoftwareUpgradePlan_reached hplan)) _

theorem handleBlock_reached
    (hplan : ∃ row ∈ s.softwareUpgradePlan.rows, row.upgradeHeight = height) :
    Eff.Returns (stakingModule.handleBlock height) s () t ↔
      ∃ u, Eff.Returns (stakingModule.refreshAllValidatorInfos height) s () u ∧
        t = softwareUpgradePlanTable.write
          (u.softwareUpgradePlan.delete fun row => row.upgradeHeight ≤ height) u := by
  refine Eff.returns_wrap.trans ?_
  unfold Eff.Returns
  rw [refreshData_reached hplan]
  constructor
  · intro h
    obtain ⟨_, u, hrefresh, hclear⟩ := Eff.returns_bind.mp h
    have ht := Relation.delete_returns.mp (Eff.returns_wrap.mp (Eff.returns_wrap.mp hclear))
    exact ⟨u, Eff.returns_wrap.mp hrefresh, ht.symm⟩
  · rintro ⟨u, hrefresh, rfl⟩
    refine Eff.returns_bind.mpr ⟨(), u, Eff.returns_wrap.mpr hrefresh, ?_⟩
    exact Eff.returns_wrap.mpr (Eff.returns_wrap.mpr (Relation.delete_returns.mpr rfl))

theorem handleBlock_fails
    (hplan : ∃ row ∈ s.softwareUpgradePlan.rows, row.upgradeHeight = height)
    (h : Eff.Fails (stakingModule.handleBlock height) s t) :
    Eff.Fails (stakingModule.refreshAllValidatorInfos height) s t := by
  have hfails : Eff.Fails (stakingModule.refreshDataUponSoftwareUpgrade height) s t :=
    Eff.fails_wrap.mp h
  unfold Eff.Fails at hfails
  rw [refreshData_reached hplan] at hfails
  rcases Eff.fails_bind.mp hfails with hrefresh | ⟨_, u, -, hclear⟩
  · exact Eff.fails_wrap.mp hrefresh
  · exact absurd (Eff.fails_wrap.mp (Eff.fails_wrap.mp hclear)) Eff.fails_modify.mp

end

def upgraded (height : Int) (s : Db) (listed : List Candidate) : Db :=
  softwareUpgradePlanTable.write
    (s.softwareUpgradePlan.delete fun row => row.upgradeHeight ≤ height)
    (putCandidates height s listed listed listed)

end

/-- At the height of a stored plan, for validators that fit each other and what is
stored: the block succeeds if and only if all of them can be read and each is within the
limits. It has then stored all of them, and removed the plans up to its height. A block
that fails keeps all plans, and takes no row of the staking module back. -/
theorem upgrade_refreshed_iff {m : Module} {limits : DescriptionLimits}
    (hsdk : m.sdk.Describes limits) (height : Int) (s t : Db)
    (hplan : ∃ row ∈ s.softwareUpgradePlan.rows, row.upgradeHeight = height)
    (hadmits : ∀ listed, m.readListed height = some listed → Admits m.sdk limits height s listed) :
    (Eff.Returns (m.forUpgrades.handleBlock height) s () t ↔
      ∃ listed, m.readListed height = some listed ∧ (∀ c ∈ listed, c.Storable limits) ∧
        t = upgraded height s listed) ∧
    (Eff.Fails (m.forUpgrades.handleBlock height) s t →
      t.softwareUpgradePlan = s.softwareUpgradePlan ∧ Onward (· = height) False s t) := by
  constructor
  · rw [handleBlock_reached hplan]
    constructor
    · rintro ⟨u, hrefresh, rfl⟩
      obtain ⟨listed, hread, hstorable, rfl⟩ :=
        (refreshAllValidatorInfos_iff hsdk hadmits).mp hrefresh
      exact ⟨listed, hread, hstorable, rfl⟩
    · rintro ⟨listed, hread, hstorable, rfl⟩
      exact ⟨_, (refreshAllValidatorInfos_iff hsdk hadmits).mpr ⟨listed, hread, hstorable, rfl⟩, rfl⟩
  · intro hfails
    have hrefresh : Eff.Fails (m.refreshAllValidatorInfos height) s t :=
      handleBlock_fails hplan hfails
    have honward := refreshAllValidatorInfos_onward (m := m) height s
    rw [hrefresh.state] at honward
    exact ⟨(refreshAllValidatorInfos_plan m height).of_fails hrefresh, honward⟩

def upgrading (minSelfDelegation : Int) : Module :=
  let validators := [plainValidator "a" false 3 7,
    { plainValidator "b" false 3 5 with minSelfDelegation := minSelfDelegation }]
  { plain fun _ => validators with
    source :=
      { getValidator := fun _ operator =>
          match validators.find? fun v => v.operatorAddress = operator with
          | some v => .ok v
          | none => .error "not found"
        getValidatorsWithStatus := fun _ _ => .ok validators }
    sdk := plainSdk }

def planned : Db :=
  { (default : Db) with
    softwareUpgradePlan := Table.empty.upsert .ignore ⟨1, "v2", 100, "", 5⟩ }

def upgradingListed (minSelfDelegation : Int) : List Candidate :=
  [⟨"a", "a", "a", "a", ⟨0, 0, 0⟩, 1, ⟨"", "", "", "", ""⟩, ""⟩,
    ⟨"b", "b", "b", "b", ⟨0, 0, 0⟩, minSelfDelegation, ⟨"", "", "", "", ""⟩, ""⟩]

theorem upgrading_read (n : Int) :
    (upgrading n).readListed 100 = some (upgradingListed n) := rfl

theorem upgrading_admits (n : Int) (listed : List Candidate)
    (h : (upgrading n).readListed 100 = some listed) :
    Admits (upgrading n).sdk sdkLimits 100 planned listed := by
  obtain rfl := Option.some.inj ((upgrading_read n).symm.trans h)
  exact
    { operators := by
        have hstored : planned.validatorInfo.rows = [] := rfl
        simp [hstored, upgradingListed, Candidate.infoRow, Candidate.validator, Validator.infoRow]
      keys := by
        have hstored : planned.validator.rows = [] := rfl
        simp [hstored, upgradingListed, Candidate.validator, Validator.validatorRow]
      distinct := by simp [upgradingListed]
      bech32 := fun _ _ => rfl
      trimmed := by
        have htrimmed : toNullString "a" = some "a" ∧ toNullString "b" = some "b" := by
          decide +kernel
        simpa [upgradingListed] using htrimmed
      sound := fun _ hrow => absurd hrow List.not_mem_nil }

/-- A minimum past a `BIGINT` leaves the plan, for a block at its height that is handled
once more. -/
theorem upgrade_refreshed_iff_stuck :
    Eff.Returns ((upgrading 1).forUpgrades.handleBlock 100) planned ()
        (upgraded 100 planned (upgradingListed 1)) ∧
      ∀ t, ¬Eff.Returns ((upgrading (2 ^ 63)).forUpgrades.handleBlock 100) planned () t := by
  have hplan : ∃ row ∈ planned.softwareUpgradePlan.rows, row.upgradeHeight = 100 := by decide
  constructor
  · refine (upgrade_refreshed_iff plainSdk_describes 100 planned _ hplan
      (upgrading_admits 1)).1.mpr ⟨_, upgrading_read 1, ?_, rfl⟩
    intro c hc
    rcases List.mem_cons.mp hc with rfl | hc
    · exact ⟨by decide +kernel, by decide +kernel⟩
    · obtain rfl := List.mem_singleton.mp hc
      exact ⟨by decide +kernel, by decide +kernel⟩
  · intro t h
    obtain ⟨listed, hread, hstorable, -⟩ := (upgrade_refreshed_iff plainSdk_describes 100 planned t
      hplan (upgrading_admits (2 ^ 63))).1.mp h
    obtain rfl := Option.some.inj ((upgrading_read _).symm.trans hread)
    have hlarge := (hstorable _ (List.mem_cons_of_mem _ (List.mem_singleton.mpr rfl))).bigint
    exact absurd hlarge (by decide +kernel)

end SafrochainIndexer.Callisto.Staking
