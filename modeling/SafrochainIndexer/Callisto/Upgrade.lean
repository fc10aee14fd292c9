import SafrochainIndexer.Callisto.GovDatabase

/-!
# The upgrade module

At the height of a stored plan the block handler refreshes the validators and
removes the plan.
-/

namespace SafrochainIndexer.Callisto.Upgrade

/-- The interface `StakingModule`. A refresh writes accounts and validators, and
no plan. -/
structure StakingModule where
  refreshAllValidatorInfos : Int → Eff Db Unit
  refresh_fixes : ∀ height, Eff.Fixes Db.softwareUpgradePlan (refreshAllValidatorInfos height)

def StakingModule.refreshDataUponSoftwareUpgrade (stakingModule : StakingModule) (height : Int) :
    Eff Db Unit := do
  let exist ← Eff.wrap "error while checking software upgrade plan existence: "
    (checkSoftwareUpgradePlan height)
  if !exist then pure ()
  else do
    Eff.wrap "error while refreshing validator infos upon software upgrade: "
      (stakingModule.refreshAllValidatorInfos height)
    Eff.wrap "error while truncating software upgrade plan: " (truncateSoftwareUpgradePlan height)

def StakingModule.handleBlock (stakingModule : StakingModule) (height : Int) : Eff Db Unit :=
  Eff.wrap "error while refreshing data upon software upgrade: "
    (stakingModule.refreshDataUponSoftwareUpgrade height)

end SafrochainIndexer.Callisto.Upgrade
