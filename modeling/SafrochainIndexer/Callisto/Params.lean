import SafrochainIndexer.Callisto.GovDatabase

/-!
# Module parameters

`UpdateParams` of five modules and `UpdateInflation` of mint: each asks the
source for a value at a height and stores it in a table of one row, as
`SaveCommunityPool` and `SaveStakingPool` do.
-/

namespace SafrochainIndexer.Callisto

def paramsConflict : Conflict (oneRowId (ρ := ParamsRow)) where
  set _ excluded := { params := excluded.params, height := excluded.height }
  guard stored excluded := stored.height ≤ excluded.height
  key_set _ _ := rfl

def inflationConflict : Conflict (oneRowId (ρ := InflationRow)) where
  set _ excluded := { value := excluded.value, height := excluded.height }
  guard stored excluded := stored.height ≤ excluded.height
  key_set _ _ := rfl

def communityPoolConflict : Conflict (oneRowId (ρ := CommunityPoolRow)) where
  set _ excluded := { coins := excluded.coins, height := excluded.height }
  guard stored excluded := stored.height ≤ excluded.height
  key_set _ _ := rfl

def stakingPoolConflict : Conflict (oneRowId (ρ := StakingPoolRow)) where
  set _ excluded :=
    { bondedTokens := excluded.bondedTokens
      notBondedTokens := excluded.notBondedTokens
      unbondingTokens := excluded.unbondingTokens
      stakedNotBondedTokens := excluded.stakedNotBondedTokens
      height := excluded.height }
  guard stored excluded := stored.height ≤ excluded.height
  key_set _ _ := rfl

/-- The parameters of one module at a height, and what `encoding/json` makes of
them. -/
structure ParamsSource where
  params : Int → Except String String
  marshal : String → Except String String

/-- What the `UpdateParams` of all modules share: `getting`, `marshaling` and
`storing` start their errors. -/
def updateParamsOf (getting marshaling storing : String)
    (table : Relation Db (oneRowId (ρ := ParamsRow))) (source : ParamsSource) (height : Int) :
    Eff Db Unit := do
  let params ← Eff.wrap getting (Eff.ofExcept (source.params height))
  let paramsBz ← Eff.wrap marshaling (Eff.ofExcept (source.marshal params))
  Eff.wrap storing (table.insert paramsConflict [⟨paramsBz, height⟩])

/-- What the `Save..Params` of the modules share. -/
def saveParamsOf (marshaling storing : String) (table : Relation Db (oneRowId (ρ := ParamsRow)))
    (marshal : String → Except String String) (params : String) (height : Int) : Eff Db Unit := do
  let paramsBz ← Eff.wrap marshaling (Eff.ofExcept (marshal params))
  Eff.wrap storing (table.insert paramsConflict [⟨paramsBz, height⟩])

namespace Distribution

def updateParams : ParamsSource → Int → Eff Db Unit :=
  updateParamsOf "error while getting params: " "error while marshaling params: "
    "error while storing distribution params: " distributionParamsTable

def saveCommunityPool (coin : List DecCoin) (height : Int) : Eff Db Unit :=
  Eff.wrap "error while storing community pool: "
    (communityPoolTable.insert communityPoolConflict [⟨newDbDecCoins coin, height⟩])

end Distribution

namespace Gov

def updateParams : ParamsSource → Int → Eff Db Unit :=
  updateParamsOf "error while getting gov params: " "error while marshalling gov params: "
    "error while storing gov params: " govParamsTable

end Gov

namespace Slashing

def updateParams : ParamsSource → Int → Eff Db Unit :=
  updateParamsOf "error while getting params: " ""
    "error while storing slashing params: " slashingParamsTable

def saveSlashingParams (marshal : String → Except String String) (params : String) (height : Int) :
    Eff Db Unit := do
  let paramsBz ← Eff.ofExcept (marshal params)
  Eff.wrap "error while storing slashing params: "
    (slashingParamsTable.insert paramsConflict [⟨paramsBz, height⟩])

end Slashing

namespace Staking

def updateParams : ParamsSource → Int → Eff Db Unit :=
  updateParamsOf "error while getting params: " "error while marshaling staking params: "
    "error while storing staking params: " stakingParamsTable

structure Pool where
  bondedTokens : Int
  notBondedTokens : Int
  unbondingTokens : Int
  stakedNotBondedTokens : Int
  height : Int
  deriving DecidableEq, Repr

def Pool.row (pool : Pool) : StakingPoolRow :=
  ⟨toString pool.bondedTokens, toString pool.notBondedTokens, toString pool.unbondingTokens,
    toString pool.stakedNotBondedTokens, pool.height⟩

def saveStakingPool (pool : Pool) : Eff Db Unit :=
  Eff.wrap "error while storing staking pool: " (stakingPoolTable.insert stakingPoolConflict [pool.row])

end Staking

namespace Mint

def updateParams : ParamsSource → Int → Eff Db Unit :=
  updateParamsOf "error while getting params: " "error while marshaling mint params: "
    "error while storing mint params: " mintParamsTable

def saveInflation (inflation : String) (height : Int) : Eff Db Unit :=
  Eff.wrap "error while storing inflation: " (inflationTable.insert inflationConflict [⟨inflation, height⟩])

def updateInflation (getInflation : Int → Except String String) : Eff Db Unit := do
  let block ← getLastBlockHeightAndTimestamp
  let inflation ← Eff.ofExcept (getInflation block.height)
  saveInflation inflation block.height

end Mint

-- ---------------------------------------------------------------------------
-- Guards
-- ---------------------------------------------------------------------------

theorem paramsConflict_guards : paramsConflict.Guards ParamsRow.height where
  set_eq _ _ _ := rfl
  guard_iff _ _ := decide_eq_true_iff

theorem inflationConflict_guards : inflationConflict.Guards InflationRow.height where
  set_eq _ _ _ := rfl
  guard_iff _ _ := decide_eq_true_iff

theorem communityPoolConflict_guards : communityPoolConflict.Guards CommunityPoolRow.height where
  set_eq _ _ _ := rfl
  guard_iff _ _ := decide_eq_true_iff

theorem stakingPoolConflict_guards : stakingPoolConflict.Guards StakingPoolRow.height where
  set_eq _ _ _ := rfl
  guard_iff _ _ := decide_eq_true_iff

theorem saveParamsOf_returns {table : Relation Db (oneRowId (ρ := ParamsRow))}
    (hvalid : ∀ s row, table.violation s row = none) {marshaling storing : String}
    {marshal : String → Except String String} {params : String} {height : Int} {s t : Db} :
    Eff.Returns (saveParamsOf marshaling storing table marshal params height) s () t ↔
      ∃ paramsBz, marshal params = .ok paramsBz ∧
        table.write ((table.read s).upsert paramsConflict ⟨paramsBz, height⟩) s = t := by
  constructor
  · intro h
    obtain ⟨paramsBz, u, hmarshal, hinsert⟩ := Eff.returns_bind.mp h
    obtain ⟨hok, rfl⟩ := Eff.returns_ofExcept.mp (Eff.returns_wrap.mp hmarshal)
    exact ⟨paramsBz, hok, (Relation.insert_write (Eff.returns_wrap.mp hinsert)).symm⟩
  · rintro ⟨paramsBz, hok, rfl⟩
    refine Eff.returns_bind.mpr ⟨paramsBz, s, Eff.returns_wrap.mpr
      (Eff.returns_ofExcept.mpr ⟨hok, rfl⟩), Eff.returns_wrap.mpr ?_⟩
    exact paramsConflict_guards.insert_ok (List.nodup_singleton _) fun _ _ => hvalid _ _

-- ---------------------------------------------------------------------------
-- Frames
-- ---------------------------------------------------------------------------

section
variable {β : Type} {f : Db → β}

theorem updateParamsOf_fixes {table : Relation Db (oneRowId (ρ := ParamsRow))}
    (hf : ∀ u s, f (table.write u s) = f s) (getting marshaling storing : String)
    (source : ParamsSource) (height : Int) :
    Eff.Fixes f (updateParamsOf getting marshaling storing table source height) :=
  .bind (.wrap .ofExcept) fun _ => .bind (.wrap .ofExcept) fun _ => .wrap (Relation.insert_fixes hf)

theorem updateInflation_fixes (hf : ∀ u s, f (inflationTable.write u s) = f s)
    (getInflation : Int → Except String String) : Eff.Fixes f (Mint.updateInflation getInflation) :=
  .bind (.bind .get fun _ => .pure) fun _ => .bind .ofExcept fun _ => .wrap (Relation.insert_fixes hf)

end

end SafrochainIndexer.Callisto
