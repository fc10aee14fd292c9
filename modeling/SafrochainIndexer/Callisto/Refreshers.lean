import SafrochainIndexer.Callisto.Gov
import SafrochainIndexer.Callisto.LatestState

/-!
# Refreshers of the one-row tables

Eight tables of one row show a value of the chain and the height it is from.
The operations that refresh them run at the same time: each reads a height,
asks the source for the value at it, and stores what it gets when the answer
comes. `WatchMethod` starts the periodic ones in goroutines of their own, and
several workers handle blocks.
-/

namespace SafrochainIndexer.Callisto

structure Sources where
  getSupply : Int → Except String (List Coin)
  communityPool : Int → Except String (List DecCoin)
  getInflation : Int → Except String String
  distrParams : ParamsSource
  govParams : ParamsSource
  mintParams : ParamsSource
  slashingParams : ParamsSource
  stakingParams : ParamsSource

namespace Bank

def updateSupplyAt (getSupply : Int → Except String (List Coin)) (height : Int) : Eff Db Unit := do
  let supply ← Eff.ofExcept (getSupply height)
  saveSupply supply height

def updateSupply (getSupply : Int → Except String (List Coin)) : Eff Db Unit := do
  let block ← Eff.wrap "error while getting latest block height: " getLastBlockHeightAndTimestamp
  updateSupplyAt getSupply block.height

end Bank

namespace Distribution

def updateCommunityPool (communityPool : Int → Except String (List DecCoin)) (height : Int) :
    Eff Db Unit := do
  let pool ← Eff.wrap "error while getting community pool: " (Eff.ofExcept (communityPool height))
  saveCommunityPool pool height

def getLatestCommunityPool (communityPool : Int → Except String (List DecCoin)) : Eff Db Unit := do
  let block ← Eff.wrap "error while getting latest block height: " getLastBlockHeightAndTimestamp
  updateCommunityPool communityPool block.height

inductive Msg
  | fundCommunityPool
  | other
  deriving DecidableEq, Repr

def handleMsg (communityPool : Int → Except String (List DecCoin)) (_index : Nat) (msg : Msg)
    (tx : Tx) : Eff Db Unit :=
  if tx.logs.length = 0 then pure ()
  else
    match msg with
    | .fundCommunityPool => updateCommunityPool communityPool tx.height
    | .other => pure ()

end Distribution

/-- What `UpdateInflation` does at the height it has read. -/
def Mint.updateInflationAt (getInflation : Int → Except String String) (height : Int) :
    Eff Db Unit := do
  let inflation ← Eff.ofExcept (getInflation height)
  saveInflation inflation height

-- ---------------------------------------------------------------------------
-- Tables
-- ---------------------------------------------------------------------------

inductive Refresh
  | supply
  | communityPool
  | inflation
  | distrParams
  | govParams
  | mintParams
  | slashingParams
  | stakingParams
  deriving DecidableEq, Repr

namespace Refresh

def Row : Refresh → Type
  | .supply => SupplyRow
  | .communityPool => CommunityPoolRow
  | .inflation => InflationRow
  | .distrParams | .govParams | .mintParams | .slashingParams | .stakingParams => ParamsRow

def conflict : (r : Refresh) → Conflict (oneRowId (ρ := r.Row))
  | .supply => supplyConflict
  | .communityPool => communityPoolConflict
  | .inflation => inflationConflict
  | .distrParams | .govParams | .mintParams | .slashingParams | .stakingParams => paramsConflict

def stamp : (r : Refresh) → r.Row → Int
  | .supply => SupplyRow.height
  | .communityPool => CommunityPoolRow.height
  | .inflation => InflationRow.height
  | .distrParams | .govParams | .mintParams | .slashingParams | .stakingParams => ParamsRow.height

def relation : (r : Refresh) → Relation Db (oneRowId (ρ := r.Row))
  | .supply => supplyTable
  | .communityPool => communityPoolTable
  | .inflation => inflationTable
  | .distrParams => distributionParamsTable
  | .govParams => govParamsTable
  | .mintParams => mintParamsTable
  | .slashingParams => slashingParamsTable
  | .stakingParams => stakingParamsTable

theorem conflict_guards : (r : Refresh) → r.conflict.Guards r.stamp
  | .supply => supplyConflict_guards
  | .communityPool => communityPoolConflict_guards
  | .inflation => inflationConflict_guards
  | .distrParams | .govParams | .mintParams | .slashingParams | .stakingParams =>
    paramsConflict_guards

def updateAt (src : Sources) : Refresh → Int → Eff Db Unit
  | .supply => Bank.updateSupplyAt src.getSupply
  | .communityPool => Distribution.updateCommunityPool src.communityPool
  | .inflation => Mint.updateInflationAt src.getInflation
  | .distrParams => Distribution.updateParams src.distrParams
  | .govParams => Gov.updateParams src.govParams
  | .mintParams => Mint.updateParams src.mintParams
  | .slashingParams => Slashing.updateParams src.slashingParams
  | .stakingParams => Staking.updateParams src.stakingParams

def paramsRow (source : ParamsSource) (height : Int) : Option ParamsRow :=
  ((source.params height).toOption.bind fun params => (source.marshal params).toOption).map
    fun paramsBz => ⟨paramsBz, height⟩

def answer (src : Sources) : (r : Refresh) → Int → Option r.Row
  | .supply, height =>
    (src.getSupply height).toOption.map fun coins => SupplyRow.mk (newDbCoins coins) height
  | .communityPool, height =>
    (src.communityPool height).toOption.map fun pool =>
      CommunityPoolRow.mk (newDbDecCoins pool) height
  | .inflation, height =>
    (src.getInflation height).toOption.map fun inflation => InflationRow.mk inflation height
  | .distrParams, height => paramsRow src.distrParams height
  | .govParams, height => paramsRow src.govParams height
  | .mintParams, height => paramsRow src.mintParams height
  | .slashingParams, height => paramsRow src.slashingParams height
  | .stakingParams, height => paramsRow src.stakingParams height

def shown (r : Refresh) (s : Db) : Option r.Row := (r.relation.read s).find ()

end Refresh

/-- The operations that a scheduler starts. Parameters are refreshed only by
handlers, at the height of their block. -/
inductive Periodic
  | supply
  | communityPool
  | inflation
  deriving DecidableEq, Repr

namespace Periodic

def refresh : Periodic → Refresh
  | .supply => .supply
  | .communityPool => .communityPool
  | .inflation => .inflation

def call (src : Sources) : Periodic → Eff Db Unit
  | .supply => Bank.updateSupply src.getSupply
  | .communityPool => Distribution.getLatestCommunityPool src.communityPool
  | .inflation => Mint.updateInflation src.getInflation

end Periodic

end SafrochainIndexer.Callisto
