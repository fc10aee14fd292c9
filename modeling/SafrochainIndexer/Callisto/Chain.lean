import SafrochainIndexer.Lib.Effect

/-!
# What the chain hands to the handlers

Events and transactions as Juno passes them to the modules.
-/

namespace SafrochainIndexer.Callisto

structure Attribute where
  key : String
  value : String
  deriving DecidableEq, Repr

/-- An `abci.Event`, or an `sdk.StringEvent` of a message log. -/
structure Event where
  type : String
  attributes : List Attribute
  deriving DecidableEq, Repr

structure Any where
  typeUrl : String
  value : String
  deriving DecidableEq, Repr

/-- `logs` holds the events of each message; it is empty if the transaction
failed. -/
structure Tx where
  height : Int
  txHash : String
  timestamp : String
  logs : List (List Event)
  events : List Event
  deriving DecidableEq, Repr

structure Coin where
  denom : String
  amount : Int
  deriving DecidableEq, Repr

/-- `amount` is the decimal text of the `sdk.Dec`. -/
structure DecCoin where
  denom : String
  amount : String
  deriving DecidableEq, Repr

end SafrochainIndexer.Callisto
