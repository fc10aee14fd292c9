import SafrochainIndexer.Api.Transaction

/-!
# Transactions of an address

`getAddressTransactions` and `getAddressTransactionsAdvanced` of
`address.service.ts`.
-/

namespace SafrochainIndexer.Api

def Tables.involvesAddress (db : Tables) (address : String) (tx : TransactionRow) : Bool :=
  db.existsMessage tx fun m => samePartition tx m && m.involves address

def getAddressTransactions (config : AppConfig) (db : Tables)
    (order : List TransactionRow → List TransactionRow) (address : String)
    (pagination : PagePaginationInput) : Response TransactionRow :=
  cursorListing TransactionRow.hash TransactionRow.height order config pagination
    (db.transaction.rows.filter (db.involvesAddress address))

-- ---------------------------------------------------------------------------
-- Advanced filtering
-- ---------------------------------------------------------------------------

inductive Direction
  | sent
  | received
  | both
  deriving DecidableEq, Repr

structure AddressTransactionFilterDto where
  success : Option Bool
  minHeight : Option Nat
  maxHeight : Option Nat
  minGasUsed : Option Nat
  maxGasUsed : Option Nat
  minGasWanted : Option Nat
  maxGasWanted : Option Nat
  memo : Option String
  messageTypes : Option (List String)
  modules : Option (List String)
  direction : Option Direction
  senderOnly : Option Bool
  receiverOnly : Option Bool
  search : Option String
  dateFrom : Option String
  dateTo : Option String
  pagination : AdvancedPagination
  deriving DecidableEq, Repr

def Store.hasField (env : Platform) (db : Store) (tx : TransactionRow) (field address : String) :
    Bool :=
  db.existsMessage tx fun m => samePartition tx m && decide (env.jsonField m.value field = some address)

/-- The conditions of `buildAddressTransactionQuery`. -/
def AddressTransactionFilterDto.selects (env : Platform) (db : Store) (address : String)
    (filters : AddressTransactionFilterDto) (tx : TransactionRow) : Bool :=
  db.involvesAddress address tx &&
  given filters.success (fun success => decide (tx.success = success)) &&
  given (truthy filters.minHeight) (fun minHeight => decide (tx.height ≥ minHeight)) &&
  given (truthy filters.maxHeight) (fun maxHeight => decide (tx.height ≤ maxHeight)) &&
  given (truthy filters.minGasUsed) (fun bound => tx.gasUsed.any fun gas : Int => decide (gas ≥ bound)) &&
  given (truthy filters.maxGasUsed) (fun bound => tx.gasUsed.any fun gas : Int => decide (gas ≤ bound)) &&
  given (truthy filters.minGasWanted)
    (fun bound => tx.gasWanted.any fun gas : Int => decide (gas ≥ bound)) &&
  given (truthy filters.maxGasWanted)
    (fun bound => tx.gasWanted.any fun gas : Int => decide (gas ≤ bound)) &&
  given (truthyText filters.memo) (fun memo => tx.memo.any (env.ilike · s!"%{memo}%")) &&
  given (someElements filters.messageTypes) (fun messageTypes =>
    db.existsMessage tx fun m => samePartition tx m && decide (m.type ∈ messageTypes)) &&
  given (someElements filters.modules) (fun modules =>
    db.existsMessage tx fun m => samePartition tx m &&
      db.messageType.rows.any fun mt => decide (mt.type = m.type) && decide (mt.module ∈ modules)) &&
  given filters.direction (fun
    | .sent => db.hasField env tx "from_address" address
    | .received => db.hasField env tx "to_address" address
    | .both => true) &&
  given (filters.senderOnly.filter id) (fun _ => db.hasField env tx "from_address" address) &&
  given (filters.receiverOnly.filter id) (fun _ => db.hasField env tx "to_address" address) &&
  given (truthyText filters.search) (fun search =>
    env.ilike tx.hash s!"%{search}%" || tx.memo.any (env.ilike · s!"%{search}%") ||
      db.existsMessage tx fun m => samePartition tx m && env.ilike m.value s!"%{search}%") &&
  given (truthyText filters.dateFrom)
    (fun dateFrom => (db.timestampOf tx).any fun time => decide (time ≥ env.newDate dateFrom)) &&
  given (truthyText filters.dateTo)
    (fun dateTo => (db.timestampOf tx).any fun time => decide (time ≤ env.newDate dateTo))

def buildAddressTransactionQuery (env : Platform) (db : Store) (address : String)
    (filters : AddressTransactionFilterDto) : List TransactionRow :=
  db.transaction.rows.filter (filters.selects env db address)

def getAddressTransactionsAdvanced (env : Platform) (config : AppConfig) (db : Store)
    (sorts : Sorts TransactionRow.height) (address : String)
    (filters : AddressTransactionFilterDto) : Response TransactionRow :=
  advancedListing TransactionRow.hash TransactionRow.height sorts config filters.pagination
    (buildAddressTransactionQuery env db address filters)

end SafrochainIndexer.Api
