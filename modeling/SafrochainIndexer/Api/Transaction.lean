import SafrochainIndexer.Api.Store

/-!
# Transaction listings

`getTransactions` and `getTransactionsAdvanced` of `transaction.service.ts`. A
listing returns the rows it selects; how a row is rendered does not matter here.
-/

namespace SafrochainIndexer.Api

structure TransactionListDto where
  page : Option Nat
  limit : Option Nat
  address : Option String
  messageType : Option String
  success : Option Bool
  cursor : Option Nat
  deriving DecidableEq, Repr

/-- The conditions of `getTransactions`. -/
def TransactionListDto.selects (db : Tables) (filters : TransactionListDto) (tx : TransactionRow) :
    Bool :=
  given (truthyText filters.address) (fun address =>
    db.existsMessage tx fun m => samePartition tx m && m.involves address) &&
  given (truthyText filters.messageType) (fun messageType =>
    db.existsMessage tx fun m => samePartition tx m && decide (m.type = messageType)) &&
  given filters.success (fun success => decide (tx.success = success))

def getTransactions (config : AppConfig) (db : Tables)
    (order : List TransactionRow → List TransactionRow) (filters : TransactionListDto) :
    Response TransactionRow :=
  cursorListing TransactionRow.hash TransactionRow.height order config
    ⟨filters.page, filters.limit, filters.cursor⟩ (db.transaction.rows.filter (filters.selects db))

-- ---------------------------------------------------------------------------
-- Advanced filtering
-- ---------------------------------------------------------------------------

structure TransactionFilterDto where
  success : Option Bool
  minHeight : Option Nat
  maxHeight : Option Nat
  minGasUsed : Option Nat
  maxGasUsed : Option Nat
  minGasWanted : Option Nat
  maxGasWanted : Option Nat
  memo : Option String
  signer : Option String
  messageTypes : Option (List String)
  addresses : Option (List String)
  validator : Option String
  dateFrom : Option String
  dateTo : Option String
  pagination : AdvancedPagination
  deriving DecidableEq, Repr

/-- An array is sent only if it has elements. -/
def someElements (xs : Option (List String)) : Option (List String) :=
  xs.filter fun xs => decide (0 < xs.length)

/-- The conditions of `buildTransactionQuery`. -/
def TransactionFilterDto.selects (env : Platform) (db : Store) (filters : TransactionFilterDto)
    (tx : TransactionRow) : Bool :=
  given filters.success (fun success => decide (tx.success = success)) &&
  given (truthy filters.minHeight) (fun minHeight => decide (tx.height ≥ minHeight)) &&
  given (truthy filters.maxHeight) (fun maxHeight => decide (tx.height ≤ maxHeight)) &&
  given (truthy filters.minGasUsed) (fun bound => tx.gasUsed.any fun gas : Int => decide (gas ≥ bound)) &&
  given (truthy filters.maxGasUsed) (fun bound => tx.gasUsed.any fun gas : Int => decide (gas ≤ bound)) &&
  given (truthy filters.minGasWanted)
    (fun bound => tx.gasWanted.any fun gas : Int => decide (gas ≥ bound)) &&
  given (truthy filters.maxGasWanted)
    (fun bound => tx.gasWanted.any fun gas : Int => decide (gas ≤ bound)) &&
  given (truthyText filters.memo) (fun memo => tx.memo.any (env.ilike · s!"%{memo}%")) &&
  given (truthyText filters.signer) (fun signer => env.ilike tx.signerInfos s!"%{signer}%") &&
  given (someElements filters.messageTypes)
    (fun messageTypes => db.existsMessage tx fun m => decide (m.type ∈ messageTypes)) &&
  given (someElements filters.addresses)
    (fun addresses => db.existsMessage tx fun m => addresses.any m.involves) &&
  given (truthyText filters.validator)
    (fun validator => db.existsMessage tx fun m => m.involves validator) &&
  given (truthyText filters.dateFrom)
    (fun dateFrom => (db.timestampOf tx).any fun time => decide (time ≥ env.newDate dateFrom)) &&
  given (truthyText filters.dateTo)
    (fun dateTo => (db.timestampOf tx).any fun time => decide (time ≤ env.newDate dateTo))

/-- `leftJoin("transaction.messages_entities", "message")`: one row for each
message of the transaction, or a single one. -/
def Store.joinMessages (db : Store) (tx : TransactionRow) : List TransactionRow :=
  match db.message.rows.filter fun m =>
      decide (m.transactionHash = tx.hash) && samePartition tx m with
  | [] => [tx]
  | messages => messages.map fun _ => tx

def buildTransactionQuery (env : Platform) (db : Store) (filters : TransactionFilterDto) :
    List TransactionRow :=
  (db.transaction.rows.flatMap db.joinMessages).filter (filters.selects env db)

def getTransactionsAdvanced (env : Platform) (config : AppConfig) (db : Store)
    (sorts : Sorts TransactionRow.height) (filters : TransactionFilterDto) :
    Response TransactionRow :=
  advancedListing TransactionRow.hash TransactionRow.height sorts config filters.pagination
    (buildTransactionQuery env db filters)

end SafrochainIndexer.Api
