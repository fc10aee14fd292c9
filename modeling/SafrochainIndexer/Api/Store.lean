import SafrochainIndexer.Api.Pagination
import SafrochainIndexer.Lib.Table

/-!
# What the API reads

The tables behind the entities `Block`, `Transaction`, `Message` and the
relation `message_type`, with the columns that the listings filter and sort by.
The unique constraints of the schema name the partition, the primary keys of
the entities do not: `Tables` are what the schema admits, a `Store` is what the
entities describe. `Platform` is what Postgres and JavaScript contribute to a filter.
-/

namespace SafrochainIndexer.Api

structure Platform where
  /-- `text ILIKE pattern`. -/
  ilike : String → String → Bool
  /-- `json ->> field`, for the text of the JSON. -/
  jsonField : String → String → Option String
  /-- `text[]::text`. -/
  arrayText : List String → String
  /-- `new Date(text)`, in microseconds. -/
  newDate : String → Int

structure BlockRow where
  height : Nat
  hash : String
  timestamp : Int
  deriving DecidableEq, Repr

/-- Blocks count from one. -/
structure TransactionRow where
  hash : String
  height : Nat
  success : Bool
  memo : Option String
  signerInfos : String
  gasWanted : Option Int
  gasUsed : Option Int
  partitionId : Int
  height_pos : 0 < height
  deriving DecidableEq

structure MessageRow where
  transactionHash : String
  index : Nat
  type : String
  value : String
  involvedAccountsAddresses : List String
  partitionId : Int
  height : Nat
  height_pos : 0 < height
  deriving DecidableEq

structure MessageTypeRow where
  type : String
  module : String
  deriving DecidableEq, Repr

/-- `unique_tx`. -/
def TransactionRow.uniqueTx (tx : TransactionRow) : String × Int := (tx.hash, tx.partitionId)

/-- `unique_message_per_tx`. -/
def MessageRow.uniquePerTx (m : MessageRow) : String × Nat × Int :=
  (m.transactionHash, m.index, m.partitionId)

def MessageRow.primaryKey (m : MessageRow) : String × Nat := (m.transactionHash, m.index)

structure Tables where
  block : Table BlockRow.height
  transaction : Table TransactionRow.uniqueTx
  message : Table MessageRow.uniquePerTx
  messageType : Table MessageTypeRow.type

/-- No hash is used in two partitions. -/
structure Store extends Tables where
  hash_nodup : (transaction.rows.map TransactionRow.hash).Nodup
  primaryKey_nodup : (message.rows.map MessageRow.primaryKey).Nodup

theorem TransactionRow.empty_nodup :
    ((Table.empty : Table TransactionRow.uniqueTx).rows.map TransactionRow.hash).Nodup :=
  List.nodup_nil

theorem MessageRow.empty_nodup :
    ((Table.empty : Table MessageRow.uniquePerTx).rows.map MessageRow.primaryKey).Nodup :=
  List.nodup_nil

def Store.transactions (db : Store) : Table TransactionRow.hash :=
  ⟨db.transaction.rows, db.hash_nodup⟩

theorem Store.find_transaction {db : Store} {tx : TransactionRow} (h : tx ∈ db.transaction.rows) :
    db.transactions.find tx.hash = some tx :=
  Table.find_of_mem h

/-- `EXISTS (SELECT 1 FROM message m WHERE m.transaction_hash = transaction.hash AND p)`. -/
def Tables.existsMessage (db : Tables) (transaction : TransactionRow) (p : MessageRow → Bool) :
    Bool :=
  db.message.rows.any fun m => decide (m.transactionHash = transaction.hash) && p m

/-- `m.partition_id = transaction.partition_id`. -/
def samePartition (transaction : TransactionRow) (m : MessageRow) : Bool :=
  decide (m.partitionId = transaction.partitionId)

/-- `:address = ANY(m.involved_accounts_addresses)`. -/
def MessageRow.involves (m : MessageRow) (address : String) : Bool :=
  decide (address ∈ m.involvedAccountsAddresses)

/-- `block.timestamp` of the joined block. -/
def Store.timestampOf (db : Store) (transaction : TransactionRow) : Option Int :=
  (db.block.find transaction.height).map BlockRow.timestamp

def given {β : Type} (parameter : Option β) (condition : β → Bool) : Bool := parameter.all condition

end SafrochainIndexer.Api
