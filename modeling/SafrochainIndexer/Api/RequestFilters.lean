import SafrochainIndexer.Api.Directions
import SafrochainIndexer.Api.JoinedPages

/-!
# The filters of a request

The requests `TransactionFilterDto` and `AddressTransactionFilterDto` with all that
they declare, and the transactions that satisfy every filter a request supplies, by
what a field is declared to filter by. `buildTransactionQuery` and
`buildAddressTransactionQuery` leave out what is falsy and what they do not read
(`leftOut`), and look for signers, directions and parts of texts by what the columns
have.
-/

namespace SafrochainIndexer.Api

structure CoinFilter where
  min : Option String
  max : Option String
  denom : Option String
  deriving DecidableEq, Repr

/-- All fields of `TransactionFilterDto`. -/
structure TransactionFilterRequest extends TransactionFilterDto where
  fee : CoinFilter
  deriving DecidableEq, Repr

/-- The fields of `AddressTransactionFilterDto` that say which transactions a request
is for. -/
structure AddressTransactionFilterRequest extends AddressTransactionFilterDto where
  fee : CoinFilter
  amount : CoinFilter
  includeFailed : Option Bool
  deriving DecidableEq, Repr

/-- What the fields are about that the columns do not say: who signed a transaction,
the coins of its fee and those transferred, and who gives and who receives in its
messages, by hash. -/
structure TransactionData where
  signers : String → List String
  fee : String → List FeeCoin
  transferred : String → List FeeCoin
  sources : String → List String
  destinations : String → List String
  /-- A text has a part, in whatever case. -/
  mentions : String → String → Bool

-- ---------------------------------------------------------------------------
-- Ranges
-- ---------------------------------------------------------------------------

/-- The fields of both DTOs for the columns that a row has one value of. -/
structure RangeFilters where
  success : Option Bool
  minHeight : Option Nat
  maxHeight : Option Nat
  minGasUsed : Option Nat
  maxGasUsed : Option Nat
  minGasWanted : Option Nat
  maxGasWanted : Option Nat
  dateFrom : Option String
  dateTo : Option String

def TransactionFilterDto.ranges (filters : TransactionFilterDto) : RangeFilters :=
  { filters with }

def AddressTransactionFilterDto.ranges (filters : AddressTransactionFilterDto) : RangeFilters :=
  { filters with }

namespace RangeFilters

def hold (env : Platform) (db : Store) (filters : RangeFilters) (tx : TransactionRow) : Bool :=
  given filters.success (fun success => decide (tx.success = success)) &&
  given filters.minHeight (fun minHeight => decide (tx.height ≥ minHeight)) &&
  given filters.maxHeight (fun maxHeight => decide (tx.height ≤ maxHeight)) &&
  given filters.minGasUsed (fun bound => tx.gasUsed.any fun gas : Int => decide (gas ≥ bound)) &&
  given filters.maxGasUsed (fun bound => tx.gasUsed.any fun gas : Int => decide (gas ≤ bound)) &&
  given filters.minGasWanted
    (fun bound => tx.gasWanted.any fun gas : Int => decide (gas ≥ bound)) &&
  given filters.maxGasWanted
    (fun bound => tx.gasWanted.any fun gas : Int => decide (gas ≤ bound)) &&
  given filters.dateFrom
    (fun dateFrom => (db.timestampOf tx).any fun time => decide (time ≥ env.newDate dateFrom)) &&
  given filters.dateTo
    (fun dateTo => (db.timestampOf tx).any fun time => decide (time ≤ env.newDate dateTo))

end RangeFilters

/-- A number that is no number for JavaScript, a text, a list. -/
def falsyNumber (n : Option Nat) : Option Nat := n.filter fun n => !decide (n ≠ 0)

def falsyText (s : Option String) : Option String := s.filter fun s => !decide (s ≠ "")

def falsyList (xs : Option (List String)) : Option (List String) :=
  xs.filter fun xs => !decide (0 < xs.length)

namespace RangeFilters

def applied (filters : RangeFilters) : RangeFilters where
  success := filters.success
  minHeight := truthy filters.minHeight
  maxHeight := truthy filters.maxHeight
  minGasUsed := truthy filters.minGasUsed
  maxGasUsed := truthy filters.maxGasUsed
  minGasWanted := truthy filters.minGasWanted
  maxGasWanted := truthy filters.maxGasWanted
  dateFrom := truthyText filters.dateFrom
  dateTo := truthyText filters.dateTo

def leftOut (filters : RangeFilters) : RangeFilters where
  success := none
  minHeight := falsyNumber filters.minHeight
  maxHeight := falsyNumber filters.maxHeight
  minGasUsed := falsyNumber filters.minGasUsed
  maxGasUsed := falsyNumber filters.maxGasUsed
  minGasWanted := falsyNumber filters.minGasWanted
  maxGasWanted := falsyNumber filters.maxGasWanted
  dateFrom := falsyText filters.dateFrom
  dateTo := falsyText filters.dateTo

end RangeFilters

-- ---------------------------------------------------------------------------
-- Coins, texts and messages
-- ---------------------------------------------------------------------------

def boundOf (text : String) : Option Nat :=
  if text ≠ "" ∧ text.toList.all Char.isDigit = true then some (Text.decimal text) else none

/-- There is a coin of the denomination, one of its coins reaches the lower bound, and
all are within the upper one. -/
def CoinFilter.satisfied (filter : CoinFilter) (coins : List FeeCoin) : Bool :=
  let ofDenom := coins.filter fun coin =>
    given filter.denom fun denom => decide (coin.denom = denom)
  given filter.denom (fun _ => !ofDenom.isEmpty) &&
  given filter.min (fun text =>
    (boundOf text).any fun n => ofDenom.any fun coin => decide (n ≤ coin.amount)) &&
  given filter.max (fun text =>
    (boundOf text).any fun n => ofDenom.all fun coin => decide (coin.amount ≤ n))

def noCoins : CoinFilter := ⟨none, none, none⟩

/-- The transaction has a message that `p` holds of. -/
def Store.hasMessage (db : Store) (tx : TransactionRow) (p : MessageRow → Bool) : Bool :=
  db.existsMessage tx fun m => samePartition tx m && p m

namespace TransactionFilterRequest

/-- The conditions of `buildTransactionQuery` on texts. -/
def finds (env : Platform) (request : TransactionFilterRequest) (tx : TransactionRow) : Bool :=
  given (truthyText request.memo) (fun memo => tx.memo.any (env.ilike · s!"%{memo}%")) &&
  given (truthyText request.signer) (fun signer => env.ilike tx.signerInfos s!"%{signer}%")

def means (data : TransactionData) (request : TransactionFilterRequest) (tx : TransactionRow) :
    Bool :=
  given request.memo (fun memo => tx.memo.any (data.mentions · memo)) &&
  given request.signer (fun signer => decide (signer ∈ data.signers tx.hash))

/-- The transaction has messages of the types, addresses and validator. -/
def carries (db : Store) (request : TransactionFilterRequest) (tx : TransactionRow) : Bool :=
  given request.messageTypes
    (fun messageTypes => db.hasMessage tx fun m => decide (m.type ∈ messageTypes)) &&
  given request.addresses (fun addresses => db.hasMessage tx fun m => addresses.any m.involves) &&
  given request.validator (fun validator => db.hasMessage tx fun m => m.involves validator)

def satisfied (env : Platform) (db : Store) (data : TransactionData)
    (request : TransactionFilterRequest) (tx : TransactionRow) : Bool :=
  request.ranges.hold env db tx && request.carries db tx && request.means data tx &&
    request.fee.satisfied (data.fee tx.hash)

def applied (request : TransactionFilterRequest) : TransactionFilterRequest :=
  { request with
    memo := truthyText request.memo
    signer := truthyText request.signer
    messageTypes := someElements request.messageTypes
    addresses := someElements request.addresses
    validator := truthyText request.validator
    fee := noCoins }

/-- The transaction is in the ranges and has the messages that the builder asks for. -/
def listed (env : Platform) (db : Store) (request : TransactionFilterRequest)
    (tx : TransactionRow) : Bool :=
  request.ranges.applied.hold env db tx && request.applied.carries db tx

/-- Empty texts and lists, and the fee. -/
def leftOut (request : TransactionFilterRequest) : TransactionFilterRequest :=
  { request with
    memo := falsyText request.memo
    signer := falsyText request.signer
    messageTypes := falsyList request.messageTypes
    addresses := falsyList request.addresses
    validator := falsyText request.validator }

/-- The transaction satisfies what the builder leaves out, zeros too. -/
def dropped (env : Platform) (db : Store) (data : TransactionData)
    (request : TransactionFilterRequest) (tx : TransactionRow) : Bool :=
  request.ranges.leftOut.hold env db tx && request.leftOut.carries db tx &&
    request.leftOut.means data tx && request.fee.satisfied (data.fee tx.hash)

end TransactionFilterRequest

-- ---------------------------------------------------------------------------
-- Transactions of an address
-- ---------------------------------------------------------------------------

def TransactionData.isSource (data : TransactionData) (tx : TransactionRow) (address : String) :
    Bool :=
  decide (address ∈ data.sources tx.hash)

def TransactionData.isDestination (data : TransactionData) (tx : TransactionRow)
    (address : String) : Bool :=
  decide (address ∈ data.destinations tx.hash)

def TransactionData.hasDirection (data : TransactionData) (tx : TransactionRow) (address : String) :
    Direction → Bool
  | .sent => data.isSource tx address && !data.isDestination tx address
  | .received => data.isDestination tx address && !data.isSource tx address
  | .both => data.isSource tx address && data.isDestination tx address

def unset (b : Option Bool) : Option Bool := b.filter fun b => !b

/-- A direction that the builder has a case for. -/
def oneDirection (direction : Option Direction) : Option Direction :=
  direction.filter fun direction => decide (direction ≠ .both)

def bothDirections (direction : Option Direction) : Option Direction :=
  direction.filter fun direction => !decide (direction ≠ .both)

namespace AddressTransactionFilterRequest

/-- The conditions of `buildAddressTransactionQuery` on texts and directions. -/
def finds (env : Platform) (db : Store) (address : String)
    (request : AddressTransactionFilterRequest) (tx : TransactionRow) : Bool :=
  given (truthyText request.memo) (fun memo => tx.memo.any (env.ilike · s!"%{memo}%")) &&
  given request.direction (fun
    | .sent => db.hasField env tx "from_address" address
    | .received => db.hasField env tx "to_address" address
    | .both => true) &&
  given (request.senderOnly.filter id) (fun _ => db.hasField env tx "from_address" address) &&
  given (request.receiverOnly.filter id) (fun _ => db.hasField env tx "to_address" address) &&
  given (truthyText request.search) (fun search =>
    env.ilike tx.hash s!"%{search}%" || tx.memo.any (env.ilike · s!"%{search}%") ||
      db.hasMessage tx fun m => env.ilike m.value s!"%{search}%")

/-- The transaction has the texts that the request asks for and goes in its direction. -/
def means (db : Store) (data : TransactionData) (address : String)
    (request : AddressTransactionFilterRequest) (tx : TransactionRow) : Bool :=
  given request.memo (fun memo => tx.memo.any (data.mentions · memo)) &&
  given request.direction (data.hasDirection tx address) &&
  given (request.senderOnly.filter id) (fun _ => data.isSource tx address) &&
  given (request.receiverOnly.filter id) (fun _ => data.isDestination tx address) &&
  given request.search (fun search =>
    data.mentions tx.hash search || tx.memo.any (data.mentions · search) ||
      db.hasMessage tx fun m => data.mentions m.value search)

/-- The transaction has messages of the types and modules. -/
def carries (db : Store) (request : AddressTransactionFilterRequest) (tx : TransactionRow) : Bool :=
  given request.messageTypes (fun messageTypes =>
    db.hasMessage tx fun m => decide (m.type ∈ messageTypes)) &&
  given request.modules (fun modules => db.hasMessage tx fun m =>
    db.messageType.rows.any fun mt => decide (mt.type = m.type) && decide (mt.module ∈ modules))

/-- The coins, and whether the transaction may have failed. -/
def pays (data : TransactionData) (request : AddressTransactionFilterRequest)
    (tx : TransactionRow) : Bool :=
  given (unset request.includeFailed) (fun _ => tx.success) &&
  request.fee.satisfied (data.fee tx.hash) &&
  request.amount.satisfied (data.transferred tx.hash)

/-- The transaction involves the address and satisfies all filters that the request
supplies. -/
def satisfied (env : Platform) (db : Store) (data : TransactionData) (address : String)
    (request : AddressTransactionFilterRequest) (tx : TransactionRow) : Bool :=
  db.involvesAddress address tx && request.ranges.hold env db tx && request.carries db tx &&
    request.means db data address tx && request.pays data tx

def applied (request : AddressTransactionFilterRequest) : AddressTransactionFilterRequest :=
  { request with
    memo := truthyText request.memo
    messageTypes := someElements request.messageTypes
    modules := someElements request.modules
    direction := oneDirection request.direction
    search := truthyText request.search
    includeFailed := none
    fee := noCoins
    amount := noCoins }

/-- The transaction involves the address, is in the ranges and has the messages that
the builder asks for. -/
def listed (env : Platform) (db : Store) (address : String)
    (request : AddressTransactionFilterRequest) (tx : TransactionRow) : Bool :=
  db.involvesAddress address tx && request.ranges.applied.hold env db tx &&
    request.applied.carries db tx

/-- Empty texts and lists, both directions, failed transactions, the fee and the
amount. -/
def leftOut (request : AddressTransactionFilterRequest) : AddressTransactionFilterRequest :=
  { request with
    memo := falsyText request.memo
    messageTypes := falsyList request.messageTypes
    modules := falsyList request.modules
    direction := bothDirections request.direction
    senderOnly := none
    receiverOnly := none
    search := falsyText request.search }

/-- The transaction satisfies what the builder leaves out, zeros too. -/
def dropped (env : Platform) (db : Store) (data : TransactionData) (address : String)
    (request : AddressTransactionFilterRequest) (tx : TransactionRow) : Bool :=
  request.ranges.leftOut.hold env db tx && request.leftOut.carries db tx &&
    request.leftOut.means db data address tx && request.pays data tx

end AddressTransactionFilterRequest

-- ---------------------------------------------------------------------------
-- Requests that are enforced
-- ---------------------------------------------------------------------------

def delegation : Store where
  block := .empty
  transaction := ⟨[⟨"a", 1, true, none, "[]", none, some 100, 0, Nat.zero_lt_one⟩], by decide⟩
  message := ⟨[⟨"a", 0, "cosmos.staking.v1beta1.MsgDelegate",
    "\x7b\"delegator_address\":\"addr_safro1d\"\x7d", ["addr_safro1d"], 0, 1,
    Nat.zero_lt_one⟩], by decide⟩
  messageType := .empty
  hash_nodup := by decide
  primaryKey_nodup := by decide

end SafrochainIndexer.Api
