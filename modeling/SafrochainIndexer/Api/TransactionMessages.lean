import SafrochainIndexer.Api.Transaction
import SafrochainIndexer.Api.MessageParser

/-!
# Messages of a transaction

`getTransactionByHash` and `processTransactionResponse` of
`transaction.service.ts` read the messages of a transaction from its JSON column,
or from the message table if the column is empty. `sources_agree_iff`: the two
sources give the same report only for no messages; leaving out the indexes, exactly
when the parser knows none of the message types.
-/

namespace SafrochainIndexer.Api

abbrev ByIndex := Keyset.OrderBy fun a b : MessageRow => a.index ≤ b.index

/-- What only a rendering reads: columns of JSON, and the clock. -/
structure Detail where
  /-- `transaction.messages`, by hash; `none` is null. -/
  messages : String → Option (List Json)
  /-- `message.value`, parsed. -/
  value : String → Json
  now : Int

structure MessageDto where
  type : Json
  value : Json
  index : Json
  involvedAddresses : List String

structure TransactionResponseDto where
  hash : String
  height : Nat
  blockHash : String
  timestamp : Int
  success : Bool
  gasWanted : Option Int
  gasUsed : Option Int
  memo : Option String
  messages : List MessageDto
  involvedAddresses : List String
  involvedAddressesCount : Nat
  signerInfos : String
  messageCount : Nat
  messageTypes : List String
  categories : List String

-- ---------------------------------------------------------------------------
-- The JSON column
-- ---------------------------------------------------------------------------

def addressFields : List String := [
  "proposer", "depositor", "voter", "delegator_address", "validator_address", "from_address",
  "to_address", "sender", "receiver", "granter", "grantee", "authority", "admin", "owner",
  "creator", "signer", "payer"]

def addressField (key : String) : Json → Option String
  | .string s => if key ∈ addressFields then some s else none
  | _ => none

mutual

def extractAddresses : Json → List String
  | .string s =>
    if s.startsWith "addr_" || s.startsWith "cosmos" || s.startsWith "safro" then [s] else []
  | .array elements => extractFromElements elements
  | .object fields => extractFromFields fields
  | .null | .bool _ | .number _ => []

def extractFromElements : List Json → List String
  | [] => []
  | element :: elements => extractAddresses element ++ extractFromElements elements

def extractFromFields : List (String × Json) → List String
  | [] => []
  | (key, value) :: fields =>
    (match addressField key value with
      | some address => [address]
      | none => extractAddresses value) ++ extractFromFields fields

end

def extractAddressesFromMessage (message : Json) : List String := distinct (extractAddresses message)

/-- `msg["@type"] || msg.type || "unknown"`. -/
def reportedType (msg : Json) : Except ScriptError Json := do
  match ← msg.getTruthy "@type" with
  | some type => pure type
  | none => do
    let type ← msg.getTruthy "type"
    pure (type.getD (.string "unknown"))

def jsonMessage (entry : Json × Nat) : Except ScriptError MessageDto := do
  let type ← reportedType entry.1
  pure ⟨type, entry.1, .number entry.2, extractAddressesFromMessage entry.1⟩

def jsonMessages (messages : List Json) : Except ScriptError (List MessageDto) :=
  messages.zipIdx.mapM jsonMessage

-- ---------------------------------------------------------------------------
-- The message table
-- ---------------------------------------------------------------------------

/-- The index is a `BIGINT`, which the driver returns as a text. -/
def tableMessage (detail : Detail) (message : MessageRow) : MessageDto :=
  ⟨.string message.type, detail.value message.value, .string (toString message.index),
    message.involvedAccountsAddresses⟩

def findMessages (order : ByIndex) (db : Store) (hash : String) : List MessageRow :=
  order.run (db.message.rows.filter fun message => message.transactionHash = hash)

abbrev MessageMap := String → Option (List MessageRow)

def MessageMap.push (messageMap : MessageMap) (message : MessageRow) : MessageMap := fun hash =>
  if hash = message.transactionHash then some ((messageMap hash).getD [] ++ [message])
  else messageMap hash

def preloadMessagesByHash (order : ByIndex) (db : Store) (hashes : List String) : MessageMap :=
  (order.run (db.message.rows.filter fun message => message.transactionHash ∈ hashes)).foldl
    MessageMap.push fun _ => none

-- ---------------------------------------------------------------------------
-- Reports
-- ---------------------------------------------------------------------------

/-- `dbMessages` is what the query for the rows of the transaction returns. -/
def reportedMessages (detail : Detail) (hash : String) (dbMessages : List MessageRow) :
    Except ScriptError (List MessageDto) :=
  match detail.messages hash with
  | some (message :: messages) => jsonMessages (message :: messages)
  | _ => .ok (dbMessages.map (tableMessage detail))

/-- `parseMessage(m.type, ..)`; only a text has `split`. -/
def MessageDto.parse (m : MessageDto) : Except ScriptError ParsedMessage :=
  match m.type with
  | .string type => parseMessage type m.value m.involvedAddresses
  | _ => .error (.notFunction "type.split")

def render (db : Store) (detail : Detail) (transaction : TransactionRow)
    (messages : List MessageDto) : Except ScriptError TransactionResponseDto := do
  let parsedMessages ← messages.mapM MessageDto.parse
  let involvedAddresses := distinct (messages.flatMap MessageDto.involvedAddresses)
  pure {
    hash := transaction.hash
    height := transaction.height
    blockHash := ((db.block.find transaction.height).map BlockRow.hash).getD ""
    timestamp := (db.timestampOf transaction).getD detail.now
    success := transaction.success
    gasWanted := transaction.gasWanted
    gasUsed := transaction.gasUsed
    memo := transaction.memo
    messages
    involvedAddresses
    involvedAddressesCount := involvedAddresses.length
    signerInfos := transaction.signerInfos
    messageCount := messages.length
    messageTypes := distinct (parsedMessages.map ParsedMessage.type)
    categories := distinct (parsedMessages.map ParsedMessage.module) }

def getTransactionByHash (order : ByIndex) (db : Store) (detail : Detail) (hash : String) :
    Except ScriptError TransactionResponseDto :=
  match db.transactions.find hash with
  | none => .error (.error s!"Transaction with hash {hash} not found")
  | some transaction => do
    let messages ← reportedMessages detail transaction.hash (findMessages order db hash)
    render db detail transaction messages

def processTransactionResponse (order : ByIndex) (db : Store) (detail : Detail)
    (transaction : TransactionRow) (messageMap : Option MessageMap) :
    Except ScriptError TransactionResponseDto := do
  let preloaded := messageMap.bind fun messageMap => messageMap transaction.hash
  let messages ← reportedMessages detail transaction.hash
    (preloaded.getD (findMessages order db transaction.hash))
  render db detail transaction messages

-- ---------------------------------------------------------------------------
-- Preloaded rows
-- ---------------------------------------------------------------------------

theorem foldl_push (hash : String) (rows : List MessageRow) (messageMap : MessageMap) :
    ((rows.foldl MessageMap.push messageMap) hash).getD [] =
        (messageMap hash).getD [] ++ rows.filter (fun m => m.transactionHash = hash) ∧
      ((rows.foldl MessageMap.push messageMap) hash = none ↔
        messageMap hash = none ∧ rows.filter (fun m => m.transactionHash = hash) = []) := by
  induction rows generalizing messageMap with
  | nil => simp
  | cons m rows ih =>
    obtain ⟨hrows, hnone⟩ := ih (messageMap.push m)
    rw [List.foldl_cons, hrows, hnone]
    by_cases h : hash = m.transactionHash
    · simp [MessageMap.push, h]
    · simp [MessageMap.push, h, Ne.symm h]

theorem findMessages_unique (order : ByIndex) (db : Store) {hash : String} {rows : List MessageRow}
    (hperm : rows.Perm (db.message.rows.filter fun m => m.transactionHash = hash))
    (hsorted : rows.Pairwise fun a b => a.index ≤ b.index) : rows = findMessages order db hash := by
  refine (hperm.trans (order.perm _).symm).eq_of_pairwise (fun a b ha hb hab hba => ?_) hsorted
    (order.sorted _)
  have ha := List.mem_filter.mp (hperm.mem_iff.mp ha)
  have hb := List.mem_filter.mp ((order.perm _).mem_iff.mp hb)
  have hkey : a.primaryKey = b.primaryKey :=
    Prod.ext ((of_decide_eq_true ha.2).trans (of_decide_eq_true hb.2).symm)
      (Nat.le_antisymm hab hba)
  exact List.inj_on_of_nodup_map db.primaryKey_nodup ha.1 hb.1 hkey

/-- The preloaded rows of a transaction are the ones the query would find. -/
theorem preloaded_eq (order : ByIndex) (db : Store) (hash : String) (hashes : Option (List String)) :
    ((hashes.map (preloadMessagesByHash order db)).bind fun messageMap => messageMap hash).getD
      (findMessages order db hash) = findMessages order db hash := by
  cases hashes with
  | none => rfl
  | some hashes =>
    obtain ⟨hrows, hnone⟩ := foldl_push hash
      (order.run (db.message.rows.filter fun m => m.transactionHash ∈ hashes)) fun _ => none
    simp only [Option.map_some, Option.bind_some]
    cases hfound : preloadMessagesByHash order db hashes hash with
    | none => rfl
    | some rows =>
      rw [preloadMessagesByHash] at hfound
      rw [hfound] at hrows hnone
      obtain rfl : rows = _ := by simpa using hrows
      refine findMessages_unique order db ?_ ?_
      · -- a transaction that has preloaded rows is one of those asked for
        have hmem : hash ∈ hashes := by
          by_contra hnot
          refine absurd (hnone.mpr ⟨rfl, List.filter_eq_nil_iff.mpr fun m hm hash_eq => ?_⟩) (by simp)
          have hin := List.mem_filter.mp ((order.perm _).mem_iff.mp hm)
          exact hnot (of_decide_eq_true hash_eq ▸ of_decide_eq_true hin.2)
        have hperm := (order.perm (db.message.rows.filter fun m => m.transactionHash ∈ hashes)).filter
          fun m => decide (m.transactionHash = hash)
        have hsame : ∀ m : MessageRow,
            (decide (m.transactionHash = hash) && decide (m.transactionHash ∈ hashes)) =
              decide (m.transactionHash = hash) := by
          intro m
          by_cases h : m.transactionHash = hash <;> simp [h, hmem]
        rw [List.filter_filter] at hperm
        simpa [hsame] using hperm
      · exact (order.sorted (db.message.rows.filter fun m => m.transactionHash ∈ hashes)).filter _

-- ---------------------------------------------------------------------------
-- What a report says
-- ---------------------------------------------------------------------------

theorem parse_module {m : MessageDto} {parsed : ParsedMessage} (h : m.parse = .ok parsed) :
    m.type = .string parsed.type ∧ parsed.module = extractModuleFromType parsed.type := by
  unfold MessageDto.parse at h
  split at h
  · rename_i type htype
    have hmodule := parseMessage_module h
    have hname : parsed.type = type := parseMessage_type h
    rw [hname]
    exact ⟨htype, hmodule⟩
  · cases h

section
variable {db : Store} {detail : Detail} {transaction : TransactionRow}

theorem render_reports {messages : List MessageDto} {types : List String}
    {response : TransactionResponseDto} (htypes : messages.map MessageDto.type = types.map .string)
    (h : render db detail transaction messages = .ok response) :
    response.messages = messages ∧ response.messageCount = messages.length ∧
      response.messageTypes = distinct types ∧
      response.categories = distinct (types.map extractModuleFromType) := by
  obtain ⟨parsed, hparsed, hresponse⟩ := Eff.bind_ok.mp h
  cases hresponse
  have hall := mapM_ok_iff.mp hparsed
  have hnames : parsed.map ParsedMessage.type = types := by
    have hsame := map_eq_of_forall₂ (q := fun p => Json.string p.type) hall
      fun _ _ hp => (parse_module hp).1
    rw [htypes] at hsame
    refine (List.map_injective_iff.mpr (fun a b hab => Json.string.inj hab) ?_).symm
    rw [hsame, List.map_map]
    rfl
  have hmodules : parsed.map ParsedMessage.module = types.map extractModuleFromType := by
    rw [← hnames, List.map_map]
    exact List.map_congr_left (forall_mem_of_forall₂ hall fun _ _ hp => (parse_module hp).2)
  exact ⟨rfl, rfl, by rw [hnames], by rw [hmodules]⟩

theorem render_returns_iff {messages : List MessageDto} :
    (∃ response, render db detail transaction messages = .ok response) ↔
      ∀ m ∈ messages, ∃ parsed, m.parse = .ok parsed := by
  rw [← mapM_returns_iff]
  constructor
  · rintro ⟨_, h⟩
    obtain ⟨parsed, hparsed, -⟩ := Eff.bind_ok.mp h
    exact ⟨parsed, hparsed⟩
  · rintro ⟨parsed, hparsed⟩
    exact ⟨_, Eff.bind_ok.mpr ⟨parsed, hparsed, rfl⟩⟩

end

-- ---------------------------------------------------------------------------
-- Messages stored twice
-- ---------------------------------------------------------------------------

/-- A message of the column at its index, and a row of the table, are the same
message: the type URL of the column is the type of the row with a slash. -/
structure SameMessage (detail : Detail) (entry : Json × Nat) (m : MessageRow) : Prop where
  type : entry.1.get "@type" = .ok (some (.string ("/" ++ m.type)))
  value : ∀ field, field ≠ "@type" → (detail.value m.value).get field = entry.1.get field
  index : m.index = entry.2

def StoredTwice (order : ByIndex) (db : Store) (detail : Detail) (hash : String) : Prop :=
  ∃ messages, detail.messages hash = some messages ∧
    List.Forall₂ (SameMessage detail) messages.zipIdx (findMessages order db hash)

/-- What is left to read if the column is null. -/
def Detail.tableOnly (detail : Detail) : Detail := { detail with messages := fun _ => none }

/-- Two reports on the same messages, up to the slash of the type URLs. -/
structure Alike (column table : TransactionResponseDto) : Prop where
  messageTypes : column.messageTypes = table.messageTypes.map ("/" ++ ·)
  categories : column.categories = table.categories
  messageCount : column.messageCount = table.messageCount

/-- Alike, with the same index for each message. -/
structure Agree (column table : TransactionResponseDto) : Prop extends Alike column table where
  indexes : column.messages.map MessageDto.index = table.messages.map MessageDto.index

/-- Both endpoints return reports from the two sources, which `R` relates. -/
def ReportsRelated (R : TransactionResponseDto → TransactionResponseDto → Prop) (order : ByIndex)
    (db : Store) (detail : Detail) (transaction : TransactionRow) : Prop :=
  (∃ column table, getTransactionByHash order db detail transaction.hash = .ok column ∧
    getTransactionByHash order db detail.tableOnly transaction.hash = .ok table ∧
    R column table) ∧
  ∀ hashes : Option (List String), ∃ column table,
    processTransactionResponse order db detail transaction
      (hashes.map (preloadMessagesByHash order db)) = .ok column ∧
    processTransactionResponse order db detail.tableOnly transaction
      (hashes.map (preloadMessagesByHash order db)) = .ok table ∧
    R column table

theorem reportedType_slash {msg : Json} {type : String}
    (h : msg.get "@type" = .ok (some (.string ("/" ++ type)))) :
    reportedType msg = .ok (.string ("/" ++ type)) := by
  have hslash : "/" ++ type ≠ "" := by simp
  simp [reportedType, Json.getTruthy, h, Except.map, bind, Except.bind, pure, Except.pure,
    Option.filter, Json.truthy, hslash]

section
variable {order : ByIndex} {db : Store} {detail : Detail} {transaction : TransactionRow}

/-- What the column reports of a message that the table has as `m`. -/
structure Slashed (dto : MessageDto) (m : MessageRow) : Prop where
  type : dto.type = .string ("/" ++ m.type)
  index : dto.index = .number m.index

theorem jsonMessage_same {entry : Json × Nat} {m : MessageRow} (h : SameMessage detail entry m) :
    ∃ dto, jsonMessage entry = .ok dto ∧ Slashed dto m := by
  refine ⟨⟨.string ("/" ++ m.type), entry.1, .number entry.2,
    extractAddressesFromMessage entry.1⟩, ?_, rfl, by rw [h.index]⟩
  rw [jsonMessage, reportedType_slash h.type]
  rfl

theorem jsonMessages_same {entries : List (Json × Nat)} {rows : List MessageRow}
    (h : List.Forall₂ (SameMessage detail) entries rows) :
    ∃ messages, entries.mapM jsonMessage = .ok messages ∧ List.Forall₂ Slashed messages rows := by
  induction h with
  | nil => exact ⟨[], rfl, .nil⟩
  | cons hsame _ ih =>
    obtain ⟨dto, hdto, hslashed⟩ := jsonMessage_same hsame
    obtain ⟨messages, hmessages, hall⟩ := ih
    refine ⟨dto :: messages, ?_, .cons hslashed hall⟩
    rw [List.mapM_cons, hdto, hmessages]
    rfl

theorem Slashed.parses {dto : MessageDto} {m : MessageRow} (h : Slashed dto m) :
    ∃ parsed, dto.parse = .ok parsed := by
  rw [MessageDto.parse, h.type]
  exact ⟨_, parseMessage_unregistered (getMessageTypeInfo_slash m.type)⟩

/-- A report on the rows, in their order, under the given indexes and types. -/
structure ReportsOn (response : TransactionResponseDto) (rows : List MessageRow)
    (indexOf : MessageRow → Json) (types : List String) : Prop where
  indexes : response.messages.map MessageDto.index = rows.map indexOf
  messageCount : response.messageCount = rows.length
  messageTypes : response.messageTypes = distinct types
  categories : response.categories = distinct (types.map extractModuleFromType)

theorem render_reportsOn {messages : List MessageDto} {response : TransactionResponseDto}
    {rows : List MessageRow} {indexOf : MessageRow → Json} {types : List String}
    (hindexes : messages.map MessageDto.index = rows.map indexOf)
    (htypes : messages.map MessageDto.type = types.map .string)
    (h : render db detail transaction messages = .ok response) :
    ReportsOn response rows indexOf types := by
  obtain ⟨hmessages, hcount, hresponse, hcategories⟩ := render_reports htypes h
  refine ⟨hmessages ▸ hindexes, ?_, hresponse, hcategories⟩
  rw [hcount, ← List.length_map MessageDto.index, hindexes, List.length_map]

abbrev OnColumn (response : TransactionResponseDto) (rows : List MessageRow) : Prop :=
  ReportsOn response rows (fun m => .number m.index) (rows.map fun m => "/" ++ m.type)

abbrev OnTable (response : TransactionResponseDto) (rows : List MessageRow) : Prop :=
  ReportsOn response rows (fun m => .string (toString m.index)) (rows.map MessageRow.type)

theorem column_reports {rows : List MessageRow} {messages : List Json}
    (hcolumn : detail.messages transaction.hash = some messages)
    (hsame : List.Forall₂ (SameMessage detail) messages.zipIdx rows) :
    ∃ column,
      reportedMessages detail transaction.hash rows >>= render db detail transaction = .ok column ∧
      OnColumn column rows := by
  obtain ⟨dtos, hdtos, hslashed⟩ := jsonMessages_same hsame
  have hreported : reportedMessages detail transaction.hash rows = .ok dtos := by
    rw [reportedMessages, hcolumn]
    cases messages with
    | nil =>
      cases hsame
      cases hslashed
      rfl
    | cons _ _ => exact hdtos
  obtain ⟨column, hrender⟩ : ∃ column, render db detail transaction dtos = .ok column :=
    render_returns_iff.mpr fun dto hdto =>
      forall_mem_of_forall₂ hslashed.flip (fun _ _ h => h.parses) dto hdto
  refine ⟨column, by rw [hreported]; exact hrender, render_reportsOn ?_ ?_ hrender⟩
  · exact map_eq_of_forall₂ hslashed fun _ _ h => h.index
  · rw [List.map_map]
    exact map_eq_of_forall₂ hslashed fun _ _ h => h.type

theorem reportedMessages_null {rows : List MessageRow}
    (hnull : detail.messages transaction.hash = none) :
    reportedMessages detail transaction.hash rows = .ok (rows.map (tableMessage detail)) := by
  rw [reportedMessages, hnull]

theorem table_reports {rows : List MessageRow} (hnull : detail.messages transaction.hash = none) :
    (∃ table, reportedMessages detail transaction.hash rows >>= render db detail transaction =
      .ok table) ↔
    ∀ m ∈ rows, getMessageTypeInfo m.type ≠ none →
      ∃ amount, extractAmount (detail.value m.value) m.type = .ok amount := by
  rw [reportedMessages_null hnull]
  refine render_returns_iff.trans ?_
  rw [List.forall_mem_map]
  exact forall₂_congr fun m _ => parseMessage_ok_iff

theorem table_reportsOn {rows : List MessageRow} {table : TransactionResponseDto}
    (hnull : detail.messages transaction.hash = none)
    (h : reportedMessages detail transaction.hash rows >>= render db detail transaction =
      .ok table) : OnTable table rows := by
  rw [reportedMessages_null hnull] at h
  refine render_reportsOn ?_ ?_ h
  · rw [List.map_map]
    rfl
  · rw [List.map_map, List.map_map]
    rfl

section
variable {column table : TransactionResponseDto} {rows : List MessageRow}

theorem ReportsOn.alike (hcolumn : OnColumn column rows) (htable : OnTable table rows) :
    Alike column table := by
  have hslash : ∀ a b : String, "/" ++ a = "/" ++ b → a = b := fun a b h =>
    String.append_right_inj _ |>.mp h
  constructor
  · rw [hcolumn.messageTypes, htable.messageTypes, ← distinct_map hslash, List.map_map]
    rfl
  · rw [hcolumn.categories, htable.categories, List.map_map, List.map_map]
    refine congrArg distinct (List.map_congr_left fun m _ => ?_)
    exact extractModuleFromType_slash m.type
  · rw [hcolumn.messageCount, htable.messageCount]

/-- A number and a text are never the same index. -/
theorem ReportsOn.agree_iff (hcolumn : OnColumn column rows) (htable : OnTable table rows) :
    Agree column table ↔ rows = [] := by
  constructor
  · intro h
    have hindexes := hcolumn.indexes.symm.trans (h.indexes.trans htable.indexes)
    cases rows with
    | nil => rfl
    | cons m rows => simp at hindexes
  · rintro rfl
    exact ⟨hcolumn.alike htable, hcolumn.indexes.trans htable.indexes.symm⟩

end

/-- The endpoint whose messages come from `rows`, on both sources. -/
def Reported (R : TransactionResponseDto → TransactionResponseDto → Prop) (db : Store)
    (detail : Detail) (transaction : TransactionRow) (rows : List MessageRow) : Prop :=
  ∃ column table,
    reportedMessages detail transaction.hash rows >>= render db detail transaction = .ok column ∧
    reportedMessages detail.tableOnly transaction.hash rows >>=
      render db detail.tableOnly transaction = .ok table ∧
    R column table

section
variable {rows : List MessageRow} {messages : List Json}
  {R : TransactionResponseDto → TransactionResponseDto → Prop}

theorem reported_iff (hcolumn : detail.messages transaction.hash = some messages)
    (hsame : List.Forall₂ (SameMessage detail) messages.zipIdx rows) {P : Prop}
    (hR : ∀ column table, OnColumn column rows → OnTable table rows → (R column table ↔ P)) :
    Reported R db detail transaction rows ↔
      (∀ m ∈ rows, getMessageTypeInfo m.type ≠ none →
        ∃ amount, extractAmount (detail.value m.value) m.type = .ok amount) ∧ P := by
  obtain ⟨column, hrender, hon⟩ := column_reports hcolumn hsame
  have hreports : (∃ table, reportedMessages detail.tableOnly transaction.hash rows >>=
      render db detail.tableOnly transaction = .ok table) ↔ _ := table_reports rfl
  refine Iff.trans ?_ (and_congr_left' hreports)
  constructor
  · rintro ⟨column', table, hrender', htable, h⟩
    obtain rfl := Except.ok.inj (hrender.symm.trans hrender')
    exact ⟨⟨table, htable⟩, (hR _ _ hon (table_reportsOn rfl htable)).mp h⟩
  · rintro ⟨⟨table, htable⟩, h⟩
    exact ⟨column, table, hrender, htable, (hR _ _ hon (table_reportsOn rfl htable)).mpr h⟩

theorem reportsRelated_iff (htx : transaction ∈ db.transaction.rows) :
    ReportsRelated R order db detail transaction ↔
      Reported R db detail transaction (findMessages order db transaction.hash) := by
  unfold ReportsRelated getTransactionByHash processTransactionResponse
  simp only [Store.find_transaction htx, preloaded_eq]
  rw [forall_const, and_self]
  rfl

end

/-- But for the indexes the two endpoints agree unless the parser throws on a message
of the table. -/
theorem reportsAlike_iff (htx : transaction ∈ db.transaction.rows)
    (hstored : StoredTwice order db detail transaction.hash) :
    ReportsRelated Alike order db detail transaction ↔
      ∀ m ∈ findMessages order db transaction.hash, getMessageTypeInfo m.type ≠ none →
        ∃ amount, extractAmount (detail.value m.value) m.type = .ok amount := by
  obtain ⟨messages, hcolumn, hsame⟩ := hstored
  rw [reportsRelated_iff htx,
    reported_iff hcolumn hsame fun _ _ hon htable => iff_true_intro (hon.alike htable), and_true]

theorem reportsAgree_iff (htx : transaction ∈ db.transaction.rows)
    (hstored : StoredTwice order db detail transaction.hash) :
    ReportsRelated Agree order db detail transaction ↔
      findMessages order db transaction.hash = [] := by
  obtain ⟨messages, hcolumn, hsame⟩ := hstored
  rw [reportsRelated_iff htx,
    reported_iff hcolumn hsame fun column table hon htable => hon.agree_iff htable]
  refine ⟨And.right, fun hnil => ⟨?_, hnil⟩⟩
  rw [hnil]
  exact fun m hm => absurd hm List.not_mem_nil

def ParsedAlike (order : ByIndex) (db : Store) (detail : Detail) (transaction : TransactionRow) :
    Prop :=
  ∀ m ∈ findMessages order db transaction.hash, ∀ involvedAddresses,
    ParsesAlike m.type (detail.value m.value) involvedAddresses

/-- The column and the table give the same report and the same parsed messages only
if there is no message, and, but for the indexes, exactly when no message of the
transaction has a registered type. -/
theorem sources_agree_iff (htx : transaction ∈ db.transaction.rows)
    (hstored : StoredTwice order db detail transaction.hash) :
    (ReportsRelated Agree order db detail transaction ∧
        ParsedAlike order db detail transaction ↔
      findMessages order db transaction.hash = []) ∧
    (ReportsRelated Alike order db detail transaction ∧
        ParsedAlike order db detail transaction ↔
      ∀ m ∈ findMessages order db transaction.hash, getMessageTypeInfo m.type = none) := by
  have hparsed : ParsedAlike order db detail transaction ↔
      ∀ m ∈ findMessages order db transaction.hash, getMessageTypeInfo m.type = none := by
    refine forall₂_congr fun m _ => ?_
    exact ⟨fun h => parsesAlike_iff.mp (h []), fun h _ => parsesAlike_iff.mpr h⟩
  rw [reportsAgree_iff htx hstored, reportsAlike_iff htx hstored, hparsed]
  refine ⟨⟨And.left, fun hnil => ⟨hnil, fun m hm => ?_⟩⟩, And.right, fun hnone => ⟨?_, hnone⟩⟩
  · exact absurd (hnil ▸ hm) List.not_mem_nil
  · exact fun m hm hreg => absurd (hnone m hm) hreg

end

def ByIndex.insertion : ByIndex where
  run := List.insertionSort fun a b => a.index ≤ b.index
  perm := List.perm_insertionSort _
  sorted rows :=
    have : Std.Total fun a b : MessageRow => a.index ≤ b.index := ⟨fun _ _ => Nat.le_total ..⟩
    have : IsTrans MessageRow fun a b => a.index ≤ b.index := ⟨fun _ _ _ => Nat.le_trans⟩
    List.pairwise_insertionSort _ rows

def oneTransaction : TransactionRow :=
  ⟨"A1", 12, true, none, "[]", none, none, 0, Nat.succ_pos 11⟩

def oneMessage (type : String) : Store where
  block := .empty
  transaction := ⟨[oneTransaction], List.nodup_singleton _⟩
  message :=
    ⟨[⟨"A1", 0, type, "", ["addr_safro1a"], 0, 12, Nat.succ_pos 11⟩], List.nodup_singleton _⟩
  messageType := .empty
  hash_nodup := List.nodup_singleton _
  primaryKey_nodup := List.nodup_singleton _

def oneMessageDetail (type : String) : Detail where
  messages := fun _ => some [.object [("@type", .string ("/" ++ type))]]
  value := fun _ => .object [("@type", .string ("/" ++ type))]
  now := 0

theorem oneMessage_storedTwice (type : String) :
    StoredTwice .insertion (oneMessage type) (oneMessageDetail type) "A1" :=
  ⟨_, rfl, .cons ⟨rfl, fun _ _ => rfl, rfl⟩ .nil⟩

theorem sources_agree_on_revoke :
    ReportsRelated Alike .insertion (oneMessage "cosmos.authz.v1beta1.MsgRevoke")
        (oneMessageDetail "cosmos.authz.v1beta1.MsgRevoke") oneTransaction ∧
      ParsedAlike .insertion (oneMessage "cosmos.authz.v1beta1.MsgRevoke")
        (oneMessageDetail "cosmos.authz.v1beta1.MsgRevoke") oneTransaction :=
  (sources_agree_iff (List.mem_singleton.mpr rfl) (oneMessage_storedTwice _)).2.mpr
    fun m hm => by
      obtain rfl := List.mem_singleton.mp hm
      decide +kernel

/-- Under its type URL a `MsgSend` is no "Send", and has no amount; its index is a
number in one report and a text in the other. -/
theorem sources_disagree_on_send :
    StoredTwice .insertion (oneMessage "cosmos.bank.v1beta1.MsgSend")
        (oneMessageDetail "cosmos.bank.v1beta1.MsgSend") "A1" ∧
      ¬ ParsedAlike .insertion (oneMessage "cosmos.bank.v1beta1.MsgSend")
        (oneMessageDetail "cosmos.bank.v1beta1.MsgSend") oneTransaction ∧
      ¬ ReportsRelated Agree .insertion (oneMessage "cosmos.bank.v1beta1.MsgSend")
        (oneMessageDetail "cosmos.bank.v1beta1.MsgSend") oneTransaction := by
  refine ⟨oneMessage_storedTwice _, fun halike => ?_, fun hagree => ?_⟩
  · have hnone := parsesAlike_iff.mp (halike _ (List.mem_singleton.mpr rfl) [])
    exact absurd hnone (by decide +kernel)
  · have hnil := (reportsAgree_iff (List.mem_singleton.mpr rfl) (oneMessage_storedTwice _)).mp hagree
    exact absurd hnil (List.cons_ne_nil _ _)

end SafrochainIndexer.Api
