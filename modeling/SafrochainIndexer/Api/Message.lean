import SafrochainIndexer.Api.Store

/-!
# Message listings

`getMessagesByAddress`, `getMessagesByType` and `searchMessages` of
`message.service.ts`.
-/

namespace SafrochainIndexer.Api

def getMessagesByAddress (config : AppConfig) (db : Tables)
    (order : List MessageRow → List MessageRow) (address : String)
    (pagination : PagePaginationInput) : Response MessageRow :=
  cursorListing MessageRow.primaryKey MessageRow.height order config pagination
    (db.message.rows.filter fun m => m.involves address)

def getMessagesByType (config : AppConfig) (db : Store)
    (order : List MessageRow → List MessageRow) (type : String) (pagination : PagePaginationInput) :
    Response MessageRow :=
  cursorListing MessageRow.primaryKey MessageRow.height order config pagination
    (db.message.rows.filter fun m => decide (m.type = type))

-- ---------------------------------------------------------------------------
-- Search
-- ---------------------------------------------------------------------------

/-- `message.value::text ILIKE :query`. -/
def valueMatches (env : Platform) (query : String) (m : MessageRow) : Bool :=
  env.ilike m.value s!"%{query}%"

/-- `message.type ILIKE :query`. -/
def typeMatches (env : Platform) (query : String) (m : MessageRow) : Bool :=
  env.ilike m.type s!"%{query}%"

/-- `message.involved_accounts_addresses::text ILIKE :query`. -/
def addressesMatch (env : Platform) (query : String) (m : MessageRow) : Bool :=
  env.ilike (env.arrayText m.involvedAccountsAddresses) s!"%{query}%"

/-- The condition of `searchMessages`. The cursor is appended to the text
`a OR b OR c` without parentheses, so it binds to the last alternative. -/
def searchSelects (env : Platform) (query : String) (cursor : Option Nat) (m : MessageRow) : Bool :=
  match truthy cursor with
  | none => valueMatches env query m || typeMatches env query m || addressesMatch env query m
  | some c =>
    valueMatches env query m || typeMatches env query m ||
      (addressesMatch env query m && decide (m.height < c))

def searchMessages (env : Platform) (config : AppConfig) (db : Store)
    (order : List MessageRow → List MessageRow) (query : String) (pagination : PagePaginationInput) :
    Response MessageRow :=
  let limit := (normalizePagePagination pagination config).limit
  let rows := db.message.rows.filter (searchSelects env query pagination.cursor)
  let data := getMany MessageRow.primaryKey ((order rows).take limit)
  { data
    pageMeta := buildPaginationMeta 1 limit (-1) (nextCursorOf MessageRow.height limit data) none }

end SafrochainIndexer.Api
