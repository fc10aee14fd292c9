import SafrochainIndexer.Api.Address
import SafrochainIndexer.Api.OffsetLaws
import SafrochainIndexer.Api.TransactionMessages
import SafrochainIndexer.Callisto.MessageTypes

/-!
# Module names of indexer and API

The indexer stores a module with each message type, and the `modules` filter of
an address listing compares with it; the API reports categories that it takes
from the types itself. `module_names_agree_iff`: the two names of a type are the
same exactly for the `cosmos` packages, and the filter lists the transactions
that report its module exactly when all messages are of such types.
-/

namespace SafrochainIndexer.Api

open Callisto.MessageTypes (getModuleNameFromTypeURL CosmosName handleMessages)

/-- Of a proto message name only this matters: it is pieces, not empty and
without blanks, with dots between them. -/
def ProtoName (name : String) : Prop :=
  ∀ piece ∈ Text.splitAt name '.', piece ≠ "" ∧ ' ' ∉ piece.toList

/-- The module that the indexer stores for a type is there, and is the one the
API reports for messages of that type. -/
def NamesAgree (name : String) : Prop :=
  ∀ value involvedAddresses parsed, parseMessage name value involvedAddresses = .ok parsed →
    getModuleNameFromTypeURL name = .ok parsed.module

def modulesFilter (module : String) (pagination : AdvancedPagination) :
    AddressTransactionFilterDto where
  success := none
  minHeight := none
  maxHeight := none
  minGasUsed := none
  maxGasUsed := none
  minGasWanted := none
  maxGasWanted := none
  memo := none
  messageTypes := none
  modules := some [module]
  direction := none
  senderOnly := none
  receiverOnly := none
  search := none
  dateFrom := none
  dateTo := none
  pagination

def reportsCategory (order : ByIndex) (db : Store) (detail : Detail) (module : String)
    (tx : TransactionRow) : Bool :=
  match getTransactionByHash order db detail tx.hash with
  | .ok response => decide (module ∈ response.categories)
  | .error _ => false

/-- The condition that `modules = [module]` adds to a listing. -/
def Store.hasModule (db : Store) (module : String) (tx : TransactionRow) : Bool :=
  db.existsMessage tx fun m => samePartition tx m &&
    db.messageType.rows.any fun mt => decide (mt.type = m.type) && decide (mt.module = module)

/-- With `modules = [module]` an address lists, page by page, exactly its
transactions whose reported categories contain the module. -/
def ModulesExact (order : ByIndex) (env : Platform) (config : AppConfig) (db : Store)
    (detail : Detail) (sorts : Sorts TransactionRow.height) : Prop :=
  ∀ address module pagination,
    getAddressTransactionsAdvanced env config db sorts address (modulesFilter module pagination) =
      advancedListing TransactionRow.hash TransactionRow.height sorts config pagination
        (db.transaction.rows.filter fun tx =>
          db.involvesAddress address tx && reportsCategory order db detail module tx)

/-- What the indexer leaves in the tables, and a report for every transaction. -/
structure Indexed (order : ByIndex) (db : Store) (detail : Detail) : Prop where
  messageType : ∃ messages, db.messageType.rows =
    (handleMessages messages default).messageType.rows.map fun row => ⟨row.type, row.module⟩
  named : ∀ row ∈ db.messageType.rows, ProtoName row.type
  typed : ∀ m ∈ db.message.rows, ∃ row ∈ db.messageType.rows, row.type = m.type
  partitioned : ∀ m ∈ db.message.rows, ∀ tx ∈ db.transaction.rows, m.transactionHash = tx.hash →
    samePartition tx m = true
  column : ∀ tx ∈ db.transaction.rows,
    detail.messages tx.hash = none ∨ StoredTwice order db detail tx.hash
  reported : ∀ tx ∈ db.transaction.rows, ∃ response,
    getTransactionByHash order db detail tx.hash = .ok response

-- ---------------------------------------------------------------------------
-- Names
-- ---------------------------------------------------------------------------

theorem extractModuleFromType_piece {name : String} (h : ProtoName name) :
    extractModuleFromType name ≠ "" ∧ ' ' ∉ (extractModuleFromType name).toList := by
  unfold ProtoName at h
  unfold extractModuleFromType
  split
  · rename_i module _ hsplit
    exact h module (by simp [hsplit])
  · decide

theorem extractModuleFromType_cosmos {name : String} (h : CosmosName name) :
    getModuleNameFromTypeURL name = .ok (extractModuleFromType name) := by
  obtain ⟨first, module, rest, hsplit, hcosmos⟩ := h
  rw [Callisto.MessageTypes.getModuleNameFromTypeURL_cosmos hsplit hcosmos, extractModuleFromType,
    hsplit]

/-- Outside the `cosmos` packages no name has the module the indexer stores. -/
theorem indexerModule_ne {name other module : String} (h : ¬ CosmosName name)
    (hmodule : getModuleNameFromTypeURL name = .ok module) (hother : ProtoName other) :
    extractModuleFromType other ≠ module := by
  rintro rfl
  obtain ⟨hne, hblank⟩ := extractModuleFromType_piece hother
  rcases Callisto.MessageTypes.getModuleNameFromTypeURL_other h hmodule with hempty | hmem
  · exact hne hempty
  · exact hblank hmem

theorem parseMessage_empty (name : String) :
    ∃ parsed, parseMessage name (.object []) [] = .ok parsed := by
  refine parseMessage_ok_iff.mpr fun _ => ?_
  have hfield : ∀ property, Json.getTruthy property (.object []) = .ok none := fun _ => rfl
  unfold extractAmount
  split <;> simp [hfield, bind, Except.bind, pure, Except.pure]

theorem namesAgree_iff {name : String} (h : ProtoName name) : NamesAgree name ↔ CosmosName name := by
  constructor
  · intro hagree
    by_contra hother
    obtain ⟨parsed, hparsed⟩ := parseMessage_empty name
    exact indexerModule_ne hother (hagree _ _ _ hparsed) h (parseMessage_module hparsed).symm
  · intro hcosmos value involvedAddresses parsed hparsed
    rw [parseMessage_module hparsed]
    exact extractModuleFromType_cosmos hcosmos

-- ---------------------------------------------------------------------------
-- The filter
-- ---------------------------------------------------------------------------

section
variable {order : ByIndex} {env : Platform} {config : AppConfig} {db : Store} {detail : Detail}
  {sorts : Sorts TransactionRow.height} {tx : TransactionRow}

theorem getAddressTransactionsAdvanced_modules {address module : String}
    {pagination : AdvancedPagination} :
    getAddressTransactionsAdvanced env config db sorts address (modulesFilter module pagination) =
      advancedListing TransactionRow.hash TransactionRow.height sorts config pagination
        (db.transaction.rows.filter fun tx =>
          db.involvesAddress address tx && db.hasModule module tx) := by
  have hselects : (modulesFilter module pagination).selects env db address =
      fun tx => db.involvesAddress address tx && db.hasModule module tx := by
    funext tx
    simp [AddressTransactionFilterDto.selects, modulesFilter, given, truthy, truthyText,
      someElements, Store.hasModule]
  rw [getAddressTransactionsAdvanced, buildAddressTransactionQuery, hselects]
  rfl

theorem mem_findMessages {hash : String} {m : MessageRow} :
    m ∈ findMessages order db hash ↔ m ∈ db.message.rows ∧ m.transactionHash = hash := by
  rw [findMessages, (order.perm _).mem_iff, List.mem_filter, decide_eq_true_eq]

theorem reportsCategory_iff (h : Indexed order db detail) (htx : tx ∈ db.transaction.rows)
    {module : String} : reportsCategory order db detail module tx = true ↔
      ∃ m ∈ findMessages order db tx.hash, extractModuleFromType m.type = module := by
  obtain ⟨response, hresponse⟩ := h.reported tx htx
  have hcategories : response.categories = distinct
      ((findMessages order db tx.hash).map fun m => extractModuleFromType m.type) := by
    have hrender := hresponse
    simp only [getTransactionByHash, Store.find_transaction htx] at hrender
    rcases h.column tx htx with hnull | ⟨messages, hcolumn, hsame⟩
    · rw [(table_reportsOn hnull hrender).categories, List.map_map]
      rfl
    · obtain ⟨column, hreports, hon⟩ := column_reports hcolumn hsame
      obtain rfl := Except.ok.inj (hreports.symm.trans hrender)
      rw [hon.categories, List.map_map]
      exact congrArg distinct (List.map_congr_left fun m _ => extractModuleFromType_slash m.type)
  rw [reportsCategory, hresponse]
  simp [hcategories]

theorem Indexed.stored (h : Indexed order db detail) : ∀ row ∈ db.messageType.rows,
    getModuleNameFromTypeURL row.type = .ok row.module := by
  obtain ⟨messages, hrows⟩ := h.messageType
  rw [hrows]
  intro row hrow
  obtain ⟨stored, hmem, rfl⟩ := List.mem_map.mp hrow
  exact Callisto.MessageTypes.handleMessages_named messages
    Callisto.MessageTypes.default_named stored hmem

theorem Indexed.protoName (h : Indexed order db detail) {m : MessageRow}
    (hm : m ∈ db.message.rows) : ProtoName m.type := by
  obtain ⟨row, hrow, htype⟩ := h.typed m hm
  exact htype ▸ h.named row hrow

theorem hasModule_iff (h : Indexed order db detail) (htx : tx ∈ db.transaction.rows)
    {module : String} : db.hasModule module tx = true ↔
      ∃ m ∈ findMessages order db tx.hash, getModuleNameFromTypeURL m.type = .ok module := by
  simp only [Store.hasModule, Tables.existsMessage, List.any_eq_true, Bool.and_eq_true,
    decide_eq_true_eq, mem_findMessages]
  constructor
  · rintro ⟨m, hm, hhash, -, row, hrow, htype, rfl⟩
    exact ⟨m, ⟨hm, hhash⟩, htype ▸ h.stored row hrow⟩
  · rintro ⟨m, ⟨hm, hhash⟩, hmodule⟩
    obtain ⟨row, hrow, htype⟩ := h.typed m hm
    refine ⟨m, hm, hhash, h.partitioned m hm tx htx hhash, row, hrow, htype, ?_⟩
    exact Except.ok.inj ((h.stored row hrow).symm.trans (htype ▸ hmodule))

theorem modulesExact_iff_selects : ModulesExact order env config db detail sorts ↔
    ∀ address module, ∀ tx ∈ db.transaction.rows, db.involvesAddress address tx = true →
      db.hasModule module tx = reportsCategory order db detail module tx := by
  unfold ModulesExact
  simp only [getAddressTransactionsAdvanced_modules]
  have hkeys : ∀ p : TransactionRow → Bool,
      ((db.transaction.rows.filter p).map TransactionRow.hash).Nodup := fun p =>
    db.hash_nodup.sublist (List.filter_sublist.map _)
  constructor
  · intro hexact address module tx htx haddress
    have hperm := advancedListing_perm (hkeys _) (hkeys _) (hexact address module)
    have hmem := hperm.mem_iff (a := tx)
    rw [List.mem_filter, List.mem_filter, haddress, Bool.true_and, Bool.true_and] at hmem
    exact Bool.eq_iff_iff.mpr ⟨fun hp => (hmem.mp ⟨htx, hp⟩).2, fun hp => (hmem.mpr ⟨htx, hp⟩).2⟩
  · intro hselects address module pagination
    refine congrArg _ (List.filter_congr fun tx htx => ?_)
    cases haddress : db.involvesAddress address tx with
    | false => rfl
    | true => rw [hselects address module tx htx haddress]

/-- The filter is exact if and only if all messages that an address can list are
of `cosmos` packages. -/
theorem modulesExact_iff (h : Indexed order db detail) :
    ModulesExact order env config db detail sorts ↔
      ∀ tx ∈ db.transaction.rows, (∃ address, db.involvesAddress address tx = true) →
        ∀ m ∈ findMessages order db tx.hash, CosmosName m.type := by
  rw [modulesExact_iff_selects]
  constructor
  · rintro hexact tx htx ⟨address, haddress⟩ m hm
    by_contra hother
    -- the module stored for this type selects the transaction, but no message reports it
    obtain ⟨row, hrow, htype⟩ := h.typed m (mem_findMessages.mp hm).1
    have hmodule : getModuleNameFromTypeURL m.type = .ok row.module := htype ▸ h.stored row hrow
    have hselected := (hasModule_iff h htx).mpr ⟨m, hm, hmodule⟩
    rw [hexact address row.module tx htx haddress, reportsCategory_iff h htx] at hselected
    obtain ⟨other, hfound, hreported⟩ := hselected
    exact indexerModule_ne hother hmodule (h.protoName (mem_findMessages.mp hfound).1) hreported
  · intro hcosmos address module tx htx haddress
    rw [Bool.eq_iff_iff, hasModule_iff h htx, reportsCategory_iff h htx]
    refine exists_congr fun m => and_congr_right fun hm => ?_
    rw [extractModuleFromType_cosmos (hcosmos tx htx ⟨address, haddress⟩ m hm), Except.ok.injEq]

end

/-- The names of a type agree exactly for `cosmos` packages, and the filter is
exact exactly when all messages that an address can list are of such types. -/
theorem module_names_agree_iff {name : String} (hname : ProtoName name) {order : ByIndex}
    {db : Store} {detail : Detail} (hindexed : Indexed order db detail) (env : Platform)
    (config : AppConfig) (sorts : Sorts TransactionRow.height) :
    (NamesAgree name ↔ CosmosName name) ∧
    (ModulesExact order env config db detail sorts ↔
      ∀ tx ∈ db.transaction.rows, (∃ address, db.involvesAddress address tx = true) →
        ∀ m ∈ findMessages order db tx.hash, CosmosName m.type) :=
  ⟨namesAgree_iff hname, modulesExact_iff hindexed⟩

-- ---------------------------------------------------------------------------
-- One message
-- ---------------------------------------------------------------------------

def indexedMessage (type module : String) : Store :=
  { oneMessage type with messageType := ⟨[⟨type, module⟩], List.nodup_singleton _⟩ }

theorem indexedMessage_indexed {type module : String} (hname : ProtoName type)
    (hmodule : getModuleNameFromTypeURL type = .ok module) :
    Indexed .insertion (indexedMessage type module) (oneMessageDetail type) where
  messageType := by
    refine ⟨[(type, ⟨7, "A1", "", [], []⟩)], ?_⟩
    simp only [handleMessages, List.foldl_cons, List.foldl_nil, Callisto.MessageTypes.handleMsg,
      hmodule]
    rfl
  named := by
    rintro row hrow
    obtain rfl := List.mem_singleton.mp hrow
    exact hname
  typed := by
    rintro m hm
    obtain rfl := List.mem_singleton.mp hm
    exact ⟨_, List.mem_singleton.mpr rfl, rfl⟩
  partitioned := by
    rintro m hm tx htx -
    obtain rfl := List.mem_singleton.mp hm
    obtain rfl := List.mem_singleton.mp htx
    rfl
  column := by
    rintro tx htx
    obtain rfl := List.mem_singleton.mp htx
    exact .inr (oneMessage_storedTwice type)
  reported := by
    rintro tx htx
    obtain rfl := List.mem_singleton.mp htx
    obtain ⟨_, hcolumn, hsame⟩ := oneMessage_storedTwice type
    obtain ⟨column, hreports, -⟩ := column_reports hcolumn hsame
    exact ⟨column, hreports⟩

theorem protoName_of_splitAt {name : String} {pieces : List String}
    (hsplit : Text.splitAt name '.' = pieces)
    (h : ∀ piece ∈ pieces, piece ≠ "" ∧ ' ' ∉ piece.toList) : ProtoName name :=
  fun piece hpiece => h piece (hsplit ▸ hpiece)

theorem splitAt_revoke : Text.splitAt "cosmos.authz.v1beta1.MsgRevoke" '.' =
    ["cosmos", "authz", "v1beta1", "MsgRevoke"] := by
  decide +kernel

theorem splitAt_executeContract : Text.splitAt "cosmwasm.wasm.v1.MsgExecuteContract" '.' =
    ["cosmwasm", "wasm", "v1", "MsgExecuteContract"] := by
  decide +kernel

theorem authz_module_agrees :
    NamesAgree "cosmos.authz.v1beta1.MsgRevoke" ∧
      ModulesExact .insertion textless ⟨20, 100, Nat.succ_pos 99⟩
        (indexedMessage "cosmos.authz.v1beta1.MsgRevoke" "authz")
        (oneMessageDetail "cosmos.authz.v1beta1.MsgRevoke")
        (Sorts.insertion TransactionRow.height) := by
  have hname : ProtoName "cosmos.authz.v1beta1.MsgRevoke" :=
    protoName_of_splitAt splitAt_revoke (by decide)
  have hcosmos : CosmosName "cosmos.authz.v1beta1.MsgRevoke" :=
    ⟨_, _, _, splitAt_revoke, by decide⟩
  have hmodule := Callisto.MessageTypes.getModuleNameFromTypeURL_cosmos splitAt_revoke (by decide)
  obtain ⟨hnames, hexact⟩ := module_names_agree_iff hname (indexedMessage_indexed hname hmodule)
    textless ⟨20, 100, Nat.succ_pos 99⟩ (Sorts.insertion TransactionRow.height)
  refine ⟨hnames.mpr hcosmos, hexact.mpr ?_⟩
  rintro tx htx - m hm
  obtain rfl := List.mem_singleton.mp htx
  obtain rfl := List.mem_singleton.mp hm
  exact hcosmos

/-- The indexer stores "cosmwasm wasm" where the API reports "wasm". -/
theorem wasm_module_disagrees :
    ProtoName "cosmwasm.wasm.v1.MsgExecuteContract" ∧
      ¬ NamesAgree "cosmwasm.wasm.v1.MsgExecuteContract" ∧
      Indexed .insertion (indexedMessage "cosmwasm.wasm.v1.MsgExecuteContract" "cosmwasm wasm")
        (oneMessageDetail "cosmwasm.wasm.v1.MsgExecuteContract") ∧
      ¬ ModulesExact .insertion textless ⟨20, 100, Nat.succ_pos 99⟩
        (indexedMessage "cosmwasm.wasm.v1.MsgExecuteContract" "cosmwasm wasm")
        (oneMessageDetail "cosmwasm.wasm.v1.MsgExecuteContract")
        (Sorts.insertion TransactionRow.height) := by
  have hname : ProtoName "cosmwasm.wasm.v1.MsgExecuteContract" :=
    protoName_of_splitAt splitAt_executeContract (by decide)
  have hother : ¬ CosmosName "cosmwasm.wasm.v1.MsgExecuteContract" := by
    rintro ⟨first, module, rest, hsplit, hcosmos⟩
    rw [splitAt_executeContract] at hsplit
    cases hsplit
    exact absurd hcosmos (by decide)
  have hmodule : getModuleNameFromTypeURL "cosmwasm.wasm.v1.MsgExecuteContract" =
      .ok "cosmwasm wasm" := by
    rw [getModuleNameFromTypeURL, splitAt_executeContract]
    decide
  have hindexed := indexedMessage_indexed hname hmodule
  refine ⟨hname, fun h => hother ((namesAgree_iff hname).mp h), hindexed, fun h => hother ?_⟩
  exact (modulesExact_iff hindexed).mp h oneTransaction (List.mem_singleton.mpr rfl)
    ⟨"addr_safro1a", by decide⟩ _ (List.mem_singleton.mpr rfl)

end SafrochainIndexer.Api
