import SafrochainIndexer.Api.MessageParser
import SafrochainIndexer.Api.Transaction

/-!
# Filters of messages

`getMessages` of `message.service.ts` turns a module, a list of modules or a
category into the types that are registered for it, and reports the module that
the parser finds. `filter_exact_iff`: exactly when the messages it selects are the
ones it reports under that module.
-/

namespace SafrochainIndexer.Api

-- ---------------------------------------------------------------------------
-- The registry
-- ---------------------------------------------------------------------------

def getMessageTypesByModule (module : String) : List MessageTypeInfo :=
  messageTypes.filter fun type => type.module = module

def getMessageTypesByCategory (category : MessageCategory) : List MessageTypeInfo :=
  messageTypes.filter fun type => type.category = category

-- ---------------------------------------------------------------------------
-- Listings
-- ---------------------------------------------------------------------------

/-- Without the filters by date, which ask for a column that the table does not
have. -/
structure MessageListDto where
  page : Option Nat
  limit : Option Nat
  cursor : Option Nat
  type : Option String
  module : Option String
  category : Option MessageCategory
  address : Option String
  types : Option (List String)
  modules : Option (List String)
  heightFrom : Option Nat
  heightTo : Option Nat
  denom : Option String
  deriving DecidableEq, Repr

def typesOfModules (modules : List String) : List String :=
  (modules.flatMap getMessageTypesByModule).map MessageTypeInfo.type

def typesOfCategory (category : MessageCategory) : List String :=
  (getMessageTypesByCategory category).map MessageTypeInfo.type

/-- The conditions by module and by modules share the parameter `moduleTypes`, so
that the second one sets it for both. -/
def MessageListDto.moduleTypes (filters : MessageListDto) : Option (List String) :=
  let byModule := (truthyText filters.module).map fun module =>
    (getMessageTypesByModule module).map MessageTypeInfo.type
  let byModules := (someElements filters.modules).map typesOfModules
  (someElements byModules).or (someElements byModule)

/-- The conditions of `getMessages`; `like` is `text LIKE pattern`. -/
def MessageListDto.selects (like : String → String → Bool) (filters : MessageListDto)
    (m : MessageRow) : Bool :=
  given (truthyText filters.type) (fun type => decide (m.type = type)) &&
  given (someElements filters.types) (fun types => decide (m.type ∈ types)) &&
  given filters.moduleTypes (fun moduleTypes => decide (m.type ∈ moduleTypes)) &&
  given (someElements (filters.category.map typesOfCategory))
    (fun categoryTypes => decide (m.type ∈ categoryTypes)) &&
  given (truthyText filters.address) (fun address => m.involves address) &&
  given filters.heightFrom (fun heightFrom => decide (m.height ≥ heightFrom)) &&
  given filters.heightTo (fun heightTo => decide (m.height ≤ heightTo)) &&
  given (truthyText filters.denom) (fun denom => like m.value s!"%\"denom\":\"{denom}\"%")

structure MessageResponseDto where
  transactionHash : String
  index : Nat
  type : String
  module : String
  label : String
  description : String
  category : Option MessageCategory
  value : Json
  amount : Option Json
  involvedAddresses : List String
  height : Nat
  partitionId : Int

/-- `valueOf` parses the JSON of a column. The parser sets no category. -/
def processMessage (valueOf : String → Json) (message : MessageRow) :
    Except ScriptError MessageResponseDto := do
  let parsedMessage ← parseMessage message.type (valueOf message.value)
    message.involvedAccountsAddresses
  .ok {
    transactionHash := message.transactionHash
    index := message.index
    type := message.type
    module := parsedMessage.module
    label := parsedMessage.label
    description := parsedMessage.description
    category := none
    value := valueOf message.value
    amount := parsedMessage.amount
    involvedAddresses := message.involvedAccountsAddresses
    height := message.height
    partitionId := message.partitionId }

def getMessages (like : String → String → Bool) (valueOf : String → Json) (config : AppConfig)
    (db : Store) (order : List MessageRow → List MessageRow) (filters : MessageListDto) :
    Except ScriptError (Response MessageResponseDto) := do
  let listing := cursorListing MessageRow.primaryKey MessageRow.height order config
    ⟨filters.page, filters.limit, filters.cursor⟩ (db.message.rows.filter (filters.selects like))
  let data ← listing.data.mapM (processMessage valueOf)
  .ok ⟨data, listing.pageMeta⟩

variable {like : String → String → Bool} {valueOf : String → Json}

theorem mem_of_mem_beforeCursor {α : Type} {height : α → Nat} {cursor : Option Nat} {rows : List α}
    {x : α} (h : x ∈ beforeCursor height cursor rows) : x ∈ rows := by
  unfold beforeCursor at h
  split at h
  · exact h
  · exact (List.mem_filter.mp h).1

theorem getMessages_selects {config : AppConfig} {db : Store}
    {order : Keyset.HighestFirst MessageRow.height} {filters : MessageListDto}
    {response : Response MessageResponseDto}
    (h : getMessages like valueOf config db order.run filters = .ok response) :
    ∀ reported ∈ response.data, ∃ message ∈ db.message.rows,
      filters.selects like message = true ∧ processMessage valueOf message = .ok reported := by
  obtain ⟨data, hdata, hresponse⟩ := Eff.bind_ok.mp h
  cases hresponse
  intro reported hreported
  obtain ⟨message, hmessage, hprocess⟩ :=
    exists_of_mem_forall₂ (mapM_ok_iff.mp hdata).flip reported hreported
  have hrow := List.mem_of_mem_take ((getMany_sublist _ _).mem hmessage)
  rw [(order.perm _).mem_iff] at hrow
  obtain ⟨hrows, hselects⟩ := List.mem_filter.mp (mem_of_mem_beforeCursor hrow)
  exact ⟨message, hrows, hselects, hprocess⟩

-- ---------------------------------------------------------------------------
-- Registered types
-- ---------------------------------------------------------------------------

theorem mem_typesOfModules {modules : List String} {type : String} :
    type ∈ typesOfModules modules ↔
      getMessageTypeInfo type ≠ none ∧ extractModuleFromType type ∈ modules := by
  simp only [typesOfModules, getMessageTypesByModule, List.mem_map, List.mem_flatMap,
    List.mem_filter, decide_eq_true_eq]
  constructor
  · rintro ⟨info, ⟨module, hmodule, hinfo, rfl⟩, rfl⟩
    rw [← (registered info hinfo).2.1]
    refine ⟨fun hnone => ?_, hmodule⟩
    exact absurd (decide_eq_true rfl) (List.find?_eq_none.mp hnone info hinfo)
  · rintro ⟨hsome, hmodule⟩
    obtain ⟨info, hinfo⟩ := Option.ne_none_iff_exists'.mp hsome
    obtain ⟨hmem, rfl⟩ := getMessageTypeInfo_mem hinfo
    exact ⟨info, ⟨info.module, (registered info hmem).2.1 ▸ hmodule, hmem, rfl⟩, rfl⟩

theorem mem_typesOfCategory {category : MessageCategory} {type : String} :
    type ∈ typesOfCategory category ↔
      ∃ info ∈ messageTypes, info.category = category ∧ info.type = type := by
  simp [typesOfCategory, getMessageTypesByCategory, and_assoc]

/-- One of the modules has registered types. -/
def Known (modules : List String) : Prop := ∃ info ∈ messageTypes, info.module ∈ modules

theorem typesOfModules_eq_nil {modules : List String} :
    typesOfModules modules = [] ↔ ¬Known modules := by
  rw [List.eq_nil_iff_forall_not_mem]
  constructor
  · rintro hnil ⟨info, hinfo, hmodule⟩
    exact hnil info.type (List.mem_map_of_mem
      (List.mem_flatMap.mpr ⟨_, hmodule, List.mem_filter.mpr ⟨hinfo, decide_eq_true rfl⟩⟩))
  · intro hunknown type htype
    obtain ⟨info, hinfo, -⟩ := List.mem_map.mp htype
    obtain ⟨m, hm, hinfo⟩ := List.mem_flatMap.mp hinfo
    obtain ⟨hmem, hmodule⟩ := List.mem_filter.mp hinfo
    exact hunknown ⟨info, hmem, (of_decide_eq_true hmodule).symm ▸ hm⟩

theorem typesOfCategory_eq_nil {category : MessageCategory} :
    typesOfCategory category = [] ↔ ¬∃ info ∈ messageTypes, info.category = category := by
  simp [typesOfCategory, getMessageTypesByCategory, List.filter_eq_nil_iff]

-- ---------------------------------------------------------------------------
-- Selections
-- ---------------------------------------------------------------------------

inductive Selection
  | module (module : String)
  | modules (modules : List String)
  | category (category : MessageCategory)
  deriving DecidableEq, Repr

def noFilters : MessageListDto :=
  ⟨some 1, some 20, none, none, none, none, none, none, none, none, none, none⟩

def Selection.filters : Selection → MessageListDto
  | .module m => { noFilters with module := some m }
  | .modules ms => { noFilters with modules := some ms }
  | .category c => { noFilters with category := some c }

@[simp] theorem given_none {β : Type} (condition : β → Bool) : given none condition = true := rfl

@[simp] theorem truthyText_none : truthyText none = none := rfl

@[simp] theorem someElements_none : someElements none = none := rfl

@[simp] theorem someElements_nil : someElements (some []) = none := rfl

@[simp] theorem given_types (types : List String) (type : String) :
    given (someElements (some types)) (fun types => decide (type ∈ types)) = true ↔
      types = [] ∨ type ∈ types := by
  cases types with
  | nil => simp [given, someElements]
  | cons first rest => simp [given, someElements]

theorem selects_modules {modules : List String} {message : MessageRow} :
    (Selection.modules modules).filters.selects like message = true ↔
      ¬Known modules ∨ message.type ∈ typesOfModules modules := by
  rw [← typesOfModules_eq_nil]
  cases modules with
  | nil =>
    simp [Selection.filters, noFilters, MessageListDto.selects, MessageListDto.moduleTypes,
      typesOfModules]
  | cons first rest =>
    have hsome : someElements (some (first :: rest)) = some (first :: rest) := by
      simp [someElements]
    simp [Selection.filters, noFilters, MessageListDto.selects, MessageListDto.moduleTypes, hsome]

theorem known_blank : ¬Known [""] := by
  unfold Known
  decide

theorem selects_module {m : String} {message : MessageRow} :
    (Selection.module m).filters.selects like message = true ↔
      ¬Known [m] ∨ message.type ∈ typesOfModules [m] := by
  rw [← typesOfModules_eq_nil]
  by_cases hm : m = ""
  · subst hm
    have htext : truthyText (some "") = none := rfl
    simp [Selection.filters, noFilters, MessageListDto.selects, MessageListDto.moduleTypes, htext,
      typesOfModules_eq_nil.mpr known_blank]
  · have htext : truthyText (some m) = some m := by simp [truthyText, hm]
    have hone : (getMessageTypesByModule m).map MessageTypeInfo.type = typesOfModules [m] := by
      simp [typesOfModules]
    simp [Selection.filters, noFilters, MessageListDto.selects, MessageListDto.moduleTypes, htext,
      hone]

theorem selects_category {c : MessageCategory} {message : MessageRow} :
    (Selection.category c).filters.selects like message = true ↔
      (¬∃ info ∈ messageTypes, info.category = c) ∨ message.type ∈ typesOfCategory c := by
  rw [← typesOfCategory_eq_nil]
  simp [Selection.filters, noFilters, MessageListDto.selects, MessageListDto.moduleTypes]

-- ---------------------------------------------------------------------------
-- Exact filters
-- ---------------------------------------------------------------------------

variable {db : Store}

/-- The selected messages are those that are reported with the module, or with
one of the modules, and for a category those of its registered types. -/
def Exact (like : String → String → Bool) (valueOf : String → Json) (db : Store)
    (selection : Selection) : Prop :=
  ∀ message ∈ db.message.rows,
    match selection with
    | .module m => ∀ reported, processMessage valueOf message = .ok reported →
        (selection.filters.selects like message = true ↔ reported.module = m)
    | .modules ms => ∀ reported, processMessage valueOf message = .ok reported →
        (selection.filters.selects like message = true ↔ reported.module ∈ ms)
    | .category c =>
      selection.filters.selects like message = true ↔
        ∃ info ∈ messageTypes, info.category = c ∧ info.type = message.type

/-- Where a module has registered types, no other type is of one of the modules;
where none has, all messages are. -/
def ModulesRegistered (valueOf : String → Json) (db : Store) (ms : List String) : Prop :=
  Known ms ∧ (∀ message ∈ db.message.rows, getMessageTypeInfo message.type = none →
      extractModuleFromType message.type ∉ ms) ∨
    ¬Known ms ∧ ∀ message ∈ db.message.rows,
      (∃ reported, processMessage valueOf message = .ok reported) →
        extractModuleFromType message.type ∈ ms

def Covered (valueOf : String → Json) (db : Store) : Selection → Prop
  | .module m => ModulesRegistered valueOf db [m]
  | .modules ms => ModulesRegistered valueOf db ms
  | .category c => (∃ info ∈ messageTypes, info.category = c) ∨ db.message.rows = []

theorem processMessage_module {message : MessageRow} {reported : MessageResponseDto}
    (h : processMessage valueOf message = .ok reported) :
    reported.module = extractModuleFromType message.type := by
  obtain ⟨parsedMessage, hparsed, hreported⟩ := Eff.bind_ok.mp h
  cases hreported
  exact parseMessage_module hparsed

theorem processMessage_unregistered (valueOf : String → Json) {message : MessageRow}
    (h : getMessageTypeInfo message.type = none) :
    ∃ reported, processMessage valueOf message = .ok reported := by
  rw [processMessage, parseMessage_unregistered h]
  exact ⟨_, rfl⟩

theorem modules_exact_iff (ms : List String) :
    (∀ message ∈ db.message.rows, ∀ reported, processMessage valueOf message = .ok reported →
      ((¬Known ms ∨ message.type ∈ typesOfModules ms) ↔ reported.module ∈ ms)) ↔
    ModulesRegistered valueOf db ms := by
  unfold ModulesRegistered
  by_cases hknown : Known ms
  · simp only [hknown, not_true_eq_false, false_or, true_and, false_and, or_false,
      mem_typesOfModules]
    constructor
    · intro hexact message hmessage hnone hmodule
      obtain ⟨reported, hreported⟩ := processMessage_unregistered valueOf hnone
      have hiff := hexact message hmessage reported hreported
      rw [processMessage_module hreported] at hiff
      exact (hiff.mpr hmodule).1 hnone
    · intro hcovered message hmessage reported hreported
      rw [processMessage_module hreported]
      refine ⟨fun hselected => hselected.2, fun hmodule => ⟨fun hnone => ?_, hmodule⟩⟩
      exact hcovered message hmessage hnone hmodule
  · simp only [hknown, not_false_eq_true, true_or, true_iff, false_and, true_and, false_or]
    constructor
    · rintro hexact message hmessage ⟨reported, hreported⟩
      rw [← processMessage_module hreported]
      exact hexact message hmessage reported hreported
    · intro hcovered message hmessage reported hreported
      rw [processMessage_module hreported]
      exact hcovered message hmessage ⟨reported, hreported⟩

/-- A filter selects what it says, exactly if it stands for registered types and
no other type of the table names one of its modules, or else if the whole table is
what it says. -/
theorem filter_exact_iff (like : String → String → Bool) (valueOf : String → Json) (db : Store)
    (selection : Selection) : Exact like valueOf db selection ↔ Covered valueOf db selection := by
  cases selection with
  | module m =>
    simp only [Exact, Covered, selects_module, ← modules_exact_iff, List.mem_singleton]
  | modules ms =>
    simp only [Exact, Covered, selects_modules, ← modules_exact_iff]
  | category c =>
    simp only [Exact, Covered, selects_category, mem_typesOfCategory]
    by_cases hknown : ∃ info ∈ messageTypes, info.category = c
    · simp [hknown]
    · have hnone : ∀ message : MessageRow, ¬∃ info ∈ messageTypes, info.category = c ∧
          info.type = message.type := by
        rintro message ⟨info, hinfo, hcategory, -⟩
        exact hknown ⟨info, hinfo, hcategory⟩
      simp only [hknown, hnone, not_false_eq_true, true_or, iff_false, not_true_eq_false, false_or]
      exact List.eq_nil_iff_forall_not_mem.symm

def messageOf (type : String) (index : Nat) : MessageRow :=
  ⟨"hash", index, type, "\x7b\x7d", [], 0, 1, Nat.one_pos⟩

def twoMessages : Store where
  block := .empty
  transaction := .empty
  message :=
    ⟨[messageOf "cosmos.staking.v1beta1.MsgDelegate" 0,
      messageOf "cosmos.bank.v1beta1.MsgSetSendEnabled" 1], by decide⟩
  messageType := .empty
  hash_nodup := TransactionRow.empty_nodup
  primaryKey_nodup := by decide

/-- Asked for a module that is not registered, the listing has all messages, and
asked for `bank`, it has not the one that it reports as such. -/
theorem filters_not_exact :
    ¬Exact (fun _ _ => false) (fun _ => .object []) twoMessages (.module "wasm") ∧
      ¬Exact (fun _ _ => false) (fun _ => .object []) twoMessages (.module "bank") := by
  constructor
  · intro h
    have hiff := h (messageOf "cosmos.staking.v1beta1.MsgDelegate" 0) List.mem_cons_self _ rfl
    exact absurd (hiff.mp (by decide)) (by decide)
  · intro h
    have hiff := h (messageOf "cosmos.bank.v1beta1.MsgSetSendEnabled" 1)
      (List.mem_cons_of_mem _ List.mem_cons_self) _ rfl
    exact absurd (hiff.mpr (by decide)) (by decide)

end SafrochainIndexer.Api
