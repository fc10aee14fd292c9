import SafrochainIndexer.Api.TransactionMessages

/-!
# Addresses of a message

`extractAddressesFromMessage` stands in three services with the same body. What it
collects are the texts that look like an address, and the texts in the fields that
have one (`mem_extractAddresses`): nothing else, and none is missed at any depth.
-/

namespace SafrochainIndexer.Api

def TransactionService.extractAddressesFromMessage (message : Json) : List String :=
  Api.extractAddressesFromMessage message

def AddressService.extractAddressesFromMessage (message : Json) : List String :=
  Api.extractAddressesFromMessage message

def BlockService.extractAddressesFromMessage (message : Json) : List String :=
  Api.extractAddressesFromMessage message

/-- `transaction.messages`, if it is there. -/
def AddressService.extractAddressesFromTransaction (messages : Option (List Json)) : List String :=
  distinct ((messages.getD []).flatMap AddressService.extractAddressesFromMessage)

inductive Service
  | transaction
  | address
  | block
  deriving DecidableEq, Repr

def Service.extractAddressesFromMessage : Service → Json → List String
  | .transaction => TransactionService.extractAddressesFromMessage
  | .address => AddressService.extractAddressesFromMessage
  | .block => BlockService.extractAddressesFromMessage

-- ---------------------------------------------------------------------------
-- Values inside of values
-- ---------------------------------------------------------------------------

/-- The first value is the second one or occurs in it, at any depth. -/
inductive SubValue : Json → Json → Prop
  | self (v : Json) : SubValue v v
  | element {v x : Json} {elements : List Json} :
      SubValue v x → x ∈ elements → SubValue v (.array elements)
  | field {v x : Json} {key : String} {fields : List (String × Json)} :
      SubValue v x → (key, x) ∈ fields → SubValue v (.object fields)

/-- The values differ in the order of the fields of their objects. -/
inductive Reordered : Json → Json → Prop
  | refl (v : Json) : Reordered v v
  | trans {u v w : Json} : Reordered u v → Reordered v w → Reordered u w
  | fields {fields fields' : List (String × Json)} :
      fields.Perm fields' → Reordered (.object fields) (.object fields')
  | element {v w : Json} (before after : List Json) :
      Reordered v w → Reordered (.array (before ++ v :: after)) (.array (before ++ w :: after))
  | field {v w : Json} (key : String) (before after : List (String × Json)) :
      Reordered v w →
        Reordered (.object (before ++ (key, v) :: after)) (.object (before ++ (key, w) :: after))

def AddressLike (s : String) : Prop :=
  (s.startsWith "addr_" || s.startsWith "cosmos" || s.startsWith "safro") = true

def HasAddress (v : Json) (s : String) : Prop :=
  (SubValue (.string s) v ∧ AddressLike s) ∨
    ∃ fields, SubValue (.object fields) v ∧ ∃ key ∈ addressFields, (key, .string s) ∈ fields

theorem SubValue.trans {u v w : Json} (huv : SubValue u v) (hvw : SubValue v w) : SubValue u w := by
  induction hvw with
  | self => exact huv
  | element _ hx ih => exact .element ih hx
  | field _ hx ih => exact .field ih hx

theorem HasAddress.of_subValue {v w : Json} {s : String} (hsub : SubValue v w)
    (h : HasAddress v s) : HasAddress w s := by
  obtain ⟨hleaf, hlike⟩ | ⟨fields, hfields, hkey⟩ := h
  · exact .inl ⟨hleaf.trans hsub, hlike⟩
  · exact .inr ⟨fields, hfields.trans hsub, hkey⟩

-- ---------------------------------------------------------------------------
-- What is collected
-- ---------------------------------------------------------------------------

theorem addressField_eq_some {key s : String} {value : Json} :
    addressField key value = some s ↔ value = .string s ∧ key ∈ addressFields := by
  cases value with
  | string t =>
    by_cases hkey : key ∈ addressFields
    · simp [addressField, hkey]
    · simp [addressField, hkey]
  | _ => simp [addressField]

theorem mem_extract_string {s t : String} :
    s ∈ extractAddresses (.string t) ↔ s = t ∧ AddressLike t := by
  rw [extractAddresses, AddressLike]
  split
  · rename_i hlike
    simp [hlike]
  · rename_i hlike
    simp [hlike]

theorem mem_extractFromElements {s : String} {elements : List Json} :
    s ∈ extractFromElements elements ↔ ∃ x ∈ elements, s ∈ extractAddresses x := by
  induction elements with
  | nil => simp [extractFromElements]
  | cons x elements ih => simp [extractFromElements, ih]

def FieldHas (s key : String) (value : Json) : Prop :=
  addressField key value = some s ∨ addressField key value = none ∧ s ∈ extractAddresses value

theorem mem_extractFromFields {s : String} {fields : List (String × Json)} :
    s ∈ extractFromFields fields ↔ ∃ field ∈ fields, FieldHas s field.1 field.2 := by
  induction fields with
  | nil => simp [extractFromFields]
  | cons field fields ih =>
    obtain ⟨key, value⟩ := field
    rw [extractFromFields, List.mem_append, ih, List.exists_mem_cons_iff]
    refine or_congr_left ?_
    dsimp only [FieldHas]
    cases addressField key value with
    | none => simp
    | some address => simp [eq_comm]

theorem fieldHas_of_mem {s key : String} {value : Json} (h : s ∈ extractAddresses value) :
    FieldHas s key value := by
  cases hfield : addressField key value with
  | none => exact .inr ⟨hfield, h⟩
  | some address =>
    obtain ⟨rfl, -⟩ := addressField_eq_some.mp hfield
    obtain ⟨rfl, -⟩ := mem_extract_string.mp h
    exact .inl hfield

theorem extractAddresses_mono {v w : Json} (h : SubValue v w) :
    extractAddresses v ⊆ extractAddresses w := by
  induction h with
  | self => exact List.Subset.refl _
  | element _ hx ih =>
    intro s hs
    rw [extractAddresses]
    exact mem_extractFromElements.mpr ⟨_, hx, ih hs⟩
  | field _ hx ih =>
    intro s hs
    rw [extractAddresses]
    exact mem_extractFromFields.mpr ⟨_, hx, fieldHas_of_mem (ih hs)⟩

mutual

theorem hasAddress_of_mem {s : String} :
    ∀ v : Json, s ∈ extractAddresses v → HasAddress v s
  | .string t => by
    intro h
    obtain ⟨rfl, hlike⟩ := mem_extract_string.mp h
    exact .inl ⟨.self _, hlike⟩
  | .array elements => by
    intro h
    rw [extractAddresses] at h
    obtain ⟨x, hx, hsx⟩ := hasAddress_of_elements elements h
    exact hsx.of_subValue (.element (.self x) hx)
  | .object fields => by
    intro h
    rw [extractAddresses] at h
    obtain ⟨field, hfield, hkey | hsx⟩ := hasAddress_of_fields fields h
    · exact .inr ⟨fields, .self _, field.1, hkey.1, hkey.2 ▸ hfield⟩
    · exact hsx.of_subValue (.field (.self field.2) hfield)
  | .null => by simp [extractAddresses]
  | .bool _ => by simp [extractAddresses]
  | .number _ => by simp [extractAddresses]

theorem hasAddress_of_elements {s : String} :
    ∀ elements : List Json, s ∈ extractFromElements elements → ∃ x ∈ elements, HasAddress x s
  | [] => by simp [extractFromElements]
  | x :: elements => by
    intro h
    rcases List.mem_append.mp h with hx | hrest
    · exact ⟨x, List.mem_cons_self, hasAddress_of_mem x hx⟩
    · obtain ⟨y, hy, hsy⟩ := hasAddress_of_elements elements hrest
      exact ⟨y, List.mem_cons_of_mem _ hy, hsy⟩

theorem hasAddress_of_fields {s : String} :
    ∀ fields : List (String × Json), s ∈ extractFromFields fields → ∃ field ∈ fields,
      (field.1 ∈ addressFields ∧ field = (field.1, .string s)) ∨ HasAddress field.2 s
  | [] => by simp [extractFromFields]
  | (key, value) :: fields => by
    intro h
    rw [extractFromFields] at h
    rcases List.mem_append.mp h with hfield | hrest
    · refine ⟨(key, value), List.mem_cons_self, ?_⟩
      cases hkey : addressField key value with
      | none =>
        rw [hkey] at hfield
        exact .inr (hasAddress_of_mem value hfield)
      | some address =>
        rw [hkey] at hfield
        obtain rfl := List.mem_singleton.mp hfield
        obtain ⟨rfl, hmem⟩ := addressField_eq_some.mp hkey
        exact .inl ⟨hmem, rfl⟩
    · obtain ⟨field, hmem, hsx⟩ := hasAddress_of_fields fields hrest
      exact ⟨field, List.mem_cons_of_mem _ hmem, hsx⟩

end

/-- The leaves that look like addresses and the fields that have one, no more and
no less. -/
theorem mem_extractAddresses {v : Json} {s : String} :
    s ∈ extractAddresses v ↔ HasAddress v s := by
  constructor
  · exact hasAddress_of_mem v
  · rintro (⟨hsub, hlike⟩ | ⟨fields, hsub, key, hkey, hmem⟩)
    · exact extractAddresses_mono hsub (mem_extract_string.mpr ⟨rfl, hlike⟩)
    · refine extractAddresses_mono hsub ?_
      rw [extractAddresses]
      exact mem_extractFromFields.mpr
        ⟨_, hmem, .inl (addressField_eq_some.mpr ⟨rfl, hkey⟩)⟩

-- ---------------------------------------------------------------------------
-- Order of fields
-- ---------------------------------------------------------------------------

theorem Reordered.string_iff {v w : Json} (h : Reordered v w) (s : String) :
    v = .string s ↔ w = .string s := by
  induction h with
  | refl => rfl
  | trans _ _ ihu ihv => exact ihu.trans ihv
  | fields => simp
  | element => simp
  | field => simp

theorem Reordered.addressField_eq {v w : Json} (h : Reordered v w) (key : String) :
    addressField key v = addressField key w := by
  refine Option.ext fun s => ?_
  rw [addressField_eq_some, addressField_eq_some, h.string_iff s]

theorem Reordered.mem_iff {v w : Json} (h : Reordered v w) (s : String) :
    s ∈ extractAddresses v ↔ s ∈ extractAddresses w := by
  induction h with
  | refl => rfl
  | trans _ _ ihu ihv => exact ihu.trans ihv
  | fields hperm =>
    simp only [extractAddresses, mem_extractFromFields, hperm.mem_iff]
  | element before after _ ih =>
    simp only [extractAddresses, mem_extractFromElements, List.mem_append, List.mem_cons,
      or_and_right, exists_or, exists_eq_left, ih]
  | field key before after hvw ih =>
    simp only [extractAddresses, mem_extractFromFields, List.mem_append, List.mem_cons,
      or_and_right, exists_or, exists_eq_left, FieldHas, hvw.addressField_eq, ih]

-- ---------------------------------------------------------------------------
-- The three services
-- ---------------------------------------------------------------------------

theorem nodup_distinct {α : Type} [DecidableEq α] (as : List α) : (distinct as).Nodup := by
  induction as with
  | nil => exact List.nodup_nil
  | cons a as ih =>
    refine List.nodup_cons.mpr ⟨?_, ih.filter _⟩
    simp

theorem Service.extractAddressesFromMessage_eq (service : Service) (v : Json) :
    service.extractAddressesFromMessage v = distinct (extractAddresses v) := by
  cases service <;> rfl

theorem mem_extractAddressesFromTransaction {messages : Option (List Json)} {s : String} :
    s ∈ AddressService.extractAddressesFromTransaction messages ↔
      ∃ message ∈ messages.getD [], HasAddress message s := by
  simp only [AddressService.extractAddressesFromTransaction, mem_distinct, List.mem_flatMap,
    AddressService.extractAddressesFromMessage, extractAddressesFromMessage, mem_extractAddresses]

/-- In each of the services: no address twice, none missed and none made up, in
whatever order the fields come, and those of a value inside are among them. -/
theorem addresses_complete (service : Service) (v : Json) :
    (service.extractAddressesFromMessage v).Nodup ∧
    (∀ s, s ∈ service.extractAddressesFromMessage v ↔ HasAddress v s) ∧
    (∀ w, Reordered v w → ∀ s,
      s ∈ service.extractAddressesFromMessage v ↔ s ∈ service.extractAddressesFromMessage w) ∧
    ∀ sub, SubValue sub v →
      service.extractAddressesFromMessage sub ⊆ service.extractAddressesFromMessage v := by
  simp only [Service.extractAddressesFromMessage_eq, mem_distinct]
  refine ⟨nodup_distinct _, fun s => mem_extractAddresses, fun w hw s => hw.mem_iff s, ?_⟩
  intro sub hsub s hs
  exact mem_distinct.mpr (extractAddresses_mono hsub (mem_distinct.mp hs))

example : Service.block.extractAddressesFromMessage
    (.object [("amount", .array [.object [("denom", .string "usaf")]]),
      ("voter", .string "unknown"), ("note", .string "safro1x")]) = ["unknown", "safro1x"] := by
  decide +kernel

end SafrochainIndexer.Api
