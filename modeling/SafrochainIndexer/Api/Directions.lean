import SafrochainIndexer.Api.AddressResponse
import SafrochainIndexer.Api.OffsetLaws

/-!
# Directions

The direction that `processAddressTransactionResponse` reports, and the filter for a
direction in `buildAddressTransactionQuery`. `direction_iff`: the direction says on
which sides of the messages the address is, and the filter finds the transaction,
exactly when no message of another kind or between the same addresses interferes
(`Directed`).
-/

namespace SafrochainIndexer.Api

namespace ModuleMessage

/-- The address gives: it is the sender, has an input or is the delegator. -/
def IsSource (address : String) : ModuleMessage → Prop
  | send fromAddress _ _ => fromAddress = address
  | multiSend inputs _ => address ∈ inputs.map Prod.fst
  | bankOther => False
  | staking delegator _ => delegator = some address

def IsDestination (address : String) : ModuleMessage → Prop
  | send _ toAddress _ => toAddress = address
  | multiSend _ outputs => address ∈ outputs.map Prod.fst
  | bankOther | staking .. => False

/-- `value->>field`, for a field that is a text. -/
def textField (field : String) (m : ModuleMessage) : Option String :=
  match m.fields.lookup field with
  | some (.string s) => some s
  | _ => none

variable {address : String} {m : ModuleMessage}

theorem isSource_of_sent (h : m.direction address = some .sent) : m.IsSource address := by
  by_contra hsource
  cases m with
  | send fromAddress toAddress amount =>
    simp [direction, show ¬ fromAddress = address from hsource] at h
  | multiSend inputs outputs => cases h
  | bankOther => cases h
  | staking delegator amount =>
    simp [direction, show ¬ delegator = some address from hsource] at h

theorem isDestination_of_received (h : m.direction address = some .received) :
    m.IsDestination address ∧ m.textField "to_address" = some address := by
  cases m with
  | send fromAddress toAddress amount =>
    have hto : toAddress = address := by
      by_contra hto
      simp [direction, hto] at h
    exact ⟨hto, congrArg some hto⟩
  | multiSend inputs outputs => cases h
  | bankOther => cases h
  | staking delegator amount => simp [direction] at h

end ModuleMessage

section
variable (address : String) (messages : List ModuleMessage)

def Sends : Prop := ∃ m ∈ messages, m.direction address = some .sent

def Receives : Prop := ∃ m ∈ messages, m.direction address = some .received

/-- The direction of a transaction by the sides on which the address is. -/
structure RightDirection (direction : Direction) : Prop where
  sent : (∃ m ∈ messages, m.IsSource address) → (∀ m ∈ messages, ¬ m.IsDestination address) →
    direction = .sent
  received : (∃ m ∈ messages, m.IsDestination address) → (∀ m ∈ messages, ¬ m.IsSource address) →
    direction = .received
  both : (∃ m ∈ messages, m.IsSource address) → (∃ m ∈ messages, m.IsDestination address) →
    direction = .both

/-- An address that sends has not been missed as a destination, and sends by a
`MsgSend`; one that receives has not been missed as a source; one of which no message
says either is on both sides or on none. -/
structure Directed : Prop where
  sent : Sends address messages → ¬ Receives address messages →
    (∀ m ∈ messages, ¬ m.IsDestination address) ∧
      ∃ m ∈ messages, m.textField "from_address" = some address
  received : Receives address messages → ¬ Sends address messages →
    ∀ m ∈ messages, ¬ m.IsSource address
  neither : ¬ Sends address messages → ¬ Receives address messages →
    ((∃ m ∈ messages, m.IsSource address) ↔ ∃ m ∈ messages, m.IsDestination address)

/-- The table has a row for each message of the transaction, in its partition. -/
def RowsMirror (env : Platform) (db : Store) (transaction : TransactionRow) : Prop :=
  ∃ rows : List MessageRow,
    rows.Perm (db.message.rows.filter fun m => m.transactionHash = transaction.hash) ∧
    List.Forall₂ (fun (m : ModuleMessage) row => samePartition transaction row = true ∧
      ∀ field ∈ ["from_address", "to_address"], env.jsonField row.value field = m.textField field)
      messages rows

end

def directionOnly (direction : Direction) (pagination : AdvancedPagination) :
    AddressTransactionFilterDto where
  success := none
  minHeight := none
  maxHeight := none
  minGasUsed := none
  maxGasUsed := none
  minGasWanted := none
  maxGasWanted := none
  memo := none
  messageTypes := none
  modules := none
  direction := some direction
  senderOnly := none
  receiverOnly := none
  search := none
  dateFrom := none
  dateTo := none
  pagination := pagination

section
variable {env : Platform} {db : Store} {transaction : TransactionRow} {address : String}
variable {messages : List ModuleMessage}

theorem hasField_iff (hrows : RowsMirror messages env db transaction) {field : String}
    (hfield : field ∈ ["from_address", "to_address"]) :
    db.hasField env transaction field address = true ↔
      ∃ m ∈ messages, m.textField field = some address := by
  obtain ⟨rows, hperm, hall⟩ := hrows
  have hrow : db.hasField env transaction field address = true ↔
      ∃ row ∈ rows, samePartition transaction row = true ∧
        env.jsonField row.value field = some address := by
    simp only [Store.hasField, Tables.existsMessage, List.any_eq_true, hperm.mem_iff,
      List.mem_filter, Bool.and_eq_true, decide_eq_true_eq]
    tauto
  rw [hrow]
  constructor
  · rintro ⟨row, hmem, -, hvalue⟩
    obtain ⟨m, hm, -, hfields⟩ := exists_of_mem_forall₂ hall.flip row hmem
    exact ⟨m, hm, (hfields field hfield).symm.trans hvalue⟩
  · rintro ⟨m, hm, hvalue⟩
    obtain ⟨row, hmem, hsame, hfields⟩ := exists_of_mem_forall₂ hall m hm
    exact ⟨row, hmem, hsame, (hfields field hfield).trans hvalue⟩

theorem mem_directionOnly {pagination : AdvancedPagination} {direction : Direction}
    (htx : transaction ∈ db.transaction.rows)
    (hinvolves : db.involvesAddress address transaction = true) :
    transaction ∈ buildAddressTransactionQuery env db address (directionOnly direction pagination) ↔
      (direction = .sent → db.hasField env transaction "from_address" address = true) ∧
      (direction = .received → db.hasField env transaction "to_address" address = true) := by
  rw [buildAddressTransactionQuery, List.mem_filter, and_iff_right htx]
  cases direction <;>
    simp [AddressTransactionFilterDto.selects, directionOnly, given, truthy, truthyText,
      someElements, hinvolves]

theorem overallDirection_cases (address : String) (messages : List ModuleMessage) :
    (Sends address messages ∧ Receives address messages ∧
        overallDirection (messages.map (ModuleMessage.direction address)) = .both) ∨
      (Sends address messages ∧ ¬ Receives address messages ∧
        overallDirection (messages.map (ModuleMessage.direction address)) = .sent) ∨
      (¬ Sends address messages ∧ Receives address messages ∧
        overallDirection (messages.map (ModuleMessage.direction address)) = .received) ∨
      (¬ Sends address messages ∧ ¬ Receives address messages ∧
        overallDirection (messages.map (ModuleMessage.direction address)) = .both) := by
  have hsent : some Direction.sent ∈ messages.map (ModuleMessage.direction address) ↔
      Sends address messages := List.mem_map
  have hreceived : some Direction.received ∈ messages.map (ModuleMessage.direction address) ↔
      Receives address messages := List.mem_map
  unfold overallDirection
  by_cases hs : Sends address messages
  · by_cases hr : Receives address messages
    · exact .inl ⟨hs, hr, if_pos ⟨hsent.mpr hs, hreceived.mpr hr⟩⟩
    · refine .inr (.inl ⟨hs, hr, ?_⟩)
      rw [if_neg fun h => hr (hreceived.mp h.2), if_pos (hsent.mpr hs)]
  · by_cases hr : Receives address messages
    · refine .inr (.inr (.inl ⟨hs, hr, ?_⟩))
      rw [if_neg fun h => hs (hsent.mp h.1), if_neg fun h => hs (hsent.mp h),
        if_pos (hreceived.mpr hr)]
    · refine .inr (.inr (.inr ⟨hs, hr, ?_⟩))
      rw [if_neg fun h => hs (hsent.mp h.1), if_neg fun h => hs (hsent.mp h),
        if_neg fun h => hr (hreceived.mp h)]

theorem Sends.isSource (hs : Sends address messages) : ∃ m ∈ messages, m.IsSource address := by
  obtain ⟨m, hm, h⟩ := hs
  exact ⟨m, hm, ModuleMessage.isSource_of_sent h⟩

theorem Receives.isDestination (hr : Receives address messages) :
    (∃ m ∈ messages, m.IsDestination address) ∧
      ∃ m ∈ messages, m.textField "to_address" = some address := by
  obtain ⟨m, hm, h⟩ := hr
  obtain ⟨hdst, hto⟩ := ModuleMessage.isDestination_of_received h
  exact ⟨⟨m, hm, hdst⟩, m, hm, hto⟩

theorem right_both (hs : Sends address messages) (hr : Receives address messages) :
    RightDirection address messages .both ∧ Directed address messages := by
  obtain ⟨m, hm, hsrc⟩ := hs.isSource
  obtain ⟨m', hm', hdst⟩ := hr.isDestination.1
  constructor
  · exact ⟨fun _ hnone => absurd hdst (hnone m' hm'), fun _ hnone => absurd hsrc (hnone m hm),
      fun _ _ => rfl⟩
  · exact ⟨fun _ hno => absurd hr hno, fun _ hno => absurd hs hno, fun hno => absurd hs hno⟩

/-- Who only sends must be no destination, and must be found as the sender. -/
theorem right_sent_iff (hs : Sends address messages) (hr : ¬ Receives address messages) :
    (RightDirection address messages .sent ∧
      ∃ m ∈ messages, m.textField "from_address" = some address) ↔ Directed address messages := by
  constructor
  · rintro ⟨hright, hfrom⟩
    refine ⟨fun _ _ => ⟨fun m hm hdst => ?_, hfrom⟩, fun hyes => absurd hyes hr,
      fun hno => absurd hs hno⟩
    cases hright.both hs.isSource ⟨m, hm, hdst⟩
  · intro h
    obtain ⟨hnone, hfrom⟩ := h.sent hs hr
    refine ⟨⟨fun _ _ => rfl, ?_, ?_⟩, hfrom⟩
    · rintro ⟨m, hm, hdst⟩
      exact absurd hdst (hnone m hm)
    · rintro - ⟨m, hm, hdst⟩
      exact absurd hdst (hnone m hm)

theorem right_received_iff (hs : ¬ Sends address messages) (hr : Receives address messages) :
    RightDirection address messages .received ↔ Directed address messages := by
  constructor
  · intro hright
    refine ⟨fun hyes => absurd hyes hs, fun _ _ m hm hsrc => ?_, fun _ hno => absurd hr hno⟩
    cases hright.both ⟨m, hm, hsrc⟩ hr.isDestination.1
  · intro h
    have hnone := h.received hr hs
    refine ⟨?_, fun _ _ => rfl, ?_⟩
    · rintro ⟨m, hm, hsrc⟩
      exact absurd hsrc (hnone m hm)
    · rintro ⟨m, hm, hsrc⟩
      exact absurd hsrc (hnone m hm)

/-- The direction of an address that is not seen is right if it is on both sides or on
none. -/
theorem right_neither_iff (hs : ¬ Sends address messages) (hr : ¬ Receives address messages) :
    RightDirection address messages .both ↔ Directed address messages := by
  constructor
  · intro hright
    refine ⟨fun hyes => absurd hyes hs, fun hyes => absurd hyes hr, fun _ _ => ⟨?_, ?_⟩⟩
    · intro hsrc
      by_contra hno
      cases hright.sent hsrc fun m hm hdst => hno ⟨m, hm, hdst⟩
    · intro hdst
      by_contra hno
      cases hright.received hdst fun m hm hsrc => hno ⟨m, hm, hsrc⟩
  · intro h
    have hsame := h.neither hs hr
    refine ⟨fun hsrc hnone => ?_, fun hdst hnone => ?_, fun _ _ => rfl⟩
    · obtain ⟨m, hm, hdst⟩ := hsame.mp hsrc
      exact absurd hdst (hnone m hm)
    · obtain ⟨m, hm, hsrc⟩ := hsame.mpr hdst
      exact absurd hsrc (hnone m hm)

theorem rightDirection_iff (hrows : RowsMirror messages env db transaction)
    (htx : transaction ∈ db.transaction.rows)
    (hinvolves : db.involvesAddress address transaction = true) (pagination : AdvancedPagination) :
    (RightDirection address messages
        (overallDirection (messages.map (ModuleMessage.direction address))) ∧
      transaction ∈ buildAddressTransactionQuery env db address (directionOnly
        (overallDirection (messages.map (ModuleMessage.direction address))) pagination)) ↔
      Directed address messages := by
  rw [mem_directionOnly htx hinvolves, hasField_iff hrows (by simp), hasField_iff hrows (by simp)]
  obtain ⟨hs, hr, hd⟩ | ⟨hs, hr, hd⟩ | ⟨hs, hr, hd⟩ | ⟨hs, hr, hd⟩ :=
    overallDirection_cases address messages
  · obtain ⟨hright, hdirected⟩ := right_both hs hr
    simp [hd, hright, hdirected]
  · rw [hd, ← right_sent_iff hs hr]
    simp
  · have hto := hr.isDestination.2
    rw [hd, ← right_received_iff hs hr]
    simp [hto]
  · rw [hd, ← right_neither_iff hs hr]
    simp

/-- The direction is right and the filter for it finds the transaction exactly when
the messages are directed, and no counted denomination has the name of an inherited
property. -/
theorem direction_iff (print : Rat → String) (order : ByIndex) (env : Platform) (db : Store)
    (detail : Detail) (transaction : TransactionRow) (address : String) (includeMessages : Bool)
    (pagination : AdvancedPagination) (messages : List ModuleMessage)
    (htx : transaction ∈ db.transaction.rows)
    (hinvolves : db.involvesAddress address transaction = true)
    (hmessages : MessagesReported order db detail transaction.hash messages)
    (hrows : RowsMirror messages env db transaction) :
    (∃ response, processAddressTransactionResponse print order db detail transaction address
        includeMessages = .ok response ∧
      RightDirection address messages response.direction ∧
      transaction ∈ buildAddressTransactionQuery env db address
        (directionOnly response.direction pagination)) ↔
    PlainDenoms messages ∧ Directed address messages := by
  rw [response_iff hmessages (P := fun direction _ => RightDirection address messages direction ∧
    transaction ∈ buildAddressTransactionQuery env db address
      (directionOnly direction pagination)),
    rightDirection_iff hrows htx hinvolves pagination]

end

def sendTo (toAddress : String) : ModuleMessage := .send "addr_safro1a" toAddress [⟨"usaf", 3⟩]

def sendPlatform (toAddress : String) : Platform :=
  { textless with jsonField := fun _ field => (sendTo toAddress).textField field }

def sendStore (toAddress : String) : Store :=
  { oneMessage "cosmos.bank.v1beta1.MsgSend" with
    message := ⟨[⟨"A1", 0, "cosmos.bank.v1beta1.MsgSend",
      "\x7b\"from_address\":\"addr_safro1a\",\"to_address\":\"" ++ toAddress ++
        "\",\"amount\":[\x7b\"denom\":\"usaf\",\"amount\":\"3\"\x7d]\x7d",
      ["addr_safro1a", toAddress], 0, oneTransaction.height, oneTransaction.height_pos⟩],
      List.nodup_singleton _⟩ }

def sendDetail (toAddress : String) : Detail :=
  columnDetail [("/cosmos.bank.v1beta1.MsgSend", sendTo toAddress)]

theorem sendTo_reported (toAddress : String) : MessagesReported .insertion (sendStore toAddress)
    (sendDetail toAddress) oneTransaction.hash [sendTo toAddress] :=
  ⟨_, rfl, .cons (ModuleMessage.reported_column (m := sendTo toAddress)
    (List.mem_cons_of_mem _ List.mem_cons_self)) .nil⟩

theorem sendTo_mirrored (toAddress : String) : RowsMirror [sendTo toAddress]
    (sendPlatform toAddress) (sendStore toAddress) oneTransaction :=
  ⟨(sendStore toAddress).message.rows, List.Perm.refl _, .cons ⟨rfl, fun _ _ => rfl⟩ .nil⟩

theorem direction_iff_sendTo : ∃ response,
    processAddressTransactionResponse toString .insertion (sendStore "addr_safro1b")
        (sendDetail "addr_safro1b") oneTransaction "addr_safro1a" true = .ok response ∧
      RightDirection "addr_safro1a" [sendTo "addr_safro1b"] response.direction ∧
      oneTransaction ∈ buildAddressTransactionQuery (sendPlatform "addr_safro1b")
        (sendStore "addr_safro1b") "addr_safro1a"
        (directionOnly response.direction (sortedBy .desc).pagination) := by
  refine (direction_iff toString .insertion _ _ _ oneTransaction "addr_safro1a" true _ _
    (List.mem_singleton.mpr rfl) (by decide) (sendTo_reported _) (sendTo_mirrored _)).mpr
      ⟨?_, ?_, ?_, ?_⟩
  · show ∀ coin ∈ countedCoins [sendTo "addr_safro1b"], coin.denom ∉ inheritedProperties
    decide
  · exact fun _ _ => ⟨fun m hm => by
      obtain rfl := List.mem_singleton.mp hm
      exact show "addr_safro1b" ≠ "addr_safro1a" by decide, sendTo "addr_safro1b", by simp, rfl⟩
  · rintro ⟨m, hm, h⟩
    obtain rfl := List.mem_singleton.mp hm
    exact absurd h (by decide)
  · exact fun hno => absurd ⟨sendTo "addr_safro1b", by simp, by decide⟩ hno

/-- A `MsgSend` to its sender is reported as sent. -/
theorem selfSend_not_both : ¬ ∃ response,
    processAddressTransactionResponse toString .insertion (sendStore "addr_safro1a")
        (sendDetail "addr_safro1a") oneTransaction "addr_safro1a" true = .ok response ∧
      RightDirection "addr_safro1a" [sendTo "addr_safro1a"] response.direction ∧
      oneTransaction ∈ buildAddressTransactionQuery (sendPlatform "addr_safro1a")
        (sendStore "addr_safro1a") "addr_safro1a"
        (directionOnly response.direction (sortedBy .desc).pagination) := by
  rw [response_iff (sendTo_reported _) (P := fun direction _ =>
    RightDirection "addr_safro1a" [sendTo "addr_safro1a"] direction ∧
      oneTransaction ∈ buildAddressTransactionQuery (sendPlatform "addr_safro1a")
        (sendStore "addr_safro1a") "addr_safro1a"
        (directionOnly direction (sortedBy .desc).pagination))]
  rintro ⟨-, hright, -⟩
  have hmem : sendTo "addr_safro1a" ∈ [sendTo "addr_safro1a"] := by simp
  exact absurd (hright.both ⟨_, hmem, rfl⟩ ⟨_, hmem, rfl⟩) (by decide)

end SafrochainIndexer.Api
