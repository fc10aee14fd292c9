import SafrochainIndexer.Api.Address
import SafrochainIndexer.Api.BlockStatistics
import SafrochainIndexer.Api.TransactionMessages
import SafrochainIndexer.Lib.Objects

/-!
# The response on a transaction of an address

`processAddressTransactionResponse` of `address.service.ts`: the direction of a
transaction for an address, and the amount it moves, from the messages of the modules
bank and staking (`ModuleMessage`).
-/

namespace SafrochainIndexer.Api

/-- `value.property`, for a value that is not null and a property that no builtin
value has. -/
def member (property : String) : Json → Option Json
  | .object fields => fields.lookup property
  | _ => none

/-- `value.property === text`. -/
def hasText (property text : String) (value : Json) : Bool :=
  match member property value with
  | some (.string s) => decide (s = text)
  | _ => false

def memberTruthy (property : String) (value : Json) : Option Json :=
  (member property value).filter Json.truthy

structure Transfer where
  direction : Option Direction
  amount : Json
  denom : Json

def noTransfer : Transfer := ⟨none, .string "0", .string ""⟩

/-- `coin.amount || "0"` and `coin.denom || ""`. -/
def Transfer.withCoin (transfer : Transfer) (coin : Json) : Transfer :=
  { transfer with
    amount := (memberTruthy "amount" coin).getD (.string "0")
    denom := (memberTruthy "denom" coin).getD (.string "") }

/-- Only the first coin of an amount is read. -/
def bankTransfer (address : String) (value : Json) (transfer : Transfer) : Transfer :=
  let transfer :=
    if hasText "from_address" address value then { transfer with direction := some .sent }
    else if hasText "to_address" address value then { transfer with direction := some .received }
    else transfer
  match member "amount" value with
  | some (.array (coin :: _)) => if coin.truthy then transfer.withCoin coin else transfer
  | _ => transfer

def stakingTransfer (address : String) (value : Json) (transfer : Transfer) : Transfer :=
  let transfer :=
    if hasText "delegator_address" address value then { transfer with direction := some .sent }
    else transfer
  match memberTruthy "amount" value with
  | some amount => transfer.withCoin amount
  | none => transfer

def transferOf (address type : String) (value : Json) : Transfer :=
  if value.truthy then
    let transfer :=
      if Text.contains type "bank" then bankTransfer address value noTransfer else noTransfer
    if Text.contains type "staking" then stakingTransfer address value transfer else transfer
  else noTransfer

structure ProcessedMessage extends MessageDto, Transfer

def processAddressMessage (address : String) (message : MessageDto) : ProcessedMessage :=
  match message.type with
  | .string type => { message, transferOf address type message.value with }
  | _ => { message, noTransfer with }

def overallDirection (directions : List (Option Direction)) : Direction :=
  if some .sent ∈ directions ∧ some .received ∈ directions then .both
  else if some .sent ∈ directions then .sent
  else if some .received ∈ directions then .received
  else .both

/-- `m.amount && m.amount !== "0"`. -/
def Transfer.hasAmount (transfer : Transfer) : Bool :=
  match transfer.amount with
  | .string s => decide (s ≠ "" ∧ s ≠ "0")
  | amount => amount.truthy

/-- `acc[denom] = (BigInt(acc[denom]) + BigInt(amount)).toString()`. What an object
inherits is no text of an integer. -/
def addAmount (print : Rat → String) (acc : List (String × String)) (transfer : Transfer) :
    Except ScriptError (List (String × String)) := do
  let denom ← transfer.denom.text print
  if denom ∈ inheritedProperties then .error notBigInt
  else do
    let previous ← textToBigInt ((truthyText (acc.lookup denom)).getD "0")
    let amount ← transfer.amount.bigInt print
    pure (put denom (toString (previous + amount)) acc)

def primaryAmount (print : Rat → String) (transfers : List Transfer) :
    Except ScriptError (String × String) := do
  let groupedAmounts ← (transfers.filter Transfer.hasAmount).foldlM (addAmount print) []
  pure ((entries groupedAmounts).head?.getD ("", "0"))

structure AddressTransactionResponseDto where
  hash : String
  height : Nat
  blockHash : String
  timestamp : Int
  success : Bool
  gasWanted : Option Int
  gasUsed : Option Int
  memo : Option String
  messages : List ProcessedMessage
  involvedAddresses : List String
  involvedAddressesCount : Nat
  signerInfos : String
  direction : Direction
  totalAmount : String
  primaryDenom : String
  messageCount : Nat
  messageTypes : List String
  categories : List String

def processAddressTransactionResponse (print : Rat → String) (order : ByIndex) (db : Store)
    (detail : Detail) (transaction : TransactionRow) (address : String) (includeMessages : Bool) :
    Except ScriptError AddressTransactionResponseDto := do
  let messages ← reportedMessages detail transaction.hash (findMessages order db transaction.hash)
  let parsedMessages ← messages.mapM MessageDto.parse
  let processedMessages := messages.map (processAddressMessage address)
  let (primaryDenom, totalAmount) ←
    primaryAmount print (processedMessages.map ProcessedMessage.toTransfer)
  let involvedAddresses := distinct (messages.flatMap MessageDto.involvedAddresses)
  pure {
    hash := transaction.hash
    height := transaction.height
    blockHash := ((db.block.find transaction.height).map BlockRow.hash).getD ""
    timestamp := (db.timestampOf transaction).getD detail.now
    success := transaction.success
    gasWanted := transaction.gasWanted
    gasUsed := transaction.gasUsed
    memo := transaction.memo
    messages := if includeMessages then processedMessages else []
    involvedAddresses
    involvedAddressesCount := involvedAddresses.length
    signerInfos := transaction.signerInfos
    direction := overallDirection
      (processedMessages.map fun m => m.toTransfer.direction)
    totalAmount
    primaryDenom
    messageCount := messages.length
    messageTypes := distinct (parsedMessages.map ParsedMessage.type)
    categories := distinct (parsedMessages.map ParsedMessage.module) }

-- ---------------------------------------------------------------------------
-- Messages of the modules
-- ---------------------------------------------------------------------------

inductive ModuleMessage
  | send (fromAddress toAddress : String) (amount : List FeeCoin)
  | multiSend (inputs outputs : List (String × List FeeCoin))
  /-- One of an authority, without parties. -/
  | bankOther
  | staking (delegator : Option String) (amount : Option FeeCoin)
  deriving DecidableEq, Repr

def FeeCoin.json (coin : FeeCoin) : Json :=
  .object [("denom", .string coin.denom), ("amount", .string (toString coin.amount))]

def partyJson (party : String × List FeeCoin) : Json :=
  .object [("address", .string party.1), ("coins", .array (party.2.map FeeCoin.json))]

namespace ModuleMessage

def fields : ModuleMessage → List (String × Json)
  | send fromAddress toAddress amount => [
    ("from_address", .string fromAddress), ("to_address", .string toAddress),
    ("amount", .array (amount.map FeeCoin.json))]
  | multiSend inputs outputs => [
    ("inputs", .array (inputs.map partyJson)), ("outputs", .array (outputs.map partyJson))]
  | bankOther => []
  | staking delegator amount =>
    (delegator.map fun delegator => ("delegator_address", Json.string delegator)).toList ++
      (amount.map fun coin => ("amount", coin.json)).toList

/-- The type of a message, with or without the slash of a type URL. -/
def HasType : ModuleMessage → String → Prop
  | send .., type => type ∈ ["cosmos.bank.v1beta1.MsgSend", "/cosmos.bank.v1beta1.MsgSend"]
  | multiSend .., type =>
    type ∈ ["cosmos.bank.v1beta1.MsgMultiSend", "/cosmos.bank.v1beta1.MsgMultiSend"]
  | bankOther, type =>
    Text.contains type "bank" = true ∧ Text.contains type "staking" = false ∧
      type ≠ "cosmos.bank.v1beta1.MsgMultiSend"
  | staking .., type => Text.contains type "staking" = true ∧ Text.contains type "bank" = false

def fieldNames : List String :=
  ["from_address", "to_address", "delegator_address", "amount", "inputs", "outputs"]

structure Reported (m : ModuleMessage) (dto : MessageDto) : Prop where
  type : ∃ type, dto.type = .string type ∧ m.HasType type
  value : ∃ fields, dto.value = .object fields ∧
    ∀ field ∈ fieldNames, fields.lookup field = m.fields.lookup field

def direction (address : String) : ModuleMessage → Option Direction
  | send fromAddress toAddress _ =>
    if fromAddress = address then some .sent
    else if toAddress = address then some .received
    else none
  | multiSend .. | bankOther => none
  | staking delegator _ => if delegator = some address then some .sent else none

def firstCoin : ModuleMessage → Option FeeCoin
  | send _ _ amount => amount.head?
  | multiSend .. | bankOther => none
  | staking _ amount => amount

def transfer (address : String) (m : ModuleMessage) : Transfer where
  direction := m.direction address
  amount := .string ((m.firstCoin.map fun coin => toString coin.amount).getD "0")
  denom := .string ((m.firstCoin.map FeeCoin.denom).getD "")

theorem toString_ne_empty (n : Nat) : toString n ≠ "" := by
  rw [Nat.toString_eq_ofList_toDigits]
  intro h
  exact Nat.toDigits_ne_nil (String.ofList_injective h)

theorem filter_truthy (s : String) : (some (Json.string s)).filter Json.truthy =
    if s = "" then none else some (.string s) := by
  by_cases h : s = ""
  · simp [h, Option.filter_some, Json.truthy]
  · simp [h, Option.filter_some, Json.truthy]

theorem withCoin_json (transfer : Transfer) (coin : FeeCoin) :
    transfer.withCoin coin.json =
      { transfer with amount := .string (toString coin.amount), denom := .string coin.denom } := by
  have hamount : memberTruthy "amount" coin.json = some (.string (toString coin.amount)) := by
    change (some (Json.string (toString coin.amount))).filter Json.truthy = _
    rw [filter_truthy, if_neg (toString_ne_empty coin.amount)]
  have hdenom : (memberTruthy "denom" coin.json).getD (.string "") = .string coin.denom := by
    change ((some (Json.string coin.denom)).filter Json.truthy).getD (.string "") = _
    rw [filter_truthy]
    split
    · rename_i h
      rw [h]
      rfl
    · rfl
  rw [Transfer.withCoin, hdenom, hamount, Option.getD_some]

section
variable {property s text address : String} {value : Json}

theorem hasText_string (h : member property value = some (.string s)) :
    hasText property text value = decide (s = text) := by
  rw [hasText, h]

theorem hasText_none (h : member property value = none) : hasText property text value = false := by
  rw [hasText, h]

theorem bankTransfer_send {fromAddress toAddress : String} {amount : List FeeCoin}
    (hfrom : member "from_address" value = some (.string fromAddress))
    (hto : member "to_address" value = some (.string toAddress))
    (hamount : member "amount" value = some (.array (amount.map FeeCoin.json))) :
    bankTransfer address value noTransfer =
      (send fromAddress toAddress amount).transfer address := by
  simp only [bankTransfer, hasText_string hfrom, hasText_string hto, hamount, decide_eq_true_eq]
  cases amount with
  | nil =>
    simp only [List.map_nil, transfer, direction, firstCoin, noTransfer, List.head?_nil]
    split
    · rfl
    · split <;> rfl
  | cons coin coins =>
    have htruthy : coin.json.truthy = true := rfl
    simp only [List.map_cons, htruthy, if_true, withCoin_json, transfer, direction, firstCoin,
      noTransfer, List.head?_cons]
    split
    · rfl
    · split <;> rfl

theorem bankTransfer_none (hfrom : member "from_address" value = none)
    (hto : member "to_address" value = none) (hamount : member "amount" value = none) :
    bankTransfer address value noTransfer = noTransfer := by
  simp only [bankTransfer, hasText_none hfrom, hasText_none hto, hamount]
  rfl

theorem stakingTransfer_staking {delegator : Option String} {amount : Option FeeCoin}
    (hdelegator : member "delegator_address" value = delegator.map Json.string)
    (hamount : member "amount" value = amount.map FeeCoin.json) :
    stakingTransfer address value noTransfer = (staking delegator amount).transfer address := by
  have hdirection : hasText "delegator_address" address value =
      decide (delegator = some address) := by
    cases delegator with
    | none => exact hasText_none hdelegator
    | some delegator =>
      rw [hasText_string hdelegator]
      simp
  have hcoin : memberTruthy "amount" value = amount.map FeeCoin.json := by
    rw [memberTruthy, hamount]
    cases amount <;> rfl
  simp only [stakingTransfer, hdirection, hcoin, decide_eq_true_eq, transfer, direction, firstCoin]
  cases amount with
  | none =>
    simp only [Option.map_none, noTransfer]
    split <;> rfl
  | some coin =>
    simp only [Option.map_some, withCoin_json, noTransfer]
    split <;> rfl

end

theorem Reported.member_eq {m : ModuleMessage} {dto : MessageDto} (h : m.Reported dto) :
    dto.value.truthy = true ∧
      ∀ field ∈ fieldNames, member field dto.value = m.fields.lookup field := by
  obtain ⟨fields, hvalue, hfields⟩ := h.value
  rw [hvalue]
  exact ⟨rfl, hfields⟩

theorem processAddressMessage_reported {m : ModuleMessage} {dto : MessageDto} (address : String)
    (h : m.Reported dto) : (processAddressMessage address dto).toTransfer = m.transfer address := by
  obtain ⟨type, htype, hhas⟩ := h.type
  obtain ⟨htruthy, hmember⟩ := h.member_eq
  have hfrom := hmember "from_address" (by decide)
  have hto := hmember "to_address" (by decide)
  have hdelegator := hmember "delegator_address" (by decide)
  have hamount := hmember "amount" (by decide)
  rw [processAddressMessage, htype]
  simp only [transferOf, htruthy, if_true]
  cases m with
  | send fromAddress toAddress amount =>
    have hbank : Text.contains type "bank" = true ∧ Text.contains type "staking" = false := by
      rcases List.mem_pair.mp hhas with rfl | rfl <;> decide +kernel
    rw [hbank.1, hbank.2]
    exact bankTransfer_send hfrom hto hamount
  | multiSend inputs outputs =>
    have hbank : Text.contains type "bank" = true ∧ Text.contains type "staking" = false := by
      rcases List.mem_pair.mp hhas with rfl | rfl <;> decide +kernel
    rw [hbank.1, hbank.2]
    exact bankTransfer_none hfrom hto hamount
  | bankOther =>
    rw [hhas.1, hhas.2.1]
    exact bankTransfer_none hfrom hto hamount
  | staking delegator amount =>
    rw [hhas.1, hhas.2]
    refine stakingTransfer_staking ?_ ?_
    · rw [hdelegator]
      cases delegator <;> cases amount <;> rfl
    · rw [hamount]
      cases delegator <;> cases amount <;> rfl

/-- The amount of an object can be read whatever its type is, unless that is the one
of a `MsgMultiSend`. -/
theorem extractAmount_object {type : String} (h : type ≠ "cosmos.bank.v1beta1.MsgMultiSend")
    (fields : List (String × Json)) :
    ∃ amount, extractAmount (.object fields) type = .ok amount := by
  unfold extractAmount
  split
  case h_2 => exact absurd rfl h
  case h_8 =>
    have hget : Json.getTruthy "amount" (.object fields) =
        .ok ((fields.lookup "amount").filter Json.truthy) := rfl
    rw [hget]
    cases (fields.lookup "amount").filter Json.truthy with
    | none => exact ⟨_, rfl⟩
    | some amount => cases amount <;> exact ⟨_, rfl⟩
  all_goals exact ⟨_, rfl⟩

theorem inputCoins_inputs (inputs : List (String × List FeeCoin)) :
    inputCoins (.array (inputs.map partyJson)) =
      .ok (inputs.map fun input => input.2.map FeeCoin.json).flatten := by
  refine Eff.bind_ok.mpr ⟨inputs.map fun input => input.2.map FeeCoin.json, ?_, rfl⟩
  refine mapM_ok_iff.mpr (List.forall₂_map_left_iff.mpr (List.forall₂_map_right_iff.mpr ?_))
  exact List.forall₂_same.mpr fun _ _ => rfl

theorem Reported.parses {m : ModuleMessage} {dto : MessageDto} (h : m.Reported dto) :
    ∃ parsed, dto.parse = .ok parsed := by
  obtain ⟨type, htype, hhas⟩ := h.type
  obtain ⟨fields, hvalue, hfields⟩ := h.value
  rw [MessageDto.parse, htype, hvalue]
  refine parseMessage_ok_iff.mpr fun _ => ?_
  by_cases hmulti : type = "cosmos.bank.v1beta1.MsgMultiSend"
  · subst hmulti
    cases m with
    | send fromAddress toAddress amount =>
      rcases List.mem_pair.mp hhas with hname | hname <;> exact absurd hname (by decide)
    | multiSend inputs outputs =>
      have hinputs : Json.getTruthy "inputs" (.object fields) =
          .ok (some (.array (inputs.map partyJson))) := by
        change Except.ok ((fields.lookup "inputs").filter Json.truthy) = _
        rw [hfields "inputs" (by decide)]
        rfl
      exact ⟨_, Eff.bind_ok.mpr ⟨_, hinputs, Eff.bind_ok.mpr ⟨_, inputCoins_inputs inputs, rfl⟩⟩⟩
    | bankOther => exact absurd rfl hhas.2.2
    | staking delegator amount => exact absurd hhas.2 (by decide +kernel)
  · exact extractAmount_object hmulti fields

end ModuleMessage

-- ---------------------------------------------------------------------------
-- Added amounts
-- ---------------------------------------------------------------------------

/-- The coin that the service counts: the first one of a message, if there is any of it. -/
def ModuleMessage.countedCoin (m : ModuleMessage) : Option FeeCoin :=
  m.firstCoin.filter fun coin => coin.amount ≠ 0

def countedCoins (messages : List ModuleMessage) : List FeeCoin :=
  messages.filterMap ModuleMessage.countedCoin

/-- No counted denomination is the name of a property that `{}` inherits. -/
def PlainDenoms (messages : List ModuleMessage) : Prop :=
  ∀ coin ∈ countedCoins messages, coin.denom ∉ inheritedProperties

def primaryDenom (messages : List ModuleMessage) : Option String :=
  (ownKeys (distinct ((countedCoins messages).map FeeCoin.denom))).head?

def primaryOf (messages : List ModuleMessage) : String × String :=
  match primaryDenom messages with
  | some denom => (denom, toString (amountOf denom (countedCoins messages)))
  | none => ("", "0")

def coinTexts (coins : List FeeCoin) : List (String × String) :=
  coins.map fun coin => (coin.denom, toString coin.amount)

theorem denoms_addFee (acc : List FeeCoin) (fee : FeeCoin) :
    (addFee acc fee).map FeeCoin.denom =
      if fee.denom ∈ acc.map FeeCoin.denom then acc.map FeeCoin.denom
      else acc.map FeeCoin.denom ++ [fee.denom] := by
  induction acc with
  | nil => simp [addFee]
  | cons existing acc ih =>
    unfold addFee
    by_cases h : existing.denom = fee.denom
    · simp [h]
    · rw [if_neg h, List.map_cons, ih]
      by_cases hmem : fee.denom ∈ acc.map FeeCoin.denom
      · simp [hmem]
      · simp [hmem, Ne.symm h]

theorem denoms_foldl (coins : List FeeCoin) :
    (coins.foldl addFee []).map FeeCoin.denom = distinct (coins.map FeeCoin.denom) := by
  induction coins using List.reverseRecOn with
  | nil => rfl
  | append_singleton coins coin ih =>
    rw [List.foldl_append, List.foldl_cons, List.foldl_nil, denoms_addFee, ih, List.map_append,
      List.map_cons, List.map_nil, distinct_concat]
    simp only [mem_distinct]

theorem put_coinTexts (coins : List FeeCoin) (coin : FeeCoin) : ∃ previous : Nat,
    textToBigInt ((truthyText ((coinTexts coins).lookup coin.denom)).getD "0") = .ok previous ∧
      put coin.denom (toString (previous + coin.amount)) (coinTexts coins) =
        coinTexts (addFee coins coin) := by
  induction coins with
  | nil =>
    refine ⟨0, textToBigInt_natural 0, ?_⟩
    rw [Nat.zero_add]
    rfl
  | cons existing coins ih =>
    by_cases h : existing.denom = coin.denom
    · refine ⟨existing.amount, ?_, ?_⟩
      · have hlookup : (coinTexts (existing :: coins)).lookup coin.denom =
            some (toString existing.amount) := by
          rw [← h]
          exact List.lookup_cons_self
        rw [hlookup, truthyText, Option.filter_some, if_pos, Option.getD_some,
          textToBigInt_natural]
        exact decide_eq_true (ModuleMessage.toString_ne_empty existing.amount)
      · simp [coinTexts, put, addFee, h]
    · obtain ⟨previous, hprevious, hput⟩ := ih
      refine ⟨previous, ?_, ?_⟩
      · have hlookup : (coinTexts (existing :: coins)).lookup coin.denom =
            (coinTexts coins).lookup coin.denom := by
          have hne : (coin.denom == existing.denom) = false := by simpa using Ne.symm h
          simp [coinTexts, List.lookup_cons, hne]
        rw [hlookup, hprevious]
      · have hcoins : coinTexts (existing :: coins) =
            (existing.denom, toString existing.amount) :: coinTexts coins := rfl
        rw [hcoins, put, if_neg h, hput, addFee, if_neg h]
        rfl

theorem lookup_coinTexts {coins : List FeeCoin} {denom : String}
    (h : denom ∈ coins.map FeeCoin.denom) : ∃ coin ∈ coins, coin.denom = denom ∧
      (coinTexts coins).lookup denom = some (toString coin.amount) := by
  obtain ⟨coin, hcoin, hdenom⟩ := List.mem_map.mp h
  have hmem : (coin.denom, toString coin.amount) ∈ coinTexts coins :=
    List.mem_map.mpr ⟨coin, hcoin, rfl⟩
  obtain ⟨text, htext⟩ := Option.isSome_iff_exists.mp
    (List.lookup_isSome_iff.mpr ⟨_, hmem, beq_iff_eq.mpr hdenom.symm⟩)
  obtain ⟨before, after, hsplit, -⟩ := List.lookup_eq_some_iff.mp htext
  have hentry : (denom, text) ∈ coinTexts coins := by simp [hsplit]
  obtain ⟨found, hfound, heq⟩ := List.mem_map.mp hentry
  obtain ⟨rfl, rfl⟩ := Prod.mk.inj heq
  exact ⟨found, hfound, rfl, htext⟩

theorem addAmount_coin (print : Rat → String) (coins : List FeeCoin) (coin : FeeCoin)
    (direction : Option Direction) :
    addAmount print (coinTexts coins)
        ⟨direction, .string (toString coin.amount), .string coin.denom⟩ =
      if coin.denom ∈ inheritedProperties then .error notBigInt
      else .ok (coinTexts (addFee coins coin)) := by
  obtain ⟨previous, hprevious, hput⟩ := put_coinTexts coins coin
  have hdenom : (Json.string coin.denom).text print = .ok coin.denom := rfl
  have hamount : (Json.string (toString coin.amount)).bigInt print = .ok coin.amount :=
    textToBigInt_natural coin.amount
  by_cases hinherited : coin.denom ∈ inheritedProperties
  · rw [if_pos hinherited]
    unfold addAmount
    rw [hdenom]
    exact if_pos hinherited
  · rw [if_neg hinherited]
    refine Eff.bind_ok.mpr ⟨coin.denom, hdenom, ?_⟩
    rw [if_neg hinherited]
    refine Eff.bind_ok.mpr ⟨previous, hprevious, Eff.bind_ok.mpr ⟨coin.amount, hamount, ?_⟩⟩
    exact congrArg Except.ok hput

theorem hasAmount_transfer (address : String) (m : ModuleMessage) :
    (m.transfer address).hasAmount = m.countedCoin.isSome := by
  unfold Transfer.hasAmount ModuleMessage.transfer ModuleMessage.countedCoin
  cases m.firstCoin with
  | none => rfl
  | some coin =>
    have hzero : toString coin.amount = "0" ↔ coin.amount = 0 := by
      refine ⟨fun h => ?_, fun h => by rw [h]; rfl⟩
      exact Int.ofNat.inj (Text.toString_inj (Int.natCast_nonneg _) le_rfl h)
    have hcounts : (toString coin.amount ≠ "" ∧ toString coin.amount ≠ "0") ↔ coin.amount ≠ 0 := by
      rw [and_iff_right (ModuleMessage.toString_ne_empty coin.amount), ne_eq, hzero]
    change decide (toString coin.amount ≠ "" ∧ toString coin.amount ≠ "0") = _
    by_cases h : coin.amount = 0
    · rw [decide_eq_false (mt hcounts.mp (not_not.mpr h))]
      simp [Option.filter_some, h]
    · rw [decide_eq_true (hcounts.mpr h)]
      simp [Option.filter_some, h]

theorem transfer_of_counted {address : String} {m : ModuleMessage} {coin : FeeCoin}
    (h : m.countedCoin = some coin) : m.transfer address =
      ⟨m.direction address, .string (toString coin.amount), .string coin.denom⟩ := by
  have hfirst : m.firstCoin = some coin := (Option.filter_eq_some_iff.mp h).1
  rw [ModuleMessage.transfer, hfirst]
  rfl

/-- Amounts are added up as coins are, and none is lost unless a denomination is the
name of an inherited property. -/
theorem foldlM_addAmount (print : Rat → String) (address : String) (messages : List ModuleMessage)
    (coins : List FeeCoin) {acc : List (String × String)} :
    ((messages.map (ModuleMessage.transfer address)).filter Transfer.hasAmount).foldlM
        (addAmount print) (coinTexts coins) = .ok acc ↔
      PlainDenoms messages ∧ acc = coinTexts ((countedCoins messages).foldl addFee coins) := by
  induction messages generalizing coins with
  | nil =>
    simp [PlainDenoms, countedCoins, pure, Except.pure, eq_comm]
  | cons m messages ih =>
    have hamount := hasAmount_transfer address m
    cases hcounted : m.countedCoin with
    | none =>
      rw [hcounted] at hamount
      have hcoins : countedCoins (m :: messages) = countedCoins messages :=
        List.filterMap_cons_none hcounted
      rw [List.map_cons, List.filter_cons_of_neg (by simp [hamount]), ih, PlainDenoms, PlainDenoms,
        hcoins]
    | some coin =>
      rw [hcounted] at hamount
      have hcoins : countedCoins (m :: messages) = coin :: countedCoins messages :=
        List.filterMap_cons_some hcounted
      rw [List.map_cons, List.filter_cons_of_pos hamount, List.foldlM_cons,
        transfer_of_counted hcounted, addAmount_coin, PlainDenoms, hcoins, List.forall_mem_cons,
        List.foldl_cons]
      by_cases hinherited : coin.denom ∈ inheritedProperties
      · simp [hinherited, bind, Except.bind]
      · rw [if_neg hinherited]
        refine (ih (addFee coins coin)).trans ?_
        rw [PlainDenoms, and_iff_right hinherited]

theorem primaryAmount_ok_iff (print : Rat → String) (address : String)
    (messages : List ModuleMessage) {primary : String × String} :
    primaryAmount print (messages.map (ModuleMessage.transfer address)) = .ok primary ↔
      PlainDenoms messages ∧ primary = primaryOf messages := by
  have hexact := exactFees_foldl (countedCoins messages)
  have hkeys : (coinTexts ((countedCoins messages).foldl addFee [])).map Prod.fst =
      distinct ((countedCoins messages).map FeeCoin.denom) := by
    rw [← denoms_foldl, coinTexts, List.map_map]
    rfl
  have hprimary : (entries (coinTexts ((countedCoins messages).foldl addFee []))).head?.getD
      ("", "0") = primaryOf messages := by
    rw [head?_entries, hkeys, primaryOf, primaryDenom]
    cases hhead : (ownKeys (distinct ((countedCoins messages).map FeeCoin.denom))).head? with
    | none => rfl
    | some denom =>
      have hmem : denom ∈ ((countedCoins messages).foldl addFee []).map FeeCoin.denom := by
        rw [denoms_foldl]
        exact mem_ownKeys.mp (List.mem_of_mem_head? hhead)
      obtain ⟨coin, hcoin, rfl, hlookup⟩ := lookup_coinTexts hmem
      rw [Option.bind_some, hlookup, hexact.amounts coin hcoin]
      rfl
  unfold primaryAmount
  constructor
  · intro h
    obtain ⟨acc, hacc, hresult⟩ := Eff.bind_ok.mp h
    obtain ⟨hplain, rfl⟩ := (foldlM_addAmount print address messages []).mp hacc
    exact ⟨hplain, by rw [← hprimary]; exact (Except.ok.inj hresult).symm⟩
  · rintro ⟨hplain, rfl⟩
    exact Eff.bind_ok.mpr ⟨_, (foldlM_addAmount print address messages []).mpr ⟨hplain, rfl⟩,
      congrArg Except.ok hprimary⟩

-- ---------------------------------------------------------------------------
-- Responses
-- ---------------------------------------------------------------------------

def MessagesReported (order : ByIndex) (db : Store) (detail : Detail) (hash : String)
    (messages : List ModuleMessage) : Prop :=
  ∃ dtos, reportedMessages detail hash (findMessages order db hash) = .ok dtos ∧
    List.Forall₂ ModuleMessage.Reported messages dtos

section
variable {messages : List ModuleMessage} {dtos : List MessageDto}

theorem transfers_reported (hall : List.Forall₂ ModuleMessage.Reported messages dtos)
    (address : String) : (dtos.map (processAddressMessage address)).map ProcessedMessage.toTransfer =
      messages.map (ModuleMessage.transfer address) := by
  rw [List.map_map]
  exact (map_eq_of_forall₂ hall fun m dto h =>
    (ModuleMessage.processAddressMessage_reported address h).symm).symm

theorem directions_reported (hall : List.Forall₂ ModuleMessage.Reported messages dtos)
    (address : String) :
    (dtos.map (processAddressMessage address)).map (fun m => m.toTransfer.direction) =
      messages.map (ModuleMessage.direction address) := by
  have hmap := congrArg (List.map Transfer.direction) (transfers_reported hall address)
  rw [List.map_map, List.map_map] at hmap
  rw [List.map_map]
  exact hmap.trans List.map_map

end

/-- A response on messages of the modules: there is one unless a denomination is the
name of an inherited property. -/
theorem response_iff {print : Rat → String} {order : ByIndex} {db : Store} {detail : Detail}
    {transaction : TransactionRow} {address : String} {includeMessages : Bool}
    {messages : List ModuleMessage}
    (hmessages : MessagesReported order db detail transaction.hash messages)
    {P : Direction → String × String → Prop} :
    (∃ response, processAddressTransactionResponse print order db detail transaction address
        includeMessages = .ok response ∧
      P response.direction (response.primaryDenom, response.totalAmount)) ↔
    PlainDenoms messages ∧ P (overallDirection (messages.map (ModuleMessage.direction address)))
      (primaryOf messages) := by
  obtain ⟨dtos, hdtos, hall⟩ := hmessages
  have htransfers := transfers_reported hall address
  have hdirections := directions_reported hall address
  obtain ⟨parsed, hparsed⟩ : ∃ parsed, dtos.mapM MessageDto.parse = .ok parsed :=
    mapM_returns_iff.mpr (forall_mem_of_forall₂ hall fun _ _ h => h.parses)
  constructor
  · rintro ⟨response, hresponse, hP⟩
    obtain ⟨_, hdtos', hresponse⟩ := Eff.bind_ok.mp hresponse
    obtain rfl := Except.ok.inj (hdtos.symm.trans hdtos')
    obtain ⟨_, -, hresponse⟩ := Eff.bind_ok.mp hresponse
    obtain ⟨primary, hprimary, hresponse⟩ := Eff.bind_ok.mp hresponse
    rw [htransfers] at hprimary
    obtain ⟨hplain, rfl⟩ := (primaryAmount_ok_iff print address messages).mp hprimary
    cases hresponse
    rw [hdirections] at hP
    exact ⟨hplain, hP⟩
  · rintro ⟨hplain, hP⟩
    have hprimary := (primaryAmount_ok_iff print address messages).mpr ⟨hplain, rfl⟩
    rw [← htransfers] at hprimary
    refine ⟨_, Eff.bind_ok.mpr ⟨dtos, hdtos, Eff.bind_ok.mpr ⟨parsed, hparsed,
      Eff.bind_ok.mpr ⟨_, hprimary, rfl⟩⟩⟩, ?_⟩
    dsimp only
    rw [hdirections]
    exact hP

def columnDetail (messages : List (String × ModuleMessage)) : Detail where
  messages := fun _ => some (messages.map fun m => .object (("@type", .string m.1) :: m.2.fields))
  value := fun _ => .null
  now := 0

theorem ModuleMessage.reported_column {type : String} {m : ModuleMessage} (h : m.HasType type)
    {index : Nat} {addresses : List String} :
    m.Reported ⟨.string type, .object (("@type", .string type) :: m.fields), .number index, addresses⟩ :=
  ⟨⟨type, rfl, h⟩, _, rfl, by simp [fieldNames, List.lookup_cons]⟩

end SafrochainIndexer.Api
