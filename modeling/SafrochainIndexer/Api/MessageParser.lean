import SafrochainIndexer.Lib.Effect
import SafrochainIndexer.Lib.Script

/-!
# Parsing messages

`message-parser.service.ts`: a message type that is registered has its module,
label and description in a table and its amount in a field of its own; any other
type is taken apart at its dots.
-/

namespace SafrochainIndexer.Api

inductive MessageCategory
  | bank
  | staking
  | governance
  | distribution
  | slashing
  | mint
  | auth
  | fees
  | upgrade
  | evidence
  | other
  deriving DecidableEq, Repr

structure MessageTypeInfo where
  type : String
  module : String
  label : String
  description : String
  category : MessageCategory
  deriving DecidableEq, Repr

def messageTypes : List MessageTypeInfo := [
  ⟨"cosmos.bank.v1beta1.MsgSend", "bank", "Send",
    "Send coins from one account to another", .bank⟩,
  ⟨"cosmos.bank.v1beta1.MsgMultiSend", "bank", "Multi Send",
    "Send coins to multiple recipients", .bank⟩,
  ⟨"cosmos.staking.v1beta1.MsgDelegate", "staking", "Delegate",
    "Delegate tokens to a validator", .staking⟩,
  ⟨"cosmos.staking.v1beta1.MsgUndelegate", "staking", "Undelegate",
    "Undelegate tokens from a validator", .staking⟩,
  ⟨"cosmos.staking.v1beta1.MsgBeginRedelegate", "staking", "Redelegate",
    "Redelegate tokens from one validator to another", .staking⟩,
  ⟨"cosmos.gov.v1.MsgSubmitProposal", "gov", "Submit Proposal",
    "Submit a governance proposal", .governance⟩,
  ⟨"cosmos.gov.v1.MsgDeposit", "gov", "Deposit",
    "Deposit tokens for a governance proposal", .governance⟩,
  ⟨"cosmos.gov.v1.MsgVote", "gov", "Vote",
    "Vote on a governance proposal", .governance⟩,
  ⟨"cosmos.distribution.v1beta1.MsgWithdrawDelegatorReward", "distribution", "Withdraw Rewards",
    "Withdraw delegation rewards", .distribution⟩,
  ⟨"cosmos.slashing.v1beta1.MsgUnjail", "slashing", "Unjail",
    "Unjail a validator", .slashing⟩,
  ⟨"cosmos.auth.v1beta1.MsgUpdateParams", "auth", "Update Auth Params",
    "Update authentication parameters", .auth⟩,
  ⟨"cosmos.feegrant.v1beta1.MsgGrantAllowance", "feegrant", "Grant Fee Allowance",
    "Grant fee allowance to another account", .fees⟩,
  ⟨"cosmos.feegrant.v1beta1.MsgRevokeAllowance", "feegrant", "Revoke Fee Allowance",
    "Revoke fee allowance from another account", .fees⟩,
  ⟨"cosmos.upgrade.v1beta1.MsgSoftwareUpgrade", "upgrade", "Software Upgrade",
    "Propose a software upgrade", .upgrade⟩,
  ⟨"cosmos.upgrade.v1beta1.MsgCancelUpgrade", "upgrade", "Cancel Upgrade",
    "Cancel a software upgrade", .upgrade⟩,
  ⟨"cosmos.evidence.v1beta1.MsgSubmitEvidence", "evidence", "Submit Evidence",
    "Submit evidence of misbehavior", .evidence⟩]

def getMessageTypeInfo (type : String) : Option MessageTypeInfo :=
  messageTypes.find? fun info => info.type = type

structure ParsedMessage where
  type : String
  module : String
  label : String
  value : Json
  involvedAddresses : List String
  amount : Option Json
  description : String

def extractModuleFromType (type : String) : String :=
  match Text.splitAt type '.' with
  | _ :: module :: _ => module
  | _ => "unknown"

def extractLabelFromType (type : String) : String :=
  match Text.splitAt type '.' with
  | _ :: _ :: label :: _ => Text.replace label "Msg" ""
  | _ => "Unknown"

def inputCoins (inputs : Json) : Except ScriptError (List Json) :=
  match inputs with
  | .array inputs => do
    let coins ← inputs.mapM fun input => do
      match ← input.getTruthy "coins" with
      | some coins => coins.spread
      | none => pure []
    pure coins.flatten
  | _ => .error (.notFunction "value.inputs.forEach")

/-- An amount is what the message has in its field, which need not be an array
of coins. -/
def extractAmount (value : Json) (type : String) : Except ScriptError (Option Json) :=
  match type with
  | "cosmos.bank.v1beta1.MsgSend" => do
    let amount ← value.getTruthy "amount"
    pure (amount.getD (.array []))
  | "cosmos.bank.v1beta1.MsgMultiSend" => do
    let amounts ← match ← value.getTruthy "inputs" with
      | some inputs => inputCoins inputs
      | none => pure []
    pure (if 0 < amounts.length then some (.array amounts) else none)
  | "cosmos.staking.v1beta1.MsgDelegate"
  | "cosmos.staking.v1beta1.MsgUndelegate"
  | "cosmos.staking.v1beta1.MsgBeginRedelegate" => do
    let amount ← value.getTruthy "amount"
    pure (amount.map fun amount => .array [amount])
  | "cosmos.gov.v1.MsgSubmitProposal" => do
    let amount ← value.getTruthy "initial_deposit"
    pure (amount.getD (.array []))
  | "cosmos.gov.v1.MsgDeposit" => do
    let amount ← value.getTruthy "amount"
    pure (amount.getD (.array []))
  | _ => do
    match ← value.getTruthy "amount" with
    | some (.array amount) => pure (some (.array amount))
    | some amount => pure (some (.array [amount]))
    | none => pure none

def parseMessage (type : String) (value : Json) (involvedAddresses : List String) :
    Except ScriptError ParsedMessage :=
  match getMessageTypeInfo type with
  | none => .ok {
      type
      module := extractModuleFromType type
      label := extractLabelFromType type
      value
      involvedAddresses
      amount := none
      description := "Unknown message type" }
  | some typeInfo => do
    let amount ← extractAmount value type
    .ok {
      type
      module := typeInfo.module
      label := typeInfo.label
      value
      involvedAddresses
      amount
      description := typeInfo.description }

-- ---------------------------------------------------------------------------
-- Type URLs
-- ---------------------------------------------------------------------------

/-- An entry of the table has no slash in front and names its own module, but a
label that is never the third piece of its type. -/
def MessageTypeInfo.Registered (info : MessageTypeInfo) : Prop :=
  info.type.toList.head? = some 'c' ∧ info.module = extractModuleFromType info.type ∧
    info.label ≠ extractLabelFromType info.type

instance (info : MessageTypeInfo) : Decidable info.Registered := inferInstanceAs (Decidable (_ ∧ _))

theorem registered : ∀ info ∈ messageTypes, info.Registered := by
  decide +kernel

theorem getMessageTypeInfo_mem {type : String} {info : MessageTypeInfo}
    (h : getMessageTypeInfo type = some info) : info ∈ messageTypes ∧ info.type = type :=
  ⟨List.mem_of_find?_eq_some h, by simpa using List.find?_some h⟩

theorem getMessageTypeInfo_slash (type : String) : getMessageTypeInfo ("/" ++ type) = none := by
  refine List.find?_eq_none.mpr fun info hinfo heq => ?_
  obtain ⟨hhead, -, -⟩ := registered info hinfo
  rw [of_decide_eq_true heq] at hhead
  simp at hhead

theorem extractModuleFromType_slash (type : String) :
    extractModuleFromType ("/" ++ type) = extractModuleFromType type := by
  obtain ⟨first, rest, htype, hslash⟩ :=
    Text.splitAt_append (show '.' ∉ "/".toList by decide) type
  unfold extractModuleFromType
  rw [htype, hslash]
  cases rest with
  | nil => rfl
  | cons _ rest => rfl

theorem extractLabelFromType_slash (type : String) :
    extractLabelFromType ("/" ++ type) = extractLabelFromType type := by
  obtain ⟨first, rest, htype, hslash⟩ :=
    Text.splitAt_append (show '.' ∉ "/".toList by decide) type
  unfold extractLabelFromType
  rw [htype, hslash]
  cases rest with
  | nil => rfl
  | cons _ rest => cases rest <;> rfl

-- ---------------------------------------------------------------------------
-- Parsed messages
-- ---------------------------------------------------------------------------

section
variable {type : String} {value : Json} {involvedAddresses : List String}

theorem parseMessage_type {parsed : ParsedMessage}
    (h : parseMessage type value involvedAddresses = .ok parsed) : parsed.type = type := by
  unfold parseMessage at h
  split at h
  · cases h
    rfl
  · obtain ⟨amount, -, hparsed⟩ := Eff.bind_ok.mp h
    cases hparsed
    rfl

/-- Whether registered or not, a message has the module its type names. -/
theorem parseMessage_module {parsed : ParsedMessage}
    (h : parseMessage type value involvedAddresses = .ok parsed) :
    parsed.module = extractModuleFromType type := by
  unfold parseMessage at h
  split at h
  · cases h
    rfl
  · rename_i info hinfo
    obtain ⟨hmem, rfl⟩ := getMessageTypeInfo_mem hinfo
    obtain ⟨amount, -, hparsed⟩ := Eff.bind_ok.mp h
    cases hparsed
    exact (registered info hmem).2.1

theorem parseMessage_unregistered (h : getMessageTypeInfo type = none) :
    parseMessage type value involvedAddresses =
      .ok ⟨type, extractModuleFromType type, extractLabelFromType type, value, involvedAddresses,
        none, "Unknown message type"⟩ := by
  rw [parseMessage, h]

theorem parseMessage_label {info : MessageTypeInfo} {parsed : ParsedMessage}
    (hinfo : getMessageTypeInfo type = some info)
    (h : parseMessage type value involvedAddresses = .ok parsed) : parsed.label = info.label := by
  unfold parseMessage at h
  rw [hinfo] at h
  obtain ⟨amount, -, hparsed⟩ := Eff.bind_ok.mp h
  cases hparsed
  rfl

theorem parseMessage_ok_iff : (∃ parsed, parseMessage type value involvedAddresses = .ok parsed) ↔
    (getMessageTypeInfo type ≠ none → ∃ amount, extractAmount value type = .ok amount) := by
  cases hinfo : getMessageTypeInfo type with
  | none => simp [parseMessage_unregistered hinfo]
  | some info =>
    unfold parseMessage
    rw [hinfo]
    cases hamount : extractAmount value type with
    | error _ => simp [bind, Except.bind]
    | ok amount => simp [bind, Except.bind]

/-- Under its type URL and under its name a message is parsed to the same
module, label, amount and description. -/
def ParsesAlike (type : String) (value : Json) (involvedAddresses : List String) : Prop :=
  ∃ slashed plain, parseMessage ("/" ++ type) value involvedAddresses = .ok slashed ∧
    parseMessage type value involvedAddresses = .ok plain ∧
    slashed.module = plain.module ∧ slashed.label = plain.label ∧
    slashed.amount = plain.amount ∧ slashed.description = plain.description

theorem parsesAlike_iff :
    ParsesAlike type value involvedAddresses ↔ getMessageTypeInfo type = none := by
  have hslash : parseMessage ("/" ++ type) value involvedAddresses = _ :=
    parseMessage_unregistered (getMessageTypeInfo_slash type)
  constructor
  · rintro ⟨slashed, plain, hs, hp, -, hlabel, -, -⟩
    by_contra hreg
    obtain ⟨info, hinfo⟩ := Option.ne_none_iff_exists'.mp hreg
    obtain ⟨hmem, rfl⟩ := getMessageTypeInfo_mem hinfo
    obtain rfl := Except.ok.inj (hslash.symm.trans hs)
    rw [parseMessage_label hinfo hp, extractLabelFromType_slash] at hlabel
    exact (registered info hmem).2.2 hlabel.symm
  · intro hnone
    exact ⟨_, _, hslash, parseMessage_unregistered hnone, extractModuleFromType_slash type,
      extractLabelFromType_slash type, rfl, rfl⟩

end

end SafrochainIndexer.Api
