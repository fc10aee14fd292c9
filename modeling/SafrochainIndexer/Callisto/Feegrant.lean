import SafrochainIndexer.Callisto.Accounts

/-!
# Fee grants

`SaveFeeGrantAllowance` and `DeleteFeeGrantAllowance`, and the handlers that
call them: a grant and a revocation come as messages, an expiry comes as an
end-block event.

`opsFor` lists what a run does to the row of one grantee and granter.
-/

namespace SafrochainIndexer.Callisto

/-- A row's worth of `types.FeeGrant`. -/
structure FeeGrant where
  granter : String
  grantee : String
  allowance : Any
  height : Int
  deriving DecidableEq, Repr

structure GrantRemoval where
  grantee : String
  granter : String
  height : Int
  deriving DecidableEq, Repr

def feeGrantAllowanceConflict : Conflict FeeGrantAllowanceRow.uniqueFeeGrantAllowance where
  set stored excluded :=
    { stored with allowance := excluded.allowance, height := excluded.height }
  guard stored excluded := stored.height ≤ excluded.height
  key_set _ _ := rfl

/-- `protoMarshalJSON` is the codec's. -/
def saveFeeGrantAllowance (protoMarshalJSON : Any → Except String String) (allowance : FeeGrant) :
    Eff Db Unit := do
  Eff.wrap "error while storing fee grant allowance accounts: "
    (saveAccounts [⟨allowance.granter⟩, ⟨allowance.grantee⟩])
  let allowanceJSON ← Eff.wrap "error while marshaling grant allowance: "
    (Eff.ofExcept (protoMarshalJSON allowance.allowance))
  Eff.wrap "error while saving fee grant allowance: "
    (feeGrantAllowanceTable.insert feeGrantAllowanceConflict
      [⟨allowance.grantee, allowance.granter, allowanceJSON, allowance.height⟩])

def deleteFeeGrantAllowance (allowance : GrantRemoval) : Eff Db Unit :=
  Eff.wrap "error while deleting grant allowance: "
    (feeGrantAllowanceTable.delete fun r =>
      r.granteeAddress = allowance.grantee ∧ r.granterAddress = allowance.granter ∧
        r.height ≤ allowance.height)

namespace Feegrant

structure MsgGrantAllowance where
  granter : String
  grantee : String
  allowance : Any
  deriving DecidableEq, Repr

structure MsgRevokeAllowance where
  granter : String
  grantee : String
  deriving DecidableEq, Repr

inductive Msg
  | grantAllowance (msg : MsgGrantAllowance)
  | revokeAllowance (msg : MsgRevokeAllowance)
  | other
  deriving DecidableEq, Repr

/-- The module with what it takes from the SDK and from Juno. An address is its
text, an allowance the message it was packed from. -/
structure Module where
  getFeeAllowanceI : MsgGrantAllowance → Except String Any
  accAddressFromBech32 : String → Except String String
  newGrant : String → String → Any → Except String (String × String × Any)
  protoMarshalJSON : Any → Except String String
  findEventsByType : List Event → String → List Event
  findAttributeByKey : Event → String → Except String Attribute

variable (m : Module)

def Module.handleMsgGrantAllowance (tx : Tx) (msg : MsgGrantAllowance) : Eff Db Unit := do
  let allowance ← Eff.wrap "error while getting fee allowance: "
    (Eff.ofExcept (m.getFeeAllowanceI msg))
  let granter ← Eff.wrap "error while parsing granter address: "
    (Eff.ofExcept (m.accAddressFromBech32 msg.granter))
  let grantee ← Eff.wrap "error while parsing grantee address: "
    (Eff.ofExcept (m.accAddressFromBech32 msg.grantee))
  let (granter, grantee, allowance) ← Eff.wrap "error while getting new grant allowance: "
    (Eff.ofExcept (m.newGrant granter grantee allowance))
  saveFeeGrantAllowance m.protoMarshalJSON ⟨granter, grantee, allowance, tx.height⟩

def handleMsgRevokeAllowance (tx : Tx) (msg : MsgRevokeAllowance) : Eff Db Unit :=
  deleteFeeGrantAllowance ⟨msg.grantee, msg.granter, tx.height⟩

def Module.handleMsg (_index : Nat) (msg : Msg) (tx : Tx) : Eff Db Unit :=
  if tx.logs.length = 0 then pure ()
  else
    match msg with
    | .grantAllowance msg => m.handleMsgGrantAllowance tx msg
    | .revokeAllowance msg => handleMsgRevokeAllowance tx msg
    | .other => pure ()

/-- One round of the loop of `removeExpiredFeeGrantAllowances`. -/
def Module.removeExpired (height : Int) (event : Event) : Eff Db Unit := do
  let granterAddress ← Eff.wrap "error while getting fee grant granter address: "
    (Eff.ofExcept (m.findAttributeByKey event "granter"))
  let granteeAddress ← Eff.wrap "error while getting fee grant grantee address: "
    (Eff.ofExcept (m.findAttributeByKey event "grantee"))
  Eff.wrap "error while deleting fee grant allowance: "
    (deleteFeeGrantAllowance ⟨granteeAddress.value, granterAddress.value, height⟩)

def Module.removeExpiredFeeGrantAllowances (height : Int) (events : List Event) : Eff Db Unit :=
  (m.findEventsByType events "revoke_feegrant").forM (m.removeExpired height)

def Module.handleBlock (height : Int) (endBlockEvents : List Event) : Eff Db Unit :=
  Eff.attempt (m.removeExpiredFeeGrantAllowances height endBlockEvents)

-- ---------------------------------------------------------------------------
-- Runs
-- ---------------------------------------------------------------------------

inductive Handling
  | msg (tx : Tx) (index : Nat) (msg : Msg)
  | block (height : Int) (endBlockEvents : List Event)
  deriving DecidableEq, Repr

def Handling.height : Handling → Int
  | .msg tx _ _ => tx.height
  | .block height _ => height

def Module.handle : Handling → Eff Db Unit
  | .msg tx index msg => m.handleMsg index msg tx
  | .block height endBlockEvents => m.handleBlock height endBlockEvents

def Module.run (s : Db) (handlings : List Handling) : Db :=
  handlings.foldl (fun s handling => (Eff.exec (m.handle handling) s).2) s

-- ---------------------------------------------------------------------------
-- Operations on one grant
-- ---------------------------------------------------------------------------

def Module.grantRow (tx : Tx) (msg : MsgGrantAllowance) : Except String FeeGrantAllowanceRow := do
  let allowance ← m.getFeeAllowanceI msg
  let granter ← m.accAddressFromBech32 msg.granter
  let grantee ← m.accAddressFromBech32 msg.grantee
  let (granter, grantee, allowance) ← m.newGrant granter grantee allowance
  let allowanceJSON ← m.protoMarshalJSON allowance
  pure ⟨grantee, granter, allowanceJSON, tx.height⟩

def Module.pairOf (event : Event) : Except String (String × String) := do
  let granterAddress ← m.findAttributeByKey event "granter"
  let granteeAddress ← m.findAttributeByKey event "grantee"
  pure (granteeAddress.value, granterAddress.value)

/-- The pairs of the events before the first that does not name one. -/
def Module.expiredPairs (m : Module) : List Event → List (String × String)
  | [] => []
  | event :: events =>
    match m.pairOf event with
    | .ok pair => pair :: m.expiredPairs events
    | .error _ => []

def Module.opFor (pair : String × String) : Handling → Option (Register.Op FeeGrantAllowanceRow Int)
  | .msg tx _ msg =>
    if tx.logs.length = 0 then none
    else
      match msg with
      | .grantAllowance msg =>
        match m.grantRow tx msg with
        | .ok r => if r.uniqueFeeGrantAllowance = pair then some (.save r) else none
        | .error _ => none
      | .revokeAllowance msg =>
        if (msg.grantee, msg.granter) = pair then some (.remove tx.height) else none
      | .other => none
  | .block height endBlockEvents =>
    if pair ∈ m.expiredPairs (m.findEventsByType endBlockEvents "revoke_feegrant") then
      some (.remove height)
    else none

def Module.opsFor (pair : String × String) (handlings : List Handling) :
    List (Register.Op FeeGrantAllowanceRow Int) :=
  handlings.filterMap (m.opFor pair)

end Feegrant

end SafrochainIndexer.Callisto
