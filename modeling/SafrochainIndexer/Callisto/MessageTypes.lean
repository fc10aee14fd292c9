import SafrochainIndexer.Callisto.Database
import SafrochainIndexer.Lib.Text

/-!
# Message types

`HandleMsg` of the message_type module stores the type of each message with the
name of its module, which is taken from the type. A row is never replaced, so
whatever messages come, the module of a row is the one its type has.
-/

namespace SafrochainIndexer.Callisto.MessageTypes

def getModuleNameFromTypeURL (input : String) : Except Fault String :=
  match Text.splitAt input '.' with
  | first :: module :: rest =>
    if Text.contains first "cosmos" then .ok module
    else if Text.contains first "ibc" then
      match rest with
      | third :: _ => .ok (first ++ " " ++ module ++ " " ++ third)
      | [] => .error (.panic "runtime error: index out of range [2] with length 2")
    else .ok (first ++ " " ++ module)
  | _ => .ok ""

def getMsgFromTypeURL (input : String) : String :=
  match Text.splitAt input '.' with
  | _ :: piece :: pieces => (piece :: pieces).getLast (List.cons_ne_nil _ _)
  | _ => ""

def saveMessageType (msg : MessageTypeRow) : Eff Db Unit :=
  messageTypeTable.insertNew (fun _ _ => false) [msg]

/-- `messageName` is `proto.MessageName(msg)`. -/
def handleMsg (messageName : String) (tx : Tx) : Eff Db Unit := do
  let module ← Eff.ofFallible (getModuleNameFromTypeURL messageName)
  saveMessageType ⟨messageName, module, getMsgFromTypeURL messageName, tx.height⟩

/-- Messages handled one after the other; what one leaves behind stays, also
when its handler panics. -/
def handleMessages (messages : List (String × Tx)) (s : Db) : Db :=
  messages.foldl (fun s message => (Eff.exec (handleMsg message.1 message.2) s).2) s

-- ---------------------------------------------------------------------------
-- Module names
-- ---------------------------------------------------------------------------

def CosmosName (name : String) : Prop :=
  ∃ first module rest, Text.splitAt name '.' = first :: module :: rest ∧
    Text.contains first "cosmos" = true

theorem getModuleNameFromTypeURL_ok_iff {name : String} :
    (∃ module, getModuleNameFromTypeURL name = .ok module) ↔
      ¬ ∃ first module, Text.splitAt name '.' = [first, module] ∧
        Text.contains first "ibc" = true ∧ Text.contains first "cosmos" = false := by
  unfold getModuleNameFromTypeURL
  split
  · rename_i first module rest hsplit
    cases hcosmos : Text.contains first "cosmos" <;> cases hibc : Text.contains first "ibc" <;>
      cases rest <;> simp [hsplit, hcosmos, hibc]
  · rename_i hshort
    simp only [Except.ok.injEq, exists_eq', true_iff]
    rintro ⟨first, module, hsplit, -⟩
    exact hshort _ _ _ hsplit

theorem getModuleNameFromTypeURL_cosmos {name first module : String} {rest : List String}
    (hsplit : Text.splitAt name '.' = first :: module :: rest)
    (hcosmos : Text.contains first "cosmos" = true) : getModuleNameFromTypeURL name = .ok module := by
  simp [getModuleNameFromTypeURL, hsplit, hcosmos]

theorem getModuleNameFromTypeURL_other {name module : String} (h : ¬ CosmosName name)
    (hmodule : getModuleNameFromTypeURL name = .ok module) : module = "" ∨ ' ' ∈ module.toList := by
  unfold getModuleNameFromTypeURL at hmodule
  split at hmodule
  · rename_i first second rest hsplit
    have hcosmos : ¬ Text.contains first "cosmos" = true := fun hc => h ⟨first, second, rest, hsplit, hc⟩
    rw [if_neg hcosmos] at hmodule
    right
    split at hmodule
    · split at hmodule
      · cases hmodule
        simp
      · cases hmodule
    · cases hmodule
      simp
  · cases hmodule
    exact .inl rfl

-- ---------------------------------------------------------------------------
-- Runs
-- ---------------------------------------------------------------------------

/-- Every type is stored with the module it names. -/
def Named (s : Db) : Prop :=
  ∀ row ∈ s.messageType.rows, getModuleNameFromTypeURL row.type = .ok row.module

theorem handleMsg_named {s : Db} (h : Named s) (messageName : String) (tx : Tx) :
    Named (Eff.exec (handleMsg messageName tx) s).2 := by
  unfold handleMsg
  cases hmodule : getModuleNameFromTypeURL messageName with
  | error fault => exact h
  | ok module =>
    intro row hrow
    have hrow : row ∈ (s.messageType.insertNew (fun _ _ => false) ⟨messageName, module,
      getMsgFromTypeURL messageName, tx.height⟩).rows := hrow
    rcases Table.mem_insertNew hrow with hold | rfl
    · exact h row hold
    · exact hmodule

theorem handleMessages_named (messages : List (String × Tx)) {s : Db} (h : Named s) :
    Named (handleMessages messages s) := by
  induction messages generalizing s with
  | nil => exact h
  | cons message _ ih => exact ih (handleMsg_named h message.1 message.2)

theorem default_named : Named default := fun _ h => absurd h List.not_mem_nil

end SafrochainIndexer.Callisto.MessageTypes
