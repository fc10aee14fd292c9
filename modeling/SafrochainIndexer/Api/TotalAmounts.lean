import SafrochainIndexer.Api.AddressResponse

/-!
# Total amounts

The total amount of `processAddressTransactionResponse` counts the first coin of a
message only. `totalAmount_exact_iff`: it is the sum over all coins of its
denomination, and "0" without any amount only, exactly when the other coins add
nothing to it.
-/

namespace SafrochainIndexer.Api

namespace ModuleMessage

/-- The coins of a `MsgSend` or of a staking message; the inputs of a `MsgMultiSend` are
no amount of the message. -/
def coins : ModuleMessage → List FeeCoin
  | send _ _ amount => amount
  | multiSend .. | bankOther => []
  | staking _ amount => amount.toList

def laterCoins : ModuleMessage → List FeeCoin
  | send _ _ amount => amount.tail
  | multiSend .. | bankOther | staking .. => []

theorem coins_eq (m : ModuleMessage) : m.coins = m.firstCoin.toList ++ m.laterCoins := by
  cases m with
  | send _ _ amount => cases amount <;> rfl
  | multiSend _ _ => rfl
  | bankOther => rfl
  | staking _ amount => cases amount <;> rfl

theorem amountOf_firstCoin (denom : String) (m : ModuleMessage) :
    amountOf denom m.firstCoin.toList = amountOf denom m.countedCoin.toList := by
  unfold countedCoin
  cases m.firstCoin with
  | none => rfl
  | some coin =>
    by_cases h : coin.amount = 0
    · simp [Option.filter_some, h, amountOf_cons]
    · simp [Option.filter_some, h]

theorem countedCoin_eq_none_iff {m : ModuleMessage} :
    m.countedCoin = none ↔ ∀ coin ∈ m.firstCoin.toList, coin.amount = 0 := by
  unfold countedCoin
  cases m.firstCoin with
  | none => simp
  | some coin => simp [Option.filter_some]

end ModuleMessage

/-- A total of the denomination over the coins, which is zero only if they have
nothing. -/
structure ExactTotal (coins : List FeeCoin) (denom total : String) : Prop where
  sum : total = toString (amountOf denom coins)
  positive : total = "0" → ∀ coin ∈ coins, coin.amount = 0

/-- The coins after the first one of a message add nothing to the total. -/
structure FirstCoinsOnly (messages : List ModuleMessage) : Prop where
  plain : PlainDenoms messages
  later : ∀ coin ∈ messages.flatMap ModuleMessage.laterCoins,
    (∀ denom, primaryDenom messages = some denom → coin.denom = denom) → coin.amount = 0

theorem amountOf_coins (denom : String) (messages : List ModuleMessage) :
    amountOf denom (messages.flatMap ModuleMessage.coins) =
      amountOf denom (countedCoins messages) +
        amountOf denom (messages.flatMap ModuleMessage.laterCoins) := by
  induction messages with
  | nil => rfl
  | cons m messages ih =>
    have hcounted : countedCoins (m :: messages) =
        m.countedCoin.toList ++ countedCoins messages := by
      rw [countedCoins, List.filterMap_cons]
      cases m.countedCoin <;> rfl
    rw [List.flatMap_cons, List.flatMap_cons, hcounted, amountOf_append, amountOf_append,
      amountOf_append, ih, m.coins_eq, amountOf_append, m.amountOf_firstCoin]
    omega

theorem primaryDenom_eq_none_iff {messages : List ModuleMessage} :
    primaryDenom messages = none ↔ countedCoins messages = [] := by
  rw [primaryDenom, List.head?_eq_none_iff]
  constructor
  · intro h
    refine List.eq_nil_iff_forall_not_mem.mpr fun coin hcoin => ?_
    have hmem : coin.denom ∈ ownKeys (distinct ((countedCoins messages).map FeeCoin.denom)) :=
      mem_ownKeys.mpr (mem_distinct.mpr (List.mem_map_of_mem hcoin))
    rw [h] at hmem
    cases hmem
  · intro h
    rw [h]
    rfl

theorem amountOf_primaryDenom {messages : List ModuleMessage} {denom : String}
    (h : primaryDenom messages = some denom) : amountOf denom (countedCoins messages) ≠ 0 := by
  obtain ⟨coin, hcoin, rfl⟩ := List.mem_map.mp
    (mem_distinct.mp (mem_ownKeys.mp (List.mem_of_mem_head? h)))
  intro hzero
  obtain ⟨m, -, hcounted⟩ := List.mem_filterMap.mp hcoin
  have hamount := (Option.filter_eq_some_iff.mp hcounted).2
  exact of_decide_eq_true hamount (amountOf_eq_zero_iff.mp hzero coin hcoin rfl)

theorem coins_zero_iff {messages : List ModuleMessage} (h : countedCoins messages = []) :
    (∀ coin ∈ messages.flatMap ModuleMessage.coins, coin.amount = 0) ↔
      ∀ coin ∈ messages.flatMap ModuleMessage.laterCoins, coin.amount = 0 := by
  simp only [List.forall_mem_flatMap]
  refine forall₂_congr fun m hm => ?_
  rw [m.coins_eq, List.forall_mem_append]
  have hnone : m.countedCoin = none := List.filterMap_eq_nil_iff.mp h m hm
  exact and_iff_right (ModuleMessage.countedCoin_eq_none_iff.mp hnone)

theorem exactTotal_iff {messages : List ModuleMessage} :
    ExactTotal (messages.flatMap ModuleMessage.coins) (primaryOf messages).1
        (primaryOf messages).2 ↔
      ∀ coin ∈ messages.flatMap ModuleMessage.laterCoins,
        (∀ denom, primaryDenom messages = some denom → coin.denom = denom) → coin.amount = 0 := by
  unfold primaryOf
  cases hprimary : primaryDenom messages with
  | none =>
    have hzero := coins_zero_iff (primaryDenom_eq_none_iff.mp hprimary)
    simp only [reduceCtorEq, false_implies, implies_true, true_implies]
    rw [← hzero]
    constructor
    · exact fun h => h.positive rfl
    · intro h
      refine ⟨?_, fun _ => h⟩
      rw [amountOf_eq_zero_iff.mpr fun coin hcoin _ => h coin hcoin]
      rfl
  | some denom =>
    have hne := amountOf_primaryDenom hprimary
    have hlater : ExactTotal (messages.flatMap ModuleMessage.coins) denom
        (toString (amountOf denom (countedCoins messages))) ↔
          amountOf denom (messages.flatMap ModuleMessage.laterCoins) = 0 := by
      constructor
      · intro h
        have hsum := Int.ofNat.inj
          (Text.toString_inj (Int.natCast_nonneg _) (Int.natCast_nonneg _) h.sum)
        rw [amountOf_coins] at hsum
        omega
      · intro h
        refine ⟨by rw [amountOf_coins, h, Nat.add_zero], fun hzero => absurd ?_ hne⟩
        exact Int.ofNat.inj (Text.toString_inj (Int.natCast_nonneg _) le_rfl hzero)
    simp only [Option.some.injEq, forall_eq']
    rw [hlater, amountOf_eq_zero_iff]

/-- The total amount is exact exactly when only the first coins of the messages count
for its denomination, and none of these has the name of an inherited property. -/
theorem totalAmount_exact_iff (print : Rat → String) (order : ByIndex) (db : Store)
    (detail : Detail) (transaction : TransactionRow) (address : String) (includeMessages : Bool)
    (messages : List ModuleMessage)
    (hmessages : MessagesReported order db detail transaction.hash messages) :
    (∃ response, processAddressTransactionResponse print order db detail transaction address
        includeMessages = .ok response ∧
      ExactTotal (messages.flatMap ModuleMessage.coins) response.primaryDenom
        response.totalAmount) ↔
    FirstCoinsOnly messages := by
  rw [response_iff hmessages (P := fun _ primary =>
    ExactTotal (messages.flatMap ModuleMessage.coins) primary.1 primary.2), exactTotal_iff]
  exact ⟨fun h => ⟨h.1, h.2⟩, fun h => ⟨h.plain, h.later⟩⟩

def twoDenoms : ModuleMessage := .send "addr_safro1a" "addr_safro1b" [⟨"usaf", 3⟩, ⟨"uatom", 2⟩]

theorem totalAmount_exact_iff_twoDenoms : ∃ response,
    processAddressTransactionResponse toString .insertion (oneMessage "cosmos.bank.v1beta1.MsgSend")
        (columnDetail [("/cosmos.bank.v1beta1.MsgSend", twoDenoms)]) oneTransaction "addr_safro1a"
        true = .ok response ∧
      ExactTotal ([twoDenoms].flatMap ModuleMessage.coins) response.primaryDenom
        response.totalAmount := by
  refine (totalAmount_exact_iff toString .insertion _ _ oneTransaction "addr_safro1a" true
    [twoDenoms] ?_).mpr ⟨?_, ?_⟩
  · exact ⟨_, rfl, .cons (ModuleMessage.reported_column (List.mem_cons_of_mem _ List.mem_cons_self))
      .nil⟩
  · show ∀ coin ∈ countedCoins [twoDenoms], coin.denom ∉ inheritedProperties
    decide
  · intro coin hcoin hdenom
    have husaf : primaryDenom [twoDenoms] = some "usaf" := by decide +kernel
    obtain rfl := List.mem_singleton.mp hcoin
    exact absurd (hdenom "usaf" husaf) (by decide)

def secondAmount : ModuleMessage := .send "addr_safro1a" "addr_safro1b" [⟨"uatom", 2⟩, ⟨"usaf", 7⟩]

/-- The total of usaf is reported as 3 instead of 10. -/
theorem totalAmount_not_exact : ¬ ∃ response,
    processAddressTransactionResponse toString .insertion (oneMessage "cosmos.bank.v1beta1.MsgSend")
        (columnDetail [("/cosmos.bank.v1beta1.MsgSend", twoDenoms),
          ("/cosmos.bank.v1beta1.MsgSend", secondAmount)]) oneTransaction "addr_safro1a"
        true = .ok response ∧
      ExactTotal ([twoDenoms, secondAmount].flatMap ModuleMessage.coins) response.primaryDenom
        response.totalAmount := by
  have htype : "/cosmos.bank.v1beta1.MsgSend" ∈
      ["cosmos.bank.v1beta1.MsgSend", "/cosmos.bank.v1beta1.MsgSend"] := by decide
  have hmessages : MessagesReported .insertion (oneMessage "cosmos.bank.v1beta1.MsgSend")
      (columnDetail [("/cosmos.bank.v1beta1.MsgSend", twoDenoms),
        ("/cosmos.bank.v1beta1.MsgSend", secondAmount)]) oneTransaction.hash
      [twoDenoms, secondAmount] :=
    ⟨_, rfl, .cons (ModuleMessage.reported_column (m := twoDenoms) htype)
      (.cons (ModuleMessage.reported_column (m := secondAmount) htype) .nil)⟩
  rw [response_iff hmessages (P := fun _ primary =>
    ExactTotal ([twoDenoms, secondAmount].flatMap ModuleMessage.coins) primary.1 primary.2),
    exactTotal_iff]
  rintro ⟨-, hlater⟩
  have husaf : primaryDenom [twoDenoms, secondAmount] = some "usaf" := by decide +kernel
  refine absurd (hlater ⟨"usaf", 7⟩ (by decide) fun denom hdenom => ?_) (by decide)
  exact Option.some.inj (husaf.symm.trans hdenom)

end SafrochainIndexer.Api
