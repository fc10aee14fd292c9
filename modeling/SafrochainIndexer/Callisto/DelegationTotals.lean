import SafrochainIndexer.Callisto.CoinTexts
import SafrochainIndexer.Callisto.StakingPool

/-!
# Totals of a delegator

Two Hasura actions: `TotalDelegationAmountHandler` adds up the delegations of a
delegator, `UnbondingDelegationsTotal` the unbonding delegations. The loop of the
first appends to the coins it ranges over, once for every coin of another name
(`delegation_total_iff`), and both ask for one page (`totals_cover_iff`).
-/

namespace SafrochainIndexer.Callisto.Actions

open Staking (UnbondingDelegation UnbondingEntry checkInt intLimit)

/-- `types.Coin`. -/
structure ActionCoin where
  amount : String
  denom : String
  deriving DecidableEq, Repr

inductive Reply
  | balance (coins : List ActionCoin)
  | notFound (message : String)
  deriving DecidableEq, Repr

def convertCoins (coins : List Coin) : List ActionCoin :=
  coins.map fun coin => ⟨toString coin.amount, coin.denom⟩

/-- `stakingtypes.DelegationResponse`. -/
structure DelegationResponse where
  balance : Coin
  deriving DecidableEq, Repr

/-- `query.PageRequest`. -/
structure PageRequest where
  key : List UInt8
  offset : Nat
  limit : Nat
  countTotal : Bool
  deriving DecidableEq, Repr

structure Page (α : Type) where
  responses : List α
  nextKey : List UInt8
  deriving DecidableEq, Repr

/-- `stakingsource.Source`. -/
structure Source where
  getDelegationsWithPagination : Int → String → Option PageRequest →
    Except String (Page DelegationResponse)
  getUnbondingDelegations : Int → String → Option PageRequest →
    Except String (Page UnbondingDelegation)
  getParams : Int → Except String String

/-- The query server of the staking module. Of the parameters only the bond denom
is used here. -/
structure QueryServer where
  delegatorDelegations : Int → String → Option PageRequest → Except String (Page DelegationResponse)
  delegatorUnbondingDelegations : Int → String → Option PageRequest →
    Except String (Page UnbondingDelegation)
  params : Int → Except String String

def remoteSource (stakingClient : QueryServer) : Source where
  getDelegationsWithPagination := stakingClient.delegatorDelegations
  getUnbondingDelegations := stakingClient.delegatorUnbondingDelegations
  getParams := stakingClient.params

/-- The request that `local.Source` makes of one that may be nil. -/
def localRequest (pagination : Option PageRequest) : PageRequest where
  key := []
  limit := (pagination.map PageRequest.limit).getD 0
  offset := (pagination.map PageRequest.offset).getD 0
  countTotal := (pagination.map PageRequest.countTotal).getD false

/-- `local.Source`. Its `GetParams` answers an error with the zero value. -/
def localSource (loadHeight : Int → Except String Unit) (q : QueryServer) : Source where
  getDelegationsWithPagination height delegator pagination :=
    match loadHeight height with
    | .error message => .error ("error while loading height: " ++ message)
    | .ok _ => q.delegatorDelegations height delegator (some (localRequest pagination))
  getUnbondingDelegations height delegator pagination :=
    match loadHeight height with
    | .error message => .error ("error while loading height: " ++ message)
    | .ok _ => q.delegatorUnbondingDelegations height delegator (some (localRequest pagination))
  getParams height :=
    match loadHeight height with
    | .error message => .error ("error while loading height: " ++ message)
    | .ok _ =>
      match q.params height with
      | .error _ => .ok ""
      | .ok params => .ok params

structure Payload where
  address : String
  height : Int
  deriving DecidableEq, Repr

structure Context where
  latestHeight : Except String Int
  stakingSource : Source

def Context.getHeight (ctx : Context) (payload : Payload) : Except String Int :=
  if payload.height = 0 then
    match ctx.latestHeight with
    | .error message => .error ("error while getting chain latest block height: " ++ message)
    | .ok latestHeight => .ok latestHeight
  else .ok payload.height

-- ---------------------------------------------------------------------------
-- Handlers
-- ---------------------------------------------------------------------------

section
variable (sdk : CoinSdk)

/-- `coinObject[index].Amount = coinObject[index].Amount.Add(amount)`. -/
def addAt (index : Nat) (amount : Int) (coinObject : List Coin) : Except Fault (List Coin) :=
  match coinObject[index]? with
  | none => .error (.panic "runtime error: index out of range")
  | some coin => do
    let sum ← checkInt (coin.amount + amount)
    pure (coinObject.set index { coin with amount := sum })

/-- `append(coinObject, sdk.NewCoin(..))`. -/
def appendCoin (balance : Coin) (coinObject : List Coin) : Except Fault (List Coin) := do
  let coin ← sdk.newCoin balance.denom (some balance.amount)
  pure (coinObject ++ [coin])

def eachCoin (balance : Coin) (index : Nat) (eachCoin : Coin) (coinObject : List Coin) :
    Except Fault (List Coin) :=
  if eachCoin.denom = balance.denom then addAt index balance.amount coinObject
  else appendCoin sdk balance coinObject

/-- The inner loop. It ranges over the coins that were there when it began. -/
def eachCoins (balance : Coin) : Nat → List Coin → List Coin → Except Fault (List Coin)
  | _, [], coinObject => .ok coinObject
  | index, coin :: rest, coinObject => do
    let coinObject ← eachCoin sdk balance index coin coinObject
    eachCoins balance (index + 1) rest coinObject

def eachDelegation (coinObject : List Coin) (delegation : DelegationResponse) :
    Except Fault (List Coin) := do
  let coinObject ← eachCoins sdk delegation.balance 0 coinObject coinObject
  if coinObject = [] then appendCoin sdk delegation.balance coinObject else pure coinObject

def totalDelegationAmountHandler (ctx : Context) (payload : Payload) : Except Fault Reply := do
  let height ← (ctx.getHeight payload).mapError Fault.error
  match ctx.stakingSource.getDelegationsWithPagination height payload.address none with
  | .error message =>
    if Text.contains message "NotFound" then pure (.notFound message)
    else throw (.error ("error while getting delegator delegations: " ++ message))
  | .ok delegationList => do
    let coinObject ← delegationList.responses.foldlM (eachDelegation sdk) []
    pure (.balance (convertCoins coinObject))

end

def unbondingDelegationsTotal (ctx : Context) (payload : Payload) : Except Fault Reply := do
  let height ← (ctx.getHeight payload).mapError Fault.error
  match ctx.stakingSource.getUnbondingDelegations height payload.address none with
  | .error message =>
    throw (.error ("error while getting delegator unbonding delegations: " ++ message))
  | .ok unbondingDelegations =>
    match ctx.stakingSource.getParams height with
    | .error message => throw (.error ("error while getting bond denom type: " ++ message))
    | .ok bondDenom =>
      let totalAmount := unbondingDelegations.responses.foldl (fun totalAmount unbonding =>
        unbonding.entries.foldl (fun totalAmount entry => totalAmount + entry.balance) totalAmount) 0
      pure (.balance [⟨toString totalAmount, bondDenom⟩])

-- ---------------------------------------------------------------------------
-- Totals
-- ---------------------------------------------------------------------------

def totalOf (balances : List Coin) (denom : String) : Int :=
  RunningTotal.total Coin.amount (balances.filter fun balance => balance.denom = denom)

/-- Each denomination that occurs has one coin with the sum of its balances, and
there are no other coins. -/
structure Totals (balances : List Coin) (coins : List ActionCoin) : Prop where
  once : (coins.map ActionCoin.denom).Nodup
  exact : ∀ coin, coin ∈ coins ↔
    coin.denom ∈ balances.map Coin.denom ∧ coin.amount = toString (totalOf balances coin.denom)

/-- All balances but the last are of one denomination. -/
def OneButLast (balances : List Coin) : Prop :=
  ∃ denom, ∀ balance ∈ balances.dropLast, balance.denom = denom

/-- No sum needs more than the 256 bits of an `sdk.Int`. -/
def SumsFit (balances : List Coin) : Prop := ∀ denom, totalOf balances denom < intLimit

theorem totalOf_cons (balance : Coin) (balances : List Coin) (denom : String) :
    totalOf (balance :: balances) denom =
      (if balance.denom = denom then balance.amount else 0) + totalOf balances denom := by
  by_cases h : balance.denom = denom
  · simp [totalOf, RunningTotal.total, h]
  · simp [totalOf, RunningTotal.total, h]

theorem totalOf_perm {balances balances' : List Coin} (hp : balances.Perm balances')
    (denom : String) : totalOf balances denom = totalOf balances' denom :=
  ((hp.filter _).map _).sum_eq

theorem totalOf_nonneg {balances : List Coin} (h : ∀ balance ∈ balances, ValidCoin balance)
    (denom : String) : 0 ≤ totalOf balances denom := by
  induction balances with
  | nil => simp [totalOf, RunningTotal.total]
  | cons balance balances ih =>
    obtain ⟨hbalance, hrest⟩ := List.forall_mem_cons.mp h
    rw [totalOf_cons]
    have hfirst : 0 ≤ if balance.denom = denom then balance.amount else 0 := by
      split
      · exact hbalance.amount.1
      · exact le_rfl
    exact add_nonneg hfirst (ih hrest)

theorem Totals.congr {balances balances' : List Coin} {coins : List ActionCoin}
    (h : Totals balances coins)
    (hdenoms : ∀ denom, denom ∈ balances.map Coin.denom ↔ denom ∈ balances'.map Coin.denom)
    (htotals : ∀ denom, totalOf balances denom = totalOf balances' denom) :
    Totals balances' coins where
  once := h.once
  exact coin := by rw [h.exact, hdenoms, htotals]

theorem Totals.perm {balances balances' : List Coin} {coins coins' : List ActionCoin}
    (h : Totals balances coins) (h' : Totals balances' coins') (hp : balances.Perm balances') :
    coins.Perm coins' := by
  refine (List.perm_ext_iff_of_nodup h.once.of_map h'.once.of_map).mpr fun coin => ?_
  rw [h.exact, h'.exact, (hp.map _).mem_iff, totalOf_perm hp]

theorem Totals.of_perm {balances balances' : List Coin} {coins coins' : List ActionCoin}
    (h : Totals balances coins) (hbalances : balances.Perm balances') (hcoins : coins.Perm coins') :
    Totals balances' coins' where
  once := (hcoins.map _).nodup_iff.mp h.once
  exact coin := by
    rw [← hcoins.mem_iff, h.exact, (hbalances.map _).mem_iff, totalOf_perm hbalances]

theorem totals_self {coins : List Coin} (hnodup : (coins.map Coin.denom).Nodup) :
    Totals coins (convertCoins coins) where
  once := by simpa [convertCoins, Function.comp_def] using hnodup
  exact coin := by
    have htotal : ∀ c ∈ coins, totalOf coins c.denom = c.amount := by
      intro c hc
      rw [totalOf, Table.filter_key_eq_singleton hnodup hc]
      simp [RunningTotal.total]
    constructor
    · intro hcoin
      obtain ⟨c, hc, rfl⟩ := List.mem_map.mp hcoin
      exact ⟨List.mem_map_of_mem hc, by rw [htotal c hc]⟩
    · rintro ⟨hdenom, hamount⟩
      obtain ⟨c, hc, hname⟩ := List.mem_map.mp hdenom
      rw [← hname, htotal c hc] at hamount
      refine List.mem_map.mpr ⟨c, hc, ?_⟩
      rw [hname, ← hamount]

-- ---------------------------------------------------------------------------
-- The loop
-- ---------------------------------------------------------------------------

section
variable {sdk : CoinSdk} (hsdk : sdk.Reads) {balance : Coin} (hbalance : ValidCoin balance)
include hsdk hbalance

theorem appendCoin_ok (coinObject : List Coin) :
    appendCoin sdk balance coinObject = .ok (coinObject ++ [balance]) := by
  rw [appendCoin, hsdk.newCoin _ _ hbalance.denom hbalance.amount]
  rfl

omit hsdk hbalance in
theorem addAt_ok {index : Nat} {amount : Int} {coinObject coins : List Coin}
    (h : addAt index amount coinObject = .ok coins) : ∃ coin, coinObject[index]? = some coin ∧
      (coin.amount + amount).natAbs < intLimit ∧
      coins = coinObject.set index { coin with amount := coin.amount + amount } := by
  unfold addAt at h
  split at h
  · cases h
  · rename_i coin hcoin
    obtain ⟨sum, hsum, hcoins⟩ := Eff.bind_ok.mp h
    unfold checkInt at hsum
    split at hsum
    · rename_i hfits
      obtain rfl := Except.ok.inj hsum
      exact ⟨coin, hcoin, hfits, (Eff.pure_ok.mp hcoins).symm⟩
    · cases hsum

omit hsdk hbalance in
theorem addAt_denoms {index : Nat} {amount : Int} {coinObject coins : List Coin}
    (h : addAt index amount coinObject = .ok coins) :
    coins.map Coin.denom = coinObject.map Coin.denom := by
  obtain ⟨coin, hcoin, -, rfl⟩ := addAt_ok h
  refine List.ext_getElem? fun i => ?_
  rw [List.getElem?_map, List.getElem?_map, List.getElem?_set]
  split
  · rename_i hi
    subst hi
    rw [hcoin]
    split
    · rfl
    · rename_i hlength
      rw [List.getElem?_eq_none (Nat.not_lt.mp hlength)] at hcoin
      cases hcoin
  · rfl

theorem eachCoins_denoms {index : Nat} {rest coinObject coins : List Coin}
    (h : eachCoins sdk balance index rest coinObject = .ok coins) :
    coins.map Coin.denom = coinObject.map Coin.denom ++
      List.replicate (rest.countP fun coin => coin.denom ≠ balance.denom) balance.denom := by
  induction rest generalizing index coinObject with
  | nil =>
    obtain rfl := Except.ok.inj h
    simp
  | cons coin rest ih =>
    rw [eachCoins] at h
    obtain ⟨next, hnext, hrest⟩ := Eff.bind_ok.mp h
    rw [ih hrest]
    unfold eachCoin at hnext
    split at hnext
    · rename_i hsame
      rw [addAt_denoms hnext, List.countP_cons_of_neg (by simp [hsame])]
    · rename_i hother
      rw [appendCoin_ok hsdk hbalance] at hnext
      obtain rfl := Except.ok.inj hnext
      rw [List.countP_cons_of_pos (by simp [hother]), List.replicate_succ]
      simp

end

section
variable {sdk : CoinSdk} (hsdk : sdk.Reads)
include hsdk

theorem eachDelegation_nil {delegation : DelegationResponse} (hvalid : ValidCoin delegation.balance) :
    eachDelegation sdk [] delegation = .ok [delegation.balance] := by
  have happend := appendCoin_ok hsdk hvalid []
  simp [eachDelegation, eachCoins, happend, bind, Except.bind]

theorem eachDelegation_denoms {delegation : DelegationResponse} {coinObject coins : List Coin}
    (hvalid : ValidCoin delegation.balance) (hne : coinObject ≠ [])
    (h : eachDelegation sdk coinObject delegation = .ok coins) :
    coins.map Coin.denom = coinObject.map Coin.denom ++
      List.replicate (coinObject.countP fun coin => coin.denom ≠ delegation.balance.denom)
        delegation.balance.denom := by
  obtain ⟨next, hnext, hrest⟩ := Eff.bind_ok.mp h
  have hdenoms := eachCoins_denoms hsdk hvalid hnext
  have hnonempty : next ≠ [] := by
    rintro rfl
    simp [hne] at hdenoms
  rw [if_neg hnonempty] at hrest
  obtain rfl := Eff.pure_ok.mp hrest
  exact hdenoms

/-- With two coins there, any delegation makes a denomination come twice. -/
theorem eachDelegation_twice {delegation : DelegationResponse} {first second : Coin}
    {rest coins : List Coin} (hvalid : ValidCoin delegation.balance)
    (h : eachDelegation sdk (first :: second :: rest) delegation = .ok coins) :
    ¬(coins.map Coin.denom).Nodup := by
  rw [eachDelegation_denoms hsdk hvalid (List.cons_ne_nil _ _) h]
  intro hnodup
  obtain ⟨hold, hnew, hdisjoint⟩ := List.nodup_append.mp hnodup
  have hdiffer : first.denom ≠ second.denom := fun heq => (List.nodup_cons.mp hold).1 (by simp [heq])
  have hcount := List.nodup_replicate.mp hnew
  by_cases hfirst : first.denom = delegation.balance.denom
  · have hsecond : second.denom ≠ delegation.balance.denom := hfirst ▸ hdiffer.symm
    refine hdisjoint first.denom (by simp) delegation.balance.denom ?_ hfirst
    refine List.mem_replicate.mpr ⟨?_, rfl⟩
    exact (List.countP_pos_iff.mpr ⟨second, by simp, by simp [hsecond]⟩).ne'
  · by_cases hsecond : second.denom = delegation.balance.denom
    · refine hdisjoint second.denom (by simp) delegation.balance.denom ?_ hsecond
      refine List.mem_replicate.mpr ⟨?_, rfl⟩
      exact (List.countP_pos_iff.mpr ⟨first, by simp, by simp [hfirst]⟩).ne'
    · rw [List.countP_cons_of_pos (by simp [hfirst]), List.countP_cons_of_pos (by simp [hsecond])]
        at hcount
      omega

theorem eachDelegation_extends {delegations : List DelegationResponse} {coinObject coins : List Coin}
    (hvalid : ∀ delegation ∈ delegations, ValidCoin delegation.balance) (hne : coinObject ≠ [])
    (h : delegations.foldlM (eachDelegation sdk) coinObject = .ok coins) :
    coinObject.map Coin.denom <+: coins.map Coin.denom := by
  induction delegations generalizing coinObject with
  | nil =>
    obtain rfl := Except.ok.inj h
    exact List.prefix_refl _
  | cons delegation delegations ih =>
    obtain ⟨hfirst, hrest⟩ := List.forall_mem_cons.mp hvalid
    obtain ⟨next, hnext, hlater⟩ := Eff.bind_ok.mp h
    have hdenoms := eachDelegation_denoms hsdk hfirst hne hnext
    have hnonempty : next ≠ [] := by
      rintro rfl
      simp [hne] at hdenoms
    exact (hdenoms ▸ List.prefix_append _ _).trans (ih hrest hnonempty hlater)

theorem repeated_of_two {delegation : DelegationResponse} {delegations : List DelegationResponse}
    {coinObject coins : List Coin} (hlength : coinObject.length = 2)
    (hvalid : ∀ d ∈ delegation :: delegations, ValidCoin d.balance)
    (h : (delegation :: delegations).foldlM (eachDelegation sdk) coinObject = .ok coins) :
    ¬(coins.map Coin.denom).Nodup := by
  obtain ⟨first, second, rfl⟩ := List.length_eq_two.mp hlength
  obtain ⟨hfirst, hrest⟩ := List.forall_mem_cons.mp hvalid
  obtain ⟨next, hnext, hlater⟩ := Eff.bind_ok.mp h
  have htwice := eachDelegation_twice hsdk hfirst hnext
  have hnonempty : next ≠ [] := by
    rintro rfl
    exact htwice List.nodup_nil
  exact fun hnodup =>
    htwice (hnodup.sublist (eachDelegation_extends hsdk hrest hnonempty hlater).sublist)

/-- If no denomination comes twice, only the last delegation brings another one. -/
theorem oneButLast_of_one {denom : String} {delegations : List DelegationResponse}
    {coinObject coins : List Coin}
    (hvalid : ∀ delegation ∈ delegations, ValidCoin delegation.balance)
    (hone : coinObject.map Coin.denom = [denom])
    (h : delegations.foldlM (eachDelegation sdk) coinObject = .ok coins)
    (hnodup : (coins.map Coin.denom).Nodup) :
    ∀ delegation ∈ delegations.dropLast, delegation.balance.denom = denom := by
  induction delegations generalizing coinObject with
  | nil => simp
  | cons delegation delegations ih =>
    obtain ⟨hfirst, hrest⟩ := List.forall_mem_cons.mp hvalid
    obtain ⟨next, hnext, hlater⟩ := Eff.bind_ok.mp h
    obtain ⟨coin, rfl, rfl⟩ := List.map_eq_singleton_iff.mp hone
    have hdenoms := eachDelegation_denoms hsdk hfirst (List.cons_ne_nil _ _) hnext
    by_cases hsame : coin.denom = delegation.balance.denom
    · rw [List.countP_cons_of_neg (by simp [hsame])] at hdenoms
      have hstays : next.map Coin.denom = [coin.denom] := by simpa using hdenoms
      have htail := ih hrest hstays hlater
      cases delegations with
      | nil => simp
      | cons second delegations =>
        rw [List.dropLast_cons_cons]
        exact List.forall_mem_cons.mpr ⟨hsame.symm, htail⟩
    · cases delegations with
      | nil => simp
      | cons second delegations =>
        -- two coins are there when the next delegation comes
        rw [List.countP_cons_of_pos (by simp [hsame])] at hdenoms
        have hlength := congrArg List.length hdenoms
        simp only [List.length_map, List.length_append, List.length_replicate, List.countP_nil,
          List.map_cons, List.map_nil, List.length_singleton] at hlength
        exact absurd hnodup (repeated_of_two hsdk hlength hrest hlater)

omit hsdk in
theorem eachDelegation_same {coin : Coin} {delegation : DelegationResponse}
    (hsame : coin.denom = delegation.balance.denom) {coins : List Coin} :
    eachDelegation sdk [coin] delegation = .ok coins ↔
      (coin.amount + delegation.balance.amount).natAbs < intLimit ∧
        coins = [{ coin with amount := coin.amount + delegation.balance.amount }] := by
  simp only [eachDelegation, eachCoins, eachCoin, addAt, hsame, if_true, List.getElem?_cons_zero,
    checkInt]
  split
  · rename_i hfits
    simp [bind, Except.bind, pure, Except.pure, hfits, eq_comm]
  · rename_i hover
    simp [bind, Except.bind, hover]

theorem eachDelegation_other {coin : Coin} {delegation : DelegationResponse}
    (hvalid : ValidCoin delegation.balance) (hother : coin.denom ≠ delegation.balance.denom) :
    eachDelegation sdk [coin] delegation = .ok [coin, delegation.balance] := by
  have happend := appendCoin_ok hsdk hvalid [coin]
  simp [eachDelegation, eachCoins, eachCoin, hother, happend, bind, Except.bind, pure, Except.pure]

omit hsdk in
theorem forall_dropLast_tail {α : Type} {p : α → Prop} {a : α} {as : List α}
    (h : ∀ b ∈ (a :: as).dropLast, p b) : ∀ b ∈ as.dropLast, p b := by
  cases as with
  | nil => simp
  | cons second as =>
    rw [List.dropLast_cons_cons] at h
    exact (List.forall_mem_cons.mp h).2

theorem totals_of_one {coin : Coin} {delegations : List DelegationResponse} {coins : List Coin}
    (hvalid : ∀ delegation ∈ delegations, ValidCoin delegation.balance)
    (hone : ∀ delegation ∈ delegations.dropLast, delegation.balance.denom = coin.denom)
    (h : delegations.foldlM (eachDelegation sdk) [coin] = .ok coins) :
    Totals (coin :: delegations.map DelegationResponse.balance) (convertCoins coins) := by
  induction delegations generalizing coin with
  | nil =>
    obtain rfl := Except.ok.inj h
    exact totals_self (by simp)
  | cons delegation delegations ih =>
    obtain ⟨hfirst, hrest⟩ := List.forall_mem_cons.mp hvalid
    obtain ⟨next, hnext, hlater⟩ := Eff.bind_ok.mp h
    by_cases hsame : coin.denom = delegation.balance.denom
    · obtain ⟨-, rfl⟩ := (eachDelegation_same hsame).mp hnext
      have htotals : Totals (⟨coin.denom, coin.amount + delegation.balance.amount⟩ ::
          delegations.map DelegationResponse.balance) (convertCoins coins) :=
        ih hrest (forall_dropLast_tail hone) hlater
      refine htotals.congr (fun denom => ?_) fun denom => ?_
      · simp [hsame]
      · simp only [List.map_cons, totalOf_cons, hsame]
        split
        · rw [add_assoc]
        · simp only [zero_add]
    · cases delegations with
      | nil =>
        rw [eachDelegation_other hsdk hfirst hsame] at hnext
        obtain rfl := Except.ok.inj hnext
        obtain rfl := Except.ok.inj hlater
        exact totals_self (by simp [hsame])
      | cons second delegations => exact absurd (hone delegation (by simp)).symm hsame

theorem returns_of_one {coin : Coin} {delegations : List DelegationResponse}
    (hcoin : ValidCoin coin) (hvalid : ∀ delegation ∈ delegations, ValidCoin delegation.balance)
    (hone : ∀ delegation ∈ delegations.dropLast, delegation.balance.denom = coin.denom)
    (hfit : totalOf (coin :: delegations.map DelegationResponse.balance) coin.denom < intLimit) :
    ∃ coins, delegations.foldlM (eachDelegation sdk) [coin] = .ok coins := by
  induction delegations generalizing coin with
  | nil => exact ⟨[coin], rfl⟩
  | cons delegation delegations ih =>
    obtain ⟨hfirst, hrest⟩ := List.forall_mem_cons.mp hvalid
    by_cases hsame : coin.denom = delegation.balance.denom
    · have hbalances : ∀ balance ∈ delegations.map DelegationResponse.balance, ValidCoin balance :=
        List.forall_mem_map.mpr hrest
      have hlater := totalOf_nonneg hbalances delegation.balance.denom
      have hcoin' := hcoin.amount.1
      have hfirst' := hfirst.amount.1
      simp only [List.map_cons, totalOf_cons, hsame, if_true] at hfit
      have hsum : (coin.amount + delegation.balance.amount).natAbs < intLimit := by omega
      have hnext : eachDelegation sdk [coin] delegation = .ok _ :=
        (eachDelegation_same hsame).mpr ⟨hsum, rfl⟩
      have hvalidSum : ValidCoin { coin with amount := coin.amount + delegation.balance.amount } := by
        refine ⟨hcoin.denom, add_nonneg hcoin' hfirst', ?_⟩
        unfold intLimit at hsum
        show coin.amount + delegation.balance.amount < 2 ^ 256
        omega
      obtain ⟨coins, hcoins⟩ := ih hvalidSum hrest (forall_dropLast_tail hone) (by
        simp only [totalOf_cons, hsame, if_true]
        omega)
      exact ⟨coins, Eff.bind_ok.mpr ⟨_, hnext, hcoins⟩⟩
    · cases delegations with
      | nil => exact ⟨_, Eff.bind_ok.mpr ⟨_, eachDelegation_other hsdk hfirst hsame, rfl⟩⟩
      | cons second delegations => exact absurd (hone delegation (by simp)).symm hsame

theorem eachCoins_amounts {balance : Coin} (hvalid : ValidCoin balance) {index : Nat}
    {rest coinObject coins : List Coin} (h : eachCoins sdk balance index rest coinObject = .ok coins)
    (hamounts : ∀ coin ∈ coinObject, IntAmount coin.amount) :
    ∀ coin ∈ coins, IntAmount coin.amount := by
  induction rest generalizing index coinObject with
  | nil =>
    obtain rfl := Except.ok.inj h
    exact hamounts
  | cons coin rest ih =>
    rw [eachCoins] at h
    obtain ⟨next, hnext, hrest⟩ := Eff.bind_ok.mp h
    refine ih hrest ?_
    unfold eachCoin at hnext
    split at hnext
    · obtain ⟨found, hfound, hfits, rfl⟩ := addAt_ok hnext
      intro c hc
      rcases List.mem_or_eq_of_mem_set hc with hold | rfl
      · exact hamounts c hold
      · have hpos := (hamounts found (List.mem_of_getElem? hfound)).1
        have hpos' := hvalid.amount.1
        unfold intLimit at hfits
        refine ⟨add_nonneg hpos hpos', ?_⟩
        show found.amount + balance.amount < 2 ^ 256
        omega
    · rw [appendCoin_ok hsdk hvalid] at hnext
      obtain rfl := Except.ok.inj hnext
      exact List.forall_mem_append.mpr ⟨hamounts, List.forall_mem_singleton.mpr hvalid.amount⟩

theorem foldlM_amounts {delegations : List DelegationResponse} {coinObject coins : List Coin}
    (hvalid : ∀ delegation ∈ delegations, ValidCoin delegation.balance)
    (h : delegations.foldlM (eachDelegation sdk) coinObject = .ok coins)
    (hamounts : ∀ coin ∈ coinObject, IntAmount coin.amount) :
    ∀ coin ∈ coins, IntAmount coin.amount := by
  induction delegations generalizing coinObject with
  | nil =>
    obtain rfl := Except.ok.inj h
    exact hamounts
  | cons delegation delegations ih =>
    obtain ⟨hfirst, hrest⟩ := List.forall_mem_cons.mp hvalid
    obtain ⟨next, hnext, hlater⟩ := Eff.bind_ok.mp h
    refine ih hrest hlater ?_
    obtain ⟨looped, hlooped, hend⟩ := Eff.bind_ok.mp hnext
    have hloop := eachCoins_amounts hsdk hfirst hlooped hamounts
    split at hend
    · rw [appendCoin_ok hsdk hfirst] at hend
      obtain rfl := Except.ok.inj hend
      exact List.forall_mem_append.mpr ⟨hloop, List.forall_mem_singleton.mpr hfirst.amount⟩
    · obtain rfl := Eff.pure_ok.mp hend
      exact hloop

omit hsdk in
theorem oneButLast_cons {balance : Coin} {balances : List Coin} :
    OneButLast (balance :: balances) ↔ ∀ b ∈ balances.dropLast, b.denom = balance.denom := by
  cases balances with
  | nil => simp [OneButLast]
  | cons second balances =>
    constructor
    · rintro ⟨denom, hdenom⟩ b hb
      rw [List.dropLast_cons_cons] at hdenom
      obtain ⟨hfirst, hrest⟩ := List.forall_mem_cons.mp hdenom
      rw [hrest b hb, hfirst]
    · intro h
      refine ⟨balance.denom, ?_⟩
      rw [List.dropLast_cons_cons]
      exact List.forall_mem_cons.mpr ⟨rfl, h⟩

omit hsdk in
theorem sumsFit_of_totals {balances coins : List Coin}
    (hvalid : ∀ balance ∈ balances, ValidCoin balance)
    (hamounts : ∀ coin ∈ coins, IntAmount coin.amount)
    (htotals : Totals balances (convertCoins coins)) : SumsFit balances := by
  intro denom
  by_cases hdenom : denom ∈ balances.map Coin.denom
  · have hcoin := (htotals.exact ⟨toString (totalOf balances denom), denom⟩).mpr ⟨hdenom, rfl⟩
    obtain ⟨coin, hmem, hconv⟩ := List.mem_map.mp hcoin
    obtain ⟨htext, -⟩ := ActionCoin.mk.injEq _ _ _ _ ▸ hconv
    obtain ⟨hpos, hfits⟩ := hamounts coin hmem
    rw [← Text.toString_inj hpos (totalOf_nonneg hvalid denom) htext]
    exact_mod_cast hfits
  · have hnone : balances.filter (fun balance => balance.denom = denom) = [] := by
      refine List.filter_eq_nil_iff.mpr fun balance hbalance => ?_
      simpa using fun heq => hdenom (List.mem_map.mpr ⟨balance, hbalance, heq⟩)
    rw [totalOf, hnone]
    simp [RunningTotal.total, intLimit]

theorem foldlM_cons {delegation : DelegationResponse} {delegations : List DelegationResponse}
    (hvalid : ValidCoin delegation.balance) :
    (delegation :: delegations).foldlM (eachDelegation sdk) [] =
      delegations.foldlM (eachDelegation sdk) [delegation.balance] := by
  rw [List.foldlM_cons, eachDelegation_nil hsdk hvalid]
  rfl

theorem totals_of_nodup {delegations : List DelegationResponse} {coins : List Coin}
    (hvalid : ∀ delegation ∈ delegations, ValidCoin delegation.balance)
    (h : delegations.foldlM (eachDelegation sdk) [] = .ok coins)
    (hnodup : (coins.map Coin.denom).Nodup) :
    OneButLast (delegations.map DelegationResponse.balance) ∧
      Totals (delegations.map DelegationResponse.balance) (convertCoins coins) := by
  cases delegations with
  | nil =>
    obtain rfl := Except.ok.inj h
    exact ⟨⟨"", by simp⟩, totals_self (by simp)⟩
  | cons delegation delegations =>
    obtain ⟨hfirst, hrest⟩ := List.forall_mem_cons.mp hvalid
    rw [foldlM_cons hsdk hfirst] at h
    have hone := oneButLast_of_one hsdk hrest rfl h hnodup
    rw [List.map_cons, oneButLast_cons, ← List.map_dropLast, List.forall_mem_map]
    exact ⟨hone, totals_of_one hsdk hrest hone h⟩

/-- The loop gives the totals if only the last delegation may bring another
denomination, and then only. -/
theorem foldlM_totals_iff {delegations : List DelegationResponse}
    (hvalid : ∀ delegation ∈ delegations, ValidCoin delegation.balance) :
    (∃ coins, delegations.foldlM (eachDelegation sdk) [] = .ok coins ∧
      Totals (delegations.map DelegationResponse.balance) (convertCoins coins)) ↔
    OneButLast (delegations.map DelegationResponse.balance) ∧
      SumsFit (delegations.map DelegationResponse.balance) := by
  constructor
  · rintro ⟨coins, hcoins, htotals⟩
    have hnodup : (coins.map Coin.denom).Nodup := by
      simpa [convertCoins, Function.comp_def] using htotals.once
    refine ⟨(totals_of_nodup hsdk hvalid hcoins hnodup).1, ?_⟩
    exact sumsFit_of_totals (List.forall_mem_map.mpr hvalid)
      (foldlM_amounts hsdk hvalid hcoins (by simp)) htotals
  · rintro ⟨hone, hfit⟩
    cases delegations with
    | nil => exact ⟨[], rfl, totals_self (by simp)⟩
    | cons delegation delegations =>
      obtain ⟨hfirst, hrest⟩ := List.forall_mem_cons.mp hvalid
      rw [List.map_cons, oneButLast_cons, ← List.map_dropLast, List.forall_mem_map] at hone
      rw [foldlM_cons hsdk hfirst]
      obtain ⟨coins, hcoins⟩ := returns_of_one hsdk hfirst hrest hone (hfit _)
      exact ⟨coins, hcoins, totals_of_one hsdk hrest hone hcoins⟩

end

-- ---------------------------------------------------------------------------
-- Total delegation
-- ---------------------------------------------------------------------------

def balancesOf (page : Page DelegationResponse) : List Coin :=
  page.responses.map DelegationResponse.balance

def Context.answering (ctx : Context) (page : Page DelegationResponse) : Context :=
  { ctx with stakingSource :=
      { ctx.stakingSource with getDelegationsWithPagination := fun _ _ _ => .ok page } }

def OneOrTwo (balances : List Coin) : Prop :=
  (∃ denom, ∀ balance ∈ balances, balance.denom = denom) ∨ balances.length ≤ 2

theorem totalDelegationAmountHandler_ok {sdk : CoinSdk} {ctx : Context} {payload : Payload}
    {height : Int} {page : Page DelegationResponse}
    (hheight : ctx.getHeight payload = .ok height)
    (hpage : ctx.stakingSource.getDelegationsWithPagination height payload.address none = .ok page)
    {reply : Reply} : totalDelegationAmountHandler sdk ctx payload = .ok reply ↔
      ∃ coins, page.responses.foldlM (eachDelegation sdk) [] = .ok coins ∧
        reply = .balance (convertCoins coins) := by
  have hrun : totalDelegationAmountHandler sdk ctx payload = (do
      let coinObject ← page.responses.foldlM (eachDelegation sdk) []
      pure (Reply.balance (convertCoins coinObject))) := by
    simp only [totalDelegationAmountHandler, hheight, Except.mapError, bind, Except.bind]
    rw [hpage]
  rw [hrun, Eff.bind_ok]
  refine exists_congr fun coins => and_congr_right fun _ => ?_
  rw [Eff.pure_ok, eq_comm]

theorem totals_returned_iff {sdk : CoinSdk} (hsdk : sdk.Reads) {ctx : Context} {payload : Payload}
    {height : Int} {page : Page DelegationResponse}
    (hheight : ctx.getHeight payload = .ok height)
    (hpage : ctx.stakingSource.getDelegationsWithPagination height payload.address none = .ok page)
    (hvalid : ∀ balance ∈ balancesOf page, ValidCoin balance) :
    (∃ coins, totalDelegationAmountHandler sdk ctx payload = .ok (.balance coins) ∧
      Totals (balancesOf page) coins) ↔ OneButLast (balancesOf page) ∧ SumsFit (balancesOf page) := by
  rw [balancesOf, ← foldlM_totals_iff hsdk (List.forall_mem_map.mp hvalid)]
  constructor
  · rintro ⟨reply, hreply, htotals⟩
    obtain ⟨coins, hcoins, heq⟩ := (totalDelegationAmountHandler_ok hheight hpage).mp hreply
    obtain rfl := Reply.balance.inj heq
    exact ⟨coins, hcoins, htotals⟩
  · rintro ⟨coins, hcoins, htotals⟩
    exact ⟨convertCoins coins, (totalDelegationAmountHandler_ok hheight hpage).mpr
      ⟨coins, hcoins, rfl⟩, htotals⟩

theorem oneButLast_of_length {balances : List Coin} (hlength : balances.length ≤ 2) :
    OneButLast balances := by
  cases balances with
  | nil => exact ⟨"", by simp⟩
  | cons first rest =>
    refine oneButLast_cons.mpr fun balance hbalance => ?_
    have hnone : rest.dropLast = [] := by
      refine List.eq_nil_of_length_eq_zero ?_
      rw [List.length_dropLast]
      simp only [List.length_cons] at hlength
      omega
    rw [hnone] at hbalance
    cases hbalance

/-- Any balance can come second, before the last one. -/
theorem denom_of_orders {first : Coin} {rest : List Coin} (hlength : 2 ≤ rest.length)
    (horders : ∀ balances, balances.Perm (first :: rest) → OneButLast balances) :
    ∀ second ∈ rest, second.denom = first.denom := by
  intro second hsecond
  have hperm : (first :: second :: rest.erase second).Perm (first :: rest) :=
    (List.perm_cons_erase hsecond).symm.cons first
  have hone := oneButLast_cons.mp (horders _ hperm)
  have hmore : rest.erase second ≠ [] := by
    intro hnil
    have hcount := List.length_erase_of_mem hsecond
    rw [hnil, List.length_nil] at hcount
    omega
  refine hone second ?_
  rw [List.dropLast_cons_of_ne_nil hmore]
  exact List.mem_cons_self

/-- Of every order but those of one denomination or two balances, two different
denominations may come first. -/
theorem oneButLast_orders_iff {balances : List Coin} :
    (∀ balances', balances'.Perm balances → OneButLast balances') ↔ OneOrTwo balances := by
  constructor
  · intro horders
    by_cases hlength : balances.length ≤ 2
    · exact Or.inr hlength
    · obtain ⟨first, rest, rfl⟩ := List.exists_cons_of_ne_nil (l := balances) (by
        rintro rfl
        simp at hlength)
      have hrest : 2 ≤ rest.length := by
        rw [List.length_cons] at hlength
        omega
      exact Or.inl ⟨first.denom, List.forall_mem_cons.mpr ⟨rfl, denom_of_orders hrest horders⟩⟩
  · rintro (⟨denom, hdenom⟩ | hlength) balances' hperm
    · exact ⟨denom, fun balance hbalance =>
        hdenom balance (hperm.mem_iff.mp (List.mem_of_mem_dropLast hbalance))⟩
    · exact oneButLast_of_length (hperm.length_eq ▸ hlength)

/-- The coins are the totals of the delegations if only the last one may be of
another denomination, and in every order of them if they are of one denomination
or at most two. -/
theorem delegation_total_iff {sdk : CoinSdk} (hsdk : sdk.Reads) {ctx : Context} {payload : Payload}
    {height : Int} (hheight : ctx.getHeight payload = .ok height) {page : Page DelegationResponse}
    (hvalid : ∀ balance ∈ balancesOf page, ValidCoin balance) :
    ((∃ coins, totalDelegationAmountHandler sdk (ctx.answering page) payload = .ok (.balance coins) ∧
        Totals (balancesOf page) coins) ↔
      OneButLast (balancesOf page) ∧ SumsFit (balancesOf page)) ∧
    ((∃ coins, totalDelegationAmountHandler sdk (ctx.answering page) payload = .ok (.balance coins) ∧
        Totals (balancesOf page) coins ∧
        ∀ page' : Page DelegationResponse, page'.responses.Perm page.responses →
          ∃ coins', totalDelegationAmountHandler sdk (ctx.answering page') payload =
            .ok (.balance coins') ∧ coins'.Perm coins) ↔
      OneOrTwo (balancesOf page) ∧ SumsFit (balancesOf page)) := by
  have hany : ∀ page' : Page DelegationResponse, page'.responses.Perm page.responses →
      ((∃ coins, totalDelegationAmountHandler sdk (ctx.answering page') payload =
          .ok (.balance coins) ∧ Totals (balancesOf page') coins) ↔
        OneButLast (balancesOf page') ∧ SumsFit (balancesOf page')) := by
    intro page' hperm
    have hheight' : (ctx.answering page').getHeight payload = .ok height := hheight
    refine totals_returned_iff hsdk hheight' rfl fun balance hbalance => ?_
    exact hvalid balance ((hperm.map _).mem_iff.mp hbalance)
  refine ⟨hany page (List.Perm.refl _), ?_⟩
  constructor
  · rintro ⟨coins, hcoins, htotals, horders⟩
    refine ⟨oneButLast_orders_iff.mp fun balances' hperm => ?_,
      ((hany page (List.Perm.refl _)).mp ⟨coins, hcoins, htotals⟩).2⟩
    have hbalances : balancesOf ⟨balances'.map DelegationResponse.mk, []⟩ = balances' := by
      simp [balancesOf, Function.comp_def]
    have hresponses : (balances'.map DelegationResponse.mk).Perm page.responses := by
      simpa [balancesOf, Function.comp_def] using hperm.map DelegationResponse.mk
    obtain ⟨coins', hcoins', hsame⟩ := horders ⟨_, []⟩ hresponses
    have hone := (hany ⟨_, []⟩ hresponses).mp ⟨coins', hcoins', ?_⟩
    · rw [hbalances] at hone
      exact hone.1
    · rw [hbalances]
      exact htotals.of_perm hperm.symm hsame.symm
  · rintro ⟨hwhich, hfit⟩
    have horders := oneButLast_orders_iff.mpr hwhich
    obtain ⟨coins, hcoins, htotals⟩ := (hany page (List.Perm.refl _)).mpr
      ⟨horders _ (List.Perm.refl _), hfit⟩
    refine ⟨coins, hcoins, htotals, fun page' hperm => ?_⟩
    have hbalances : (balancesOf page').Perm (balancesOf page) := hperm.map _
    obtain ⟨coins', hcoins', htotals'⟩ := (hany page' hperm).mpr
      ⟨horders _ hbalances, fun denom => totalOf_perm hbalances denom ▸ hfit denom⟩
    exact ⟨coins', hcoins', htotals'.perm htotals hbalances⟩

def emptyServer : QueryServer where
  delegatorDelegations _ _ _ := .ok ⟨[], []⟩
  delegatorUnbondingDelegations _ _ _ := .ok ⟨[], []⟩
  params _ := .ok "usaf"

def remoteContext : Context := ⟨.ok 7, remoteSource emptyServer⟩

theorem delegation_total_iff_atom :
    let page : Page DelegationResponse := ⟨[⟨"uatom", 1⟩, ⟨"uatom", 3⟩, ⟨"usaf", 2⟩].map .mk, []⟩
    ∃ coins, totalDelegationAmountHandler coinParsers (remoteContext.answering page)
        ⟨"addr_safro1x", 0⟩ = .ok (.balance coins) ∧
      Totals (balancesOf page) coins := by
  intro page
  have hvalid : ∀ balance ∈ balancesOf page, ValidCoin balance := by
    simp only [page, balancesOf, List.map_cons, List.map_nil, List.forall_mem_cons,
      List.not_mem_nil, false_implies, implies_true, and_true]
    exact ⟨⟨by decide, by decide, by decide⟩, ⟨by decide, by decide, by decide⟩,
      ⟨by decide, by decide, by decide⟩⟩
  refine (delegation_total_iff coinParsers_reads rfl hvalid).1.mpr ⟨⟨"uatom", by decide⟩, ?_⟩
  intro denom
  simp only [page, balancesOf, List.map_cons, List.map_nil, totalOf_cons]
  split <;> split <;> simp [totalOf, RunningTotal.total, intLimit]

/-- The denomination that comes back is there twice. -/
theorem returning_denom_comes_twice :
    let page : Page DelegationResponse := ⟨[⟨"uatom", 1⟩, ⟨"usaf", 2⟩, ⟨"uatom", 3⟩].map .mk, []⟩
    ∃ coins, totalDelegationAmountHandler coinParsers (remoteContext.answering page)
        ⟨"addr_safro1x", 0⟩ = .ok (.balance coins) ∧
      coins = [⟨"4", "uatom"⟩, ⟨"2", "usaf"⟩, ⟨"3", "uatom"⟩] ∧
      ¬Totals (balancesOf page) coins := by
  refine ⟨_, rfl, by decide, fun htotals => ?_⟩
  exact absurd htotals.once (by decide)

end SafrochainIndexer.Callisto.Actions
