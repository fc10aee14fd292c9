import SafrochainIndexer.Callisto.DelegationTotals

/-!
# First pages

The two handlers of totals pass no page request, and no request or one without a
limit is answered with the first hundred items. What comes after them is not in
the totals (`totals_cover_iff`).
-/

namespace SafrochainIndexer.Callisto.Actions

open Staking (UnbondingDelegation UnbondingEntry intLimit)

def defaultLimit : Nat := 100

def NoLimit (pagination : Option PageRequest) : Prop :=
  ∀ request ∈ pagination, request.limit = 0 ∧ request.offset = 0 ∧ request.key = []

/-- What the query server answers a request without a limit: the first items, with
the key of the next page if there are more. -/
def AnswersFirst {α : Type} (query : Option PageRequest → Except String (Page α))
    (items : List α) : Prop :=
  ∀ pagination, NoLimit pagination → ∃ page, query pagination = .ok page ∧
    page.responses = items.take defaultLimit ∧
    (page.nextKey = [] ↔ items.length ≤ defaultLimit)

/-- What is on the chain for a delegator. Amounts of coins are not negative. -/
structure Holdings where
  delegations : List DelegationResponse
  unbondings : List UnbondingDelegation
  valid : ∀ delegation ∈ delegations, ValidCoin delegation.balance
  nonneg : ∀ unbonding ∈ unbondings, ∀ entry ∈ unbonding.entries, 0 ≤ entry.balance

namespace Holdings

variable (held : Holdings)

def balances : List Coin := held.delegations.map DelegationResponse.balance

def shown : List Coin := (held.delegations.take defaultLimit).map DelegationResponse.balance

def hidden : List Coin := (held.delegations.drop defaultLimit).map DelegationResponse.balance

def unbonding : Int := RunningTotal.total UnbondingDelegation.tokens held.unbondings

theorem shown_append_hidden : held.shown ++ held.hidden = held.balances := by
  rw [shown, hidden, ← List.map_append, List.take_append_drop]
  rfl

end Holdings

/-- The server holds this for the delegator at the height. -/
structure QueryServer.Serves (q : QueryServer) (height : Int) (delegator : String)
    (held : Holdings) (bondDenom : String) : Prop where
  delegations : AnswersFirst (q.delegatorDelegations height delegator) held.delegations
  unbondings : AnswersFirst (q.delegatorUnbondingDelegations height delegator) held.unbondings
  params : q.params height = .ok bondDenom

theorem totalOf_append (balances balances' : List Coin) (denom : String) :
    totalOf (balances ++ balances') denom = totalOf balances denom + totalOf balances' denom := by
  simp [totalOf, RunningTotal.total]

theorem totals_append_iff {shown hidden : List Coin} {coins : List ActionCoin}
    (hshown : ∀ balance ∈ shown, ValidCoin balance) (hhidden : ∀ balance ∈ hidden, ValidCoin balance)
    (htotals : Totals shown coins) : Totals (shown ++ hidden) coins ↔
      ∀ balance ∈ hidden, balance.denom ∈ shown.map Coin.denom ∧ balance.amount = 0 := by
  constructor
  · intro hall balance hbalance
    have hdenom : balance.denom ∈ (shown ++ hidden).map Coin.denom :=
      List.mem_map_of_mem (List.mem_append_right _ hbalance)
    have hcoin := (hall.exact ⟨toString (totalOf (shown ++ hidden) balance.denom), balance.denom⟩).mpr
      ⟨hdenom, rfl⟩
    obtain ⟨hoccurs, htext⟩ := (htotals.exact _).mp hcoin
    refine ⟨hoccurs, ?_⟩
    have hboth : ∀ b ∈ shown ++ hidden, ValidCoin b := List.forall_mem_append.mpr ⟨hshown, hhidden⟩
    have hsame := Text.toString_inj (totalOf_nonneg hboth _) (totalOf_nonneg hshown _) htext
    rw [totalOf_append, add_eq_left] at hsame
    refine List.all_zero_of_le_zero_le_of_sum_eq_zero ?_ hsame
      (List.mem_map_of_mem (List.mem_filter.mpr ⟨hbalance, by simp⟩))
    refine List.forall_mem_map.mpr fun b hb => ?_
    exact (hhidden b (List.mem_of_mem_filter hb)).amount.1
  · intro hnothing
    refine htotals.congr (fun denom => ?_) fun denom => ?_
    · rw [List.map_append, List.mem_append, iff_self_or]
      intro hdenom
      obtain ⟨balance, hbalance, rfl⟩ := List.mem_map.mp hdenom
      exact (hnothing balance hbalance).1
    · have hzero : totalOf hidden denom = 0 := by
        refine List.sum_eq_zero fun amount hamount => ?_
        obtain ⟨balance, hbalance, rfl⟩ := List.mem_map.mp hamount
        exact (hnothing balance (List.mem_of_mem_filter hbalance)).2
      rw [totalOf_append, hzero, add_zero]

-- ---------------------------------------------------------------------------
-- The two sources
-- ---------------------------------------------------------------------------

section
variable {q : QueryServer} {loadHeight : Int → Except String Unit} {height : Int}
  {delegator bondDenom : String} {held : Holdings} (hserves : q.Serves height delegator held bondDenom)
  (hload : loadHeight height = .ok ()) {source : Source}
  (hsource : source ∈ [remoteSource q, localSource loadHeight q])
include hserves hload hsource

theorem firstPage_of_delegations : ∃ page,
    source.getDelegationsWithPagination height delegator none = .ok page ∧
      page.responses = held.delegations.take defaultLimit := by
  rcases List.mem_pair.mp hsource with rfl | rfl
  · obtain ⟨page, hpage, hfirst, -⟩ := hserves.delegations none (by simp [NoLimit])
    exact ⟨page, hpage, hfirst⟩
  · obtain ⟨page, hpage, hfirst, -⟩ := hserves.delegations (some (localRequest none))
      (by simp [NoLimit, localRequest])
    exact ⟨page, by simp only [localSource, hload, hpage], hfirst⟩

theorem firstPage_of_unbondings : ∃ page,
    source.getUnbondingDelegations height delegator none = .ok page ∧
      page.responses = held.unbondings.take defaultLimit := by
  rcases List.mem_pair.mp hsource with rfl | rfl
  · obtain ⟨page, hpage, hfirst, -⟩ := hserves.unbondings none (by simp [NoLimit])
    exact ⟨page, hpage, hfirst⟩
  · obtain ⟨page, hpage, hfirst, -⟩ := hserves.unbondings (some (localRequest none))
      (by simp [NoLimit, localRequest])
    exact ⟨page, by simp only [localSource, hload, hpage], hfirst⟩

theorem getParams_serves : source.getParams height = .ok bondDenom := by
  rcases List.mem_pair.mp hsource with rfl | rfl
  · exact hserves.params
  · simp only [localSource, hload, hserves.params]

end

-- ---------------------------------------------------------------------------
-- Totals over everything
-- ---------------------------------------------------------------------------

theorem foldl_entries (unbondings : List UnbondingDelegation) (amount : Int) :
    unbondings.foldl (fun totalAmount unbonding =>
        unbonding.entries.foldl (fun totalAmount entry => totalAmount + entry.balance) totalAmount)
      amount = amount + RunningTotal.total UnbondingDelegation.tokens unbondings := by
  have hinner : ∀ (entries : List UnbondingEntry) (amount : Int),
      entries.foldl (fun totalAmount entry => totalAmount + entry.balance) amount =
        amount + RunningTotal.total UnbondingEntry.balance entries := by
    intro entries
    induction entries with
    | nil => simp [RunningTotal.total]
    | cons entry entries ih =>
      intro amount
      rw [List.foldl_cons, ih, add_assoc]
      rfl
  induction unbondings generalizing amount with
  | nil => simp [RunningTotal.total]
  | cons unbonding unbondings ih =>
    rw [List.foldl_cons, hinner, ih, add_assoc]
    rfl

theorem unbonding_nonneg {unbondings : List UnbondingDelegation}
    (h : ∀ unbonding ∈ unbondings, ∀ entry ∈ unbonding.entries, 0 ≤ entry.balance) :
    ∀ tokens ∈ unbondings.map UnbondingDelegation.tokens, 0 ≤ tokens :=
  List.forall_mem_map.mpr fun unbonding hunbonding =>
    List.sum_nonneg (List.forall_mem_map.mpr (h unbonding hunbonding))

theorem unbonding_total_eq_zero_iff {unbondings : List UnbondingDelegation}
    (h : ∀ unbonding ∈ unbondings, ∀ entry ∈ unbonding.entries, 0 ≤ entry.balance) :
    RunningTotal.total UnbondingDelegation.tokens unbondings = 0 ↔
      ∀ unbonding ∈ unbondings, ∀ entry ∈ unbonding.entries, entry.balance = 0 := by
  constructor
  · intro hzero unbonding hunbonding entry hentry
    have htokens := List.all_zero_of_le_zero_le_of_sum_eq_zero (unbonding_nonneg h) hzero
      (List.mem_map_of_mem hunbonding)
    exact List.all_zero_of_le_zero_le_of_sum_eq_zero
      (List.forall_mem_map.mpr (h unbonding hunbonding)) htokens (List.mem_map_of_mem hentry)
  · intro hzero
    refine List.sum_eq_zero (List.forall_mem_map.mpr fun unbonding hunbonding => ?_)
    exact List.sum_eq_zero (List.forall_mem_map.mpr (hzero unbonding hunbonding))

section
variable {q : QueryServer} {loadHeight : Int → Except String Unit} {height : Int}
  {bondDenom : String} {held : Holdings} {payload : Payload}
  (hserves : q.Serves height payload.address held bondDenom) (hload : loadHeight height = .ok ())
  {ctx : Context} (hsource : ctx.stakingSource ∈ [remoteSource q, localSource loadHeight q])
  (hheight : ctx.getHeight payload = .ok height)
include hserves hload hsource hheight

/-- The loop is right on the first page, and nothing after it counts. -/
theorem delegations_covered_iff {sdk : CoinSdk} (hsdk : sdk.Reads) :
    (∃ coins, totalDelegationAmountHandler sdk ctx payload = .ok (.balance coins) ∧
        Totals held.balances coins) ↔
      OneButLast held.shown ∧ SumsFit held.shown ∧
        ∀ balance ∈ held.hidden,
          balance.denom ∈ held.shown.map Coin.denom ∧ balance.amount = 0 := by
  obtain ⟨page, hpage, hfirst⟩ := firstPage_of_delegations hserves hload hsource
  have hbalances : balancesOf page = held.shown := congrArg _ hfirst
  have hshown : ∀ balance ∈ held.shown, ValidCoin balance :=
    List.forall_mem_map.mpr fun d hd => held.valid d (List.mem_of_mem_take hd)
  have hhidden : ∀ balance ∈ held.hidden, ValidCoin balance :=
    List.forall_mem_map.mpr fun d hd => held.valid d (List.mem_of_mem_drop hd)
  have hreturned := totals_returned_iff hsdk hheight hpage (hbalances ▸ hshown)
  rw [hbalances] at hreturned
  rw [← held.shown_append_hidden]
  constructor
  · rintro ⟨coins, hcoins, htotals⟩
    have hpart : Totals held.shown coins := by
      obtain ⟨objects, hobjects, heq⟩ := (totalDelegationAmountHandler_ok hheight hpage).mp hcoins
      obtain rfl := Reply.balance.inj heq
      have hnodup : (objects.map Coin.denom).Nodup := by
        simpa [convertCoins, Function.comp_def] using htotals.once
      have hvalid := List.forall_mem_map.mp (hbalances ▸ hshown : ∀ b ∈ balancesOf page, ValidCoin b)
      rw [← hbalances]
      exact (totals_of_nodup hsdk hvalid hobjects hnodup).2
    obtain ⟨hone, hfit⟩ := hreturned.mp ⟨coins, hcoins, hpart⟩
    exact ⟨hone, hfit, (totals_append_iff hshown hhidden hpart).mp htotals⟩
  · rintro ⟨hone, hfit, hnothing⟩
    obtain ⟨coins, hcoins, hpart⟩ := hreturned.mpr ⟨hone, hfit⟩
    exact ⟨coins, hcoins, (totals_append_iff hshown hhidden hpart).mpr hnothing⟩

theorem unbondingDelegationsTotal_returns : unbondingDelegationsTotal ctx payload =
    .ok (.balance [⟨toString (RunningTotal.total UnbondingDelegation.tokens
      (held.unbondings.take defaultLimit)), bondDenom⟩]) := by
  obtain ⟨page, hpage, hfirst⟩ := firstPage_of_unbondings hserves hload hsource
  have hparams := getParams_serves hserves hload hsource
  simp only [unbondingDelegationsTotal, hheight, Except.mapError, bind, Except.bind]
  rw [hpage]
  simp only [hparams, foldl_entries, hfirst, zero_add]
  rfl

theorem unbondings_covered_iff :
    unbondingDelegationsTotal ctx payload =
        .ok (.balance [⟨toString held.unbonding, bondDenom⟩]) ↔
      ∀ unbonding ∈ held.unbondings.drop defaultLimit, ∀ entry ∈ unbonding.entries,
        entry.balance = 0 := by
  have hsplit : held.unbonding =
      RunningTotal.total UnbondingDelegation.tokens (held.unbondings.take defaultLimit) +
        RunningTotal.total UnbondingDelegation.tokens (held.unbondings.drop defaultLimit) := by
    simp only [RunningTotal.total]
    rw [← List.sum_append, ← List.map_append, List.take_append_drop]
    rfl
  have htaken := fun u hu => held.nonneg u (List.mem_of_mem_take (i := defaultLimit) hu)
  have hdropped := fun u hu => held.nonneg u (List.mem_of_mem_drop (i := defaultLimit) hu)
  rw [← unbonding_total_eq_zero_iff hdropped,
    unbondingDelegationsTotal_returns hserves hload hsource hheight]
  constructor
  · intro hall
    obtain ⟨htext, -⟩ := ActionCoin.mk.inj (List.singleton_inj.mp (Reply.balance.inj
      (Except.ok.inj hall)))
    have hsame : _ = held.unbonding := Text.toString_inj
      (List.sum_nonneg (unbonding_nonneg htaken)) (List.sum_nonneg (unbonding_nonneg held.nonneg))
      htext
    rw [hsplit] at hsame
    exact left_eq_add.mp hsame
  · intro hzero
    rw [hsplit, hzero, add_zero]

end

/-- The totals are those over everything if nothing counts that comes after the
first page. -/
theorem totals_cover_iff {sdk : CoinSdk} (hsdk : sdk.Reads) {q : QueryServer}
    {loadHeight : Int → Except String Unit} {height : Int} {bondDenom : String} {held : Holdings}
    {payload : Payload} (hserves : q.Serves height payload.address held bondDenom)
    (hload : loadHeight height = .ok ()) {ctx : Context}
    (hsource : ctx.stakingSource ∈ [remoteSource q, localSource loadHeight q])
    (hheight : ctx.getHeight payload = .ok height) :
    ((∃ coins, totalDelegationAmountHandler sdk ctx payload = .ok (.balance coins) ∧
        Totals held.balances coins) ↔
      OneButLast held.shown ∧ SumsFit held.shown ∧
        ∀ balance ∈ held.hidden, balance.denom ∈ held.shown.map Coin.denom ∧ balance.amount = 0) ∧
    (unbondingDelegationsTotal ctx payload =
        .ok (.balance [⟨toString held.unbonding, bondDenom⟩]) ↔
      ∀ unbonding ∈ held.unbondings.drop defaultLimit, ∀ entry ∈ unbonding.entries,
        entry.balance = 0) :=
  ⟨delegations_covered_iff hserves hload hsource hheight hsdk,
    unbondings_covered_iff hserves hload hsource hheight⟩

/-- A server that lists the first hundred items whatever the request. -/
def firstServer (delegations : List DelegationResponse) (unbondings : List UnbondingDelegation) :
    QueryServer where
  delegatorDelegations _ _ _ :=
    .ok ⟨delegations.take 100, if delegations.length ≤ 100 then [] else [0]⟩
  delegatorUnbondingDelegations _ _ _ :=
    .ok ⟨unbondings.take 100, if unbondings.length ≤ 100 then [] else [0]⟩
  params _ := .ok "usaf"

theorem firstServer_serves (held : Holdings) (height : Int) (delegator : String) :
    (firstServer held.delegations held.unbondings).Serves height delegator held "usaf" where
  delegations _ _ := ⟨_, rfl, rfl, by simp [defaultLimit]⟩
  unbondings _ _ := ⟨_, rfl, rfl, by simp [defaultLimit]⟩
  params := rfl

def heldOnes (n : Nat) : Holdings where
  delegations := List.replicate n ⟨⟨"usaf", 1⟩⟩
  unbondings := List.replicate n ⟨[⟨1⟩]⟩
  valid delegation h := by
    obtain rfl := List.eq_of_mem_replicate h
    exact ⟨by decide, by decide, by decide⟩
  nonneg unbonding h := by
    obtain rfl := List.eq_of_mem_replicate h
    decide

def localContext (held : Holdings) : Context :=
  ⟨.ok 7, localSource (fun _ => .ok ()) (firstServer held.delegations held.unbondings)⟩

theorem totals_cover_iff_two :
    (∃ coins, totalDelegationAmountHandler coinParsers (localContext (heldOnes 2))
        ⟨"addr_safro1x", 0⟩ = .ok (.balance coins) ∧ Totals (heldOnes 2).balances coins) ∧
    unbondingDelegationsTotal (localContext (heldOnes 2)) ⟨"addr_safro1x", 0⟩ =
      .ok (.balance [⟨toString (heldOnes 2).unbonding, "usaf"⟩]) := by
  have hsource : (localContext (heldOnes 2)).stakingSource ∈
      [remoteSource (firstServer (heldOnes 2).delegations (heldOnes 2).unbondings),
        localSource (fun _ => .ok ())
          (firstServer (heldOnes 2).delegations (heldOnes 2).unbondings)] :=
    List.mem_pair.mpr (Or.inr rfl)
  have hheight : (localContext (heldOnes 2)).getHeight ⟨"addr_safro1x", 0⟩ = .ok 7 := rfl
  obtain ⟨hdelegations, hunbondings⟩ := totals_cover_iff coinParsers_reads
    (firstServer_serves (heldOnes 2) 7 "addr_safro1x") rfl hsource hheight
  refine ⟨hdelegations.mpr ⟨⟨"usaf", by decide⟩, fun denom => ?_, by decide⟩,
    hunbondings.mpr (by decide)⟩
  have hshown : (heldOnes 2).shown = [⟨"usaf", 1⟩, ⟨"usaf", 1⟩] := rfl
  rw [hshown, totalOf_cons, totalOf_cons]
  split <;> simp [totalOf, RunningTotal.total, intLimit]

/-- Of 101 tokens, both handlers count 100. -/
theorem second_page_not_counted :
    totalDelegationAmountHandler coinParsers (localContext (heldOnes 101)) ⟨"addr_safro1x", 0⟩ =
      .ok (.balance [⟨"100", "usaf"⟩]) ∧
    ¬Totals (heldOnes 101).balances [⟨"100", "usaf"⟩] ∧
    unbondingDelegationsTotal (localContext (heldOnes 101)) ⟨"addr_safro1x", 0⟩ =
      .ok (.balance [⟨"100", "usaf"⟩]) ∧
    (heldOnes 101).unbonding = 101 := by
  refine ⟨by decide +kernel, fun htotals => ?_, by decide +kernel, by decide +kernel⟩
  have hcoin := (htotals.exact ⟨"101", "usaf"⟩).mpr ⟨by decide +kernel, by decide +kernel⟩
  exact absurd hcoin (by decide)

end SafrochainIndexer.Callisto.Actions
