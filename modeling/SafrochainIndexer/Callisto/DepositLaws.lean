import SafrochainIndexer.Callisto.AuthzLaws
import SafrochainIndexer.Lib.RunningTotal
import Mathlib.Algebra.Order.Group.Int
import Mathlib.Algebra.Ring.Int.Defs

/-!
# Deposits

`proposal_deposit` has a row for each transaction, and the row holds what the
chain answers at its height: all that the depositor has deposited so far.
`deposits_conserved_iff`: the rows add up to what was deposited exactly when no
deposit but the last has coins.
-/

namespace SafrochainIndexer.Callisto.Gov

variable {m : Module} {s : Db}

/-- A `MsgDeposit` that went through, at an index of its transaction. -/
structure DepositMsg where
  version : Version
  msg : MsgDeposit
  coins : List Coin
  index : Nat
  tx : Tx
  deriving DecidableEq, Repr

def DepositMsg.height (d : DepositMsg) : Int := d.tx.height

def amountOf (denom : String) (coins : List Coin) : Int :=
  ((coins.filter fun coin => coin.denom = denom).map Coin.amount).sum

def dbAmountOf (denom : String) (coins : List DbCoin) : Int :=
  ((coins.filter fun coin => coin.denom = denom).map fun coin => (Text.decimal coin.amount : Int)).sum

def depositsOf (id : Nat) (depositor : String) (deposits : List DepositMsg) : List DepositMsg :=
  deposits.filter fun d => d.msg.proposalId = id ∧ d.msg.depositor = depositor

def depositRowsOf (id : Nat) (depositor : String) (s : Db) : List ProposalDepositRow :=
  s.proposalDeposit.rows.filter fun row => row.proposalId = id ∧ row.depositorAddress = depositor

variable (m) in
def DescribesDeposit (d : DepositMsg) : Prop :=
  ∃ events, d.tx.logs[d.index]? = some events ∧
    proposalIDFromEvents events = .ok d.msg.proposalId ∧
    ∃ time, m.timeParse d.tx.timestamp = .ok time

variable (m) in
/-- The deposits of the chain: a transaction has one hash, a depositor deposits
on a proposal at distinct heights, and the source answers at a height with all
that came up to it. -/
structure Deposited (deposits : List DepositMsg) : Prop where
  described : ∀ d ∈ deposits, DescribesDeposit m d
  nonneg : ∀ d ∈ deposits, ∀ coin ∈ d.coins, 0 ≤ coin.amount
  hashes : ∀ d ∈ deposits, ∀ e ∈ deposits, d.tx.txHash = e.tx.txHash → d.height = e.height
  heights : ∀ id depositor, ((depositsOf id depositor deposits).map DepositMsg.height).Nodup
  cumulative : ∀ d ∈ deposits, ∃ coins,
    m.source.proposalDeposit d.height d.msg.proposalId d.msg.depositor = .ok coins ∧
    (∀ coin ∈ coins, 0 ≤ coin.amount) ∧
    ∀ denom, amountOf denom coins =
      RunningTotal.upTo DepositMsg.height (fun e => amountOf denom e.coins)
        (depositsOf d.msg.proposalId d.msg.depositor deposits) d.height

variable (m) in
def handleDeposits (s : Db) (handled : List DepositMsg) : Db :=
  handled.foldl (fun s d => (Eff.exec (m.handleMsg d.index (.deposit d.version d.msg) d.tx) s).2) s

variable (m) in
def depositRow (d : DepositMsg) : ProposalDepositRow where
  proposalId := d.msg.proposalId
  depositorAddress := d.msg.depositor
  amount := newDbCoins
    ((m.source.proposalDeposit d.height d.msg.proposalId d.msg.depositor).toOption.getD [])
  timestamp := (m.timeParse d.tx.timestamp).toOption.getD zeroTime
  transactionHash := d.tx.txHash
  height := d.height

-- ---------------------------------------------------------------------------
-- Amounts
-- ---------------------------------------------------------------------------

theorem dbAmountOf_newDbCoins {coins : List Coin} (h : ∀ coin ∈ coins, 0 ≤ coin.amount)
    (denom : String) : dbAmountOf denom (newDbCoins coins) = amountOf denom coins := by
  unfold dbAmountOf newDbCoins amountOf
  rw [List.filter_map, List.map_map]
  refine congrArg List.sum (List.map_congr_left fun coin hcoin => ?_)
  exact Text.decimal_toString (h coin (List.mem_of_mem_filter hcoin))

theorem amountOf_nonneg {coins : List Coin} (h : ∀ coin ∈ coins, 0 ≤ coin.amount) (denom : String) :
    0 ≤ amountOf denom coins :=
  List.sum_nonneg (List.forall_mem_map.mpr fun coin hcoin => h coin (List.mem_of_mem_filter hcoin))

-- ---------------------------------------------------------------------------
-- Runs
-- ---------------------------------------------------------------------------

theorem handleDeposit_deposits {deposits : List DepositMsg} (h : Deposited m deposits)
    {d : DepositMsg} (hd : d ∈ deposits) (hp : s.hasProposal d.msg.proposalId = true) :
    (Eff.exec (m.handleMsg d.index (.deposit d.version d.msg) d.tx) s).2.proposalDeposit =
      s.proposalDeposit.upsert depositConflict (depositRow m d) := by
  obtain ⟨events, hlog, hid, time, htime⟩ := h.described d hd
  obtain ⟨coins, hcoins, -⟩ := h.cumulative d hd
  have hne : d.tx.logs.length ≠ 0 := by
    intro hlength
    simp [List.length_eq_zero_iff.mp hlength] at hlog
  have hevents : Eff.Returns (logEvents d.tx d.index) s events s :=
    logEvents_returns.mpr ⟨hlog, rfl⟩
  have hsource : m.source.proposalDeposit d.tx.height d.msg.proposalId d.msg.depositor =
      .ok coins := hcoins
  simp only [Module.handleMsg, if_neg hne]
  rw [hevents.exec_bind, handleDepositEvent_deposits hid htime hp, hsource]
  simp [depositRow, hsource, htime, Except.toOption, DepositMsg.height]

theorem handleDeposits_deposits {deposits handled : List DepositMsg} (h : Deposited m deposits)
    (hsub : ∀ d ∈ handled, d ∈ deposits)
    (hp : ∀ d ∈ handled, s.hasProposal d.msg.proposalId = true) :
    (handleDeposits m s handled).proposalDeposit =
      (handled.map (depositRow m)).foldl (Table.upsert depositConflict) s.proposalDeposit := by
  induction handled generalizing s with
  | nil => rfl
  | cons d handled ih =>
    obtain ⟨hd, hsub⟩ := List.forall_mem_cons.mp hsub
    obtain ⟨hpd, hp⟩ := List.forall_mem_cons.mp hp
    have hrest := ih (s := (Eff.exec (m.handleMsg d.index (.deposit d.version d.msg) d.tx) s).2)
      hsub fun e he => by
        have hdeposit : ∀ version submission,
            Msg.deposit d.version d.msg ≠ .submitProposal version submission :=
          fun _ _ h => (nomatch h)
        unfold Db.hasProposal
        rw [handleMsg_proposals m hdeposit d.index d.tx s]
        exact hp e he
    refine hrest.trans ?_
    rw [handleDeposit_deposits h hd hpd]
    rfl

-- ---------------------------------------------------------------------------
-- The rows of a depositor
-- ---------------------------------------------------------------------------

section
variable {deposits handled : List DepositMsg} {id : Nat} {depositor : String}

theorem Deposited.eq_of_hash (h : Deposited m deposits) {d e : DepositMsg}
    (hd : d ∈ depositsOf id depositor deposits) (he : e ∈ depositsOf id depositor deposits)
    (hhash : d.tx.txHash = e.tx.txHash) : d = e :=
  List.inj_on_of_nodup_map (h.heights id depositor) hd he
    (h.hashes d (List.mem_of_mem_filter hd) e (List.mem_of_mem_filter he) hhash)

theorem mem_depositsOf {d : DepositMsg} : d ∈ depositsOf id depositor deposits ↔
    d ∈ deposits ∧ d.msg.proposalId = id ∧ d.msg.depositor = depositor := by
  rw [depositsOf, List.mem_filter, decide_eq_true_eq]

theorem mem_depositRowsOf {row : ProposalDepositRow} : row ∈ depositRowsOf id depositor s ↔
    row.proposalId = id ∧ row.depositorAddress = depositor ∧
      s.proposalDeposit.find (id, depositor, row.transactionHash) = some row := by
  rw [depositRowsOf, List.mem_filter, Table.mem_rows_iff, decide_eq_true_eq]
  constructor
  · rintro ⟨hf, rfl, rfl⟩
    exact ⟨rfl, rfl, hf⟩
  · rintro ⟨rfl, rfl, hf⟩
    exact ⟨hf, rfl, rfl⟩

theorem find_handleDeposits (h : Deposited m deposits) (hsub : ∀ d ∈ handled, d ∈ deposits)
    (hp : ∀ d ∈ handled, s.hasProposal d.msg.proposalId = true)
    (hfresh : depositRowsOf id depositor s = []) (hash : String) :
    (handleDeposits m s handled).proposalDeposit.find (id, depositor, hash) =
      Register.hold ProposalDepositRow.height none
        (((depositsOf id depositor handled).filter fun d => d.tx.txHash = hash).map
          (depositRow m)) := by
  have hnone : s.proposalDeposit.find (id, depositor, hash) = none := by
    refine Table.find_eq_none_of_filter hfresh fun row hk => ?_
    simp only [ProposalDepositRow.uniqueDeposit, Prod.mk.injEq] at hk
    simp [hk]
  have hfilter : ((handled.map (depositRow m)).filter fun row =>
      row.uniqueDeposit = (id, depositor, hash)) =
      ((depositsOf id depositor handled).filter fun d => d.tx.txHash = hash).map
        (depositRow m) := by
    rw [List.filter_map, depositsOf, List.filter_filter]
    refine congrArg _ (List.filter_congr fun d _ => ?_)
    rw [← Bool.decide_and]
    refine decide_eq_decide.mpr ?_
    simp only [depositRow, ProposalDepositRow.uniqueDeposit, Prod.mk.injEq]
    constructor
    · rintro ⟨hid, hdep, hh⟩
      exact ⟨hh, hid, hdep⟩
    · rintro ⟨hh, hid, hdep⟩
      exact ⟨hid, hdep, hh⟩
  rw [handleDeposits_deposits h hsub hp, depositConflict_guards.find_upserts, hnone, hfilter]

/-- However often and in whatever order the deposits were handled, there is one
row for each. -/
theorem depositRows_perm (h : Deposited m deposits) (hall : ∀ d, d ∈ handled ↔ d ∈ deposits)
    (hp : ∀ d ∈ deposits, s.hasProposal d.msg.proposalId = true)
    (hfresh : depositRowsOf id depositor s = []) :
    (depositRowsOf id depositor (handleDeposits m s handled)).Perm
      ((depositsOf id depositor deposits).map (depositRow m)) := by
  have hfind := find_handleDeposits h (fun d hd => (hall d).mp hd)
    (fun d hd => hp d ((hall d).mp hd)) hfresh
  have hrows : (depositRowsOf id depositor (handleDeposits m s handled)).Nodup :=
    (handleDeposits m s handled).proposalDeposit.keys_nodup.of_map.filter _
  have hnodup : ((depositsOf id depositor deposits).map (depositRow m)).Nodup := by
    refine List.Nodup.of_map ProposalDepositRow.height ?_
    rw [List.map_map]
    exact h.heights id depositor
  have hown : ∀ d, d ∈ depositsOf id depositor handled ↔ d ∈ depositsOf id depositor deposits := by
    intro d
    rw [mem_depositsOf, mem_depositsOf, hall]
  refine (List.perm_ext_iff_of_nodup hrows hnodup).mpr fun row => ?_
  rw [mem_depositRowsOf, hfind, List.mem_map]
  constructor
  · rintro ⟨-, -, hrow⟩
    rcases Register.mem_of_hold hrow with hheld | hmem
    · cases hheld
    obtain ⟨d, hd, rfl⟩ := List.mem_map.mp hmem
    exact ⟨d, (hown d).mp (List.mem_of_mem_filter hd), rfl⟩
  · rintro ⟨d, hd, rfl⟩
    obtain ⟨-, hid, hdepositor⟩ := mem_depositsOf.mp hd
    refine ⟨hid, hdepositor, ?_⟩
    have hmem : d ∈ (depositsOf id depositor handled).filter fun e =>
        e.tx.txHash = (depositRow m d).transactionHash :=
      List.mem_filter.mpr ⟨(hown d).mpr hd, decide_eq_true rfl⟩
    refine Register.hold_of_all_eq (List.ne_nil_of_mem (List.mem_map_of_mem hmem)) ?_
      fun _ hheld => nomatch hheld
    -- every deposit handled under this key is the one of the row
    refine List.forall_mem_map.mpr fun e he => congrArg (depositRow m) ?_
    obtain ⟨he, hhash⟩ := List.mem_filter.mp he
    exact h.eq_of_hash ((hown e).mp he) hd (of_decide_eq_true hhash)

theorem depositRows_sum (h : Deposited m deposits) (hall : ∀ d, d ∈ handled ↔ d ∈ deposits)
    (hp : ∀ d ∈ deposits, s.hasProposal d.msg.proposalId = true)
    (hfresh : depositRowsOf id depositor s = []) (denom : String) :
    RunningTotal.total (fun row => dbAmountOf denom row.amount)
        (depositRowsOf id depositor (handleDeposits m s handled)) =
      RunningTotal.total (fun d => RunningTotal.upTo DepositMsg.height
          (fun e => amountOf denom e.coins) (depositsOf id depositor deposits) d.height)
        (depositsOf id depositor deposits) := by
  unfold RunningTotal.total
  rw [((depositRows_perm h hall hp hfresh).map _).sum_eq, List.map_map]
  refine congrArg List.sum (List.map_congr_left fun d hd => ?_)
  obtain ⟨hmem, rfl, rfl⟩ := mem_depositsOf.mp hd
  obtain ⟨coins, hcoins, hnonneg, hamount⟩ := h.cumulative d hmem
  have hrow : (depositRow m d).amount = newDbCoins coins := by
    simp [depositRow, hcoins, Except.toOption]
  rw [Function.comp_apply, hrow, dbAmountOf_newDbCoins hnonneg, hamount]

/-- Handled in any order and any number of times, the rows of a depositor on a
proposal add up to what the depositor has deposited exactly if only the deposit
at the greatest height has coins. -/
theorem deposits_conserved_iff (h : Deposited m deposits)
    (hall : ∀ d, d ∈ handled ↔ d ∈ deposits)
    (hp : ∀ d ∈ deposits, s.hasProposal d.msg.proposalId = true)
    (hfresh : depositRowsOf id depositor s = []) :
    (∀ denom, RunningTotal.total (fun row => dbAmountOf denom row.amount)
        (depositRowsOf id depositor (handleDeposits m s handled)) =
      RunningTotal.total (fun d => amountOf denom d.coins) (depositsOf id depositor deposits)) ↔
    ∀ d ∈ depositsOf id depositor deposits, ∀ e ∈ depositsOf id depositor deposits,
      d.height < e.height → ∀ denom, amountOf denom d.coins = 0 := by
  have hdenom : ∀ denom, RunningTotal.total (fun row => dbAmountOf denom row.amount)
        (depositRowsOf id depositor (handleDeposits m s handled)) =
      RunningTotal.total (fun d => amountOf denom d.coins) (depositsOf id depositor deposits) ↔
      ∀ d ∈ depositsOf id depositor deposits, ∀ e ∈ depositsOf id depositor deposits,
        d.height < e.height → amountOf denom d.coins = 0 := by
    intro denom
    rw [depositRows_sum h hall hp hfresh]
    refine RunningTotal.sum_upTo_eq_iff (h.heights id depositor) fun d hd => ?_
    exact amountOf_nonneg (h.nonneg d (List.mem_of_mem_filter hd)) denom
  simp only [hdenom]
  constructor
  · intro hzero d hd e he hlt denom
    exact hzero denom d hd e he hlt
  · intro hzero denom d hd e he hlt
    exact hzero d hd e he hlt denom

end

-- ---------------------------------------------------------------------------
-- Five coins a block
-- ---------------------------------------------------------------------------

def fiveABlock : Module :=
  { plain with source := { plain.source with
      proposalDeposit := fun height _ _ => .ok [⟨"usaf", 5 * height⟩] } }

def depositAt (height : Int) : DepositMsg where
  version := .v1
  msg := ⟨1, "depositor"⟩
  coins := [⟨"usaf", 5⟩]
  index := 0
  tx := ⟨height, toString height, "2024-01-01T00:00:00Z",
    [[⟨"proposal_deposit", [⟨"proposal_id", "1"⟩]⟩]], []⟩

theorem depositAt_describes (height : Int) : DescribesDeposit fiveABlock (depositAt height) :=
  ⟨_, rfl, rfl, 1704067200000000, rfl⟩

theorem amountOf_usaf (denom : String) (amount : Int) :
    amountOf denom [⟨"usaf", amount⟩] = if denom = "usaf" then amount else 0 := by
  by_cases h : denom = "usaf"
  · simp [amountOf, h]
  · simp [amountOf, h, Ne.symm h]

theorem depositsOf_heights {id : Nat} {depositor : String} {deposits : List DepositMsg}
    (hnodup : (deposits.map DepositMsg.height).Nodup) :
    ((depositsOf id depositor deposits).map DepositMsg.height).Nodup :=
  hnodup.sublist (List.filter_sublist.map _)

theorem fiveABlock_cumulative (own : List DepositMsg) {deposits : List DepositMsg} {height : Int}
    (hown : (depositsOf 1 "depositor" deposits).filter (fun e => e.height ≤ height) = own)
    (hcoins : ∀ d ∈ own, d.coins = [⟨"usaf", 5⟩]) (hlength : height = own.length) (denom : String) :
    amountOf denom [⟨"usaf", 5 * height⟩] = RunningTotal.upTo DepositMsg.height
      (fun e => amountOf denom e.coins) (depositsOf 1 "depositor" deposits) height := by
  have hvalues : own.map (fun e => amountOf denom e.coins) =
      List.replicate own.length (amountOf denom [⟨"usaf", 5⟩]) :=
    List.eq_replicate_iff.mpr ⟨List.length_map _, List.forall_mem_map.mpr fun d hd => by
      rw [hcoins d hd]⟩
  rw [RunningTotal.upTo, hown, RunningTotal.total, hvalues, List.sum_replicate, amountOf_usaf,
    amountOf_usaf, hlength]
  split
  · simp [Int.mul_comm]
  · simp

theorem deposited_once : Deposited fiveABlock [depositAt 1] where
  described := List.forall_mem_singleton.mpr (depositAt_describes 1)
  nonneg := List.forall_mem_singleton.mpr (by decide)
  hashes := by decide
  heights _ _ := depositsOf_heights (by decide)
  cumulative := List.forall_mem_singleton.mpr ⟨_, rfl, by decide,
    fiveABlock_cumulative [depositAt 1] (by decide) (by decide) rfl⟩

theorem deposited_twice : Deposited fiveABlock [depositAt 1, depositAt 2] where
  described := by
    intro d hd
    rcases List.mem_pair.mp hd with rfl | rfl
    · exact depositAt_describes 1
    · exact depositAt_describes 2
  nonneg := by decide
  hashes := by decide
  heights _ _ := depositsOf_heights (by decide)
  cumulative := by
    intro d hd
    rcases List.mem_pair.mp hd with rfl | rfl
    · exact ⟨_, rfl, by decide, fiveABlock_cumulative [depositAt 1] (by decide) (by decide) rfl⟩
    · exact ⟨_, rfl, by decide,
        fiveABlock_cumulative [depositAt 1, depositAt 2] (by decide) (by decide) rfl⟩

theorem deposits_conserved_once :
    RunningTotal.total (fun row => dbAmountOf "usaf" row.amount) (depositRowsOf 1 "depositor"
        (handleDeposits fiveABlock storedProposals [depositAt 1, depositAt 1])) =
      RunningTotal.total (fun d => amountOf "usaf" d.coins)
        (depositsOf 1 "depositor" [depositAt 1]) := by
  refine (deposits_conserved_iff deposited_once ?_ ?_ rfl).mpr ?_ "usaf"
  · intro d
    rw [List.mem_pair, or_self, List.mem_singleton]
  · exact List.forall_mem_singleton.mpr rfl
  · intro d hd e he hlt
    obtain rfl := List.mem_singleton.mp (List.mem_of_mem_filter hd)
    obtain rfl := List.mem_singleton.mp (List.mem_of_mem_filter he)
    exact absurd hlt (lt_irrefl _)

/-- After two deposits of five coins the rows hold five and ten. -/
theorem second_deposit_counts_first_again :
    Deposited fiveABlock [depositAt 1, depositAt 2] ∧
      depositRowsOf 1 "depositor" storedProposals = [] ∧
      RunningTotal.total (fun row => dbAmountOf "usaf" row.amount) (depositRowsOf 1 "depositor"
          (handleDeposits fiveABlock storedProposals [depositAt 1, depositAt 2])) = 15 ∧
      RunningTotal.total (fun d => amountOf "usaf" d.coins)
        (depositsOf 1 "depositor" [depositAt 1, depositAt 2]) = 10 :=
  ⟨deposited_twice, rfl, by decide +kernel, by decide⟩

end SafrochainIndexer.Callisto.Gov
