import SafrochainIndexer.Callisto.Params
import SafrochainIndexer.Callisto.Validators
import SafrochainIndexer.Lib.Pages
import SafrochainIndexer.Lib.RunningTotal
import Mathlib.Algebra.Order.Group.Int

/-!
# The staking pool

`GetStakingPool` adds up the unbonding delegations of every validator, page by
page. The helper that reads the pages has no error result: it answers a failed
page with the empty list, and the validator counts as one without unbondings.
-/

namespace SafrochainIndexer.Callisto.Staking

/-- `stakingtypes.UnbondingDelegationEntry`. -/
structure UnbondingEntry where
  balance : Int
  deriving DecidableEq, Repr

/-- `stakingtypes.UnbondingDelegation`. -/
structure UnbondingDelegation where
  entries : List UnbondingEntry
  deriving DecidableEq, Repr

/-- `stakingtypes.QueryValidatorUnbondingDelegationsResponse`. -/
structure UnbondingPage where
  unbondingResponses : List UnbondingDelegation
  nextKey : List UInt8
  deriving DecidableEq, Repr

/-- `stakingtypes.Pool`. -/
structure ChainPool where
  notBondedTokens : Int
  bondedTokens : Int
  deriving DecidableEq, Repr

structure PoolSource where
  getPool : Int → Except String ChainPool
  getUnbondingDelegationsFromValidator : Int → String → List UInt8 → Except String UnbondingPage

def UnbondingPage.next (res : UnbondingPage) : Option (List UInt8) :=
  if res.nextKey.length = 0 then none else some res.nextKey

/-- An `sdk.Int` has at most 256 bits. -/
def intLimit : Nat := 2 ^ 256

/-- What `sdk.Int.Add` and `sdk.Int.Sub` do with their result. -/
def checkInt (n : Int) : Except Fault Int :=
  if n.natAbs < intLimit then .ok n else .error (.panic "Int overflow")

section
variable (source : PoolSource) (rounds : Nat) (height : Int)

/-- `none` if the pages do not end within `rounds` requests. -/
def getTotalUnbondingDelegationsFromValidator (valOperatorAddress : String) :
    Option (List UnbondingDelegation) :=
  let query := source.getUnbondingDelegationsFromValidator height valOperatorAddress
  match Pages.collect query UnbondingPage.next UnbondingPage.unbondingResponses rounds [] [] with
  | none => none
  | some (.ok unbondingDelegations) => some unbondingDelegations
  | some (.error _) => some []

/-- The two inner loops of `GetStakingPool`. -/
def addEntries (unbondingTokens : Int) (unbondingDelegations : List UnbondingDelegation) :
    Eff Db Int :=
  unbondingDelegations.foldlM (fun unbondingTokens unbonding =>
    unbonding.entries.foldlM (fun unbondingTokens entry =>
      Eff.ofFallible (checkInt (unbondingTokens + entry.balance))) unbondingTokens) unbondingTokens

def addUnbondings : List ValidatorData → Int → Eff Db (Option Int)
  | [], unbondingTokens => pure (some unbondingTokens)
  | validator :: rest, unbondingTokens =>
    match getTotalUnbondingDelegationsFromValidator source rounds height validator.valAddress with
    | none => pure none
    | some unbondingDelegations => do
      let unbondingTokens ← addEntries unbondingTokens unbondingDelegations
      addUnbondings rest unbondingTokens

def getStakingPool : Eff Db (Option Pool) := do
  let pool ← Eff.wrap "error while getting staking pool: " (Eff.ofExcept (source.getPool height))
  let validatorsList ← Eff.wrap "error while getting validators list: " getValidators
  match ← addUnbondings source rounds height validatorsList 0 with
  | none => pure none
  | some unbondingTokens => do
    let stakedNotBondedTokens ← Eff.ofFallible (checkInt (pool.notBondedTokens - unbondingTokens))
    pure (some
      ⟨pool.bondedTokens, pool.notBondedTokens, unbondingTokens, stakedNotBondedTokens, height⟩)

end

-- ---------------------------------------------------------------------------
-- Unbondings of the chain
-- ---------------------------------------------------------------------------

/-- The unbonding delegations of a chain, as its pages list them. Amounts of coins
are not negative. -/
structure Unbondings where
  page : String → List UInt8 → UnbondingPage
  keys : String → List (List UInt8)
  linked : ∀ val, Pages.Linked (page val) UnbondingPage.next [] (keys val)
  nonneg : ∀ val key, ∀ unbonding ∈ (page val key).unbondingResponses,
    ∀ entry ∈ unbonding.entries, 0 ≤ entry.balance

def UnbondingDelegation.tokens (unbonding : UnbondingDelegation) : Int :=
  RunningTotal.total UnbondingEntry.balance unbonding.entries

def operators (s : Db) : List String :=
  (joinValidators s selectValidator fun _ => true).map ValidatorData.valAddress

namespace Unbondings

variable (chain : Unbondings)

def delegations (val : String) : List UnbondingDelegation :=
  Pages.listed (chain.page val) UnbondingPage.unbondingResponses (chain.keys val)

def tokens (val : String) : Int :=
  RunningTotal.total UnbondingDelegation.tokens (chain.delegations val)

def total (s : Db) : Int := RunningTotal.total chain.tokens (operators s)

end Unbondings

/-- A query answers with the page of the chain, or fails. -/
def PoolSource.Answers (source : PoolSource) (chain : Unbondings) (height : Int) : Prop :=
  ∀ val, Pages.Answers (source.getUnbondingDelegationsFromValidator height val) (chain.page val)

def PoolSource.fails (source : PoolSource) (chain : Unbondings) (height : Int) (val : String) : Bool :=
  (chain.keys val).any (Pages.fails (source.getUnbondingDelegationsFromValidator height val))

-- ---------------------------------------------------------------------------
-- Sums
-- ---------------------------------------------------------------------------

section
variable {s : Db} {total : Int} {height : Int} {source : PoolSource} {chain : Unbondings}
  {rounds : Nat}

theorem total_nonneg {α : Type} {value : α → Int} {entries : List α}
    (h : ∀ entry ∈ entries, 0 ≤ value entry) : 0 ≤ RunningTotal.total value entries := by
  refine List.sum_nonneg fun n hn => ?_
  obtain ⟨entry, hentry, rfl⟩ := List.mem_map.mp hn
  exact h entry hentry

@[simp] theorem total_cons {α : Type} (value : α → Int) (entry : α) (entries : List α) :
    RunningTotal.total value (entry :: entries) = value entry + RunningTotal.total value entries := by
  simp [RunningTotal.total]

theorem checkInt_fault {n : Int} {fault : Fault} (h : checkInt n = .error fault) :
    intLimit ≤ n.natAbs ∧ fault = .panic "Int overflow" := by
  unfold checkInt at h
  split at h
  · cases h
  · rename_i hlarge
    cases h
    exact ⟨Nat.le_of_not_lt hlarge, rfl⟩

theorem checkInt_ok {n m : Int} (h : checkInt n = .ok m) : n = m ∧ n.natAbs < intLimit := by
  unfold checkInt at h
  split at h
  · rename_i hsmall
    cases h
    exact ⟨rfl, hsmall⟩
  · cases h

theorem checkInt_of_le {n : Int} (h : intLimit ≤ n.natAbs) :
    checkInt n = .error (.panic "Int overflow") := by
  simp [checkInt, Nat.not_lt.mpr h]

theorem exec_addAll {α : Type} {value : α → Int} {add : Int → α → Eff Db Int} {entries : List α}
    (hadd : ∀ entry ∈ entries, ∀ total, 0 ≤ total → total.natAbs < intLimit →
      Eff.exec (add total entry) s = (checkInt (total + value entry), s))
    (hvalue : ∀ entry ∈ entries, 0 ≤ value entry) (h0 : 0 ≤ total)
    (htotal : total.natAbs < intLimit) :
    Eff.exec (entries.foldlM add total) s =
      (checkInt (total + RunningTotal.total value entries), s) := by
  induction entries generalizing total with
  | nil => simp [RunningTotal.total, checkInt, htotal]
  | cons entry entries ih =>
    obtain ⟨hentry, hentries⟩ := List.forall_mem_cons.mp hvalue
    have hrest := total_nonneg hentries
    have hfirst := hadd entry (by simp) total h0 htotal
    rw [List.foldlM_cons, Eff.exec_bind, hfirst, total_cons, ← add_assoc]
    cases hcheck : checkInt (total + value entry) with
    | error fault =>
      obtain ⟨hlarge, rfl⟩ := checkInt_fault hcheck
      simp only [checkInt_of_le (show intLimit ≤ (total + value entry +
        RunningTotal.total value entries).natAbs by omega)]
    | ok n =>
      obtain ⟨rfl, hsmall⟩ := checkInt_ok hcheck
      exact ih (fun e he => hadd e (List.mem_cons_of_mem _ he)) hentries
        (Int.add_nonneg h0 hentry) hsmall

theorem exec_addEntries {unbondingDelegations : List UnbondingDelegation}
    (hbalance : ∀ unbonding ∈ unbondingDelegations, ∀ entry ∈ unbonding.entries, 0 ≤ entry.balance)
    (h0 : 0 ≤ total) (htotal : total.natAbs < intLimit) :
    Eff.exec (addEntries total unbondingDelegations) s =
      (checkInt (total + RunningTotal.total UnbondingDelegation.tokens unbondingDelegations), s) := by
  refine exec_addAll (fun unbonding hu total h0 htotal => ?_)
    (fun unbonding hu => total_nonneg (hbalance unbonding hu)) h0 htotal
  refine exec_addAll (fun entry _ total _ _ => ?_) (hbalance unbonding hu) h0 htotal
  cases checkInt (total + entry.balance) <;> rfl

-- ---------------------------------------------------------------------------
-- What the loops add up
-- ---------------------------------------------------------------------------

/-- What a validator counts for: nothing, if a page of it cannot be had. -/
def PoolSource.answered (source : PoolSource) (chain : Unbondings) (height : Int) (val : String) :
    Int :=
  if source.fails chain height val then 0 else chain.tokens val

theorem Unbondings.balances_nonneg (chain : Unbondings) {val : String} :
    ∀ unbonding ∈ chain.delegations val, ∀ entry ∈ unbonding.entries, 0 ≤ entry.balance := by
  intro unbonding hu
  obtain ⟨key, -, hkey⟩ := List.mem_flatMap.mp hu
  exact chain.nonneg val key unbonding hkey

theorem Unbondings.tokens_nonneg (chain : Unbondings) (val : String) : 0 ≤ chain.tokens val :=
  total_nonneg fun unbonding hu => total_nonneg (chain.balances_nonneg unbonding hu)

theorem answered_nonneg (val : String) : 0 ≤ source.answered chain height val := by
  unfold PoolSource.answered
  split
  · exact Int.le_refl 0
  · exact chain.tokens_nonneg val

theorem unbondings_answered (ha : source.Answers chain height) {val : String}
    (hr : (chain.keys val).length ≤ rounds) : ∃ unbondingDelegations,
      getTotalUnbondingDelegationsFromValidator source rounds height val =
        some unbondingDelegations ∧
      (∀ unbonding ∈ unbondingDelegations, ∀ entry ∈ unbonding.entries, 0 ≤ entry.balance) ∧
      RunningTotal.total UnbondingDelegation.tokens unbondingDelegations =
        source.answered chain height val := by
  obtain ⟨hf, hcollect⟩ | ⟨hf, err, hcollect⟩ :=
    Pages.collect_linked (chain.linked val) (ha val) hr UnbondingPage.unbondingResponses []
  · refine ⟨chain.delegations val, ?_, chain.balances_nonneg, ?_⟩
    · simp [getTotalUnbondingDelegationsFromValidator, hcollect, Unbondings.delegations]
    · simp [PoolSource.answered, PoolSource.fails, hf, Unbondings.tokens]
  · refine ⟨[], ?_, by simp, ?_⟩
    · simp [getTotalUnbondingDelegationsFromValidator, hcollect]
    · simp [PoolSource.answered, PoolSource.fails, hf, RunningTotal.total]

theorem exec_addUnbondings (ha : source.Answers chain height) {validators : List ValidatorData}
    (hr : ∀ validator ∈ validators, (chain.keys validator.valAddress).length ≤ rounds)
    (h0 : 0 ≤ total) (htotal : total.natAbs < intLimit) :
    Eff.exec (addUnbondings source rounds height validators total) s =
      ((checkInt (total + RunningTotal.total (source.answered chain height)
        (validators.map ValidatorData.valAddress))).map some, s) := by
  induction validators generalizing total with
  | nil => simp [addUnbondings, RunningTotal.total, checkInt, htotal, Except.map]
  | cons validator validators ih =>
    obtain ⟨hfirst, hrest⟩ := List.forall_mem_cons.mp hr
    have hothers : 0 ≤ RunningTotal.total (source.answered chain height)
        (validators.map ValidatorData.valAddress) := total_nonneg fun val _ => answered_nonneg val
    have hown : 0 ≤ source.answered chain height validator.valAddress := answered_nonneg _
    obtain ⟨unbondingDelegations, hget, hbalance, hsum⟩ := unbondings_answered ha hfirst
    have hadd := exec_addEntries (s := s) hbalance h0 htotal
    rw [hsum] at hadd
    simp only [addUnbondings, hget, List.map_cons, total_cons, ← add_assoc, Eff.exec_bind, hadd]
    cases hcheck : checkInt (total + source.answered chain height validator.valAddress) with
    | error fault =>
      obtain ⟨hlarge, rfl⟩ := checkInt_fault hcheck
      rw [checkInt_of_le (by omega)]
      rfl
    | ok n =>
      obtain ⟨rfl, hsmall⟩ := checkInt_ok hcheck
      exact ih hrest (Int.add_nonneg h0 hown) hsmall

-- ---------------------------------------------------------------------------
-- The validators of the database
-- ---------------------------------------------------------------------------

theorem joinValidators_addresses_nodup {select : ValidatorRow → ValidatorInfoRow → ValidatorData}
    (hselect : ∀ v i, (select v i).consAddress = v.consensusAddress) (p : ValidatorInfoRow → Bool) :
    ((joinValidators s select p).map ValidatorData.consAddress).Nodup := by
  unfold joinValidators
  rw [List.map_flatMap, List.nodup_flatMap]
  have hsame : ∀ v : ValidatorRow, ∀ data ∈ ((s.validatorInfo.rows.filter fun i =>
      v.consensusAddress = i.consensusAddress ∧ p i).map (select v)).map ValidatorData.consAddress,
      data = v.consensusAddress := by
    intro v data hdata
    simp only [List.map_map, List.mem_map, Function.comp_apply, hselect] at hdata
    obtain ⟨i, -, hi⟩ := hdata
    exact hi.symm
  constructor
  · intro v hv
    have hkeys : ((s.validatorInfo.rows.filter fun i =>
        v.consensusAddress = i.consensusAddress ∧ p i).map (select v)).map ValidatorData.consAddress =
        (s.validatorInfo.rows.filter fun i => v.consensusAddress = i.consensusAddress ∧ p i).map
          ValidatorInfoRow.consensusAddress := by
      rw [List.map_map]
      refine List.map_congr_left fun i hi => ?_
      simp only [List.mem_filter, Bool.decide_and, Bool.and_eq_true, decide_eq_true_eq] at hi
      simp [hselect, hi.2.1]
    rw [hkeys]
    exact s.validatorInfo.keys_nodup.sublist (List.filter_sublist.map _)
  · refine (List.pairwise_map.mp s.validator.keys_nodup).imp ?_
    intro v w hne address hv hw
    exact hne ((hsame v _ hv).symm.trans (hsame w _ hw))

theorem getValidators_returns (s : Db) : ∃ validators,
    Eff.Returns getValidators s validators s ∧
      (validators.map ValidatorData.valAddress).Perm (operators s) := by
  have hperm := List.mergeSort_perm (joinValidators s
    (fun v i => { selectValidator v i with height := i.height }) fun _ => true)
    fun a b => a.consAddress ≤ b.consAddress
  have hnodup := (hperm.map ValidatorData.consAddress).nodup_iff.mpr
    (joinValidators_addresses_nodup (fun _ _ => rfl) _)
  refine ⟨_, rfl, ?_⟩
  rw [distinctOn_eq hnodup]
  refine (hperm.map ValidatorData.valAddress).trans (List.Perm.of_eq ?_)
  simp [operators, joinValidators, List.map_flatMap, Function.comp_def, selectValidator]

theorem exists_rounds (chain : Unbondings) (vals : List String) :
    ∃ n, ∀ val ∈ vals, (chain.keys val).length ≤ n := by
  induction vals with
  | nil => exact ⟨0, by simp⟩
  | cons val vals ih =>
    obtain ⟨n, hn⟩ := ih
    refine ⟨max (chain.keys val).length n, List.forall_mem_cons.mpr ⟨Nat.le_max_left .., ?_⟩⟩
    exact fun other hm => (hn other hm).trans (Nat.le_max_right ..)

-- ---------------------------------------------------------------------------
-- Exact totals
-- ---------------------------------------------------------------------------

/-- With enough rounds the pool is exact, or an error is returned. -/
def PoolSource.ExactOrError (source : PoolSource) (chain : Unbondings) (height : Int) (s : Db) :
    Prop :=
  ∃ enough, ∀ rounds, enough ≤ rounds →
    (∃ message, (Eff.exec (getStakingPool source rounds height) s).1 = .error (.error message)) ∨
    ∃ reported pool, source.getPool height = .ok reported ∧
      (Eff.exec (getStakingPool source rounds height) s).1 = .ok (some pool) ∧
      pool.unbondingTokens = chain.total s ∧
      pool.stakedNotBondedTokens = reported.notBondedTokens - chain.total s

theorem exec_getStakingPool (ha : source.Answers chain height)
    (hr : ∀ val ∈ operators s, (chain.keys val).length ≤ rounds) {reported : ChainPool}
    (hpool : source.getPool height = .ok reported) :
    Eff.exec (getStakingPool source rounds height) s =
      (do
        let unbonding ← checkInt (RunningTotal.total (source.answered chain height) (operators s))
        let staked ← checkInt (reported.notBondedTokens - unbonding)
        pure (some ⟨reported.bondedTokens, reported.notBondedTokens, unbonding, staked, height⟩), s) := by
  obtain ⟨validators, hlist, hperm⟩ := getValidators_returns s
  have hrounds : ∀ validator ∈ validators, (chain.keys validator.valAddress).length ≤ rounds :=
    fun validator hv => hr _ (hperm.subset (List.mem_map_of_mem hv))
  have hsum : RunningTotal.total (source.answered chain height)
      (validators.map ValidatorData.valAddress) =
        RunningTotal.total (source.answered chain height) (operators s) :=
    (hperm.map (source.answered chain height)).sum_eq
  have hadd := exec_addUnbondings (s := s) ha hrounds (Int.le_refl 0) (by decide)
  rw [zero_add, hsum] at hadd
  rw [getStakingPool, Eff.exec_wrap_ofExcept_bind, hpool]
  dsimp only
  rw [(Eff.returns_wrap.mpr hlist).exec_bind, Eff.exec_bind, hadd]
  cases checkInt (RunningTotal.total (source.answered chain height) (operators s)) with
  | error fault => rfl
  | ok unbonding =>
    simp only [Except.map, bind, Except.bind]
    cases checkInt (reported.notBondedTokens - unbonding) <;> rfl

def PoolSource.hidden (source : PoolSource) (chain : Unbondings) (height : Int) (val : String) :
    Int :=
  if source.fails chain height val then chain.tokens val else 0

theorem hidden_nonneg (val : String) : 0 ≤ source.hidden chain height val := by
  unfold PoolSource.hidden
  split
  · exact chain.tokens_nonneg val
  · exact Int.le_refl 0

theorem total_split (source : PoolSource) (chain : Unbondings) (height : Int) (s : Db) :
    chain.total s = RunningTotal.total (source.answered chain height) (operators s) +
      RunningTotal.total (source.hidden chain height) (operators s) := by
  unfold Unbondings.total RunningTotal.total
  rw [← List.sum_map_add]
  refine congrArg List.sum (List.map_congr_left fun val _ => ?_)
  cases hf : source.fails chain height val <;>
    simp [PoolSource.answered, PoolSource.hidden, hf]

theorem answered_eq_total_iff (source : PoolSource) (chain : Unbondings) (height : Int) (s : Db) :
    RunningTotal.total (source.answered chain height) (operators s) = chain.total s ↔
      ∀ val ∈ operators s, source.fails chain height val = true → chain.tokens val = 0 := by
  have hsplit := total_split source chain height s
  have hzero : RunningTotal.total (source.hidden chain height) (operators s) = 0 ↔ _ :=
    RunningTotal.total_eq_zero_iff fun val _ => hidden_nonneg val
  constructor
  · intro heq val hval hf
    have hnone := hzero.mp (by omega) val hval
    simpa [PoolSource.hidden, hf] using hnone
  · intro hall
    have hnone := hzero.mpr fun val hval => by
      cases hf : source.fails chain height val
      · simp [PoolSource.hidden, hf]
      · simp [PoolSource.hidden, hf, hall val hval hf]
    omega

end

/-- What the checks of `GetStakingPool` leave of a sum. -/
theorem pool_of_checks (sum : Int) (reported : ChainPool) (height : Int) :
    (do
      let unbonding ← checkInt sum
      let staked ← checkInt (reported.notBondedTokens - unbonding)
      pure (some (⟨reported.bondedTokens, reported.notBondedTokens, unbonding, staked, height⟩ :
        Pool))) =
      if sum.natAbs < intLimit ∧ (reported.notBondedTokens - sum).natAbs < intLimit then
        .ok (some ⟨reported.bondedTokens, reported.notBondedTokens, sum,
          reported.notBondedTokens - sum, height⟩)
      else .error (.panic "Int overflow") := by
  unfold checkInt
  by_cases hsum : sum.natAbs < intLimit
  · by_cases hstaked : (reported.notBondedTokens - sum).natAbs < intLimit
    · simp [hsum, hstaked, bind, Except.bind, pure, Except.pure]
    · simp [hsum, hstaked, bind, Except.bind]
  · simp [hsum, bind, Except.bind]

/-- `GetStakingPool` returns an error or the exact totals if and only if the pool
cannot be had, or the failed pages belong to validators without unbonding tokens
and the sum is an `sdk.Int`. -/
theorem staking_pool_exact_iff {source : PoolSource} {chain : Unbondings} {height : Int}
    (ha : source.Answers chain height)
    (hpool : ∀ reported, source.getPool height = .ok reported →
      0 ≤ reported.notBondedTokens ∧ reported.notBondedTokens.natAbs < intLimit) (s : Db) :
    source.ExactOrError chain height s ↔
      (∃ message, source.getPool height = .error message) ∨
        (∀ val ∈ operators s, source.fails chain height val = true → chain.tokens val = 0) ∧
          (chain.total s).natAbs < intLimit := by
  rw [← answered_eq_total_iff]
  cases hget : source.getPool height with
  | error message =>
    have hfail : ∀ rounds, Eff.exec (getStakingPool source rounds height) s =
        (.error (.error ("error while getting staking pool: " ++ message)), s) := by
      intro rounds
      rw [getStakingPool, Eff.exec_wrap_ofExcept_bind, hget]
    constructor
    · exact fun _ => .inl ⟨message, rfl⟩
    · exact fun _ => ⟨0, fun rounds _ => .inl ⟨_, congrArg Prod.fst (hfail rounds)⟩⟩
  | ok reported =>
    obtain ⟨enough, hr⟩ := exists_rounds chain (operators s)
    have hexec : ∀ rounds, enough ≤ rounds → _ := fun rounds hrounds =>
      exec_getStakingPool ha (fun val hval => (hr val hval).trans hrounds) hget (s := s)
    constructor
    · rintro ⟨least, hall⟩
      refine .inr ?_
      have hboth := hall _ (Nat.le_max_left least enough)
      rw [hexec _ (Nat.le_max_right least enough), pool_of_checks] at hboth
      split at hboth
      · rename_i hsmall
        simp only [reduceCtorEq, exists_false, false_or, Except.ok.injEq, Option.some.injEq] at hboth
        obtain ⟨_, pool, -, rfl, hunbonding, -⟩ := hboth
        exact ⟨hunbonding, hunbonding ▸ hsmall.1⟩
      · simp at hboth
    · rintro (⟨message, hmessage⟩ | ⟨heq, hsmall⟩)
      · cases hmessage
      · refine ⟨enough, fun rounds hrounds => .inr ?_⟩
        obtain ⟨hpos, hbound⟩ := hpool reported hget
        have htotal : 0 ≤ chain.total s := total_nonneg fun val _ => chain.tokens_nonneg val
        have hstaked : (reported.notBondedTokens - chain.total s).natAbs < intLimit := by omega
        rw [hexec rounds hrounds, pool_of_checks, heq, if_pos ⟨hsmall, hstaked⟩]
        exact ⟨reported, _, hget, rfl, rfl, rfl⟩

def twoPages : Unbondings where
  page _ key := if key = [] then ⟨[⟨[⟨4⟩, ⟨6⟩]⟩], [1]⟩ else ⟨[⟨[⟨5⟩]⟩], []⟩
  keys _ := [[], [1]]
  linked _ := .more rfl (.last rfl)
  nonneg _ key := by
    split <;> decide

def nodeOf (chain : Unbondings) (unavailable : List UInt8 → Bool) : PoolSource where
  getPool _ := .ok ⟨100, 1000⟩
  getUnbondingDelegationsFromValidator _ val key :=
    if unavailable key then .error "deadline exceeded" else .ok (chain.page val key)

theorem nodeOf_answers (chain : Unbondings) (unavailable : List UInt8 → Bool) (height : Int) :
    (nodeOf chain unavailable).Answers chain height := by
  intro val key
  simp only [nodeOf]
  split
  · exact .inr ⟨_, rfl⟩
  · exact .inl rfl

def oneValidator : Db :=
  { (default : Db) with
    validator := Table.empty.upsert .ignore ⟨"cosmosvalcons1aa", "cosmosvalconspub1aa"⟩
    validatorInfo := Table.empty.upsert .ignore
      ⟨"cosmosvalcons1aa", "cosmosvaloper1aa", "cosmos1aa", "0.010000000000000000",
        "0.200000000000000000", 3⟩ }

theorem staking_pool_exact_two_pages :
    (nodeOf twoPages fun _ => false).ExactOrError twoPages 9 oneValidator :=
  (staking_pool_exact_iff (nodeOf_answers twoPages (fun _ => false) 9)
    (fun _ h => by cases h; decide) oneValidator).mpr (.inr ⟨by decide, by decide⟩)

/-- The second page fails, and none of the fifteen tokens counts. -/
theorem half_read_validator_counts_nothing :
    (nodeOf twoPages fun key => key = [1]).Answers twoPages 9 ∧
      twoPages.total oneValidator = 15 ∧
      (Eff.exec (getStakingPool (nodeOf twoPages fun key => key = [1]) 2 9) oneValidator).1 =
        .ok (some ⟨1000, 100, 0, 100, 9⟩) ∧
      ¬ (nodeOf twoPages fun key => key = [1]).ExactOrError twoPages 9 oneValidator := by
  have ha := nodeOf_answers twoPages (fun key => key = [1]) 9
  have htotal : twoPages.total oneValidator = 15 := by decide
  have hexec : ∀ rounds, 2 ≤ rounds →
      (Eff.exec (getStakingPool (nodeOf twoPages fun key => key = [1]) rounds 9) oneValidator).1 =
        .ok (some ⟨1000, 100, 0, 100, 9⟩) := by
    intro rounds hrounds
    rw [exec_getStakingPool ha (fun _ _ => hrounds) rfl]
    decide
  refine ⟨ha, htotal, hexec 2 (Nat.le_refl 2), ?_⟩
  rintro ⟨enough, hall⟩
  have hboth := hall _ (Nat.le_max_left enough 2)
  rw [hexec _ (Nat.le_max_right enough 2), htotal] at hboth
  obtain ⟨_, hmessage⟩ | ⟨_, _, _, hpool, hunbonding, _⟩ := hboth
  · cases hmessage
  · cases hpool
    cases hunbonding

end SafrochainIndexer.Callisto.Staking
