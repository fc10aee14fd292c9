import SafrochainIndexer.Lib.Double
import SafrochainIndexer.Lib.Keyset
import SafrochainIndexer.Lib.Table
import SafrochainIndexer.Lib.Text
import Mathlib.Algebra.BigOperators.Ring.Finset
import Mathlib.Algebra.Order.BigOperators.Group.List
import Mathlib.Data.List.ReduceOption
import Mathlib.Data.Rat.Floor
import Mathlib.Tactic.FieldSimp
import Mathlib.Tactic.Linarith

/-!
# Statistics of a block

`getBlockStatistics` of `block.service.ts`, over at most 1000 transactions of the
block. The driver returns a `BIGINT` as a text, so the gas values are not added up
but written one after another.
-/

namespace SafrochainIndexer.Api

structure FeeCoin where
  denom : String
  amount : Nat
  deriving DecidableEq, Repr

/-- `fee.amount`, which may be a coin alone. -/
inductive FeeAmount
  | coins (coins : List FeeCoin)
  | coin (coin : FeeCoin)
  deriving DecidableEq, Repr

structure StatisticsRow where
  hash : String
  height : Nat
  success : Bool
  fee : Option FeeAmount
  gasUsed : Option Int
  deriving DecidableEq, Repr

structure BlockStatistics where
  totalFees : List FeeCoin
  averageGasPerTx : Double
  successRate : Double
  deriving DecidableEq, Repr

/-- What a store answers without `ORDER BY`. -/
abbrev Unordered (α : Type) := Keyset.OrderBy fun _ _ : α => True

def StatisticsRow.fees (tx : StatisticsRow) : List FeeCoin :=
  match tx.fee with
  | none => []
  | some (.coins coins) => coins
  | some (.coin coin) => [coin]

def addFee : List FeeCoin → FeeCoin → List FeeCoin
  | [], fee => [fee]
  | existing :: acc, fee =>
    if existing.denom = fee.denom then
      { existing with amount := existing.amount + fee.amount } :: acc
    else existing :: addFee acc fee

/-- A number, or what `+` makes of it and a text. -/
inductive ScriptSum
  | number (n : Nat)
  | text (s : String)
  deriving DecidableEq, Repr

/-- `sum + gas_used`, where `gas_used` is null or the text of an integer. -/
def ScriptSum.add : ScriptSum → Option Int → ScriptSum
  | .number n, none => .number n
  | .number n, some gas => .text (toString n ++ toString gas)
  | .text s, none => .text (s ++ "null")
  | .text s, some gas => .text (s ++ toString gas)

def ScriptSum.toNumber : ScriptSum → Double
  | .number n => .ofRat n
  | .text s => if s.toList.all Char.isDigit then .ofRat (Text.decimal s) else .nan

def maxTransactions : Nat := 1000

def getBlockStatistics (order : List StatisticsRow → List StatisticsRow)
    (transaction : List StatisticsRow) (height : Nat) : BlockStatistics :=
  let transactions :=
    (order (transaction.filter fun tx => tx.height = height)).take maxTransactions
  let totalFees := (transactions.flatMap StatisticsRow.fees).foldl addFee []
  let successfulTxs := transactions.countP StatisticsRow.success
  let averageGasPerTx : Double :=
    if 0 < transactions.length then
      ((transactions.map StatisticsRow.gasUsed).foldl ScriptSum.add (.number 0)).toNumber.div
        transactions.length
    else .finite 0
  { totalFees
    averageGasPerTx := averageGasPerTx.round
    successRate :=
      if 0 < transactions.length then (Double.finite successfulTxs).div transactions.length
      else .finite 0 }

-- ---------------------------------------------------------------------------
-- Fees
-- ---------------------------------------------------------------------------

def amountOf (denom : String) (coins : List FeeCoin) : Nat :=
  ((coins.filter fun coin => coin.denom = denom).map FeeCoin.amount).sum

/-- One entry for each denomination of the coins, with the sum of its amounts. -/
structure ExactFees (coins fees : List FeeCoin) : Prop where
  nodup : (fees.map FeeCoin.denom).Nodup
  denoms : ∀ denom, denom ∈ fees.map FeeCoin.denom ↔ denom ∈ coins.map FeeCoin.denom
  amounts : ∀ fee ∈ fees, fee.amount = amountOf fee.denom coins

@[simp] theorem amountOf_nil (denom : String) : amountOf denom [] = 0 := rfl

theorem amountOf_cons (denom : String) (coin : FeeCoin) (coins : List FeeCoin) :
    amountOf denom (coin :: coins) =
      (if coin.denom = denom then coin.amount else 0) + amountOf denom coins := by
  unfold amountOf
  by_cases h : coin.denom = denom
  · simp [h]
  · simp [h]

@[simp] theorem amountOf_append (denom : String) (coins coins' : List FeeCoin) :
    amountOf denom (coins ++ coins') = amountOf denom coins + amountOf denom coins' := by
  simp [amountOf]

theorem amountOf_perm {denom : String} {coins coins' : List FeeCoin} (h : coins.Perm coins') :
    amountOf denom coins = amountOf denom coins' :=
  ((h.filter _).map _).sum_eq

theorem amountOf_eq_zero_iff {denom : String} {coins : List FeeCoin} :
    amountOf denom coins = 0 ↔ ∀ coin ∈ coins, coin.denom = denom → coin.amount = 0 := by
  simp only [amountOf, List.sum_eq_zero_iff, List.forall_mem_map, List.mem_filter,
    decide_eq_true_eq, and_imp]

theorem amountOf_addFee (denom : String) (acc : List FeeCoin) (fee : FeeCoin) :
    amountOf denom (addFee acc fee) = amountOf denom (acc ++ [fee]) := by
  induction acc with
  | nil => rfl
  | cons existing acc ih =>
    unfold addFee
    split
    · rename_i h
      simp only [List.cons_append, amountOf_cons, amountOf_append, amountOf_nil, h]
      split
      · omega
      · omega
    · rw [amountOf_cons, ih, List.cons_append, amountOf_cons]

theorem mem_denoms_addFee {denom : String} {acc : List FeeCoin} {fee : FeeCoin} :
    denom ∈ (addFee acc fee).map FeeCoin.denom ↔ denom ∈ (acc ++ [fee]).map FeeCoin.denom := by
  induction acc with
  | nil => simp [addFee]
  | cons existing acc ih =>
    unfold addFee
    split
    · rename_i h
      simp only [List.map_cons, List.cons_append, List.map_append, List.mem_cons, List.mem_append, h,
        List.map_nil, List.not_mem_nil, or_false]
      tauto
    · rw [List.map_cons, List.mem_cons, ih, List.cons_append, List.map_cons, List.mem_cons]

theorem nodup_addFee {acc : List FeeCoin} (h : (acc.map FeeCoin.denom).Nodup) (fee : FeeCoin) :
    ((addFee acc fee).map FeeCoin.denom).Nodup := by
  induction acc with
  | nil => simp [addFee]
  | cons existing acc ih =>
    obtain ⟨hexisting, hacc⟩ := List.nodup_cons.mp h
    unfold addFee
    split
    · exact h
    · rename_i hne
      refine List.nodup_cons.mpr ⟨?_, ih hacc⟩
      rw [mem_denoms_addFee]
      simpa [hne] using hexisting

theorem foldl_addFee (coins : List FeeCoin) {acc : List FeeCoin}
    (h : (acc.map FeeCoin.denom).Nodup) :
    ((coins.foldl addFee acc).map FeeCoin.denom).Nodup ∧
      ∀ denom, (denom ∈ (coins.foldl addFee acc).map FeeCoin.denom ↔
          denom ∈ (acc ++ coins).map FeeCoin.denom) ∧
        amountOf denom (coins.foldl addFee acc) = amountOf denom (acc ++ coins) := by
  induction coins generalizing acc with
  | nil => simpa using h
  | cons coin coins ih =>
    obtain ⟨hnodup, hentries⟩ := ih (nodup_addFee h coin)
    refine ⟨hnodup, fun denom => ?_⟩
    obtain ⟨hdenom, hamount⟩ := hentries denom
    have hcoins : acc ++ coin :: coins = acc ++ [coin] ++ coins := by simp
    constructor
    · rw [List.foldl_cons, hdenom, hcoins, List.map_append, List.mem_append, mem_denoms_addFee,
        ← List.mem_append, ← List.map_append]
    · rw [List.foldl_cons, hamount, hcoins, amountOf_append, amountOf_addFee, ← amountOf_append]

theorem amountOf_of_mem {fees : List FeeCoin} (h : (fees.map FeeCoin.denom).Nodup) {fee : FeeCoin}
    (hfee : fee ∈ fees) : amountOf fee.denom fees = fee.amount := by
  unfold amountOf
  rw [Table.filter_key_eq_singleton h hfee]
  simp

theorem exactFees_foldl (coins : List FeeCoin) : ExactFees coins (coins.foldl addFee []) := by
  have hempty : (([] : List FeeCoin).map FeeCoin.denom).Nodup := List.nodup_nil
  obtain ⟨hnodup, hentries⟩ := foldl_addFee coins hempty
  refine ⟨hnodup, fun denom => (hentries denom).1, fun fee hfee => ?_⟩
  rw [← amountOf_of_mem hnodup hfee]
  exact (hentries fee.denom).2

theorem exactFees_append_iff {coins rest fees : List FeeCoin} (h : ExactFees coins fees) :
    ExactFees (coins ++ rest) fees ↔
      ∀ coin ∈ rest, coin.amount = 0 ∧ coin.denom ∈ coins.map FeeCoin.denom := by
  constructor
  · intro hall coin hcoin
    have hmem : coin.denom ∈ fees.map FeeCoin.denom := by
      rw [hall.denoms, List.map_append]
      exact List.mem_append_right _ (List.mem_map_of_mem hcoin)
    obtain ⟨fee, hfee, hdenom⟩ := List.mem_map.mp hmem
    have hzero : amountOf fee.denom rest = 0 := by
      have hamount := hall.amounts fee hfee
      rw [h.amounts fee hfee, amountOf_append] at hamount
      omega
    exact ⟨amountOf_eq_zero_iff.mp hzero coin hcoin hdenom.symm, (h.denoms _).mp hmem⟩
  · intro hrest
    refine ⟨h.nodup, fun denom => ?_, fun fee hfee => ?_⟩
    · rw [h.denoms, List.map_append, List.mem_append]
      refine (or_iff_left_of_imp fun hdenom => ?_).symm
      obtain ⟨coin, hcoin, rfl⟩ := List.mem_map.mp hdenom
      exact (hrest coin hcoin).2
    · rw [amountOf_append, amountOf_eq_zero_iff.mpr fun coin hcoin _ => (hrest coin hcoin).1,
        add_zero]
      exact h.amounts fee hfee

-- ---------------------------------------------------------------------------
-- Gas
-- ---------------------------------------------------------------------------

def digitCount (values : List Nat) : Nat := (values.map fun n => (Nat.toDigits 10 n).length).sum

/-- The sum of the values, each shifted by the digits of those after it. -/
def shiftedSum : List Nat → Nat
  | [] => 0
  | n :: values => n * 10 ^ digitCount values + shiftedSum values

def gasValues (gas : List (Option Int)) : List Nat := gas.reduceOption.map Int.toNat

/-- From the first value on, every transaction has a value, and none is negative. -/
def Readable (gas : List (Option Int)) : Prop :=
  ∀ value ∈ gas.dropWhile Option.isNone, ∃ n : Nat, value = some (n : Int)

def gasText : Option Int → String
  | none => "null"
  | some gas => toString gas

theorem isDigit_gasText {value : Option Int} :
    (gasText value).toList.all Char.isDigit = true ↔ ∃ n : Nat, value = some (n : Int) := by
  rcases value with _ | n | n
  · exact iff_of_false (by decide) (by simp)
  · refine iff_of_true ?_ ⟨n, rfl⟩
    rw [List.all_eq_true]
    have hdigits : (gasText (some (Int.ofNat n))).toList = Nat.toDigits 10 n := by
      show (toString n).toList = _
      rw [Nat.toString_eq_ofList_toDigits, String.toList_ofList]
    rw [hdigits]
    exact fun c hc => Nat.isDigit_of_mem_toDigits (by decide) (by decide) hc
  · refine iff_of_false ?_ ?_
    · show ¬ ("-" ++ toString (n + 1)).toList.all Char.isDigit = true
      simp
    · rintro ⟨k, hk⟩
      cases hk

theorem foldl_text (gas : List (Option Int)) (s : String) :
    ∃ t, gas.foldl ScriptSum.add (.text s) = .text t ∧
      t.toList = s.toList ++ gas.flatMap fun value => (gasText value).toList := by
  induction gas generalizing s with
  | nil => exact ⟨s, rfl, by simp⟩
  | cons value gas ih =>
    have hadd : ScriptSum.add (.text s) value = .text (s ++ gasText value) := by
      cases value <;> rfl
    obtain ⟨t, ht, htext⟩ := ih (s ++ gasText value)
    refine ⟨t, ?_, ?_⟩
    · rw [List.foldl_cons, hadd, ht]
    · rw [htext, String.toList_append, List.flatMap_cons, List.append_assoc]

theorem length_digits (values : List Nat) :
    (values.flatMap (Nat.toDigits 10)).length = digitCount values := by
  simp [digitCount, List.length_flatMap]

theorem ofDigitChars_digits (values : List Nat) :
    Nat.ofDigitChars 10 (values.flatMap (Nat.toDigits 10)) 0 = shiftedSum values := by
  induction values with
  | nil => rfl
  | cons n values ih =>
    rw [List.flatMap_cons, Nat.ofDigitChars_append, Nat.ofDigitChars_ten_toDigits,
      Nat.ofDigitChars_eq_ofDigitChars_zero, length_digits, ih, shiftedSum, Nat.mul_comm]

theorem gas_eq_map {gas : List (Option Int)}
    (h : ∀ value ∈ gas, ∃ n : Nat, value = some (n : Int)) :
    gas = (gasValues gas).map fun n : Nat => some (n : Int) := by
  induction gas with
  | nil => rfl
  | cons value gas ih =>
    obtain ⟨⟨n, rfl⟩, hgas⟩ := List.forall_mem_cons.mp h
    have hrest := ih hgas
    simp only [gasValues, List.reduceOption_cons_of_some, List.map_cons, Int.toNat_natCast,
      List.cons.injEq, true_and]
    exact hrest

theorem toNumber_text {gas : List (Option Int)} {t : String}
    (ht : t.toList = '0' :: gas.flatMap fun value => (gasText value).toList) :
    ((∀ value ∈ gas, ∃ k : Nat, value = some (k : Int)) ∧
        ScriptSum.toNumber (.text t) = .ofRat (shiftedSum (gasValues gas))) ∨
      ((¬ ∀ value ∈ gas, ∃ k : Nat, value = some (k : Int)) ∧
        ScriptSum.toNumber (.text t) = .nan) := by
  have hdigits : t.toList.all Char.isDigit = true ↔
      ∀ value ∈ gas, ∃ k : Nat, value = some (k : Int) := by
    simp only [ht, List.all_cons, List.all_flatMap, Bool.and_eq_true, List.all_eq_true (l := gas),
      isDigit_gasText]
    simp
  dsimp only [ScriptSum.toNumber]
  by_cases hall : ∀ value ∈ gas, ∃ k : Nat, value = some (k : Int)
  · have htexts : (gas.flatMap fun value => (gasText value).toList) =
        (gasValues gas).flatMap (Nat.toDigits 10) := by
      conv_lhs => rw [gas_eq_map hall]
      rw [List.flatMap_map]
      refine List.flatMap_congr fun k _ => ?_
      show (toString k).toList = _
      rw [Nat.toString_eq_ofList_toDigits, String.toList_ofList]
    have hvalue : Text.decimal t = shiftedSum (gasValues gas) := by
      rw [Text.decimal, ht, Nat.ofDigitChars_cons, htexts]
      exact ofDigitChars_digits _
    rw [if_pos (hdigits.mpr hall), hvalue]
    exact .inl ⟨hall, rfl⟩
  · rw [if_neg (mt hdigits.mp hall)]
    exact .inr ⟨hall, rfl⟩

/-- The sum is a number when the values are readable, and then it is the number that
their digits form. -/
theorem toNumber_sum (gas : List (Option Int)) :
    (Readable gas ∧ (gas.foldl ScriptSum.add (.number 0)).toNumber =
        .ofRat (shiftedSum (gasValues gas))) ∨
      (¬ Readable gas ∧ (gas.foldl ScriptSum.add (.number 0)).toNumber = .nan) := by
  induction gas with
  | nil => exact .inl ⟨by simp [Readable], rfl⟩
  | cons value gas ih =>
    cases value with
    | none => simpa [ScriptSum.add, Readable, gasValues] using ih
    | some g =>
      obtain ⟨t, ht, htext⟩ := foldl_text gas ("0" ++ toString g)
      have hsum : (some g :: gas).foldl ScriptSum.add (.number 0) = .text t := ht
      have hread : Readable (some g :: gas) ↔
          ∀ value ∈ some g :: gas, ∃ k : Nat, value = some (k : Int) := by
        simp [Readable]
      rw [hsum, hread]
      refine toNumber_text ?_
      rw [htext, String.toList_append, List.flatMap_cons]
      rfl

theorem shiftedSum_eq_sum {values : List Nat} (h : ∀ n ∈ values.dropLast, n = 0) :
    shiftedSum values = values.sum := by
  induction values with
  | nil => rfl
  | cons n values ih =>
    cases values with
    | nil => simp [shiftedSum, digitCount]
    | cons n' values =>
      obtain ⟨rfl, hrest⟩ := List.forall_mem_cons.mp h
      rw [shiftedSum, ih hrest, Nat.zero_mul]
      exact List.sum_cons.symm

theorem sum_le_shiftedSum (values : List Nat) : values.sum ≤ shiftedSum values := by
  induction values with
  | nil => exact le_refl _
  | cons n values ih =>
    have hpow : 1 ≤ 10 ^ digitCount values := Nat.one_le_pow _ _ (by decide)
    rw [shiftedSum, List.sum_cons]
    nlinarith

theorem shiftedSum_lt (values : List Nat) : shiftedSum values < 10 ^ digitCount values := by
  induction values with
  | nil => decide
  | cons n values ih =>
    have hdigits : n < 10 ^ (Nat.toDigits 10 n).length :=
      (Nat.length_toDigits_le_iff (by decide) Nat.length_toDigits_pos).mp (le_refl _)
    have hcount : digitCount (n :: values) =
        (Nat.toDigits 10 n).length + digitCount values := by simp [digitCount]
    rw [shiftedSum, hcount, Nat.pow_add]
    nlinarith

theorem shiftedSum_excess {values : List Nat} {bound : Nat}
    (hbound : ∀ n ∈ values, n ≠ 0 → bound ≤ 9 * n) (h : ¬ ∀ n ∈ values.dropLast, n = 0) :
    values.sum + bound ≤ shiftedSum values ∧ 3 * values.sum ≤ 2 * shiftedSum values := by
  induction values with
  | nil => simp at h
  | cons n values ih =>
    cases values with
    | nil => simp at h
    | cons n' values =>
      obtain ⟨hn, hrest⟩ := List.forall_mem_cons.mp hbound
      rw [shiftedSum, List.sum_cons]
      by_cases hzero : n = 0
      · subst hzero
        have hlater : ¬ ∀ n ∈ (n' :: values).dropLast, n = 0 := by
          intro hall
          exact h (List.forall_mem_cons.mpr ⟨rfl, hall⟩)
        simpa using ih hrest hlater
      · have hsum := sum_le_shiftedSum (n' :: values)
        have hlt := shiftedSum_lt (n' :: values)
        have hten : 10 ≤ 10 ^ digitCount (n' :: values) := by
          refine Nat.le_pow (Nat.pos_iff_ne_zero.mpr ?_)
          simp [digitCount, Nat.toDigits_ne_nil]
        have hle := hn hzero
        have hpos : 1 ≤ n := Nat.one_le_iff_ne_zero.mpr hzero
        generalize 10 ^ digitCount (n' :: values) = power at hlt hten ⊢
        constructor
        · nlinarith
        · nlinarith

-- ---------------------------------------------------------------------------
-- Statistics
-- ---------------------------------------------------------------------------

/-- The gas that transactions used together; a missing value counts as zero. -/
def totalGas (transactions : List StatisticsRow) : Int :=
  (transactions.map fun tx => tx.gasUsed.getD 0).sum

def roundedMean (total : Int) (count : Nat) : Int := ⌊(total : Rat) / count + 1 / 2⌋

/-- The statistics are those of the transactions: sums, the mean rounded to an integer,
and the number nearest to the share of successes. -/
structure ExactStatistics (transactions : List StatisticsRow) (statistics : BlockStatistics) :
    Prop where
  totalFees : ExactFees (transactions.flatMap StatisticsRow.fees) statistics.totalFees
  averageGasPerTx : statistics.averageGasPerTx =
    .finite (roundedMean (totalGas transactions) transactions.length)
  successRate : statistics.successRate =
    .ofRat ((transactions.countP StatisticsRow.success : Rat) / transactions.length)

/-- The transactions after the first 1000 add no fee. -/
def FeesFetched (transactions : List StatisticsRow) : Prop :=
  ∀ coin ∈ (transactions.drop maxTransactions).flatMap StatisticsRow.fees, coin.amount = 0 ∧
    coin.denom ∈ ((transactions.take maxTransactions).flatMap StatisticsRow.fees).map FeeCoin.denom

def fetchedGas (transactions : List StatisticsRow) : List (Option Int) :=
  (transactions.take maxTransactions).map StatisticsRow.gasUsed

/-- The transactions after the first 1000 change no fee, no share and no rounded mean,
and of the gas values that are fetched only the last is not zero, and is exact as a
double. -/
structure Unaffected (transactions : List StatisticsRow) : Prop where
  totalFees : FeesFetched transactions
  readable : Readable (fetchedGas transactions)
  onlyLast : ∀ n ∈ (gasValues (fetchedGas transactions)).dropLast, n = 0
  small : ∀ n ∈ gasValues (fetchedGas transactions), n < 2 ^ 52
  mean : roundedMean (gasValues (fetchedGas transactions)).sum
      (min maxTransactions transactions.length) =
    roundedMean (totalGas transactions) transactions.length
  successRate : (transactions.take maxTransactions).countP StatisticsRow.success *
      transactions.length =
    transactions.countP StatisticsRow.success * min maxTransactions transactions.length

/-- A gas value is zero, or not so small that it is lost in a mean of so many, and exact
as a double. -/
def UsualGas (transactions : List StatisticsRow) : Prop :=
  ∀ tx ∈ transactions, ∀ gas ∈ tx.gasUsed, gas ≠ 0 →
    transactions.length ≤ 9 * gas ∧ gas < 2 ^ 52

theorem ExactFees.of_perm {coins coins' fees : List FeeCoin} (hperm : coins.Perm coins')
    (h : ExactFees coins fees) : ExactFees coins' fees := by
  refine ⟨h.nodup, fun denom => ?_, fun fee hfee => ?_⟩
  · rw [h.denoms, (hperm.map _).mem_iff]
  · rw [h.amounts fee hfee, amountOf_perm hperm]

theorem ExactStatistics.of_perm {transactions transactions' : List StatisticsRow}
    (hperm : transactions.Perm transactions') {statistics : BlockStatistics}
    (h : ExactStatistics transactions statistics) : ExactStatistics transactions' statistics := by
  have hgas : totalGas transactions = totalGas transactions' := (hperm.map _).sum_eq
  refine ⟨h.totalFees.of_perm (hperm.flatMap_right _), ?_, ?_⟩
  · rw [h.averageGasPerTx, hgas, hperm.length_eq]
  · rw [h.successRate, hperm.countP_eq, hperm.length_eq]

def averageOf (gas : List (Option Int)) (count : Nat) : Double :=
  (if 0 < count then (gas.foldl ScriptSum.add (.number 0)).toNumber.div count
    else .finite 0).round

def statisticsOf (transactions : List StatisticsRow) : BlockStatistics :=
  { totalFees := ((transactions.take maxTransactions).flatMap StatisticsRow.fees).foldl addFee []
    averageGasPerTx := averageOf (fetchedGas transactions) (transactions.take maxTransactions).length
    successRate :=
      if 0 < (transactions.take maxTransactions).length then
        (Double.finite ((transactions.take maxTransactions).countP StatisticsRow.success)).div
          (transactions.take maxTransactions).length
      else .finite 0 }

theorem exactFees_statisticsOf (transactions : List StatisticsRow) :
    ExactFees (transactions.flatMap StatisticsRow.fees) (statisticsOf transactions).totalFees ↔
      FeesFetched transactions := by
  have hsplit : transactions.flatMap StatisticsRow.fees =
      (transactions.take maxTransactions).flatMap StatisticsRow.fees ++
        (transactions.drop maxTransactions).flatMap StatisticsRow.fees := by
    rw [← List.flatMap_append, List.take_append_drop]
  rw [hsplit]
  exact exactFees_append_iff (exactFees_foldl _)

section
variable {gas : List (Option Int)} {count : Nat} {transactions : List StatisticsRow}

theorem sum_lt {values : List Nat} {bound : Nat} (h : ∀ n ∈ values.dropLast, n = 0)
    (hsmall : ∀ n ∈ values, n < bound) (hpos : 0 < bound) : values.sum < bound := by
  rcases values.eq_nil_or_concat with rfl | ⟨init, last, rfl⟩
  · exact hpos
  · rw [List.concat_eq_append] at h hsmall ⊢
    rw [List.dropLast_concat] at h
    rw [List.sum_append, List.sum_eq_zero h, List.sum_singleton, Nat.zero_add]
    exact hsmall last (by simp)

theorem averageOf_eq (hread : Readable gas) (hlast : ∀ n ∈ (gasValues gas).dropLast, n = 0)
    (hsmall : ∀ n ∈ gasValues gas, n < 2 ^ 52) (hcount : 0 < count) (hcount' : count ≤ 2 ^ 52) :
    averageOf gas count = .finite (roundedMean (gasValues gas).sum count) := by
  have hnumber : (gas.foldl ScriptSum.add (.number 0)).toNumber = .ofRat (gasValues gas).sum := by
    rcases toNumber_sum gas with ⟨-, hnumber⟩ | ⟨hno, -⟩
    · rw [hnumber, shiftedSum_eq_sum hlast]
    · exact absurd hread hno
  rw [averageOf, if_pos hcount, hnumber, roundedMean, Int.cast_natCast]
  exact Double.round_div_ofRat (sum_lt hlast hsmall (by decide)) hcount hcount'

/-- A value before the last moves the average by more than one. -/
theorem averageOf_ne (hcount : 0 < count) (hcount' : count ≤ maxTransactions)
    (hread : Readable gas) (hbound : ∀ n ∈ gasValues gas, n ≠ 0 → count ≤ 9 * n)
    (hlast : ¬ ∀ n ∈ (gasValues gas).dropLast, n = 0) :
    averageOf gas count ≠ .finite (roundedMean (gasValues gas).sum count) := by
  rw [roundedMean, Int.cast_natCast]
  intro haverage
  obtain ⟨hmore, hratio⟩ := shiftedSum_excess hbound hlast
  have hnumber : (gas.foldl ScriptSum.add (.number 0)).toNumber = .ofRat (shiftedSum (gasValues gas)) :=
    ((toNumber_sum gas).resolve_right fun h => h.1 hread).2
  have hcount52 : count ≤ 2 ^ 52 := hcount'.trans (by decide)
  have hpos : (0 : Rat) < count := by exact_mod_cast hcount
  rw [averageOf, if_pos hcount, hnumber] at haverage
  generalize shiftedSum (gasValues gas) = shifted at haverage hmore hratio
  generalize (gasValues gas).sum = sum at haverage hmore hratio
  rcases Nat.lt_or_ge shifted (2 ^ 52) with hsmall | hlarge
  · rw [Double.round_div_ofRat hsmall hcount hcount52, Double.finite.injEq, Int.cast_inj] at haverage
    have hstep : (sum : Rat) / count + 1 / 2 + 1 ≤ (shifted : Rat) / count + 1 / 2 := by
      have hmore' : (sum : Rat) + count ≤ shifted := by exact_mod_cast hmore
      rw [add_right_comm, add_le_add_iff_right, div_add_one hpos.ne']
      exact div_le_div_of_nonneg_right hmore' hpos.le
    have hfloor := Int.floor_mono hstep
    rw [Int.floor_add_one, haverage] at hfloor
    omega
  · have hshort := Double.lt_of_round_div (by omega) hcount hcount52 haverage
    have hle := Int.floor_le ((sum : Rat) / count + 1 / 2)
    have hshort' : (shifted : Rat) / count * (1 - 1 / 2 ^ 52) < (sum : Rat) / count + 1 := by
      linarith
    rw [div_mul_eq_mul_div, div_add_one hpos.ne', div_lt_div_iff_of_pos_right hpos] at hshort'
    have hcount1000 : (count : Rat) ≤ 1000 := by exact_mod_cast hcount'
    have hratio' : 3 * (sum : Rat) ≤ 2 * shifted := by exact_mod_cast hratio
    have hlarge' : (4503599627370496 : Rat) ≤ shifted := by exact_mod_cast hlarge
    norm_num at hshort'
    linarith

theorem sum_gasValues {gas : List (Option Int)} (h : Readable gas) :
    (gas.map fun value => value.getD 0).sum = ((gasValues gas).sum : Nat) := by
  induction gas with
  | nil => rfl
  | cons value gas ih =>
    cases value with
    | none =>
      rw [List.map_cons, List.sum_cons, ih (by simpa [Readable] using h)]
      simp [gasValues]
    | some g =>
      have hall : ∀ value ∈ some g :: gas, ∃ n : Nat, value = some (n : Int) := by
        simpa [Readable] using h
      conv_lhs => rw [gas_eq_map hall]
      rw [List.map_map, Nat.cast_list_sum]
      rfl

theorem totalGas_eq (h : Readable (transactions.map StatisticsRow.gasUsed)) :
    totalGas transactions = ((gasValues (transactions.map StatisticsRow.gasUsed)).sum : Nat) := by
  rw [← sum_gasValues h, totalGas, List.map_map]
  rfl

theorem rate_eq {a b : Nat} {m n : Nat} (hm : 0 < m) (hn : 0 < n) (h : a * n = b * m) :
    (a : Rat) / m = (b : Rat) / n := by
  have hm' : (m : Rat) ≠ 0 := by exact_mod_cast hm.ne'
  have hn' : (n : Rat) ≠ 0 := by exact_mod_cast hn.ne'
  rw [div_eq_div_iff hm' hn']
  exact_mod_cast h

theorem exactStatistics_of_unaffected (h : Unaffected transactions) :
    ExactStatistics transactions (statisticsOf transactions) := by
  have hlength : (transactions.take maxTransactions).length =
      min maxTransactions transactions.length := List.length_take
  rcases Nat.eq_zero_or_pos transactions.length with hempty | hn
  · obtain rfl := List.eq_nil_of_length_eq_zero hempty
    exact ⟨(exactFees_statisticsOf []).mpr h.totalFees, by simp [statisticsOf, averageOf, totalGas,
      roundedMean, Double.round], by simpa [statisticsOf] using (Double.ofRat_natCast (Nat.zero_le _)).symm⟩
  have hm : 0 < (transactions.take maxTransactions).length := by
    rw [hlength]
    exact lt_min (by decide) hn
  have hm' : (transactions.take maxTransactions).length ≤ 2 ^ 52 :=
    (hlength.trans_le (min_le_left ..)).trans (by decide)
  refine ⟨(exactFees_statisticsOf transactions).mpr h.totalFees, ?_, ?_⟩
  · rw [← h.mean, ← hlength]
    exact averageOf_eq h.readable h.onlyLast h.small hm hm'
  · have hrate := h.successRate
    rw [← hlength] at hrate
    rw [← rate_eq hm hn hrate]
    exact if_pos hm

/-- On a block that is fetched whole and has usual gas values, nothing else is exact. -/
theorem unaffected_of_exactStatistics (hlength : transactions.length ≤ maxTransactions)
    (husual : UsualGas transactions)
    (h : ExactStatistics transactions (statisticsOf transactions)) : Unaffected transactions := by
  have htake : transactions.take maxTransactions = transactions := List.take_of_length_le hlength
  have hfetched : fetchedGas transactions = transactions.map StatisticsRow.gasUsed := by
    rw [fetchedGas, htake]
  have hmin : min maxTransactions transactions.length = transactions.length := min_eq_right hlength
  rcases Nat.eq_zero_or_pos transactions.length with hempty | hn
  · obtain rfl := List.eq_nil_of_length_eq_zero hempty
    exact ⟨(exactFees_statisticsOf []).mp h.totalFees, by simp [fetchedGas, Readable],
      by simp [fetchedGas, gasValues], by simp [fetchedGas, gasValues], rfl, by simp⟩
  have haverage := h.averageGasPerTx
  simp only [statisticsOf, htake, hfetched] at haverage
  have hread : Readable (transactions.map StatisticsRow.gasUsed) := by
    by_contra hno
    have hnan := ((toNumber_sum _).resolve_left fun hyes => hno hyes.1).2
    rw [averageOf, if_pos hn, hnan] at haverage
    cases haverage
  have hvalue : ∀ n ∈ gasValues (transactions.map StatisticsRow.gasUsed), n ≠ 0 →
      transactions.length ≤ 9 * n ∧ n < 2 ^ 52 := by
    intro n hmem hpos
    obtain ⟨g, hg, rfl⟩ := List.mem_map.mp hmem
    obtain ⟨tx, htx, hgas⟩ := List.mem_map.mp (List.reduceOption_mem_iff.mp hg)
    have husual := husual tx htx g hgas (by omega)
    omega
  rw [totalGas_eq hread] at haverage
  refine ⟨(exactFees_statisticsOf transactions).mp h.totalFees, hfetched ▸ hread, ?_, ?_, ?_, ?_⟩
  · rw [hfetched]
    by_contra hlast
    exact averageOf_ne hn hlength hread (fun n hmem hpos => (hvalue n hmem hpos).1) hlast haverage
  · rw [hfetched]
    intro n hmem
    rcases Nat.eq_zero_or_pos n with rfl | hpos
    · decide
    · exact (hvalue n hmem hpos.ne').2
  · rw [hfetched, totalGas_eq hread, hmin]
  · rw [htake, hmin]

end

/-- The statistics of a block are exact when its transactions after the first 1000 do
not matter and no gas value follows a positive one; for the fees, and for a block that
is fetched whole and has usual gas values, only then. -/
theorem getBlockStatistics_exact (order : Unordered StatisticsRow)
    (transaction : Table StatisticsRow.hash) (height : Nat) :
    let block := transaction.rows.filter fun tx => tx.height = height
    let statistics := getBlockStatistics order.run transaction.rows height
    (Unaffected (order.run block) → ExactStatistics block statistics) ∧
    (ExactFees (block.flatMap StatisticsRow.fees) statistics.totalFees ↔
      FeesFetched (order.run block)) ∧
    (block.length ≤ maxTransactions → UsualGas block →
      (ExactStatistics block statistics ↔ Unaffected (order.run block))) := by
  intro block statistics
  have hperm := order.perm block
  have hsame : statistics = statisticsOf (order.run block) := rfl
  refine ⟨fun h => ?_, ?_, fun hlength husual => ⟨fun h => ?_, fun h => ?_⟩⟩
  · exact (exactStatistics_of_unaffected h).of_perm hperm
  · rw [← exactFees_statisticsOf]
    have hcoins := hperm.flatMap_right StatisticsRow.fees
    exact ⟨fun h => h.of_perm hcoins.symm, fun h => h.of_perm hcoins⟩
  · refine unaffected_of_exactStatistics (hperm.length_eq ▸ hlength) ?_ (h.of_perm hperm.symm)
    intro tx hmem
    rw [hperm.length_eq]
    exact husual tx (hperm.mem_iff.mp hmem)
  · exact (exactStatistics_of_unaffected h).of_perm hperm

def Unordered.kept (α : Type) : Unordered α where
  run := id
  perm := fun _ => List.Perm.refl _
  sorted := fun _ => List.pairwise_of_forall fun _ _ => trivial

def gasRow (hash : String) (gas : Int) : StatisticsRow := ⟨hash, 7, true, none, some gas⟩

def twoGasRows : Table StatisticsRow.hash := ⟨[gasRow "a" 100, gasRow "b" 200], by decide⟩

/-- The average is 50100, the half of "0100200". -/
theorem not_exactStatistics : ¬ ExactStatistics (twoGasRows.rows.filter fun tx => tx.height = 7)
    (getBlockStatistics (Unordered.kept StatisticsRow).run twoGasRows.rows 7) := by
  intro h
  have husual : UsualGas twoGasRows.rows := by
    unfold UsualGas
    decide
  have hunaffected := unaffected_of_exactStatistics (by decide) husual h
  exact absurd hunaffected.onlyLast (by decide)

end SafrochainIndexer.Api
