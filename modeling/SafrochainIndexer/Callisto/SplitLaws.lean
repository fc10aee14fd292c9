import SafrochainIndexer.Callisto.Accounts
import Mathlib.Algebra.Order.Ring.Nat

/-!
# When accounts can be split

`SplitAccounts` makes room for a slice per `maxBalancesPerSlice` accounts but
moves on to the next slice after one account less. The two drift apart: for some
lengths the last accounts fall behind the room, and the call panics. Whenever it
does not, the slices are the accounts, in order, and each fits one statement.
-/

namespace SafrochainIndexer.Callisto

/-- The slice that the account at `index` goes to. -/
def sliceAt (perSlice index : Nat) : Nat := (index - 1) / (perSlice - 1)

/-- The slice of the last account is one of those there is room for. -/
def FitsSlices (length paramsNumber : Nat) : Prop :=
  sliceAt (maxPostgreSQLParams / paramsNumber) (length - 1) ≤
    length / (maxPostgreSQLParams / paramsNumber)

instance (length paramsNumber : Nat) : Decidable (FitsSlices length paramsNumber) :=
  inferInstanceAs (Decidable (_ ≤ _))

@[simp] theorem sliceAt_zero (perSlice : Nat) : sliceAt perSlice 0 = 0 := by
  simp [sliceAt]

theorem sliceAt_mono {perSlice i j : Nat} (h : i ≤ j) : sliceAt perSlice i ≤ sliceAt perSlice j :=
  Nat.div_le_div_right (Nat.sub_le_sub_right h 1)

theorem sliceAt_succ {perSlice index : Nat} (h0 : 0 < index) :
    sliceAt perSlice (index + 1) =
      if index % (perSlice - 1) = 0 then sliceAt perSlice index + 1 else sliceAt perSlice index := by
  obtain ⟨i, rfl⟩ : ∃ i, index = i + 1 := ⟨index - 1, by omega⟩
  simp only [sliceAt, Nat.add_sub_cancel, Nat.succ_div, Nat.dvd_iff_mod_eq_zero]
  split <;> simp

theorem sliceAt_succ_cases (perSlice index : Nat) :
    sliceAt perSlice (index + 1) = sliceAt perSlice index ∨
      sliceAt perSlice (index + 1) = sliceAt perSlice index + 1 := by
  by_cases h0 : 0 < index
  · rw [sliceAt_succ h0]
    split
    · exact .inr rfl
    · exact .inl rfl
  · obtain rfl : index = 0 := by omega
    exact .inl (by simp [sliceAt])

-- ---------------------------------------------------------------------------
-- The loop
-- ---------------------------------------------------------------------------

section
variable {σ : Type} {s : σ} {perSlice index : Nat} {slices : List (List Account)}

theorem splitAccountsFrom_cons (h : 2 ≤ perSlice) (hlt : sliceAt perSlice index < slices.length)
    (account : Account) (accounts : List Account) :
    (splitAccountsFrom perSlice index (sliceAt perSlice index) slices (account :: accounts) :
      Eff σ _) =
      splitAccountsFrom perSlice (index + 1) (sliceAt perSlice (index + 1))
        (slices.modify (sliceAt perSlice index) (· ++ [account])) accounts := by
  rw [splitAccountsFrom, if_pos hlt]
  dsimp only
  by_cases h0 : 0 < index
  · have hne : perSlice ≠ 1 := by omega
    rw [if_pos h0, if_neg hne, sliceAt_succ h0]
    split <;> rfl
  · obtain rfl : index = 0 := by omega
    simp [sliceAt]

theorem splitAccountsFrom_panics (hle : slices.length ≤ sliceAt perSlice index)
    (account : Account) (accounts : List Account) :
    (splitAccountsFrom perSlice index (sliceAt perSlice index) slices (account :: accounts) :
      Eff σ _) = Eff.panicking "runtime error: index out of range" := by
  rw [splitAccountsFrom, if_neg (by omega)]

/-- The loop comes to its end if there is room for the last account. -/
theorem splitAccountsFrom_returns_iff (h : 2 ≤ perSlice) (accounts : List Account) :
    (∃ result, Eff.Returns (splitAccountsFrom perSlice index (sliceAt perSlice index) slices
        accounts) s result s) ↔
      (accounts ≠ [] → sliceAt perSlice (index + accounts.length - 1) < slices.length) := by
  induction accounts generalizing index slices with
  | nil => simp [splitAccountsFrom]
  | cons account accounts ih =>
    have hlast : index + (account :: accounts).length - 1 = index + accounts.length := by
      simp only [List.length_cons]
      omega
    have hmono : sliceAt perSlice index ≤ sliceAt perSlice (index + accounts.length) :=
      sliceAt_mono (by omega)
    rw [hlast]
    by_cases hlt : sliceAt perSlice index < slices.length
    · have hnext : index + 1 + accounts.length - 1 = index + accounts.length := by omega
      rw [splitAccountsFrom_cons h hlt, ih, List.length_modify, hnext]
      constructor
      · intro hfits _
        cases accounts with
        | nil => exact hlt
        | cons _ _ => exact hfits (by simp)
      · exact fun hfits _ => hfits (by simp)
    · have hle := Nat.le_of_not_lt hlt
      rw [splitAccountsFrom_panics hle]
      constructor
      · rintro ⟨_, hr⟩
        simp at hr
      · exact fun hfits => absurd (hfits (by simp)) (by omega)

/-- How full the slices are when the account at `index` comes. -/
structure Filling (perSlice index : Nat) (slices : List (List Account)) : Prop where
  bounded : ∀ slice ∈ slices, slice.length ≤ perSlice
  current : ∀ slice, slices[sliceAt perSlice index]? = some slice →
    slice.length + (perSlice - 1) * sliceAt perSlice index ≤ index
  later : ∀ j slice, sliceAt perSlice index < j → slices[j]? = some slice → slice = []

theorem Filling.step (h : 2 ≤ perSlice) (hf : Filling perSlice index slices) (account : Account) :
    Filling perSlice (index + 1)
      (slices.modify (sliceAt perSlice index) (· ++ [account])) := by
  have hpos : 0 < perSlice - 1 := by omega
  have hend : index - 1 < (perSlice - 1) * sliceAt perSlice index + (perSlice - 1) :=
    Nat.lt_mul_div_succ (index - 1) hpos
  have hstart : (perSlice - 1) * sliceAt perSlice (index + 1) ≤ index := Nat.mul_div_le _ _
  refine ⟨?_, ?_, ?_⟩
  · intro slice hs
    obtain ⟨j, hj⟩ := List.mem_iff_getElem?.mp hs
    by_cases hat : sliceAt perSlice index = j
    · rw [← hat, List.getElem?_modify_eq] at hj
      obtain ⟨old, hold, rfl⟩ := Option.map_eq_some_iff.mp hj
      have hle := hf.current old hold
      simp only [List.length_append, List.length_singleton]
      omega
    · rw [List.getElem?_modify_ne _ _ hat] at hj
      exact hf.bounded slice (List.mem_of_getElem? hj)
  · intro slice hs
    rcases sliceAt_succ_cases perSlice index with hnext | hnext
    · rw [hnext, List.getElem?_modify_eq] at hs
      obtain ⟨old, hold, rfl⟩ := Option.map_eq_some_iff.mp hs
      have hle := hf.current old hold
      simp only [List.length_append, List.length_singleton, hnext]
      omega
    · have hne : sliceAt perSlice index ≠ sliceAt perSlice (index + 1) := by omega
      rw [List.getElem?_modify_ne _ _ hne] at hs
      have hnil := hf.later _ slice (by omega) hs
      subst hnil
      simp only [List.length_nil]
      omega
  · intro j slice hj hs
    have hmono : sliceAt perSlice index ≤ sliceAt perSlice (index + 1) := sliceAt_mono (by omega)
    rw [List.getElem?_modify_ne _ _ (by omega)] at hs
    exact hf.later j slice (by omega) hs

theorem splitAccountsFrom_bounded (h : 2 ≤ perSlice) {accounts : List Account}
    {result : List (List Account)} {t : σ} (hf : Filling perSlice index slices)
    (hr : Eff.Returns (splitAccountsFrom perSlice index (sliceAt perSlice index) slices accounts)
      s result t) :
    ∀ slice ∈ result, slice.length ≤ perSlice := by
  induction accounts generalizing index slices with
  | nil =>
    obtain ⟨rfl, -⟩ := Eff.returns_pure.mp hr
    exact hf.bounded
  | cons account accounts ih =>
    by_cases hlt : sliceAt perSlice index < slices.length
    · rw [splitAccountsFrom_cons h hlt] at hr
      exact ih (hf.step h account) hr
    · rw [splitAccountsFrom_panics (by omega)] at hr
      simp at hr

end

theorem Filling.start (perSlice n : Nat) : Filling perSlice 0 (List.replicate n []) := by
  have hnil : ∀ j slice, (List.replicate n ([] : List Account))[j]? = some slice → slice = [] :=
    fun j slice hs => List.eq_of_mem_replicate (List.mem_of_getElem? hs)
  refine ⟨?_, ?_, ?_⟩
  · intro slice hs
    rw [List.eq_of_mem_replicate hs]
    exact Nat.zero_le _
  · intro slice hs
    rw [hnil _ slice hs]
    simp [sliceAt]
  · exact fun j slice _ hs => hnil j slice hs

-- ---------------------------------------------------------------------------
-- The call
-- ---------------------------------------------------------------------------

section
variable {accounts : List Account} {paramsNumber : Nat}

theorem splitAccounts_eq {σ : Type} (h : 1 ≤ paramsNumber)
    (hmax : 2 ≤ maxPostgreSQLParams / paramsNumber) :
    (splitAccounts accounts paramsNumber : Eff σ _) =
      splitAccountsFrom (maxPostgreSQLParams / paramsNumber) 0
        (sliceAt (maxPostgreSQLParams / paramsNumber) 0)
        (List.replicate (accounts.length / (maxPostgreSQLParams / paramsNumber) + 1) [])
        accounts := by
  have hne : ¬(paramsNumber = 0 ∨ maxPostgreSQLParams / paramsNumber = 0) := by omega
  rw [splitAccounts, if_neg hne, sliceAt_zero]

theorem splitAccounts_returns_iff {σ : Type} (s : σ) (h : 1 ≤ paramsNumber)
    (hmax : 2 ≤ maxPostgreSQLParams / paramsNumber) :
    (∃ slices, Eff.Returns (splitAccounts accounts paramsNumber) s slices s) ↔
      FitsSlices accounts.length paramsNumber := by
  rw [splitAccounts_eq h hmax, splitAccountsFrom_returns_iff hmax]
  simp only [List.length_replicate, Nat.zero_add, Nat.lt_succ_iff]
  constructor
  · intro hfits
    cases accounts with
    | nil => simp [FitsSlices]
    | cons _ _ => exact hfits (by simp)
  · exact fun hfits _ => hfits

theorem splitAccounts_fits {σ : Type} {s t : σ} {slices : List (List Account)}
    (h : 1 ≤ paramsNumber) (hmax : 2 ≤ maxPostgreSQLParams / paramsNumber)
    (hr : Eff.Returns (splitAccounts accounts paramsNumber) s slices t) :
    ∀ slice ∈ slices, slice.length * paramsNumber ≤ maxPostgreSQLParams := by
  intro slice hs
  rw [splitAccounts_eq h hmax] at hr
  have hle := splitAccountsFrom_bounded hmax (Filling.start _ _) hr slice hs
  exact (Nat.mul_le_mul_right _ hle).trans (Nat.div_mul_le_self _ _)

end

def Splits (accounts : List Account) (paramsNumber : Nat) : Prop :=
  ∀ s : Db, ∃ slices, Eff.Returns (splitAccounts accounts paramsNumber) s slices s ∧
    slices.flatten = accounts ∧
    ∀ slice ∈ slices, slice.length * paramsNumber ≤ maxPostgreSQLParams

/-- `SaveAccounts` issues statements that Postgres takes, and then every account
is in one row of the table, next to the rows there were. -/
def Saves (accounts : List Account) : Prop :=
  Splits accounts 1 ∧
  ∀ s, ∃ t, Eff.Returns (saveAccounts accounts) s () t ∧
    (∀ address, t.hasAccount address = true ↔
      s.hasAccount address = true ∨ ⟨address⟩ ∈ accounts) ∧
    ∀ account ∈ accounts, (t.account.rows.map AccountRow.address).count account.address = 1

theorem splits_iff {accounts : List Account} {paramsNumber : Nat} (h : 1 ≤ paramsNumber)
    (hmax : 2 ≤ maxPostgreSQLParams / paramsNumber) :
    Splits accounts paramsNumber ↔ FitsSlices accounts.length paramsNumber := by
  constructor
  · intro hsplits
    obtain ⟨slices, hr, -, -⟩ := hsplits default
    exact (splitAccounts_returns_iff default h hmax).mp ⟨slices, hr⟩
  · intro hfits s
    obtain ⟨slices, hr⟩ := (splitAccounts_returns_iff s h hmax).mpr hfits
    exact ⟨slices, hr, splitAccounts_flatten hr, splitAccounts_fits h hmax hr⟩

theorem saves_iff (accounts : List Account) : Saves accounts ↔ FitsSlices accounts.length 1 := by
  have hsplits : Splits accounts 1 ↔ FitsSlices accounts.length 1 :=
    splits_iff (Nat.le_refl 1) (by simp [maxPostgreSQLParams])
  constructor
  · exact fun h => hsplits.mp h.1
  · intro hfits
    refine ⟨hsplits.mpr hfits, fun s => ⟨s.addAccounts accounts, ?_, ?_, ?_⟩⟩
    · obtain ⟨slices, hr, hflat, -⟩ := hsplits.mpr hfits s
      exact Eff.returns_bind.mpr ⟨slices, s, hr, forM_slices_returns.mpr (by rw [hflat])⟩
    · exact hasAccount_addAccounts s accounts
    · intro account ha
      have hhas : (s.addAccounts accounts).hasAccount account.address = true :=
        (hasAccount_addAccounts s accounts account.address).mpr (.inr ha)
      obtain ⟨row, hrow⟩ := Option.isSome_iff_exists.mp hhas
      have hmem := List.mem_map.mpr ⟨row, Table.mem_of_find hrow, Table.find_key hrow⟩
      exact List.count_eq_one_of_mem (s.addAccounts accounts).account.keys_nodup hmem

/-- Accounts are split without loss, and saved, at the lengths at which the last
one has a slice. -/
theorem splitAccounts_partitions (accounts : List Account) (paramsNumber : Nat)
    (h : 1 ≤ paramsNumber) (hmax : 2 ≤ maxPostgreSQLParams / paramsNumber) :
    (Splits accounts paramsNumber ↔ FitsSlices accounts.length paramsNumber) ∧
      (Saves accounts ↔ FitsSlices accounts.length 1) :=
  ⟨splits_iff h hmax, saves_iff accounts⟩

theorem splitAccounts_partitions_two :
    (Splits [⟨"addr1"⟩, ⟨"addr2"⟩] 32767 ↔ FitsSlices 2 32767) ∧
      (Saves [⟨"addr1"⟩, ⟨"addr2"⟩] ↔ FitsSlices 2 1) :=
  splitAccounts_partitions [⟨"addr1"⟩, ⟨"addr2"⟩] 32767 (by decide) (by decide)

/-- The shortest list of accounts that `SaveAccounts` panics on. -/
theorem splitAccounts_out_of_range :
    let accounts := (List.range 196604).map fun i => (⟨toString i⟩ : Account)
    ¬Splits accounts 1 ∧ ¬Saves accounts := by
  intro accounts
  have hlength : accounts.length = 196604 := by simp [accounts]
  have hnot : ¬FitsSlices accounts.length 1 := by
    rw [hlength]
    decide
  exact ⟨fun h => hnot ((splits_iff (by decide) (by decide)).mp h),
    fun h => hnot ((saves_iff accounts).mp h)⟩

end SafrochainIndexer.Callisto
