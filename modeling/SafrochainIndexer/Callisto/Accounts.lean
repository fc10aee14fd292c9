import SafrochainIndexer.Callisto.Database

/-!
# Saving accounts

`SplitAccounts` cuts a list of accounts into slices that fit one statement, and
`SaveAccounts` inserts slice by slice. Whatever else a caller stores afterwards
may then reference these accounts.
-/

namespace SafrochainIndexer.Callisto

structure Account where
  address : String
  deriving DecidableEq, Repr

def maxPostgreSQLParams : Nat := 65535

/-- The loop of `SplitAccounts`. -/
def splitAccountsFrom {σ : Type} (maxBalancesPerSlice : Nat) :
    Nat → Nat → List (List Account) → List Account → Eff σ (List (List Account))
  | _, _, slices, [] => pure slices
  | index, sliceIndex, slices, account :: accounts =>
    if sliceIndex < slices.length then
      let slices := slices.modify sliceIndex (· ++ [account])
      if 0 < index then
        if maxBalancesPerSlice = 1 then Eff.panicking "runtime error: integer divide by zero"
        else if index % (maxBalancesPerSlice - 1) = 0 then
          splitAccountsFrom maxBalancesPerSlice (index + 1) (sliceIndex + 1) slices accounts
        else splitAccountsFrom maxBalancesPerSlice (index + 1) sliceIndex slices accounts
      else splitAccountsFrom maxBalancesPerSlice (index + 1) sliceIndex slices accounts
    else Eff.panicking "runtime error: index out of range"

def splitAccounts {σ : Type} (accounts : List Account) (paramsNumber : Nat) :
    Eff σ (List (List Account)) :=
  let maxBalancesPerSlice := maxPostgreSQLParams / paramsNumber
  if paramsNumber = 0 ∨ maxBalancesPerSlice = 0 then
    Eff.panicking "runtime error: integer divide by zero"
  else
    splitAccountsFrom maxBalancesPerSlice 0 0
      (List.replicate (accounts.length / maxBalancesPerSlice + 1) []) accounts

/-- `saveAccounts` of the source: the insert of one slice. -/
def saveAccountsSlice (accounts : List Account) : Eff Db Unit :=
  if accounts.length = 0 then pure ()
  else
    Eff.wrap "error while storing accounts: "
      (accountTable.insertNew (fun _ _ => false) (accounts.map fun a => ⟨a.address⟩))

def saveAccounts (accounts : List Account) : Eff Db Unit := do
  let paramsNumber := 1
  let slices ← splitAccounts accounts paramsNumber
  slices.forM fun accounts =>
    if accounts.length = 0 then pure ()
    else Eff.wrap "error while storing accounts: " (saveAccountsSlice accounts)

-- ---------------------------------------------------------------------------
-- Slices
-- ---------------------------------------------------------------------------

theorem splitAccountsFrom_fixes {σ β : Type} {f : σ → β} (perSlice index sliceIndex : Nat)
    (slices : List (List Account)) (accounts : List Account) :
    Eff.Fixes f (splitAccountsFrom perSlice index sliceIndex slices accounts) := by
  induction accounts generalizing index sliceIndex slices with
  | nil => exact .pure
  | cons account accounts ih =>
    unfold splitAccountsFrom
    split
    · dsimp only
      split
      · split
        · exact .panicking
        · split
          · exact ih _ _ _
          · exact ih _ _ _
      · exact ih _ _ _
    · exact .panicking

theorem splitAccounts_fixes {σ β : Type} {f : σ → β} (accounts : List Account)
    (paramsNumber : Nat) : Eff.Fixes f (splitAccounts accounts paramsNumber) := by
  unfold splitAccounts
  dsimp only
  split
  · exact .panicking
  · exact splitAccountsFrom_fixes _ _ _ _ _

theorem flatten_modify {α : Type} {slices : List (List α)} {i : Nat} (a : α)
    (hi : i < slices.length) (he : (slices.drop (i + 1)).flatten = []) :
    (slices.modify i (· ++ [a])).flatten = slices.flatten ++ [a] := by
  induction slices generalizing i with
  | nil => simp at hi
  | cons slice slices ih =>
    cases i with
    | zero =>
      have he' : slices.flatten = [] := by simpa using he
      simp [he']
    | succ i => simp [ih (by simpa using hi) (by simpa using he)]

theorem splitAccountsFrom_flatten {σ : Type} {s t : σ} {perSlice index sliceIndex : Nat}
    {slices result : List (List Account)} {accounts : List Account}
    (he : (slices.drop (sliceIndex + 1)).flatten = [])
    (h : Eff.Returns (splitAccountsFrom perSlice index sliceIndex slices accounts) s result t) :
    result.flatten = slices.flatten ++ accounts := by
  induction accounts generalizing index sliceIndex slices with
  | nil =>
    obtain ⟨rfl, -⟩ := Eff.returns_pure.mp h
    simp
  | cons account accounts ih =>
    unfold splitAccountsFrom at h
    split at h
    · rename_i hlt
      have hmid := flatten_modify account hlt he
      have hrest : ((slices.modify sliceIndex (· ++ [account])).drop (sliceIndex + 1)).flatten =
          [] := by
        rw [List.drop_modify_of_lt _ _ _ _ (by omega)]
        exact he
      have hnext : ((slices.modify sliceIndex (· ++ [account])).drop (sliceIndex + 2)).flatten =
          [] := by
        rw [List.flatten_eq_nil_iff] at hrest ⊢
        intro slice hs
        have hdrop : slice ∈ ((slices.modify sliceIndex (· ++ [account])).drop (sliceIndex + 1)).drop 1 := by
          simpa [List.drop_drop] using hs
        exact hrest slice (List.mem_of_mem_drop hdrop)
      dsimp only at h
      split at h
      · split at h
        · simp at h
        · split at h
          · simpa [hmid] using ih hnext h
          · simpa [hmid] using ih hrest h
      · simpa [hmid] using ih hrest h
    · simp at h

theorem splitAccounts_flatten {σ : Type} {s t : σ} {accounts : List Account} {paramsNumber : Nat}
    {slices : List (List Account)} (h : Eff.Returns (splitAccounts accounts paramsNumber) s slices t) :
    slices.flatten = accounts := by
  unfold splitAccounts at h
  dsimp only at h
  split at h
  · simp at h
  · have hf := splitAccountsFrom_flatten (by simp [List.drop_replicate]) h
    simpa using hf

theorem splitAccountsFrom_short {σ : Type} {s : σ} {index : Nat} {slice accounts : List Account}
    (h : index + accounts.length < maxPostgreSQLParams) :
    Eff.Returns (splitAccountsFrom maxPostgreSQLParams index 0 [slice] accounts) s
      [slice ++ accounts] s := by
  induction accounts generalizing index slice with
  | nil => simp [splitAccountsFrom]
  | cons account accounts ih =>
    have hih : Eff.Returns
        (splitAccountsFrom maxPostgreSQLParams (index + 1) 0 [slice ++ [account]] accounts) s
        [slice ++ [account] ++ accounts] s :=
      ih (by simp only [List.length_cons] at h; omega)
    simp only [List.append_assoc, List.singleton_append] at hih
    have hmod : 0 < index → index % 65534 ≠ 0 := by
      intro h0
      simp only [List.length_cons, maxPostgreSQLParams] at h
      omega
    by_cases h0 : 0 < index
    · simpa [splitAccountsFrom, h0, hmod h0, maxPostgreSQLParams] using hih
    · simpa [splitAccountsFrom, h0] using hih

theorem splitAccounts_short {σ : Type} {s : σ} {accounts : List Account}
    (h : accounts.length < maxPostgreSQLParams) :
    Eff.Returns (splitAccounts accounts 1) s [accounts] s := by
  have hdiv : accounts.length / 65535 = 0 := Nat.div_eq_of_lt h
  have hs : Eff.Returns (splitAccountsFrom maxPostgreSQLParams 0 0 [[]] accounts) s
      [[] ++ accounts] s :=
    splitAccountsFrom_short (by simpa using h)
  simpa [splitAccounts, hdiv, maxPostgreSQLParams] using hs

-- ---------------------------------------------------------------------------
-- Accounts
-- ---------------------------------------------------------------------------

def Db.addAccounts (s : Db) (accounts : List Account) : Db :=
  { s with account := accounts.foldl (fun t a => t.insertNew (fun _ _ => false) ⟨a.address⟩) s.account }

theorem saveAccounts_fixes {β : Type} {f : Db → β} (accounts : List Account)
    (hf : ∀ u s, f (accountTable.write u s) = f s) : Eff.Fixes f (saveAccounts accounts) := by
  refine .bind (splitAccounts_fixes accounts 1) fun slices => .forM fun slice _ => ?_
  split
  · exact .pure
  · refine .wrap ?_
    unfold saveAccountsSlice
    split
    · exact .pure
    · exact .wrap (Relation.insertNew_fixes hf)

theorem saveAccountsSlice_returns {accounts : List Account} {s t : Db} :
    Eff.Returns (saveAccountsSlice accounts) s () t ↔ s.addAccounts accounts = t := by
  unfold saveAccountsSlice
  split
  · rename_i h
    have hnil := List.length_eq_zero_iff.mp h
    subst hnil
    simp [Db.addAccounts]
  · simp [Db.addAccounts, accountTable, List.foldl_map]

theorem addAccounts_append (s : Db) (as bs : List Account) :
    (s.addAccounts as).addAccounts bs = s.addAccounts (as ++ bs) := by
  simp [Db.addAccounts, List.foldl_append]

theorem forM_slices_returns {slices : List (List Account)} {s t : Db} :
    Eff.Returns (slices.forM fun accounts =>
      if accounts.length = 0 then pure ()
      else Eff.wrap "error while storing accounts: " (saveAccountsSlice accounts)) s () t ↔
      s.addAccounts slices.flatten = t := by
  induction slices generalizing s with
  | nil => simp [Db.addAccounts]
  | cons slice slices ih =>
    have hslice : ∀ u, Eff.Returns (if slice.length = 0 then pure ()
        else Eff.wrap "error while storing accounts: " (saveAccountsSlice slice)) s () u ↔
        s.addAccounts slice = u := by
      intro u
      split
      · rename_i h
        have hnil := List.length_eq_zero_iff.mp h
        subst hnil
        simp [Db.addAccounts]
      · simp [saveAccountsSlice_returns]
    simp only [Eff.returns_forM_cons, hslice, ih, List.flatten_cons]
    constructor
    · rintro ⟨u, rfl, rfl⟩
      exact (addAccounts_append ..).symm
    · rintro rfl
      exact ⟨_, rfl, addAccounts_append ..⟩

theorem saveAccounts_returns {accounts : List Account} {s t : Db}
    (h : Eff.Returns (saveAccounts accounts) s () t) : t = s.addAccounts accounts := by
  obtain ⟨slices, u, hs, hu⟩ := Eff.returns_bind.mp h
  have hsame := (splitAccounts_fixes (f := id) accounts 1).of_returns hs
  rw [← forM_slices_returns.mp hu, splitAccounts_flatten hs]
  exact congrArg (Db.addAccounts · accounts) hsame

theorem saveAccounts_short (s : Db) {accounts : List Account}
    (h : accounts.length < maxPostgreSQLParams) :
    Eff.Returns (saveAccounts accounts) s () (s.addAccounts accounts) :=
  Eff.returns_bind.mpr ⟨_, _, splitAccounts_short h, forM_slices_returns.mpr (by simp)⟩

theorem hasAccount_addAccounts (s : Db) (accounts : List Account) (address : String) :
    (s.addAccounts accounts).hasAccount address = true ↔
      s.hasAccount address = true ∨ ⟨address⟩ ∈ accounts := by
  induction accounts generalizing s with
  | nil => simp [Db.addAccounts]
  | cons a accounts ih =>
    obtain ⟨name⟩ := a
    have hstep : (s.addAccounts [⟨name⟩]).hasAccount address = true ↔
        s.hasAccount address = true ∨ address = name := by
      simp only [Db.addAccounts, Db.hasAccount, List.foldl_cons, List.foldl_nil,
        Table.insertNew_no_clash, Table.find_upsert]
      split
      · simp [*]
      · rename_i h
        simp [show address ≠ name from h]
    have hcons : s.addAccounts (⟨name⟩ :: accounts) = (s.addAccounts [⟨name⟩]).addAccounts accounts :=
      rfl
    rw [hcons, ih, hstep, or_assoc]
    simp

theorem saveAccounts_insert {ρ κ τ : Type} [DecidableEq κ] [LinearOrder τ] {key : ρ → κ}
    {R : Relation Db key} {c : Conflict key} {stamp : ρ → τ} (hc : c.Guards stamp) {s : Db}
    {accounts : List Account} {row : ρ} (hshort : accounts.length < maxPostgreSQLParams)
    (hrow : R.violation (s.addAccounts accounts) row = none) (context context' : String) :
    Eff.Returns (do
        Eff.wrap context (saveAccounts accounts)
        Eff.wrap context' (R.insert c [row])) s ()
      (R.write ((R.read (s.addAccounts accounts)).upsert c row) (s.addAccounts accounts)) := by
  have haccounts := saveAccounts_short s hshort
  have hinsert : Eff.Returns (R.insert c [row]) (s.addAccounts accounts) () _ :=
    hc.insert_ok (List.nodup_singleton _) fun r hr => by
      obtain rfl := List.mem_singleton.mp hr
      exact hrow
  exact Eff.returns_bind.mpr
    ⟨(), _, Eff.returns_wrap.mpr haccounts, Eff.returns_wrap.mpr hinsert⟩

end SafrochainIndexer.Callisto
