import SafrochainIndexer.Callisto.Vesting
import SafrochainIndexer.Lib.Lockstep

/-!
# The last vesting account of an address

Over any run of the two functions that store vesting accounts, the rows of an
address are those of the account that was last saved there, if no call changes
the type of a stored row by the clause that does not set it, leaves periods
behind, or fails after it has written (`last_vesting_account_iff`).
-/

namespace SafrochainIndexer.Callisto

-- ---------------------------------------------------------------------------
-- Writes one after the other
-- ---------------------------------------------------------------------------

namespace Write

def after (held : Option Holding) (own : List Write) : Option Holding :=
  own.foldl (fun held w => some (w.apply held)) held

theorem foldl_act (writes : List Write) (held : String → Option Holding) (address : String) :
    writes.foldl act held address =
      after (held address) (writes.filter fun w => w.account.address = address) := by
  induction writes generalizing held with
  | nil => rfl
  | cons w writes ih =>
    rw [List.foldl_cons, ih]
    by_cases he : w.account.address = address
    · simp [after, act, he]
    · simp [act, he, Ne.symm he]

/-- The type that a row has as long as no write sets it. -/
def firstType (held : Option Holding) (own : List Write) : Option String :=
  (held.map fun h => h.account.type).or (own.head?.map fun w => w.account.type)

def lastPeriods (held : Option Holding) (own : List Write) : List VestingPeriod :=
  ((own.filterMap Write.periods).getLast?).getD ((held.map Holding.periods).getD [])

theorem after_type (held : Option Holding) {own : List Write}
    (h : ∀ w ∈ own, w.setsType = false) :
    (after held own).map (fun h => h.account.type) = firstType held own := by
  induction own generalizing held with
  | nil => cases held <;> rfl
  | cons w own ih =>
    obtain ⟨hw, hown⟩ := List.forall_mem_cons.mp h
    refine (ih (some (w.apply held)) hown).trans ?_
    cases held <;> simp [firstType, apply, hw]

theorem after_periods {held : Option Holding} {own : List Write} :
    ∀ h ∈ after held own, h.periods = lastPeriods held own := by
  induction own generalizing held with
  | nil =>
    intro h hh
    obtain rfl : held = some h := hh
    rfl
  | cons w own ih =>
    intro h hh
    refine (@ih (some (w.apply held)) h hh).trans ?_
    cases hp : w.periods with
    | none => cases held <;> simp [lastPeriods, apply, hp]
    | some periods => cases held <;> simp [lastPeriods, apply, hp, List.getLast?_cons]

theorem after_account (held : Option Holding) {own : List Write} {last : Write}
    (hlast : own.getLast? = some last) : ∃ h ∈ after held own,
      h.account = { last.account with type := h.account.type } ∧
      (last.setsType = true → h.account.type = last.account.type) := by
  obtain ⟨init, rfl⟩ := List.getLast?_eq_some_iff.mp hlast
  refine ⟨last.apply (after held init), by simp [after], ?_⟩
  cases after held init with
  | none => exact ⟨rfl, fun _ => rfl⟩
  | some h => exact ⟨rfl, fun hsets => by simp [apply, hsets]⟩

end Write

/-- The last write replaces everything there was at its address. -/
def Replaces (held : Option Holding) (own : List Write) (last : Write) : Prop :=
  (last.setsType = true ∨ ∀ type ∈ Write.firstType held own, type = last.account.type) ∧
  (last.periods.isSome = true ∨
    (∀ w ∈ own, w.periods = none) ∧ ∀ h ∈ held, h.periods = [])

def Restores (held : Option Holding) (own : List Write) (last : Write) : Prop :=
  ∃ h ∈ held, { last.account with type := h.account.type } = h.account ∧
    ∀ periods ∈ (own.filterMap Write.periods).getLast?, periods = h.periods

section
variable {held : Option Holding} {own : List Write} {last : Write}

theorem lastPeriods_eq_iff (hlast : own.getLast? = some last)
    (hne : ∀ w ∈ own, ∀ periods ∈ w.periods, periods ≠ []) :
    Write.lastPeriods held own = last.periods.getD [] ↔
      last.periods.isSome = true ∨
        (∀ w ∈ own, w.periods = none) ∧ ∀ h ∈ held, h.periods = [] := by
  unfold Write.lastPeriods
  cases hp : last.periods with
  | some periods =>
    obtain ⟨init, rfl⟩ := List.getLast?_eq_some_iff.mp hlast
    simp [hp]
  | none =>
    cases hwritten : (own.filterMap Write.periods).getLast? with
    | none =>
      have hnone : ∀ w ∈ own, w.periods = none := by
        simpa using List.getLast?_eq_none_iff.mp hwritten
      cases held with
      | none => simpa using hnone
      | some h => simpa using fun _ => hnone
    | some periods =>
      obtain ⟨w, hw, hperiods⟩ := List.mem_filterMap.mp (List.mem_of_getLast? hwritten)
      have hsome : ¬ ∀ w ∈ own, w.periods = none := by
        intro hall
        rw [hall w hw] at hperiods
        cases hperiods
      simp [hne w hw periods hperiods, hsome]

/-- Accepted writes leave the last one, as if nothing had been there before. -/
theorem after_eq_last_iff (held : Option Holding) (hlast : own.getLast? = some last)
    (hne : ∀ w ∈ own, ∀ periods ∈ w.periods, periods ≠ [])
    (htype : (∀ w ∈ own, w.setsType = false) ∨ last.setsType = true) :
    Write.after held own = some ⟨last.account, last.periods.getD []⟩ ↔ Replaces held own last := by
  obtain ⟨h, hafter, haccount, hsets⟩ := Write.after_account held hlast
  have hperiods : h.periods = Write.lastPeriods held own := Write.after_periods h hafter
  have htypes : h.account.type = last.account.type ↔
      (last.setsType = true ∨ ∀ type ∈ Write.firstType held own, type = last.account.type) := by
    obtain hkeeps | hlastSets := htype
    · have hfirst := Write.after_type held hkeeps
      rw [hafter] at hfirst
      have hmem := hkeeps last (List.mem_of_getLast? hlast)
      simp [← hfirst, hmem]
    · simp [hlastSets, hsets hlastSets]
  have hsame : h.account = last.account ↔ h.account.type = last.account.type := by
    constructor
    · exact fun he => congrArg VestingAccount.type he
    · intro he
      rw [haccount, he]
  rw [Replaces, ← htypes, ← lastPeriods_eq_iff hlast hne, ← hperiods, hafter, Option.some.injEq,
    ← hsame]
  obtain ⟨account, periods⟩ := h
  exact Holding.mk.injEq .. ▸ Iff.rfl

theorem after_eq_held_iff (held : Option Holding) (hlast : own.getLast? = some last)
    (hkeeps : ∀ w ∈ own, w.setsType = false) :
    Write.after held own = held ↔ Restores held own last := by
  obtain ⟨h, hafter, haccount, -⟩ := Write.after_account held hlast
  have hperiods : h.periods = Write.lastPeriods held own := Write.after_periods h hafter
  have hfirst := Write.after_type held hkeeps
  rw [hafter] at hfirst
  cases held with
  | none => simp [Restores, Option.mem_def.mp hafter]
  | some stored =>
    have htype : h.account.type = stored.account.type := by
      simpa [Write.firstType] using hfirst
    have hstored : { last.account with type := stored.account.type } = h.account := by
      rw [haccount, htype]
    have hlastPeriods : h.periods = stored.periods ↔
        ∀ periods ∈ (own.filterMap Write.periods).getLast?, periods = stored.periods := by
      rw [hperiods, Write.lastPeriods]
      cases (own.filterMap Write.periods).getLast? <;> simp
    have hboth : Restores (some stored) own last ↔
        h.account = stored.account ∧ h.periods = stored.periods := by
      simp [Restores, hstored, hlastPeriods]
    rw [hboth, Option.mem_def.mp hafter, Option.some.injEq]
    obtain ⟨account, periods⟩ := h
    exact Holding.mk.injEq .. ▸ Iff.rfl

end

-- ---------------------------------------------------------------------------
-- Calls
-- ---------------------------------------------------------------------------

inductive VestingCall
  | save (vestingAccounts : List ExportedVestingAccount)
  | fromMsg (bva : BaseVestingAccount) (txTimestamp : Int)
  deriving DecidableEq, Repr

/-- What the account should leave at its address; `none` if its kind is not saved. -/
def ExportedVestingAccount.asked : ExportedVestingAccount → Option Holding
  | .permanentLocked _ => none
  | .periodic base startTime vestingPeriods =>
    some ⟨((ExportedVestingAccount.periodic base startTime vestingPeriods).row 0).shown,
      shownPeriods vestingPeriods⟩
  | account => some ⟨(account.row 0).shown, []⟩

namespace VestingCall

def run : VestingCall → Eff Db Unit
  | .save vestingAccounts => saveVestingAccounts vestingAccounts
  | .fromMsg bva txTimestamp => storeBaseVestingAccountFromMsg bva txTimestamp

/-- All times fit a `TIMESTAMP`, and every periodic account has periods, though
not too many. -/
def accepted : VestingCall → Bool
  | .save vestingAccounts => vestingAccounts.all ExportedVestingAccount.accepted
  | .fromMsg bva txTimestamp => bva.timesFit txTimestamp

def asked : VestingCall → List Holding
  | .save vestingAccounts => vestingAccounts.filterMap ExportedVestingAccount.asked
  | .fromMsg bva txTimestamp => [⟨(bva.row 0 txTimestamp).shown, []⟩]

def askedAt (call : VestingCall) (address : String) : Option Holding :=
  (call.asked.filter fun holding => holding.account.address = address).getLast?

/-- What the call writes before it returns, also if it returns an error. -/
def writes : VestingCall → List Write
  | .save vestingAccounts =>
    (rounds ExportedVestingAccount.accepted vestingAccounts).flatMap ExportedVestingAccount.writes
  | .fromMsg bva txTimestamp =>
    if bva.timesFit txTimestamp then [⟨(bva.row 0 txTimestamp).shown, true, none⟩] else []

def writesAt (call : VestingCall) (address : String) : List Write :=
  call.writes.filter fun w => w.account.address = address

theorem run_does (call : VestingCall) : Does call.run call.accepted call.writes := by
  cases call with
  | save vestingAccounts =>
    have hloop := Does.forM saveVestingAccount_does vestingAccounts
    cases vestingAccounts with
    | nil => exact .of_pure
    | cons account vestingAccounts => exact hloop
  | fromMsg bva txTimestamp => exact storeBaseVestingAccountFromMsg_does bva txTimestamp

end VestingCall

theorem ExportedVestingAccount.writes_keep (account : ExportedVestingAccount) :
    ∀ w ∈ account.writes, w.setsType = false := by
  cases account with
  | permanentLocked base => simp [writes]
  | _ =>
    simp only [writes]
    split <;> simp [write]

theorem periodsFit_ne_nil {vestingPeriods : List Period} (h : periodsFit vestingPeriods = true) :
    shownPeriods vestingPeriods ≠ [] := by
  cases vestingPeriods with
  | nil => simp [periodsFit] at h
  | cons period vestingPeriods => simp [shownPeriods, periodRows, List.zipIdx_cons]

theorem ExportedVestingAccount.writes_of_accepted {account : ExportedVestingAccount}
    (h : account.accepted = true) :
    account.writes.map (fun w => ⟨w.account, w.periods.getD []⟩) = account.asked.toList ∧
      ∀ w ∈ account.writes, ∀ periods ∈ w.periods, periods ≠ [] := by
  cases account with
  | permanentLocked base => exact ⟨rfl, by simp [writes]⟩
  | periodic base startTime vestingPeriods =>
    obtain ⟨hfit, hperiods⟩ := Bool.and_eq_true_iff.mp h
    have hwrites : writes (.periodic base startTime vestingPeriods) =
        [write (.periodic base startTime vestingPeriods)] := if_pos hfit
    have hwritten : writtenPeriods vestingPeriods = shownPeriods vestingPeriods := if_pos hperiods
    rw [hwrites]
    simp [write, asked, periodsWritten, hwritten, periodsFit_ne_nil hperiods]
  | continuous base startTime =>
    have hfit : timesFit (.continuous base startTime) = true := h
    simp [writes, hfit, write, asked, periodsWritten]
  | delayed base =>
    have hfit : timesFit (.delayed base) = true := h
    simp [writes, hfit, write, asked, periodsWritten]

theorem rounds_of_all {α : Type} {accepted : α → Bool} {as : List α} (h : as.all accepted = true) :
    rounds accepted as = as := by
  induction as with
  | nil => rfl
  | cons a as ih =>
    obtain ⟨ha, has⟩ := by simpa using h
    simp [rounds, ha, ih (by simpa using has)]

namespace VestingCall

variable {call : VestingCall}

theorem writes_of_accepted (h : call.accepted = true) :
    call.writes.map (fun w => ⟨w.account, w.periods.getD []⟩) = call.asked ∧
      ∀ w ∈ call.writes, ∀ periods ∈ w.periods, periods ≠ [] := by
  cases call with
  | save vestingAccounts =>
    have hall : ∀ account ∈ vestingAccounts, account.accepted = true := by simpa [accepted] using h
    have hrounds : rounds ExportedVestingAccount.accepted vestingAccounts = vestingAccounts :=
      rounds_of_all h
    simp only [writes, asked, hrounds]
    constructor
    · rw [List.map_flatMap, List.filterMap_eq_flatMap_toList]
      exact List.flatMap_congr fun account hm =>
        (ExportedVestingAccount.writes_of_accepted (hall account hm)).1
    · intro w hw
      obtain ⟨account, hm, hw⟩ := List.mem_flatMap.mp hw
      exact (ExportedVestingAccount.writes_of_accepted (hall account hm)).2 w hw
  | fromMsg bva txTimestamp =>
    have hfit : bva.timesFit txTimestamp = true := h
    simp [writes, asked, hfit]

/-- The two clauses do not meet in one call. -/
theorem writesAt_types (call : VestingCall) {address : String} {last : Write}
    (hlast : (call.writesAt address).getLast? = some last) :
    (∀ w ∈ call.writesAt address, w.setsType = false) ∨
      last.setsType = true ∧ call.accepted = true := by
  cases call with
  | save vestingAccounts =>
    refine .inl fun w hw => ?_
    obtain ⟨account, -, hw⟩ := List.mem_flatMap.mp (List.mem_filter.mp hw).1
    exact account.writes_keep w hw
  | fromMsg bva txTimestamp =>
    refine .inr ?_
    have hmem := (List.mem_filter.mp (List.mem_of_getLast? hlast)).1
    simp only [writes] at hmem
    split at hmem
    · rename_i hfit
      rw [List.mem_singleton.mp hmem]
      exact ⟨rfl, hfit⟩
    · cases hmem

theorem askedAt_of_accepted (h : call.accepted = true) (address : String) :
    call.askedAt address =
      (call.writesAt address).getLast?.map fun w => ⟨w.account, w.periods.getD []⟩ := by
  rw [askedAt, writesAt, ← (writes_of_accepted h).1, List.filter_map, List.getLast?_map]
  rfl

end VestingCall

-- ---------------------------------------------------------------------------
-- Runs
-- ---------------------------------------------------------------------------

/-- The database, and what was last saved at each address. -/
structure SavedVesting where
  db : Db
  last : String → Option Holding

/-- A call that returns an error saves nothing. -/
def SavedVesting.step (h : SavedVesting) (call : VestingCall) : SavedVesting :=
  match Eff.exec call.run h.db with
  | (.ok _, t) => ⟨t, fun address => (call.askedAt address).or (h.last address)⟩
  | (.error _, t) => ⟨t, h.last⟩

/-- The rows of every address are those of the last account saved there. -/
def SavedVesting.Exact (h : SavedVesting) : Prop :=
  ∀ address, holdings h.db address = h.last address

/-- At every address the call replaces all there is, or leaves all as it is if
it is not accepted. -/
def VestingCall.Keeps (s : Db) (call : VestingCall) : Prop :=
  ∀ address, ∀ last ∈ (call.writesAt address).getLast?,
    if call.accepted then Replaces (holdings s address) (call.writesAt address) last
    else Restores (holdings s address) (call.writesAt address) last

def LastAccountsThroughout (s : Db) (calls : List VestingCall) : Prop :=
  Lockstep.Throughout SavedVesting.step (fun _ _ => ()) (fun h _ => h.Exact) ⟨s, holdings s⟩ () calls

def CallsKeep (s : Db) (calls : List VestingCall) : Prop :=
  Lockstep.Each SavedVesting.step (fun _ _ => ()) (fun h _ call => call.Keeps h.db)
    ⟨s, holdings s⟩ () calls

section
variable {h : SavedVesting}

theorem step_spec (hk : VestingKeys h.db) (call : VestingCall) :
    VestingKeys (h.step call).db ∧
      (∀ address, holdings (h.step call).db address =
        Write.after (holdings h.db address) (call.writesAt address)) ∧
      (h.step call).last = if call.accepted then
        fun address => (call.askedAt address).or (h.last address) else h.last := by
  obtain ⟨t, hrun, hkeys, hheld⟩ := call.run_does h.db hk
  have hdb : (h.step call).db = t ∧ (h.step call).last = if call.accepted then
      fun address => (call.askedAt address).or (h.last address) else h.last := by
    cases ha : call.accepted with
    | true =>
      rw [ha] at hrun
      have hreturns : Eff.exec call.run h.db = (.ok (), t) := hrun
      simp [SavedVesting.step, hreturns]
    | false =>
      rw [ha] at hrun
      obtain ⟨fault, hfails⟩ : Eff.Fails call.run h.db t := hrun
      simp [SavedVesting.step, hfails]
  obtain ⟨rfl, hlast⟩ := hdb
  refine ⟨hkeys, fun address => ?_, hlast⟩
  rw [hheld, Write.foldl_act]
  rfl

theorem exact_step_iff (hk : VestingKeys h.db) (hx : h.Exact) (call : VestingCall) :
    (h.step call).Exact ↔ call.Keeps h.db := by
  obtain ⟨-, hheld, hlast⟩ := step_spec hk call
  refine forall_congr' fun address => ?_
  rw [hheld, hlast]
  cases hown : (call.writesAt address).getLast? with
  | none =>
    have hnil : call.writesAt address = [] := List.getLast?_eq_none_iff.mp hown
    cases ha : call.accepted with
    | true => simp [hnil, Write.after, hx address, VestingCall.askedAt_of_accepted ha]
    | false => simp [hnil, Write.after, hx address]
  | some last =>
    have htypes := call.writesAt_types hown
    cases ha : call.accepted with
    | true =>
      have hne : ∀ w ∈ call.writesAt address, ∀ periods ∈ w.periods, periods ≠ [] :=
        fun w hw => (VestingCall.writes_of_accepted ha).2 w (List.mem_filter.mp hw).1
      have hiff := after_eq_last_iff (holdings h.db address) hown hne (htypes.imp id And.left)
      simpa [VestingCall.askedAt_of_accepted ha, hown] using hiff
    | false =>
      have hkeeps : ∀ w ∈ call.writesAt address, w.setsType = false :=
        htypes.resolve_right fun hsets => by simp [ha] at hsets
      have hiff := after_eq_held_iff (holdings h.db address) hown hkeeps
      simpa [← hx address] using hiff

end

/-- Over a run of calls the rows of every address are those of the last account
saved there if and only if every call keeps to the condition. -/
theorem last_vesting_account_iff {s : Db} (hk : VestingKeys s) (calls : List VestingCall) :
    LastAccountsThroughout s calls ↔ CallsKeep s calls := by
  have hany : Lockstep.Each SavedVesting.step (fun _ _ => ()) (fun _ _ _ => True)
      ⟨s, holdings s⟩ () calls := .of_forall fun _ _ => trivial
  have hkeys : Lockstep.Each SavedVesting.step (fun _ _ => ())
      (fun (h : SavedVesting) _ _ => VestingKeys h.db) ⟨s, holdings s⟩ () calls :=
    hany.invariant (fun _ _ call hkeys _ => (step_spec hkeys call).1) hk
  refine Lockstep.throughout_iff ?_ hkeys fun _ => rfl
  exact fun h _ call hx hkeys => exact_step_iff hkeys hx call

def aliceAccount (endTime : Int) : BaseVestingAccount := ⟨"safro1alice", [], endTime⟩

def twoPeriods : List Period := [⟨100, []⟩, ⟨200, []⟩]

theorem vestingKeys_default : VestingKeys default := ⟨by decide, by decide, by decide⟩

def earlierAccount : ExportedVestingAccount := .periodic (aliceAccount 300) 0 twoPeriods

def laterAccount : ExportedVestingAccount := .periodic (aliceAccount 600) 0 [⟨600, []⟩]

/-- A periodic account is saved over another one. -/
theorem last_vesting_account_periodic :
    LastAccountsThroughout default [.save [earlierAccount], .save [laterAccount]] := by
  have hearlier : ∀ address, ∀ w ∈ (VestingCall.save [earlierAccount]).writesAt address,
      w = earlierAccount.write := fun _ w hw => List.mem_singleton.mp (List.mem_filter.mp hw).1
  have hlater : ∀ address, ∀ w ∈ (VestingCall.save [laterAccount]).writesAt address,
      w = laterAccount.write := fun _ w hw => List.mem_singleton.mp (List.mem_filter.mp hw).1
  obtain ⟨-, hheld, -⟩ := @step_spec ⟨default, holdings default⟩ vestingKeys_default
    (.save [earlierAccount])
  refine (last_vesting_account_iff vestingKeys_default _).mpr
    ⟨fun address last hlast => ?_, fun address last hlast => ?_, trivial⟩
  · obtain rfl := hearlier address last (List.mem_of_getLast? hlast)
    refine ⟨.inr fun type htype => ?_, .inl rfl⟩
    obtain ⟨w, hw, rfl⟩ := Option.map_eq_some_iff.mp htype
    rw [hearlier address w (List.mem_of_head? hw)]
  · obtain rfl := hlater address last (List.mem_of_getLast? hlast)
    refine ⟨.inr fun type htype => ?_, .inl rfl⟩
    have hkeeps : ∀ w ∈ (VestingCall.save [earlierAccount]).writesAt address, w.setsType = false :=
      fun w hw => hearlier address w hw ▸ rfl
    rw [hheld, Write.firstType, Write.after_type _ hkeeps] at htype
    rcases Option.or_eq_some_iff.mp htype with hstored | ⟨-, hnew⟩
    · obtain ⟨w, hw, rfl⟩ := Option.map_eq_some_iff.mp hstored
      rw [hearlier address w (List.mem_of_head? hw)]
      rfl
    · obtain ⟨w, hw, rfl⟩ := Option.map_eq_some_iff.mp hnew
      rw [hlater address w (List.mem_of_head? hw)]

/-- A base account that becomes a continuous one, a periodic one that becomes a
delayed one, and a periodic one without periods, which is rejected too late. -/
theorem vesting_rows_mixed :
    ¬ LastAccountsThroughout default
      [.fromMsg (aliceAccount 300) 0, .save [.continuous (aliceAccount 300) 0]] ∧
    ¬ LastAccountsThroughout default
      [.save [.periodic (aliceAccount 300) 0 twoPeriods], .save [.delayed (aliceAccount 300)]] ∧
    ¬ LastAccountsThroughout default
      [.save [.periodic (aliceAccount 300) 0 twoPeriods], .save [.periodic (aliceAccount 300) 0 []]] := by
  refine ⟨?_, ?_, ?_⟩
  all_goals
    rintro ⟨-, -, hlast⟩
    have halice := hlast "safro1alice"
    revert halice
    decide

end SafrochainIndexer.Callisto
