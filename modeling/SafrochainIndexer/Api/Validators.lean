import SafrochainIndexer.Api.Pagination
import SafrochainIndexer.Api.Store
import SafrochainIndexer.Callisto.BondedStatuses
import SafrochainIndexer.Lib.Offsets
import Mathlib.Order.WithBot

/-!
# The listing of validators

`getValidators` of `validator.service.ts` over the tables that Callisto fills: by
offset, the highest voting power first, with no order among equal powers
(`validators_listed_iff`). The statuses it tells are those that the refreshes have
stored (`statuses_told`).
-/

namespace SafrochainIndexer.Api

open Callisto (Db ValidatorRow ValidatorInfoRow ValidatorDescriptionRow ValidatorCommissionRow
  ValidatorVotingPowerRow ValidatorStatusRow)

structure ValidatorListDto where
  page : Option Nat
  limit : Option Nat
  status : Option Int
  jailed : Option Bool
  search : Option String
  deriving DecidableEq, Repr

structure Validator where
  validator : ValidatorRow
  info : Option ValidatorInfoRow
  description : Option ValidatorDescriptionRow
  commission : Option ValidatorCommissionRow
  votingPower : Option ValidatorVotingPowerRow
  status : Option ValidatorStatusRow
  deriving DecidableEq, Repr

/-- An element of `data`. A commission is the text of its column, `none` stands for
the number zero. -/
structure ValidatorSummary where
  consensusAddress : String
  operatorAddress : String
  consensusPubkey : String
  moniker : String
  status : Int
  jailed : Bool
  votingPower : Int
  commission : Option String
  uptime : Rat
  rank : Int
  deriving DecidableEq, Repr

def joinValidator (s : Db) (validator : ValidatorRow) : Validator :=
  { validator
    info := s.validatorInfo.find validator.consensusAddress
    description := s.validatorDescription.find validator.consensusAddress
    commission := s.validatorCommission.find validator.consensusAddress
    votingPower := s.validatorVotingPower.find validator.consensusAddress
    status := s.validatorStatus.find validator.consensusAddress }

namespace Validator

def summary (v : Validator) : ValidatorSummary :=
  { consensusAddress := v.validator.consensusAddress
    operatorAddress := (v.info.map (·.operatorAddress)).getD ""
    consensusPubkey := v.validator.consensusPubkey
    moniker := (truthyText (v.description.bind (·.moniker))).getD "Unknown"
    status := (v.status.map (·.status)).getD 0
    jailed := (v.status.map (·.jailed)).getD false
    votingPower := (v.votingPower.map (·.votingPower)).getD 0
    commission := truthyText (v.commission.map (·.commission))
    uptime := 999 / 10
    rank := 0 }

/-- `ORDER BY votingPower.voting_power DESC`, which has `NULL` first. -/
def powerKey (v : Validator) : (WithTop Int)ᵒᵈ :=
  match v.votingPower with
  | none => .toDual ⊤
  | some row => .toDual row.votingPower

theorem untopD_powerKey (v : Validator) :
    (OrderDual.ofDual v.powerKey).untopD 0 = v.summary.votingPower := by
  unfold powerKey summary
  cases v.votingPower with
  | none => rfl
  | some row => rfl

end Validator

/-- A condition on a column of a left join fails where there is no row. -/
def ValidatorListDto.selects (env : Platform) (filters : ValidatorListDto) (v : Validator) : Bool :=
  filters.status.all (fun status => v.status.any fun row => decide (row.status = status)) &&
  filters.jailed.all (fun jailed => v.status.any fun row => row.jailed == jailed) &&
  (truthyText filters.search).all fun search =>
    let pattern := s!"%{search}%"
    (v.description.bind (·.moniker)).any (env.ilike · pattern) ||
      v.info.any (fun row => env.ilike row.operatorAddress pattern) ||
      env.ilike v.validator.consensusAddress pattern

/-- `Math.min(Math.max(filters.limit || 20, 1), 100)`. -/
def ValidatorListDto.clampedLimit (filters : ValidatorListDto) : Nat :=
  min (max ((truthy filters.limit).getD 20) 1) 100

def matchingValidators (env : Platform) (s : Db) (filters : ValidatorListDto) : List Validator :=
  (s.validator.rows.map (joinValidator s)).filter (filters.selects env)

def getValidators (env : Platform) (order : List Validator → List Validator) (s : Db)
    (filters : ValidatorListDto) : Response ValidatorSummary :=
  let limit := filters.clampedLimit
  let page := (truthy filters.page).getD 1
  let offset := (page - 1) * limit
  let validators := ((order (matchingValidators env s filters)).drop offset).take limit
  { data := validators.map Validator.summary
    pageMeta :=
      { page
        limit
        total := 0
        totalPages := 0
        hasNext := decide (validators.length = limit)
        hasPrev := decide (page > 1)
        nextCursor := none } }

/-- Requests for page after page, up to the first that says it has no next. -/
inductive PagedThrough {α : Type} (call : Nat → Response α) : Nat → List (Response α) → Prop
  | last {page : Nat} (h : (call page).pageMeta.hasNext = false) : PagedThrough call page [call page]
  | more {page : Nat} {responses : List (Response α)} (h : (call page).pageMeta.hasNext = true)
      (rest : PagedThrough call (page + 1) responses) :
      PagedThrough call page (call page :: responses)

-- ---------------------------------------------------------------------------
-- Pages
-- ---------------------------------------------------------------------------

section
variable {α : Type} {call : Nat → Response α}

theorem PagedThrough.unique {page : Nat} {responses responses' : List (Response α)}
    (h : PagedThrough call page responses) (h' : PagedThrough call page responses') :
    responses = responses' := by
  induction h generalizing responses' with
  | last hlast =>
    cases h' with
    | last _ => rfl
    | more hmore _ => simp [hlast] at hmore
  | more hmore _ ih =>
    cases h' with
    | last hlast => simp [hlast] at hmore
    | more _ rest => rw [ih rest]

theorem pagedThrough_range {first count : Nat}
    (h : ∀ i, (call (first + i)).pageMeta.hasNext = decide (i < count)) :
    PagedThrough call first ((List.range (count + 1)).map fun i => call (first + i)) := by
  induction count generalizing first with
  | zero => exact .last (by simpa using h 0)
  | succ count ih =>
    rw [List.range_succ_eq_map, List.map_cons, List.map_map]
    refine .more (by simpa using h 0) ?_
    have hnext (i : Nat) : (call (first + 1 + i)).pageMeta.hasNext = decide (i < count) := by
      rw [Nat.add_assoc, Nat.add_comm 1 i, h (i + 1)]
      simp
    have hrest := ih hnext
    have hcalls : ((List.range (count + 1)).map fun i => call (first + 1 + i)) =
        (List.range (count + 1)).map ((fun i => call (first + i)) ∘ Nat.succ) :=
      List.map_congr_left fun i _ => by simp [Nat.add_assoc, Nat.add_comm 1 i]
    exact hcalls ▸ hrest

end

/-- The requests of a client that starts at the first page; the store may order
equal powers anew at each of them. -/
def validatorsAt (env : Platform) (orders : Nat → Offsets.ByKey Validator.powerKey) (s : Db)
    (filters : ValidatorListDto) (page : Nat) : Response ValidatorSummary :=
  getValidators env (orders page).run s { filters with page := some page }

section
variable {env : Platform} {orders : Nat → Offsets.ByKey Validator.powerKey} {s : Db}
  {filters : ValidatorListDto}

theorem ValidatorListDto.clampedLimit_pos (filters : ValidatorListDto) : 0 < filters.clampedLimit := by
  unfold clampedLimit
  omega

theorem validatorsAt_data (i : Nat) :
    (validatorsAt env orders s filters (1 + i)).data =
      (Offsets.page (orders (1 + i)).run filters.clampedLimit (matchingValidators env s filters) i).map
        Validator.summary := by
  have hpage : (truthy (some (1 + i))).getD 1 - 1 = i := by
    simp [truthy, Option.filter]
  simp only [validatorsAt, getValidators, hpage]
  rfl

theorem validatorsAt_hasNext (i : Nat) :
    (validatorsAt env orders s filters (1 + i)).pageMeta.hasNext =
      decide (i < (matchingValidators env s filters).length / filters.clampedLimit) := by
  have hlength : (validatorsAt env orders s filters (1 + i)).data.length =
      (Offsets.page (orders (1 + i)).run filters.clampedLimit
        (matchingValidators env s filters) i).length := by
    rw [validatorsAt_data, List.length_map]
  have hnext : (validatorsAt env orders s filters (1 + i)).pageMeta.hasNext =
      decide ((validatorsAt env orders s filters (1 + i)).data.length = filters.clampedLimit) := by
    simp only [validatorsAt, getValidators, List.length_map]
    rfl
  rw [hnext, hlength]
  exact decide_eq_decide.mpr (Offsets.full_iff filters.clampedLimit_pos _)

def validatorsListed (env : Platform) (orders : Nat → Offsets.ByKey Validator.powerKey) (s : Db)
    (filters : ValidatorListDto) : List Validator :=
  Offsets.listed (fun i => orders (1 + i)) filters.clampedLimit (matchingValidators env s filters)

theorem validators_paged (env : Platform) (orders : Nat → Offsets.ByKey Validator.powerKey) (s : Db)
    (filters : ValidatorListDto) : ∃ responses,
    PagedThrough (validatorsAt env orders s filters) 1 responses ∧
      responses.length =
        (matchingValidators env s filters).length / filters.clampedLimit + 1 ∧
      responses.flatMap Response.data =
        (validatorsListed env orders s filters).map Validator.summary := by
  refine ⟨_, pagedThrough_range validatorsAt_hasNext, by simp, ?_⟩
  rw [List.flatMap_map, validatorsListed, Offsets.listed, List.map_flatMap]
  exact List.flatMap_congr fun i _ => validatorsAt_data i

theorem matching_nodup (env : Platform) (s : Db) (filters : ValidatorListDto) :
    ((matchingValidators env s filters).map Validator.summary).Nodup := by
  refine List.Nodup.of_map ValidatorSummary.consensusAddress ?_
  have hjoined : ((s.validator.rows.map (joinValidator s)).map
      (·.validator.consensusAddress)).Nodup := by
    rw [List.map_map]
    exact s.validator.keys_nodup
  rw [List.map_map]
  exact hjoined.sublist (List.filter_sublist.map _)

end

/-- The pages name every validator that matches exactly once, in whatever order the
store has equal powers at each request, if and only if no page ends between two of
equal power. The powers they tell are in any case those of the whole listing. -/
theorem validators_listed_iff (env : Platform) (s : Db) (filters : ValidatorListDto) :
    ((∀ orders, ∃ responses, PagedThrough (validatorsAt env orders s filters) 1 responses ∧
        (responses.flatMap Response.data).Perm
          ((matchingValidators env s filters).map Validator.summary)) ↔
      Offsets.Uncut Validator.powerKey filters.clampedLimit (matchingValidators env s filters)) ∧
    ∀ orders, ∃ responses, PagedThrough (validatorsAt env orders s filters) 1 responses ∧
      responses.length = (matchingValidators env s filters).length / filters.clampedLimit + 1 ∧
      (responses.flatMap Response.data).map (·.votingPower) =
        ((orders 0).run (matchingValidators env s filters)).map (·.summary.votingPower) := by
  have hl := filters.clampedLimit_pos
  refine ⟨?_, fun orders => ?_⟩
  · rw [← Offsets.listed_iff hl (matching_nodup env s filters)]
    constructor
    · intro hall orders
      obtain ⟨responses, hpaged, hperm⟩ := hall fun page => orders (page - 1)
      obtain ⟨_, hpaged', -, hdata⟩ := validators_paged env (fun page => orders (page - 1)) s filters
      rw [hpaged.unique hpaged', hdata] at hperm
      simpa [validatorsListed] using hperm
    · intro hall orders
      obtain ⟨responses, hpaged, -, hdata⟩ := validators_paged env orders s filters
      exact ⟨responses, hpaged, hdata ▸ hall fun i => orders (1 + i)⟩
  · obtain ⟨responses, hpaged, hlength, hdata⟩ := validators_paged env orders s filters
    refine ⟨responses, hpaged, hlength, ?_⟩
    have hkeys : (validatorsListed env orders s filters).map Validator.powerKey =
        ((orders 0).run (matchingValidators env s filters)).map Validator.powerKey :=
      Offsets.listed_keys hl (fun i => orders (1 + i)) (orders 0)
    have htold (rows : List Validator) :
        (rows.map Validator.powerKey).map (fun key => (OrderDual.ofDual key).untopD 0) =
          rows.map (·.summary.votingPower) := by
      rw [List.map_map]
      exact List.map_congr_left fun v _ => v.untopD_powerKey
    have htexts := congrArg (List.map fun key => (OrderDual.ofDual key).untopD 0) hkeys
    rw [htold, htold] at htexts
    rw [hdata, List.map_map]
    exact htexts

-- ---------------------------------------------------------------------------
-- Statuses
-- ---------------------------------------------------------------------------

section
variable {env : Platform} {s : Db} {filters : ValidatorListDto} {v : Validator}

open Callisto.Staking

theorem mem_matching : v ∈ matchingValidators env s filters ↔
    (∃ row ∈ s.validator.rows, joinValidator s row = v) ∧ filters.selects env v = true := by
  unfold matchingValidators
  rw [List.mem_filter, List.mem_map]

theorem mem_data {order : Offsets.ByKey Validator.powerKey} {e : ValidatorSummary}
    (he : e ∈ (getValidators env order.run s filters).data) :
    ∃ v ∈ matchingValidators env s filters, v.summary = e := by
  obtain ⟨v, hv, rfl⟩ := List.mem_map.mp he
  exact ⟨v, (order.perm _).mem_iff.mp (List.mem_of_mem_drop (List.mem_of_mem_take hv)), rfl⟩

theorem summary_status (hs : OnlyBonded s) (hv : v ∈ matchingValidators env s filters) :
    (v.status = none ∧ v.summary.status = 0) ∨ v.summary.status = bondedStatus ∨
      v.summary.status = 0 ∧ v.summary.consensusAddress = "" := by
  obtain ⟨⟨row, -, rfl⟩, -⟩ := mem_matching.mp hv
  unfold Validator.summary joinValidator
  dsimp only
  cases hfind : s.validatorStatus.find row.consensusAddress with
  | none => exact .inl ⟨rfl, rfl⟩
  | some status =>
    obtain hbonded | rfl := hs status (Table.mem_of_find hfind)
    · exact .inr (.inl hbonded)
    · exact .inr (.inr ⟨rfl, (Table.find_key hfind).symm⟩)

theorem selected_status {status : Int} (hstatus : filters.status = some status)
    (hv : v ∈ matchingValidators env s filters) :
    v.status.isSome = true ∧ v.summary.status = status := by
  have hselects := (mem_matching.mp hv).2
  simp only [ValidatorListDto.selects, hstatus, Option.all_some, Bool.and_eq_true] at hselects
  obtain ⟨⟨hstored, -⟩, -⟩ := hselects
  cases hrow : v.status with
  | none => simp [hrow] at hstored
  | some row =>
    rw [hrow, Option.any_some, decide_eq_true_eq] at hstored
    exact ⟨rfl, by simp [Validator.summary, hrow, hstored]⟩

def bondedFilter (limit : Option Nat) : ValidatorListDto where
  page := none
  limit := limit
  status := some bondedStatus
  jailed := none
  search := none

/-- A client that pages through the bonded validators right after a refresh. -/
theorem bonded_listed {m : Module} {consAddr : StakingValidator → String}
    {consPubKey : StakingValidator → PubKey} {chain : Int → List StakingValidator} {t : Db}
    (hserves : Serves m consAddr consPubKey chain) (hreaches : BatchReaches consAddr chain s)
    (h : Eff.Returns m.updateValidatorStatuses s () t) {v : StakingValidator}
    (hv : v ∈ bondedOf (chain (lastHeight s))) {limit : Option Nat} :
    ∃ listed ∈ matchingValidators env t (bondedFilter limit),
      listed.summary.consensusAddress = consAddr v ∧ listed.summary.status = v.status ∧
      listed.summary.jailed = v.jailed ∧ listed.summary.votingPower = v.tokens := by
  obtain ⟨hstored, hstatus, hpower⟩ := bonded_rows hserves hreaches h hv
  obtain ⟨row, hrow⟩ := Option.isSome_iff_exists.mp hstored
  have hkey : row.consensusAddress = consAddr v := Table.find_key hrow
  have hbonded : v.status = bondedStatus := of_decide_eq_true (List.mem_filter.mp hv).2
  refine ⟨joinValidator t row, mem_matching.mpr ⟨⟨row, Table.mem_of_find hrow, rfl⟩, ?_⟩, ?_⟩
  · simp [bondedFilter, ValidatorListDto.selects, joinValidator, hkey, hstatus, statusRow, hbonded,
      truthyText]
  · simp [Validator.summary, joinValidator, hkey, hstatus, hpower, statusRow, powerRow]

/-- In any run of refreshes, a listing tells no other status than that of a bonded
validator (3) or zero. A filter by another status finds nothing, one by zero nothing
but the row of an empty address. After a refresh that returns no error, a client finds
every bonded validator of the chain, as the chain has it, under the status 3, if its batch
has gone through and no page ends between two validators of equal power. -/
theorem statuses_told {m : Module} {consAddr : StakingValidator → String}
    {consPubKey : StakingValidator → PubKey} {chain : Int → List StakingValidator}
    (hserves : Serves m consAddr consPubKey chain) (hstart : OnlyBonded s) {events : List Event}
    (hevents : ∀ event ∈ events, event.LeavesStatuses) (env : Platform) :
    (∀ (order : Offsets.ByKey Validator.powerKey) (filters : ValidatorListDto),
      ∀ e ∈ (getValidators env order.run (run m s events) filters).data,
        (e.status = bondedStatus ∨ e.status = 0) ∧
        ∀ status, filters.status = some status →
          status = bondedStatus ∨ status = 0 ∧ e.consensusAddress = "") ∧
    ∀ t, Eff.Returns m.updateValidatorStatuses (run m s events) () t →
      BatchReaches consAddr chain (run m s events) →
      ∀ (limit : Option Nat) (orders : Nat → Offsets.ByKey Validator.powerKey)
        (responses : List (Response ValidatorSummary)),
      PagedThrough (validatorsAt env orders t (bondedFilter limit)) 1 responses →
      Offsets.Uncut Validator.powerKey (bondedFilter limit).clampedLimit
        (matchingValidators env t (bondedFilter limit)) →
      ∀ v ∈ bondedOf (chain (lastHeight (run m s events))),
        ∃ e ∈ responses.flatMap Response.data, e.consensusAddress = consAddr v ∧
          e.status = v.status ∧ e.jailed = v.jailed ∧ e.votingPower = v.tokens := by
  refine ⟨fun order filters e he => ?_, fun t h hreaches limit orders responses hpaged huncut
    v hv => ?_⟩
  · obtain ⟨v, hv, rfl⟩ := mem_data he
    have htold := summary_status (hstart.run hserves hevents) hv
    constructor
    · obtain ⟨-, hzero⟩ | hbonded | ⟨hzero, -⟩ := htold
      · exact .inr hzero
      · exact .inl hbonded
      · exact .inr hzero
    · intro status hstatus
      obtain ⟨hstored, rfl⟩ := selected_status hstatus hv
      obtain ⟨hnone, -⟩ | hbonded | hzero := htold
      · simp [hnone] at hstored
      · exact .inl hbonded
      · exact .inr hzero
  · obtain ⟨listed, hlisted, htold⟩ := bonded_listed hserves hreaches h hv
    obtain ⟨_, hpaged', -, hdata⟩ := validators_paged env orders t (bondedFilter limit)
    have hall := Offsets.listed_perm (bondedFilter limit).clampedLimit_pos huncut
      fun i => orders (1 + i)
    refine ⟨listed.summary, ?_, htold⟩
    rw [hpaged.unique hpaged', hdata]
    exact List.mem_map_of_mem (hall.mem_iff.mpr hlisted)

def plainText : Platform := ⟨fun text pattern => decide (text = pattern), fun _ _ => none,
  fun _ => "", fun _ => 0⟩

theorem statuses_told_bonded :
    let once := run (plain (jailing 9)) pairAtFive [.updateValidatorStatuses]
    let t := (Eff.exec (plain (jailing 9)).updateValidatorStatuses once).2
    ∃ responses, PagedThrough (validatorsAt plainText (fun _ => .insertion _) t (bondedFilter none)) 1
        responses ∧
      ∃ e ∈ responses.flatMap Response.data, e.consensusAddress = "a" ∧ e.status = 3 ∧
        e.votingPower = 7 := by
  intro once t
  obtain ⟨responses, hpaged, -, -⟩ := validators_paged plainText (fun _ => .insertion _) t
    (bondedFilter none)
  have hstart : OnlyBonded pairAtFive := by
    unfold OnlyBonded
    decide
  have hevents : ∀ event ∈ [Event.updateValidatorStatuses], event.LeavesStatuses := by
    intro event hevent
    obtain rfl := List.mem_singleton.mp hevent
    trivial
  have htold := (statuses_told (jailing_serves 9) hstart hevents plainText).2 t
    (Prod.ext (by decide) rfl) ⟨by decide, by decide, ⟨by decide, by decide⟩, by decide⟩ none
    (fun _ => .insertion _) responses hpaged (Offsets.uncut_of_nodup (by decide))
  obtain ⟨e, he, haddress, hstatus, -, hpower⟩ := htold (plainValidator "a" false 3 7) (by decide)
  exact ⟨responses, hpaged, e, he, haddress, hstatus, hpower⟩

end

end SafrochainIndexer.Api
