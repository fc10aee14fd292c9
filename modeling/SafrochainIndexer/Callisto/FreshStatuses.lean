import SafrochainIndexer.Callisto.ValidatorRefresh

/-!
# Fresh statuses

`UpdateValidatorStatuses` asks the chain for the bonded validators only. The
rows of a validator that has left this set stay as they were when it was bonded
(`fresh_statuses_throughout`).
-/

namespace SafrochainIndexer.Callisto.Staking

/-- `stakingtypes.Bonded`. -/
def bondedStatus : Int := 3

def bondedOf (validators : List StakingValidator) : List StakingValidator :=
  validators.filter (·.status = bondedStatus)

/-- The validators of the chain at each height, as the source answers. -/
structure Serves (m : Module) (consAddr : StakingValidator → String)
    (consPubKey : StakingValidator → PubKey) (chain : Int → List StakingValidator) : Prop where
  readable : ∀ height, ∀ v ∈ chain height, Readable m consAddr consPubKey v
  distinct : ∀ height, ((chain height).map consAddr).Nodup
  answer : ∀ height validators,
    m.source.getValidatorsWithStatus height bonded = .ok validators →
    validators = bondedOf (chain height)

def AsOnChain (consAddr : StakingValidator → String) (s : Db) (v : StakingValidator) : Prop :=
  (s.validatorStatus.find (consAddr v)).any
      (fun row => row.status = v.status ∧ row.jailed = v.jailed) = true ∧
    (s.validatorVotingPower.find (consAddr v)).any (fun row => row.votingPower = v.tokens) = true

/-- Every validator of the chain that the database knows has the rows of the chain. -/
def Fresh (consAddr : StakingValidator → String) (chain : Int → List StakingValidator)
    (height : Int) (s : Db) : Prop :=
  ∀ v ∈ chain height, s.hasValidator (consAddr v) = true → AsOnChain consAddr s v

inductive Event
  | updateValidatorStatuses
  | other (change : Db → Db)

def Event.step (m : Module) (s : Db) : Event → Db
  | .updateValidatorStatuses => (Eff.exec m.updateValidatorStatuses s).2
  | .other change => change s

/-- `C` holds before every refresh of the run. -/
def AtRefreshes (m : Module) (C : Db → Prop) : Db → List Event → Prop
  | _, [] => True
  | s, .updateValidatorStatuses :: events =>
    C s ∧ AtRefreshes m C (Event.step m s .updateValidatorStatuses) events
  | s, .other change :: events => AtRefreshes m C (Event.step m s (.other change)) events

theorem AtRefreshes.imp {m : Module} {C D : Db → Prop} (h : ∀ s, C s → D s) {s : Db}
    {events : List Event} (hc : AtRefreshes m C s events) : AtRefreshes m D s events := by
  induction events generalizing s with
  | nil => trivial
  | cons event events ih =>
    cases event with
    | updateValidatorStatuses => exact ⟨h s hc.1, ih hc.2⟩
    | other change => exact ih hc

def lastHeight (s : Db) : Int := (lastBlock s.block.rows).height

-- ---------------------------------------------------------------------------
-- One refresh
-- ---------------------------------------------------------------------------

section
variable {m : Module} {consAddr : StakingValidator → String} {consPubKey : StakingValidator → PubKey}
  {chain : Int → List StakingValidator} {height : Int} {s t : Db} {v : StakingValidator}
  {validators : List StakingValidator}

theorem getValidatorsWithStatus_fixes (m : Module) (height : Int) (status : String) :
    Eff.Fixes (fun s : Db => s) (m.getValidatorsWithStatus height status) := by
  refine .bind .ofExcept fun validators => .bind (.mapM fun v _ => .wrap ?_) fun _ => .pure
  refine .bind (.wrap .ofExcept) fun _ => .bind (.wrap .ofExcept) fun _ => ?_
  exact .bind .ofFallible fun _ => .pure

def refreshTables (s : Db) :=
  (s.validator, s.validatorStatus, s.validatorVotingPower)

theorem snapshots_fixes (m : Module) (height : Int) (proposalID : Nat)
    (validators : List StakingValidator) :
    Eff.Fixes refreshTables (m.updateProposalValidatorStatusSnapshot height proposalID validators) := by
  refine .bind (.mapM fun v _ => ?_) fun snapshots => ?_
  · refine .bind .ofExcept fun _ => .bind ?_ fun _ => .pure
    unfold int64
    split
    · exact .pure
    · exact .panicking
  · unfold saveProposalValidatorsStatusesSnapshots
    split
    · exact .pure
    · exact .wrap (sending_fixes (Relation.insert_fixes fun _ _ => rfl))

theorem updateValidatorStatuses_returns (hserves : Serves m consAddr consPubKey chain)
    (h : Eff.Returns m.updateValidatorStatuses s () t) :
    (∀ v ∈ bondedOf (chain (lastHeight s)), s.hasValidator (consAddr v) = true → IsInt64 v.tokens) ∧
      refreshTables t = refreshTables
        (refreshed consAddr consPubKey (lastHeight s) (bondedOf (chain (lastHeight s))) s) := by
  unfold Module.updateValidatorStatuses at h
  obtain ⟨block, _, hblock, h⟩ := Eff.returns_bind.mp h
  have hlast : Eff.Returns (Eff.wrap "error while getting latest block height from db: "
      getLastBlockHeightAndTimestamp) s (lastBlock s.block.rows) s := rfl
  obtain ⟨rfl, rfl⟩ := hlast.unique hblock
  obtain ⟨⟨validators, vals⟩, u, hvalidators, h⟩ := Eff.returns_bind.mp h
  have hgot := Eff.returns_wrap.mp hvalidators
  obtain rfl : u = s := (getValidatorsWithStatus_fixes m _ _).of_returns hgot
  obtain ⟨found, _, hfound, hrest⟩ := Eff.returns_bind.mp hgot
  obtain ⟨hanswer, -⟩ := Eff.returns_ofExcept.mp hfound
  obtain ⟨_, _, -, hpair⟩ := Eff.returns_bind.mp hrest
  obtain rfl : found = validators := congrArg Prod.fst (Eff.returns_pure.mp hpair).1
  obtain rfl := hserves.answer _ _ hanswer
  obtain ⟨_, w, hupdate, h⟩ := Eff.returns_bind.mp h
  have hread : ∀ v ∈ bondedOf (chain (lastHeight u)), Readable m consAddr consPubKey v :=
    fun v hv => hserves.readable _ v (List.mem_filter.mp hv).1
  obtain ⟨hfits, rfl⟩ := (update_returns_iff hread).mp (Eff.returns_wrap.mp hupdate)
  refine ⟨hfits, Eff.Fixes.of_returns ?_ h⟩
  exact .bind (.wrap (.bind .get fun _ => .pure)) fun ids =>
    .forM fun id _ => .wrap (snapshots_fixes m _ id _)

theorem refreshed_others {address : String} (hne : address ≠ "")
    (hother : ∀ v ∈ validators, consAddr v ≠ address) :
    (refreshed consAddr consPubKey height validators s).validatorVotingPower.find address =
        s.validatorVotingPower.find address ∧
      (refreshed consAddr consPubKey height validators s).validatorStatus.find address =
        s.validatorStatus.find address := by
  have hentry : ∀ v ∈ validators,
      (refreshEntry consAddr consPubKey height s v).1.consensusAddress ≠ address ∧
      (refreshEntry consAddr consPubKey height s v).2.consensusAddress ≠ address := by
    intro v hv
    unfold refreshEntry
    split
    · exact ⟨hother v hv, hother v hv⟩
    · exact ⟨hne.symm, hne.symm⟩
  constructor
  · rw [refreshed_powers]
    refine find_saved_power ?_
    simpa using fun v hv => (hentry v hv).1
  · unfold refreshed
    refine (find_saved_status ?_).trans ?_
    · simpa using fun v hv => (hentry v hv).2
    · have hfixes : Eff.Fixes Db.validatorStatus (saveValidatorsVotingPowers
          ((validators.map (refreshEntry consAddr consPubKey height s)).map Prod.fst)) :=
        saveValidatorsVotingPowers_fixes fun _ _ => rfl
      rw [hfixes s]

theorem refreshed_hasValidator (h : s.hasValidator (consAddr v) = true) :
    (refreshed consAddr consPubKey height validators s).hasValidator (consAddr v) = true := by
  have hfixes : Eff.Fixes Db.validator (saveValidatorsVotingPowers
      ((validators.map (refreshEntry consAddr consPubKey height s)).map Prod.fst)) :=
    saveValidatorsVotingPowers_fixes fun _ _ => rfl
  refine hasValidator_saveValidatorsStatuses ?_ _
  unfold Db.hasValidator
  rw [hfixes s]
  exact h

def OthersAsOnChain (consAddr : StakingValidator → String) (chain : Int → List StakingValidator)
    (s : Db) : Prop :=
  ∀ v ∈ chain (lastHeight s), v.status ≠ bondedStatus → s.hasValidator (consAddr v) = true →
    AsOnChain consAddr s v

/-- The batch of a refresh goes through: all bonded validators are known, their rows
not newer than the last block, and not too many for a statement. -/
structure BatchReaches (consAddr : StakingValidator → String)
    (chain : Int → List StakingValidator) (s : Db) : Prop where
  block : s.block.rows ≠ []
  known : ∀ v ∈ bondedOf (chain (lastHeight s)), s.hasValidator (consAddr v) = true
  newer : NoNewer consAddr (lastHeight s) (bondedOf (chain (lastHeight s))) s
  short : (bondedOf (chain (lastHeight s))).length * 4 ≤ maxParameters

structure RefreshReaches (consAddr : StakingValidator → String)
    (chain : Int → List StakingValidator) (s : Db) : Prop extends
    BatchReaches consAddr chain s where
  others : OthersAsOnChain consAddr chain s

/-- If a refresh returns no error, it leaves fresh rows. -/
def RefreshesAll (m : Module) (consAddr : StakingValidator → String)
    (chain : Int → List StakingValidator) (s : Db) : Prop :=
  ∀ t, Eff.Returns m.updateValidatorStatuses s () t → Fresh consAddr chain (lastHeight s) t

theorem asOnChain_congr (hpower : t.validatorVotingPower.find (consAddr v) =
      s.validatorVotingPower.find (consAddr v))
    (hstatus : t.validatorStatus.find (consAddr v) = s.validatorStatus.find (consAddr v)) :
    AsOnChain consAddr t v ↔ AsOnChain consAddr s v := by
  unfold AsOnChain
  rw [hpower, hstatus]

theorem Serves.other (hserves : Serves m consAddr consPubKey chain) (hv : v ∈ chain height)
    (hstatus : v.status ≠ bondedStatus) : ∀ w ∈ bondedOf (chain height), consAddr w ≠ consAddr v := by
  intro w hw he
  obtain ⟨hw, hbonded⟩ := List.mem_filter.mp hw
  obtain rfl := List.inj_on_of_nodup_map (hserves.distinct height) hw hv he
  exact hstatus (of_decide_eq_true hbonded)

theorem BatchReaches.refreshed (hserves : Serves m consAddr consPubKey chain)
    (h : BatchReaches consAddr chain s) (hreturns : Eff.Returns m.updateValidatorStatuses s () t) :
    KnownRefreshed consAddr (lastHeight s) (bondedOf (chain (lastHeight s))) s t := by
  obtain ⟨-, htables⟩ := updateValidatorStatuses_returns hserves hreturns
  have hd : ((bondedOf (chain (lastHeight s))).map consAddr).Nodup :=
    (hserves.distinct (lastHeight s)).sublist (List.filter_sublist.map consAddr)
  have hblock : s.hasBlock (lastHeight s) = true := by
    have hfind : s.block.find (lastHeight s) = some (lastBlock s.block.rows) :=
      Table.find_of_mem (lastBlock_spec h.block).1
    simp [Db.hasBlock, hfind]
  rw [refreshed_of_known hd h.known (.inr hblock) h.short] at htables
  have hrefreshed := put_refreshed hd h.newer h.known
  simp only [refreshTables, Prod.mk.injEq] at htables
  obtain ⟨hvalidator, hstatus, hpower⟩ := htables
  constructor
  · rw [hpower]
    exact hrefreshed.power
  · rw [hstatus]
    exact hrefreshed.status
  · rw [hpower, hstatus]
    exact hrefreshed.others
  · rw [hvalidator]
    exact hrefreshed.validator

theorem refreshesAll (hserves : Serves m consAddr consPubKey chain)
    (h : RefreshReaches consAddr chain s) : RefreshesAll m consAddr chain s := by
  intro t hreturns v hv hknown
  have hrefreshed := h.toBatchReaches.refreshed hserves hreturns
  by_cases hbonded : v.status = bondedStatus
  · have hmem : v ∈ bondedOf (chain (lastHeight s)) :=
      List.mem_filter.mpr ⟨hv, decide_eq_true hbonded⟩
    unfold AsOnChain
    rw [hrefreshed.status v hmem (h.known v hmem), hrefreshed.power v hmem (h.known v hmem)]
    simp [statusRow, powerRow]
  · have hother := hrefreshed.others (consAddr v) fun w hw _ => hserves.other hv hbonded w hw
    refine (asOnChain_congr hother.1 hother.2).mpr (h.others v hv hbonded ?_)
    unfold Db.hasValidator at hknown ⊢
    exact hrefreshed.validator ▸ hknown

theorem others_of_refreshesAll (hserves : Serves m consAddr consPubKey chain)
    (h : RefreshesAll m consAddr chain s) (hreturns : Eff.Returns m.updateValidatorStatuses s () t) :
    OthersAsOnChain consAddr chain s := by
  intro v hv hother hknown
  obtain ⟨-, htables⟩ := updateValidatorStatuses_returns hserves hreturns
  simp only [refreshTables, Prod.mk.injEq] at htables
  obtain ⟨hvalidator, hstatus, hpower⟩ := htables
  have hne : consAddr v ≠ "" := (hserves.readable _ v hv).address_ne
  obtain ⟨hsamePower, hsameStatus⟩ := refreshed_others (s := s) hne (hserves.other hv hother)
  refine (asOnChain_congr ?_ ?_).mp (h t hreturns v hv ?_)
  · rw [hpower, hsamePower]
  · rw [hstatus, hsameStatus]
  · unfold Db.hasValidator
    rw [hvalidator]
    exact refreshed_hasValidator hknown

end

/-- In a run that meets the condition at every refresh, each refresh that returns no
error leaves fresh rows; and it never does where the rows of a validator that is
not bonded have to change. -/
theorem fresh_statuses_throughout {m : Module} {consAddr : StakingValidator → String}
    {consPubKey : StakingValidator → PubKey} {chain : Int → List StakingValidator}
    (hserves : Serves m consAddr consPubKey chain) (s : Db) (events : List Event) :
    (AtRefreshes m (RefreshReaches consAddr chain) s events →
      AtRefreshes m (RefreshesAll m consAddr chain) s events) ∧
    (AtRefreshes m (RefreshesAll m consAddr chain) s events →
      AtRefreshes m (fun s => (∃ t, Eff.Returns m.updateValidatorStatuses s () t) →
        OthersAsOnChain consAddr chain s) s events) := by
  refine ⟨.imp fun s => refreshesAll hserves, .imp fun s h => ?_⟩
  rintro ⟨t, hreturns⟩
  exact others_of_refreshesAll hserves h hreturns

def jailing (jailedAt height : Int) : List StakingValidator :=
  if height < jailedAt then [plainValidator "a" false 3 7, plainValidator "b" true 2 9]
  else [plainValidator "a" true 2 7, plainValidator "b" true 2 9]

theorem jailing_serves (jailedAt : Int) :
    Serves (plain (jailing jailedAt)) plainAddr plainKey (jailing jailedAt) where
  readable height v hv := by
    refine plain_readable _ ?_
    unfold jailing at hv
    split at hv
    all_goals
      simp only [List.mem_cons, List.not_mem_nil, or_false] at hv
      rcases hv with rfl | rfl <;> decide
  distinct height := by
    unfold jailing
    split <;> decide
  answer height validators h := by
    obtain rfl := Except.ok.inj h
    exact List.filter_congr fun v _ => decide_eq_decide.mpr (by simp [bonded, bondedStatus])

def unbondingAtFive : Db :=
  { pairAtFive with
    validatorVotingPower := ⟨[⟨"b", 9, 4⟩], by decide⟩
    validatorStatus := ⟨[⟨"b", 2, true, 4⟩], by decide⟩ }

theorem fresh_statuses_bonded :
    AtRefreshes (plain (jailing 9)) (RefreshesAll (plain (jailing 9)) plainAddr (jailing 9))
      unbondingAtFive [.updateValidatorStatuses, .updateValidatorStatuses] := by
  refine (fresh_statuses_throughout (jailing_serves 9) _ _).1 ⟨?_, ?_, trivial⟩
  all_goals
    refine ⟨⟨by decide, by decide, ⟨by decide, by decide⟩, by decide⟩, ?_⟩
    unfold OthersAsOnChain AsOnChain
    decide

/-- Between the two refreshes block 6 is stored, and `a` is jailed there. -/
theorem jailed_validator_not_fresh :
    ¬ AtRefreshes (plain (jailing 6)) (RefreshesAll (plain (jailing 6)) plainAddr (jailing 6))
      unbondingAtFive [.updateValidatorStatuses,
        .other fun s => { s with block := s.block.upsert .ignore ⟨6, 0⟩ },
        .updateValidatorStatuses] := by
  rintro ⟨-, hlast, -⟩
  have hfresh := hlast _ (Prod.ext (by decide) rfl) (plainValidator "a" true 2 7) (by decide) (by decide)
  revert hfresh
  unfold AsOnChain
  decide

end SafrochainIndexer.Callisto.Staking
