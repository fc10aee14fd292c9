import SafrochainIndexer.Callisto.FreshStatuses

/-!
# What the statuses are

The refreshes only ever ask for bonded validators. Over any run, the ones that fail
included, a status that is stored is the one of a bonded validator, or the zero row
that stands for validators the database did not know.
-/

namespace SafrochainIndexer.Callisto.Staking

def zeroStatus : ValidatorStatusRow := ⟨"", 0, false, 0⟩

def OnlyBonded (s : Db) : Prop :=
  ∀ row ∈ s.validatorStatus.rows, row.status = bondedStatus ∨ row = zeroStatus

def Event.LeavesStatuses : Event → Prop
  | .updateValidatorStatuses => True
  | .other change => ∀ s, (change s).validatorStatus = s.validatorStatus

def run (m : Module) (s : Db) (events : List Event) : Db := events.foldl (Event.step m) s

section
variable {m : Module} {consAddr : StakingValidator → String} {consPubKey : StakingValidator → PubKey}
  {chain : Int → List StakingValidator} {height : Int} {s t : Db}

theorem savedStatus_new {statuses : List ValidatorStatus} {row : ValidatorStatusRow}
    (hrow : row ∈ (Eff.exec (saveValidatorsStatuses statuses) s).2.validatorStatus.rows) :
    row ∈ s.validatorStatus.rows ∨ row ∈ statusRows statuses := by
  obtain hsame | hwritten := savedStatuses statuses s
  · exact .inl (hsame ▸ hrow)
  · exact statusConflict_guards.mem_of_upserts (hwritten ▸ hrow)

theorem refreshed_status {validators : List StakingValidator} {row : ValidatorStatusRow}
    (hrow : row ∈ (refreshed consAddr consPubKey height validators s).validatorStatus.rows) :
    row ∈ s.validatorStatus.rows ∨ row = zeroStatus ∨
      ∃ v ∈ validators, row = statusRow consAddr height v := by
  have hfixes : Eff.Fixes Db.validatorStatus (saveValidatorsVotingPowers
      ((validators.map (refreshEntry consAddr consPubKey height s)).map Prod.fst)) :=
    saveValidatorsVotingPowers_fixes fun _ _ => rfl
  obtain hold | hnew := savedStatus_new hrow
  · exact .inl (hfixes s ▸ hold)
  · simp only [statusRows, List.map_map, List.mem_map, Function.comp_apply] at hnew
    obtain ⟨v, hv, rfl⟩ := hnew
    cases hknown : s.hasValidator (consAddr v) with
    | true => exact .inr (.inr ⟨v, hv, by simp [refreshEntry, hknown, statusEntry, statusRow]⟩)
    | false => exact .inr (.inl (by simp [refreshEntry, hknown, zeroStatus]))

theorem OnlyBonded.refreshed (hs : OnlyBonded s) :
    OnlyBonded (refreshed consAddr consPubKey height (bondedOf (chain height)) s) := by
  intro row hrow
  obtain hold | hzero | ⟨v, hv, rfl⟩ := refreshed_status hrow
  · exact hs row hold
  · exact .inr hzero
  · exact .inl (of_decide_eq_true (List.mem_filter.mp hv).2)

theorem getValidatorsWithStatus_bonded (hserves : Serves m consAddr consPubKey chain)
    {validators : List StakingValidator} {vals : List (Validator Int)}
    (h : Eff.Returns (m.getValidatorsWithStatus height bonded) s (validators, vals) t) :
    validators = bondedOf (chain height) ∧ t = s := by
  refine ⟨?_, (getValidatorsWithStatus_fixes m _ _).of_returns h⟩
  obtain ⟨found, _, hfound, hrest⟩ := Eff.returns_bind.mp h
  obtain ⟨_, _, -, hpair⟩ := Eff.returns_bind.mp hrest
  obtain rfl : found = validators := congrArg Prod.fst (Eff.returns_pure.mp hpair).1
  exact hserves.answer _ _ (Eff.returns_ofExcept.mp hfound).1

theorem updateValidatorStatuses_fails (hserves : Serves m consAddr consPubKey chain)
    (h : Eff.Fails m.updateValidatorStatuses s t) :
    refreshTables t = refreshTables s ∨
      refreshTables t = refreshTables
        (refreshed consAddr consPubKey (lastHeight s) (bondedOf (chain (lastHeight s))) s) := by
  unfold Module.updateValidatorStatuses at h
  have hlast : Eff.Returns (Eff.wrap "error while getting latest block height from db: "
      getLastBlockHeightAndTimestamp) s (lastBlock s.block.rows) s := rfl
  obtain hblock | ⟨block, _, hblock, h⟩ := Eff.fails_bind.mp h
  · exact absurd hblock hlast.not_fails
  obtain ⟨rfl, rfl⟩ := hlast.unique hblock
  obtain hvalidators | ⟨⟨validators, vals⟩, u, hvalidators, h⟩ := Eff.fails_bind.mp h
  · rw [(getValidatorsWithStatus_fixes m _ _).of_fails (Eff.fails_wrap.mp hvalidators)]
    exact .inl rfl
  obtain ⟨rfl, rfl⟩ := getValidatorsWithStatus_bonded hserves (Eff.returns_wrap.mp hvalidators)
  have hread : ∀ v ∈ bondedOf (chain (lastHeight u)), Readable m consAddr consPubKey v :=
    fun v hv => hserves.readable _ v (List.mem_filter.mp hv).1
  obtain hupdate | ⟨_, w, hupdate, h⟩ := Eff.fails_bind.mp h
  · have hlarge : ∃ v ∈ bondedOf (chain (lastHeight u)),
        u.hasValidator (consAddr v) = true ∧ ¬IsInt64 v.tokens := by
      by_contra hfits
      push Not at hfits
      exact (update_returns hread hfits).not_fails (Eff.fails_wrap.mp hupdate)
    have hstate := (Eff.fails_wrap.mp hupdate).state
    have hsame : u = t := (congrArg Prod.snd (update_panics hread hlarge)).symm.trans hstate
    exact .inl (congrArg refreshTables hsame.symm)
  · obtain ⟨-, rfl⟩ := (update_returns_iff hread).mp (Eff.returns_wrap.mp hupdate)
    refine .inr (Eff.Fixes.of_fails ?_ h)
    exact .bind (.wrap (.bind .get fun _ => .pure)) fun ids =>
      .forM fun id _ => .wrap (snapshots_fixes m _ id _)

theorem onlyBonded_congr (h : refreshTables t = refreshTables s) : OnlyBonded t ↔ OnlyBonded s := by
  have hstatus : t.validatorStatus = s.validatorStatus := congrArg (·.2.1) h
  unfold OnlyBonded
  rw [hstatus]

theorem OnlyBonded.updated (hserves : Serves m consAddr consPubKey chain) (hs : OnlyBonded s) :
    OnlyBonded (Eff.exec m.updateValidatorStatuses s).2 := by
  obtain ⟨_, hreturns⟩ | hfails := Eff.returns_or_fails m.updateValidatorStatuses s
  · obtain ⟨-, htables⟩ := updateValidatorStatuses_returns hserves hreturns
    exact (onlyBonded_congr htables).mpr hs.refreshed
  · obtain hsame | hrefreshed := updateValidatorStatuses_fails hserves hfails
    · exact (onlyBonded_congr hsame).mpr hs
    · exact (onlyBonded_congr hrefreshed).mpr hs.refreshed

theorem OnlyBonded.step (hserves : Serves m consAddr consPubKey chain) {event : Event}
    (hevent : event.LeavesStatuses) (hs : OnlyBonded s) : OnlyBonded (event.step m s) := by
  cases event with
  | updateValidatorStatuses => exact hs.updated hserves
  | other change =>
    unfold OnlyBonded
    rw [Event.step, hevent s]
    exact hs

theorem OnlyBonded.run (hserves : Serves m consAddr consPubKey chain) {events : List Event}
    (hevents : ∀ event ∈ events, event.LeavesStatuses) (hs : OnlyBonded s) :
    OnlyBonded (run m s events) := by
  induction events generalizing s with
  | nil => exact hs
  | cons event events ih =>
    obtain ⟨hevent, hevents⟩ := List.forall_mem_cons.mp hevents
    exact ih hevents (hs.step hserves hevent)

theorem bonded_rows (hserves : Serves m consAddr consPubKey chain)
    (hreaches : BatchReaches consAddr chain s)
    (h : Eff.Returns m.updateValidatorStatuses s () t) {v : StakingValidator}
    (hv : v ∈ bondedOf (chain (lastHeight s))) :
    t.hasValidator (consAddr v) = true ∧
      t.validatorStatus.find (consAddr v) = some (statusRow consAddr (lastHeight s) v) ∧
      t.validatorVotingPower.find (consAddr v) = some (powerRow consAddr (lastHeight s) v) := by
  have hrefreshed := hreaches.refreshed hserves h
  have hknown := hreaches.known v hv
  refine ⟨?_, hrefreshed.status v hv hknown, hrefreshed.power v hv hknown⟩
  unfold Db.hasValidator at hknown ⊢
  rw [hrefreshed.validator]
  exact hknown

end

end SafrochainIndexer.Callisto.Staking
