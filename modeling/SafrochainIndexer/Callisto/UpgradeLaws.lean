import SafrochainIndexer.Callisto.GovFrames
import SafrochainIndexer.Callisto.Upgrade
import SafrochainIndexer.Lib.Lockstep

/-!
# The pending upgrade plan

The chain has at most one pending plan: a passed proposal schedules one in its
place or cancels it, and its height clears it. `plan_mirrored_iff` says when
the table of plans holds just that one after every step of a run.
-/

namespace SafrochainIndexer.Callisto.Upgrade

open Gov (Module storedProposals)

/-- What a message of a passed proposal does on the chain. -/
inductive PlanAction
  | schedule (plan : Plan)
  | cancel
  deriving DecidableEq, Repr

-- `decode` is how the chain reads a v1beta1 content, `m.unpackContent` how the
-- handler does.
section
variable (decode : Any → Option LegacyContent) (m : Module)

def planAction (msg : Any) : Option PlanAction :=
  match m.unpackAny msg with
  | .ok (.msgSoftwareUpgrade plan) => some (.schedule plan)
  | .ok .msgCancelUpgrade => some .cancel
  | .ok (.msgExecLegacyContent content _) =>
    match decode content with
    | some (.softwareUpgradeProposal plan) => some (.schedule plan)
    | some .cancelSoftwareUpgradeProposal => some .cancel
    | _ => none
  | _ => none

def planActions (proposal : V1Proposal) : List PlanAction :=
  if proposal.status = .passed then proposal.messages.filterMap (planAction decode m) else []

/-- A content that the handler unpacks is the one that the chain read. -/
def ReadsAlike : Prop :=
  ∀ content c, m.unpackContent content = .ok c → decode content = some c

end

/-- The plan pending on the chain, as the row that tells of it. -/
def act (id : Nat) (height : Int) (_ : Option SoftwareUpgradePlanRow) :
    PlanAction → Option SoftwareUpgradePlanRow
  | .schedule plan => some (planRow id plan height)
  | .cancel => none

inductive Step
  | passed (proposal : V1Proposal) (height : Int)
  | block (height : Int)
  deriving DecidableEq, Repr

def Step.height : Step → Int
  | .passed _ height => height
  | .block height => height

section
variable (decode : Any → Option LegacyContent) (m : Module) (stakingModule : StakingModule)

def advance (pending : Option SoftwareUpgradePlanRow) : Step → Option SoftwareUpgradePlanRow
  | .passed proposal height => (planActions decode m proposal).foldl (act proposal.id height) pending
  | .block height => pending.filter fun row => height < row.upgradeHeight

def handle : Step → Eff Db Unit
  | .passed proposal height => m.handlePassedProposal proposal height
  | .block height => stakingModule.handleBlock height

def run (s : Db) (step : Step) : Db := (Eff.exec (handle m stakingModule step) s).2

def Mirrors (s : Db) (pending : Option SoftwareUpgradePlanRow) : Prop :=
  s.softwareUpgradePlan.rows = pending.toList

/-- A proposal that schedules or cancels meets no plan of another proposal, and
no handled block is past the height of the plan. -/
def Admits (pending : Option SoftwareUpgradePlanRow) : Step → Prop
  | .passed proposal _ =>
    planActions decode m proposal ≠ [] → ∀ row ∈ pending, row.proposalId = proposal.id
  | .block height => ∀ row ∈ pending, height ≤ row.upgradeHeight

def Succeeds (s : Db) (step : Step) : Prop :=
  Eff.Returns (handle m stakingModule step) s () (run m stakingModule s step)

end

-- ---------------------------------------------------------------------------
-- Handled steps
-- ---------------------------------------------------------------------------

def actTable (id : Nat) (height : Int) (t : Table SoftwareUpgradePlanRow.proposalId) :
    PlanAction → Table SoftwareUpgradePlanRow.proposalId
  | .schedule plan => t.upsert softwareUpgradePlanConflict (planRow id plan height)
  | .cancel => t.delete fun row => row.proposalId = id

variable {decode : Any → Option LegacyContent} {m : Module} {stakingModule : StakingModule} {s t : Db}

theorem planUnread : Gov.ParamsUnread Db.softwareUpgradePlan :=
  ⟨fun _ _ => rfl, fun _ _ => rfl, fun _ _ => rfl, fun _ _ => rfl, fun _ _ => rfl, fun _ _ => rfl⟩

theorem saveSoftwareUpgradePlan_table {context : String} {id : Nat} {plan : Plan} {height : Int}
    (h : Eff.Returns (Eff.wrap context (saveSoftwareUpgradePlan id plan height)) s () t) :
    t.softwareUpgradePlan = actTable id height s.softwareUpgradePlan (.schedule plan) :=
  Relation.insert_read (Eff.returns_wrap.mp (Eff.returns_wrap.mp h))

theorem deleteSoftwareUpgradePlan_table {context : String} {id : Nat} (height : Int)
    (h : Eff.Returns (Eff.wrap context (deleteSoftwareUpgradePlan id)) s () t) :
    t.softwareUpgradePlan = actTable id height s.softwareUpgradePlan .cancel := by
  obtain ⟨_, u, hp, hd⟩ := Eff.returns_bind.mp (Eff.returns_wrap.mp (Eff.returns_wrap.mp h))
  obtain ⟨-, rfl⟩ := integerParameter_returns.mp hp
  have ht := Relation.delete_returns.mp hd
  subst ht
  rfl

theorem paramChange_table {height : Int} (moduleName : String)
    (h : Eff.Returns (m.handleParamChangeProposal height moduleName) s () t) :
    t.softwareUpgradePlan = s.softwareUpgradePlan :=
  (Gov.handleParamChangeProposal_fixes m planUnread _ _).of_returns h

theorem handlePassedMessage_table (halike : ReadsAlike decode m) {proposal : V1Proposal}
    {height : Int} {msg : Any}
    (h : Eff.Returns (m.handlePassedMessage proposal height msg) s () t) :
    t.softwareUpgradePlan =
      (planAction decode m msg).toList.foldl (actTable proposal.id height) s.softwareUpgradePlan := by
  obtain ⟨sdkMsg, u, hunpack, h⟩ := Eff.returns_bind.mp h
  obtain ⟨hmsg, rfl⟩ := Eff.returns_ofExcept.mp (Eff.returns_wrap.mp hunpack)
  unfold planAction
  rw [hmsg]
  cases sdkMsg with
  | msgExecLegacyContent content cached =>
    obtain ⟨decoded, u, hunpack, h⟩ := Eff.returns_bind.mp h
    obtain ⟨hcontent, rfl⟩ := Eff.returns_ofFallible.mp (Eff.returns_wrap.mp hunpack)
    simp only [halike _ _ hcontent]
    cases decoded with
    | parameterChangeProposal subspaces =>
      refine Eff.Fixes.of_returns (.forM fun _ _ => .wrap ?_) h
      exact Gov.handleParamChangeProposal_fixes m planUnread _ _
    | softwareUpgradeProposal plan => exact saveSoftwareUpgradePlan_table h
    | cancelSoftwareUpgradeProposal => exact deleteSoftwareUpgradePlan_table height h
    | communityPoolSpendProposal recipient => exact Eff.Fixes.of_returns .pure h
    | other => exact Eff.Fixes.of_returns .pure h
  | msgSoftwareUpgrade plan => exact saveSoftwareUpgradePlan_table h
  | msgCancelUpgrade => exact deleteSoftwareUpgradePlan_table height h
  | msgCommunityPoolSpend recipient => exact Eff.Fixes.of_returns .pure h
  | other => exact Eff.Fixes.of_returns .pure h
  | distrMsgUpdateParams => exact paramChange_table "distribution" h
  | govMsgUpdateParams => exact paramChange_table "gov" h
  | mintMsgUpdateParams => exact paramChange_table "mint" h
  | slashingMsgUpdateParams => exact paramChange_table "slashing" h
  | stakingMsgUpdateParams => exact paramChange_table "staking" h

theorem handlePassedProposal_table (halike : ReadsAlike decode m) {proposal : V1Proposal} {height : Int}
    (h : Eff.Returns (m.handlePassedProposal proposal height) s () t) :
    t.softwareUpgradePlan =
      (planActions decode m proposal).foldl (actTable proposal.id height) s.softwareUpgradePlan := by
  unfold Module.handlePassedProposal at h
  unfold planActions
  split at h
  · rename_i hstatus
    obtain ⟨-, rfl⟩ := Eff.returns_pure.mp h
    rw [if_neg hstatus]
    rfl
  · rename_i hstatus
    rw [if_pos (not_not.mp hstatus)]
    generalize proposal.messages = msgs at h ⊢
    induction msgs generalizing s with
    | nil =>
      have hs := Eff.returns_forM_nil.mp h
      subst hs
      rfl
    | cons msg msgs ih =>
      obtain ⟨u, hu, ht⟩ := Eff.returns_forM_cons.mp h
      have hmsg := handlePassedMessage_table halike hu
      rw [ih ht, hmsg]
      cases ha : planAction decode m msg with
      | none => simp [ha]
      | some action => simp [ha]

theorem handleBlock_rows {height : Int} (h : Eff.Returns (stakingModule.handleBlock height) s () t) :
    t.softwareUpgradePlan.rows =
      if ∃ row ∈ s.softwareUpgradePlan.rows, row.upgradeHeight = height then
        s.softwareUpgradePlan.rows.filter fun row => height < row.upgradeHeight
      else s.softwareUpgradePlan.rows := by
  obtain ⟨exist, u, hcheck, h⟩ := Eff.returns_bind.mp (Eff.returns_wrap.mp h)
  obtain ⟨_, _, hget, hexist⟩ := Eff.returns_bind.mp (Eff.returns_wrap.mp hcheck)
  obtain ⟨rfl, rfl⟩ := Eff.returns_get.mp hget
  obtain ⟨rfl, rfl⟩ := Eff.returns_pure.mp hexist
  by_cases hplan : ∃ row ∈ s.softwareUpgradePlan.rows, row.upgradeHeight = height
  · rw [if_pos hplan]
    have hany : (s.softwareUpgradePlan.rows.any fun row => row.upgradeHeight = height) = true := by
      simpa using hplan
    simp only [hany, Bool.not_true, Bool.false_eq_true, if_false] at h
    obtain ⟨_, u, hrefresh, h⟩ := Eff.returns_bind.mp h
    have hu := (stakingModule.refresh_fixes height).of_returns (Eff.returns_wrap.mp hrefresh)
    have ht := Relation.delete_returns.mp (Eff.returns_wrap.mp (Eff.returns_wrap.mp h))
    subst ht
    change u.softwareUpgradePlan.rows.filter _ = _
    rw [hu]
    refine List.filter_congr fun row _ => ?_
    grind
  · rw [if_neg hplan]
    have hany : (s.softwareUpgradePlan.rows.any fun row => row.upgradeHeight = height) = false := by
      simpa using hplan
    simp only [hany, Bool.not_false, if_true] at h
    obtain ⟨-, rfl⟩ := Eff.returns_pure.mp h
    rfl

-- ---------------------------------------------------------------------------
-- Plans of one proposal
-- ---------------------------------------------------------------------------

theorem softwareUpgradePlanConflict_guards :
    softwareUpgradePlanConflict.Guards SoftwareUpgradePlanRow.height where
  set_eq stored excluded hk := by
    cases stored; cases excluded
    simpa [softwareUpgradePlanConflict] using hk
  guard_iff _ _ := decide_eq_true_iff

section
variable {id : Nat} {height : Int} {pending : Option SoftwareUpgradePlanRow}
  {table : Table SoftwareUpgradePlanRow.proposalId}

def Own (id : Nat) (height : Int) (pending : Option SoftwareUpgradePlanRow) : Prop :=
  ∀ row ∈ pending, row.proposalId = id ∧ row.height ≤ height

theorem own_act (pending : Option SoftwareUpgradePlanRow) (action : PlanAction) :
    Own id height (act id height pending action) := by
  cases action with
  | schedule plan =>
    intro row hrow
    obtain rfl := Option.mem_some_iff.mp hrow
    exact ⟨rfl, le_rfl⟩
  | cancel => simp [Own, act]

theorem actTable_rows (hown : Own id height pending) (hm : table.rows = pending.toList)
    (action : PlanAction) :
    (actTable id height table action).rows = (act id height pending action).toList := by
  have hfind := Table.rows_eq_toList_iff.mp hm
  refine Table.rows_eq_toList_iff.mpr fun k => ?_
  have hother : k ≠ id → table.find k = none := by
    intro hk
    refine (hfind k).trans (Option.filter_eq_none_iff.mpr fun row hrow => ?_)
    simpa [(hown row hrow).1] using Ne.symm hk
  cases action with
  | schedule plan =>
    refine (Table.find_upsert _ _ _ _).trans ?_
    by_cases hk : k = id
    · subst hk
      have hres := softwareUpgradePlanConflict_guards.resolve_eq (r := planRow k plan height)
        fun o ho => Table.find_key (t := table) ho
      have hnew : Register.offer SoftwareUpgradePlanRow.height (table.find k) (planRow k plan height) =
          planRow k plan height := by
        cases hf : table.find k with
        | none => rfl
        | some row =>
          have hrow := Option.mem_filter_iff.mp ((hfind k).symm.trans hf)
          have hle := (hown row hrow.1).2
          simp [planRow, hle]
      have hstored : softwareUpgradePlanConflict.resolve (table.find k) (planRow k plan height) =
          planRow k plan height := hres.trans hnew
      have hid : (planRow k plan height).proposalId = k := rfl
      simp [hstored, act, Option.filter, hid]
    · have hne : (planRow id plan height).proposalId ≠ k := Ne.symm hk
      simp [act, hother hk, hne, Ne.symm hne, Option.filter]
  | cancel =>
    refine (Table.find_delete _ _).trans ?_
    by_cases hk : k = id
    · subst hk
      cases hf : table.find k with
      | none => rfl
      | some row => simp [act, Table.find_key hf, Option.filter]
    · simp [act, hother hk]

theorem foldl_actTable_rows (actions : List PlanAction) (hown : Own id height pending)
    (hm : table.rows = pending.toList) :
    (actions.foldl (actTable id height) table).rows =
      (actions.foldl (act id height) pending).toList := by
  induction actions generalizing table pending with
  | nil => exact hm
  | cons action actions ih => exact ih (own_act pending action) (actTable_rows hown hm action)

/-- No action of a proposal touches the plan of another one. -/
theorem find_foldl_actTable (height : Int) (actions : List PlanAction) {k : Nat} (hk : k ≠ id) :
    (actions.foldl (actTable id height) table).find k = table.find k := by
  induction actions generalizing table with
  | nil => rfl
  | cons action actions ih =>
    refine ih.trans ?_
    cases action with
    | schedule plan => exact Table.find_upsert_ne _ _ hk
    | cancel =>
      refine (Table.find_delete _ _).trans ?_
      cases hf : table.find k with
      | none => rfl
      | some row => simp [Table.find_key hf, hk, Option.filter]

theorem own_foldl_act {actions : List PlanAction} (h : actions ≠ []) :
    Own id height (actions.foldl (act id height) pending) := by
  induction actions generalizing pending with
  | nil => exact absurd rfl h
  | cons action actions ih =>
    by_cases hnil : actions = []
    · subst hnil
      exact own_act pending action
    · exact ih hnil

end

-- ---------------------------------------------------------------------------
-- Steps and runs
-- ---------------------------------------------------------------------------

variable {pending : Option SoftwareUpgradePlanRow}

theorem mirrors_passed_iff (halike : ReadsAlike decode m) {proposal : V1Proposal} {height : Int}
    (hm : Mirrors s pending)
    (hh : ∀ row ∈ pending, row.height ≤ height)
    (h : Eff.Returns (m.handlePassedProposal proposal height) s () t) :
    Mirrors t (advance decode m pending (.passed proposal height)) ↔
      Admits decode m pending (.passed proposal height) := by
  unfold Mirrors
  rw [handlePassedProposal_table halike h]
  constructor
  · intro hafter hne row hrow
    by_contra hid
    have hstored : s.softwareUpgradePlan.find row.proposalId = some row :=
      Table.find_of_mem (by rw [hm]; simpa using hrow)
    have hkept := (find_foldl_actTable height (planActions decode m proposal) hid).trans hstored
    have hin := Table.mem_of_find hkept
    rw [hafter] at hin
    exact hid (own_foldl_act hne row (Option.mem_toList.mp hin)).1
  · intro hadmits
    by_cases hnil : planActions decode m proposal = []
    · simp only [advance, hnil, List.foldl_nil]
      exact hm
    · exact foldl_actTable_rows _ (fun row hrow => ⟨hadmits hnil row hrow, hh row hrow⟩) hm

theorem mirrors_block_iff {height : Int} (hm : Mirrors s pending)
    (h : Eff.Returns (stakingModule.handleBlock height) s () t) :
    Mirrors t (advance decode m pending (.block height)) ↔ Admits decode m pending (.block height) := by
  unfold Mirrors at hm ⊢
  rw [handleBlock_rows h, hm]
  cases pending with
  | none => simp [Admits, advance]
  | some row =>
    rcases lt_trichotomy row.upgradeHeight height with hlt | heq | hgt
    · have hne := hlt.ne
      simp [Admits, advance, Option.filter, hne, hlt.not_gt, hlt]
    · subst heq
      simp [Admits, advance, Option.filter]
    · have hne := hgt.ne'
      simp [Admits, advance, Option.filter, hne, hgt, hgt.le]

theorem mirrors_step_iff {step : Step} (halike : ReadsAlike decode m)
    (hm : Mirrors s pending) (hh : ∀ row ∈ pending, row.height ≤ step.height)
    (hok : Succeeds m stakingModule s step) :
    Mirrors (run m stakingModule s step) (advance decode m pending step) ↔
      Admits decode m pending step := by
  cases step with
  | passed proposal height => exact mirrors_passed_iff halike hm hh hok
  | block height => exact mirrors_block_iff hm hok

theorem height_foldl_act {id : Nat} {height : Int} {actions : List PlanAction}
    {row : SoftwareUpgradePlanRow} (h : row ∈ actions.foldl (act id height) pending) :
    row ∈ pending ∨ row.height ≤ height := by
  by_cases hnil : actions = []
  · subst hnil
    exact .inl h
  · exact .inr (own_foldl_act hnil row h).2

theorem each_height {steps : List Step} (hs : steps.Pairwise fun a b => a.height ≤ b.height)
    (hp : ∀ row ∈ pending, ∀ step ∈ steps, row.height ≤ step.height) :
    Lockstep.Each (run m stakingModule) (advance decode m)
      (fun _ pending step => ∀ row ∈ pending, row.height ≤ step.height) s pending steps := by
  induction steps generalizing s pending with
  | nil => trivial
  | cons step steps ih =>
    obtain ⟨hfirst, hs⟩ := List.pairwise_cons.mp hs
    refine ⟨fun row hrow => hp row hrow step (by simp), ih hs fun row hrow later hlater => ?_⟩
    have hold : row ∈ pending ∨ row.height ≤ step.height := by
      cases step with
      | passed proposal height => exact height_foldl_act hrow
      | block height => exact .inl (Option.mem_filter_iff.mp hrow).1
    rcases hold with hold | hnew
    · exact hp row hold later (List.mem_cons_of_mem _ hlater)
    · exact hnew.trans (hfirst later hlater)

/-- Over a run in the order of the chain the table holds the pending plan after
every step exactly if every step admits the plan that it meets. -/
theorem plan_mirrored_iff {steps : List Step} (halike : ReadsAlike decode m) (hm : Mirrors s pending)
    (hs : steps.Pairwise fun a b => a.height ≤ b.height)
    (hp : ∀ row ∈ pending, ∀ step ∈ steps, row.height ≤ step.height)
    (hok : Lockstep.Each (run m stakingModule) (advance decode m)
      (fun s _ step => Succeeds m stakingModule s step) s pending steps) :
    Lockstep.Throughout (run m stakingModule) (advance decode m) Mirrors s pending steps ↔
      Lockstep.Each (run m stakingModule) (advance decode m) (fun _ pending step => Admits decode m pending step)
        s pending steps := by
  refine Lockstep.throughout_iff ?_ (hok.and (each_height hs hp)) hm
  rintro s pending step hm ⟨hok, hh⟩
  exact mirrors_step_iff halike hm hh hok

def upgradeContents (content : Any) : Option LegacyContent :=
  match content.typeUrl with
  | "/cosmos.upgrade.v1beta1.SoftwareUpgradeProposal" =>
    some (.softwareUpgradeProposal ⟨content.value, 100, ""⟩)
  | "/cosmos.upgrade.v1beta1.CancelSoftwareUpgradeProposal" => some .cancelSoftwareUpgradeProposal
  | _ => some .other

/-- Its messages may be legacy ones, and its codec for contents has no registry. -/
def legacy : Module :=
  { Gov.plain with
    unpackAny := fun any =>
      if any.typeUrl = "/cosmos.gov.v1.MsgExecLegacyContent" then
        .ok (.msgExecLegacyContent
          ⟨"/cosmos.upgrade.v1beta1.SoftwareUpgradeProposal", any.value⟩ none)
      else Gov.plain.unpackAny any }

theorem legacy_readsAlike : ReadsAlike upgradeContents legacy := by
  intro content c h
  cases h

def noValidators : StakingModule := ⟨fun _ => pure (), fun _ => .pure⟩

def upgradePassed : Step :=
  .passed ⟨1, "", "", "", [⟨"/cosmos.upgrade.v1beta1.MsgSoftwareUpgrade", "v2"⟩], .passed,
    none, none, none, none⟩ 5

def cancelPassed : Step :=
  .passed ⟨2, "", "", "", [⟨"/cosmos.upgrade.v1beta1.MsgCancelUpgrade", ""⟩], .passed,
    none, none, none, none⟩ 7

def legacyPassed : Step :=
  .passed ⟨1, "", "", "", [⟨"/cosmos.gov.v1.MsgExecLegacyContent", "v2"⟩], .passed,
    none, none, none, none⟩ 5

theorem plan_mirrored_iff_reached :
    Lockstep.Throughout (run legacy noValidators) (advance upgradeContents legacy) Mirrors storedProposals
      none [upgradePassed, .block 100] := by
  have hm : Mirrors storedProposals none := rfl
  have hok : Lockstep.Each (run legacy noValidators) (advance upgradeContents legacy)
      (fun s _ step => Succeeds legacy noValidators s step) storedProposals none
      [upgradePassed, .block 100] := ⟨rfl, rfl, trivial⟩
  refine (plan_mirrored_iff legacy_readsAlike hm (by decide) (by simp) hok).mpr
    ⟨fun _ => by simp, ?_, trivial⟩
  intro row hrow
  have hplan : row ∈ some (planRow 1 ⟨"v2", 100, ""⟩ 5) := hrow
  obtain rfl := Option.mem_some_iff.mp hplan
  exact le_rfl

/-- The plan of one proposal outlives its cancellation by another, and the plan of
a v1beta1 content is not stored at all. -/
theorem cancelled_plan_stays :
    (Lockstep.Each (run legacy noValidators) (advance upgradeContents legacy)
      (fun s _ step => Succeeds legacy noValidators s step) storedProposals none
      [upgradePassed, cancelPassed] ∧
    ¬ Lockstep.Throughout (run legacy noValidators) (advance upgradeContents legacy) Mirrors
      storedProposals none [upgradePassed, cancelPassed]) ∧
    ¬ Lockstep.Throughout (run legacy noValidators) (advance upgradeContents legacy) Mirrors
      storedProposals none [legacyPassed] := by
  refine ⟨⟨⟨rfl, rfl, trivial⟩, ?_⟩, ?_⟩
  · rintro ⟨-, -, h⟩
    revert h
    unfold Lockstep.Throughout Mirrors
    decide
  · rintro ⟨-, h⟩
    revert h
    unfold Lockstep.Throughout Mirrors
    decide

end SafrochainIndexer.Callisto.Upgrade
