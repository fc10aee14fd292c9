import SafrochainIndexer.Callisto.Database

/-!
# Pruning

`Db.Prune` deletes what was stored at one height, table by table: those of Juno
first, which `juno` stands for, then those of the modules. Every statement
commits on its own, so what was deleted before an error stays deleted.

`pruneMint` returns an error whether the deletion succeeds or not. No pruning
succeeds (`prune_never_succeeds`), and the tables that come after `inflation`
are never pruned.
-/

namespace SafrochainIndexer.Callisto

/-- The foreign key by which an evidence holds a vote back. -/
def voteReferenced (s : Db) (vote : DoubleSignVoteRow) : Option String :=
  let heldBy (column : String) :=
    s!"pq: update or delete on table \"double_sign_vote\" violates foreign key constraint \"double_sign_evidence_{column}_fkey\" on table \"double_sign_evidence\""
  if s.doubleSignEvidence.any fun evidence => evidence.voteAId = vote.id then some (heldBy "vote_a_id")
  else if s.doubleSignEvidence.any fun evidence => evidence.voteBId = vote.id then
    some (heldBy "vote_b_id")
  else none

def deleteDoubleSignEvidence (height : Int) : Eff Db Unit :=
  modify fun s =>
    { s with doubleSignEvidence := s.doubleSignEvidence.filter fun evidence => evidence.height ≠ height }

def pruneBank (height : Int) : Eff Db Unit :=
  Eff.wrap "error while pruning supply: " (supplyTable.delete (·.height = height))

def pruneStaking (height : Int) : Eff Db Unit := do
  Eff.wrap "error while pruning staking pool: " (stakingPoolTable.delete (·.height = height))
  Eff.wrap "error while pruning validator commission: "
    (validatorCommissionTable.delete (·.height = height))
  Eff.wrap "error while pruning validator voting power: "
    (validatorVotingPowerTable.delete (·.height = height))
  Eff.wrap "error while pruning validator status: " (validatorStatusTable.delete (·.height = height))
  Eff.wrap "error while pruning double sign votes: "
    (doubleSignVoteTable.deleteUnreferenced voteReferenced (·.height = height))
  Eff.wrap "error while pruning double sign evidence: " (deleteDoubleSignEvidence height)

/-- `return fmt.Errorf("error while pruning inflation: %s", err)`, where `err` may
be `nil`. -/
def pruneMint (height : Int) : Eff Db Unit := do
  Eff.wrap "error while pruning inflation: " (inflationTable.delete (·.height = height))
  Eff.fail "error while pruning inflation: %!s(<nil>)"

def pruneDistribution (height : Int) : Eff Db Unit :=
  Eff.wrap "error while pruning community pool: " (communityPoolTable.delete (·.height = height))

def pruneSlashing (height : Int) : Eff Db Unit := do
  Eff.wrap "error while pruning validator signing info: "
    (validatorSigningInfoTable.delete (·.height = height))
  Eff.wrap "error while pruning slashing params: " (slashingParamsTable.delete (·.height = height))

def prune (juno : Int → Eff Db Unit) (height : Int) : Eff Db Unit := do
  Eff.wrap "error while pruning db: " (juno height)
  Eff.wrap "error while pruning bank: " (pruneBank height)
  Eff.wrap "error while pruning staking: " (pruneStaking height)
  Eff.wrap "error while pruning mint: " (pruneMint height)
  Eff.wrap "error while pruning distribution: " (pruneDistribution height)
  Eff.wrap "error while pruning slashing: " (pruneSlashing height)

-- ---------------------------------------------------------------------------
-- Outcomes
-- ---------------------------------------------------------------------------

/-- The vote that keeps the votes of a height from being deleted. -/
def Db.heldVote (s : Db) (height : Int) : Option String :=
  (s.doubleSignVote.rows.filter fun vote => vote.height = height).findSome? (voteReferenced s)

def Db.prunedSupply (s : Db) (height : Int) : Db :=
  { s with supply := s.supply.delete (·.height = height) }

/-- Without what `pruneStaking` deletes before the votes. -/
def Db.prunedStaking (s : Db) (height : Int) : Db :=
  { s with
    stakingPool := s.stakingPool.delete (·.height = height)
    validatorCommission := s.validatorCommission.delete (·.height = height)
    validatorVotingPower := s.validatorVotingPower.delete (·.height = height)
    validatorStatus := s.validatorStatus.delete (·.height = height) }

def Db.prunedDoubleSigns (s : Db) (height : Int) : Db :=
  { s with
    doubleSignVote := s.doubleSignVote.delete (·.height = height)
    doubleSignEvidence := s.doubleSignEvidence.filter fun evidence => evidence.height ≠ height }

def Db.prunedInflation (s : Db) (height : Int) : Db :=
  { s with inflation := s.inflation.delete (·.height = height) }

section
variable (height : Int) (s : Db)

theorem wrap_delete_returns {ρ κ : Type} {key : ρ → κ} (R : Relation Db key) (context : String)
    (p : ρ → Bool) :
    Eff.Returns (Eff.wrap context (R.delete p)) s () (R.write ((R.read s).delete p) s) :=
  Eff.returns_wrap.mpr (Relation.delete_returns.mpr rfl)

theorem pruneBank_returns : Eff.Returns (pruneBank height) s () (s.prunedSupply height) :=
  wrap_delete_returns s supplyTable ..

/-- The last two of the six deletions happen unless a vote is held. -/
theorem exec_pruneStaking :
    Eff.exec (pruneStaking height) s =
      match s.heldVote height with
      | some message =>
        (.error (.error ("error while pruning double sign votes: " ++ message)),
          s.prunedStaking height)
      | none => (.ok (), (s.prunedStaking height).prunedDoubleSigns height) := by
  have hvotes :
      Eff.exec (doubleSignVoteTable.deleteUnreferenced voteReferenced (·.height = height))
        (s.prunedStaking height) =
        match s.heldVote height with
        | some message => (.error (.error message), s.prunedStaking height)
        | none => (.ok (), doubleSignVoteTable.write (s.doubleSignVote.delete (·.height = height))
            (s.prunedStaking height)) :=
    Relation.exec_deleteUnreferenced ..
  rw [pruneStaking, (wrap_delete_returns s stakingPoolTable ..).exec_bind,
    (wrap_delete_returns _ validatorCommissionTable ..).exec_bind,
    (wrap_delete_returns _ validatorVotingPowerTable ..).exec_bind,
    (wrap_delete_returns _ validatorStatusTable ..).exec_bind]
  show Eff.exec _ (s.prunedStaking height) = _
  rw [Eff.exec_bind, Eff.exec_wrap, hvotes]
  cases s.heldVote height <;> rfl

theorem exec_pruneMint :
    Eff.exec (pruneMint height) s =
      (.error (.error "error while pruning inflation: %!s(<nil>)"), s.prunedInflation height) := by
  rw [pruneMint, (wrap_delete_returns s inflationTable ..).exec_bind]
  rfl

end

/-- Once Juno is done, either a held vote or `pruneMint` ends the pruning. -/
theorem exec_prune {juno : Int → Eff Db Unit} {height : Int} {s t : Db}
    (hj : Eff.Returns (juno height) s () t) :
    Eff.exec (prune juno height) s =
      let u := (t.prunedSupply height).prunedStaking height
      match t.heldVote height with
      | some message =>
        (.error (.error ("error while pruning staking: " ++
          ("error while pruning double sign votes: " ++ message))), u)
      | none =>
        (.error (.error "error while pruning mint: error while pruning inflation: %!s(<nil>)"),
          (u.prunedDoubleSigns height).prunedInflation height) := by
  have hheld : (t.prunedSupply height).heldVote height = t.heldVote height := rfl
  rw [prune, (Eff.returns_wrap.mpr hj).exec_bind,
    (Eff.returns_wrap.mpr (pruneBank_returns height t)).exec_bind, Eff.exec_bind, Eff.exec_wrap,
    exec_pruneStaking, hheld]
  cases t.heldVote height with
  | some message => rfl
  | none =>
    show Eff.exec _ (((t.prunedSupply height).prunedStaking height).prunedDoubleSigns height) = _
    rw [Eff.exec_bind, Eff.exec_wrap, exec_pruneMint]
    rfl

-- ---------------------------------------------------------------------------
-- Success
-- ---------------------------------------------------------------------------

def Db.ofModules (s : Db) : Db := { s with block := default, validator := default }

/-- Juno's own pruning succeeds and leaves the tables of the modules alone. -/
def JunoPrunes (juno : Int → Eff Db Unit) : Prop :=
  ∀ height s, ∃ t, Eff.Returns (juno height) s () t ∧ t.ofModules = s.ofModules

/-- Nothing that pruning is to delete is left from the height. -/
structure Db.ClearedAt (s : Db) (height : Int) : Prop where
  supply : ∀ r ∈ s.supply.rows, r.height ≠ height
  stakingPool : ∀ r ∈ s.stakingPool.rows, r.height ≠ height
  validatorCommission : ∀ r ∈ s.validatorCommission.rows, r.height ≠ height
  validatorVotingPower : ∀ r ∈ s.validatorVotingPower.rows, r.height ≠ height
  validatorStatus : ∀ r ∈ s.validatorStatus.rows, r.height ≠ height
  doubleSignVote : ∀ r ∈ s.doubleSignVote.rows, r.height ≠ height
  doubleSignEvidence : ∀ r ∈ s.doubleSignEvidence, r.height ≠ height
  inflation : ∀ r ∈ s.inflation.rows, r.height ≠ height
  communityPool : ∀ r ∈ s.communityPool.rows, r.height ≠ height
  validatorSigningInfo : ∀ r ∈ s.validatorSigningInfo.rows, r.height ≠ height
  slashingParams : ∀ r ∈ s.slashingParams.rows, r.height ≠ height

def Prunes (juno : Int → Eff Db Unit) (s : Db) (height : Int) : Prop :=
  ∃ t, Eff.Returns (prune juno height) s () t ∧ t.ClearedAt height

def PruneStops (juno : Int → Eff Db Unit) (s : Db) (height : Int) : Prop :=
  ∃ message t, Eff.exec (prune juno height) s = (.error (.error message), t) ∧
    t.communityPool = s.communityPool ∧ t.validatorSigningInfo = s.validatorSigningInfo ∧
    t.slashingParams = s.slashingParams

theorem pruneStops {juno : Int → Eff Db Unit} (hj : JunoPrunes juno) (s : Db) (height : Int) :
    PruneStops juno s height := by
  obtain ⟨t, ht, hsame⟩ := hj height s
  have hprune := exec_prune ht
  have hpool : t.communityPool = s.communityPool := (congrArg Db.communityPool hsame :)
  have hinfo : t.validatorSigningInfo = s.validatorSigningInfo :=
    (congrArg Db.validatorSigningInfo hsame :)
  have hparams : t.slashingParams = s.slashingParams := (congrArg Db.slashingParams hsame :)
  cases hheld : t.heldVote height with
  | some message =>
    rw [hheld] at hprune
    exact ⟨_, _, hprune, hpool, hinfo, hparams⟩
  | none =>
    rw [hheld] at hprune
    exact ⟨_, _, hprune, hpool, hinfo, hparams⟩

theorem PruneStops.not_prunes {juno : Int → Eff Db Unit} {s : Db} {height : Int}
    (h : PruneStops juno s height) : ¬Prunes juno s height := by
  obtain ⟨message, t, ht, -⟩ := h
  rintro ⟨u, hu, -⟩
  have heq := ht.symm.trans hu
  simp at heq

/-- No state and no height is pruned without an error. -/
theorem prune_never_succeeds (juno : Int → Eff Db Unit) (hj : JunoPrunes juno) (s : Db)
    (height : Int) : ¬Prunes juno s height ∧ PruneStops juno s height :=
  have hstops := pruneStops hj s height
  ⟨hstops.not_prunes, hstops⟩

theorem junoPrunes_pure : JunoPrunes fun _ => pure () := fun _ s => ⟨s, by simp, rfl⟩

theorem prune_never_succeeds_pool :
    let s : Db := { (default : Db) with communityPool := Table.empty.upsert .ignore ⟨[], 5⟩ }
    ¬Prunes (fun _ => pure ()) s 5 ∧ PruneStops (fun _ => pure ()) s 5 :=
  prune_never_succeeds _ junoPrunes_pure _ 5

/-- An empty database, and one with an evidence whose votes it refers to. -/
theorem prune_fails :
    let s : Db := { (default : Db) with
      validator := Table.empty.upsert .ignore ⟨"val", "key"⟩
      doubleSignVote := (Table.empty.upsert .ignore ⟨1, 2, 3, 0, "blockA", "val", 0, "sigA"⟩).upsert
        .ignore ⟨2, 2, 3, 0, "blockB", "val", 0, "sigB"⟩
      doubleSignEvidence := [⟨3, 1, 2⟩] }
    (Eff.exec (prune (fun _ => pure ()) 3) default).1 =
        .error (.error "error while pruning mint: error while pruning inflation: %!s(<nil>)") ∧
      (Eff.exec (prune (fun _ => pure ()) 3) s).1 =
        .error (.error "error while pruning staking: error while pruning double sign votes: pq: update or delete on table \"double_sign_vote\" violates foreign key constraint \"double_sign_evidence_vote_a_id_fkey\" on table \"double_sign_evidence\"") ∧
      ¬Prunes (fun _ => pure ()) default 3 ∧ ¬Prunes (fun _ => pure ()) s 3 := by
  intro s
  refine ⟨by decide +kernel, by decide +kernel, ?_, ?_⟩
  · exact (pruneStops junoPrunes_pure default 3).not_prunes
  · exact (pruneStops junoPrunes_pure s 3).not_prunes

end SafrochainIndexer.Callisto
