import SafrochainIndexer.Callisto.Accounts
import SafrochainIndexer.Lib.Script
import Mathlib.Algebra.Group.Int.Defs

/-!
# Double sign evidence

`SaveDoubleSignEvidences` stores the two votes of each evidence and then the
evidence, by the ids of its votes. A vote that is stored already has no id to
return: the call returns exactly for votes that are not there yet
(`saveDoubleSignEvidences_returns_iff`).
-/

namespace SafrochainIndexer.Callisto.Staking

structure DoubleSignVote where
  type : Int
  height : Int
  round : Int
  blockID : String
  validatorAddress : String
  validatorIndex : Int
  signature : String
  deriving DecidableEq, Repr

structure DoubleSignEvidence where
  voteA : DoubleSignVote
  voteB : DoubleSignVote
  height : Int
  deriving DecidableEq, Repr

/-- A `tmtypes.Evidence`, with its votes as texts. -/
inductive Evidence
  | duplicateVote (voteA voteB : DoubleSignVote)
  | lightClientAttack
  deriving DecidableEq, Repr

def DoubleSignVote.row (vote : DoubleSignVote) (id : Nat) : DoubleSignVoteRow where
  id := id
  type := vote.type
  height := vote.height
  round := vote.round
  blockId := vote.blockID
  validatorAddress := vote.validatorAddress
  validatorIndex := vote.validatorIndex
  signature := vote.signature

def DoubleSignVote.key (vote : DoubleSignVote) : String × String :=
  (vote.blockID, vote.validatorAddress)

def voteKey (row : DoubleSignVoteRow) : String × String := (row.blockId, row.validatorAddress)

/-- A column `SMALLINT` takes 16 bits. -/
def smallintColumn (n : Int) : Option String :=
  if -2 ^ 15 ≤ n ∧ n < 2 ^ 15 then none
  else some s!"pq: value \"{n}\" is out of range for type smallint"

/-- `nextval('double_sign_vote_id_seq')`. -/
def nextDoubleSignVoteId : Eff Db Nat := do
  let s ← get
  set { s with doubleSignVoteIdSeq := s.doubleSignVoteIdSeq + 1 }
  pure s.doubleSignVoteIdSeq

/-- `ON CONFLICT DO NOTHING RETURNING id` returns no row for a conflict. -/
def saveDoubleSignVote (vote : DoubleSignVote) : Eff Db Nat := do
  match smallintColumn vote.type with
  | some message => Eff.fail message
  | none => do
    let id ← nextDoubleSignVoteId
    let s ← get
    if s.doubleSignVote.rows.any fun row => row.id = id ∨ voteKey row = vote.key then
      Eff.fail "sql: no rows in result set"
    else do
      doubleSignVoteTable.insert .ignore [vote.row id]
      pure id

def evidenceViolation (s : Db) (row : DoubleSignEvidenceRow) : Option String :=
  foreignKey "double_sign_evidence" "vote_a_id" (s.doubleSignVote.find row.voteAId).isSome <|>
    foreignKey "double_sign_evidence" "vote_b_id" (s.doubleSignVote.find row.voteBId).isSome

/-- The table has no key: a conflict never arises. -/
def insertEvidences (rows : List DoubleSignEvidenceRow) : Eff Db Unit :=
  sending (rows.length * 3) do
    let s ← get
    match rows.findSome? (evidenceViolation s) with
    | some message => Eff.fail message
    | none => set { s with doubleSignEvidence := s.doubleSignEvidence ++ rows }

def saveVotes (ev : DoubleSignEvidence) : Eff Db DoubleSignEvidenceRow := do
  let voteA ← Eff.wrap "error while storing double sign vote: " (saveDoubleSignVote ev.voteA)
  let voteB ← Eff.wrap "error while storing double sign vote: " (saveDoubleSignVote ev.voteB)
  pure ⟨ev.height, voteA, voteB⟩

def saveDoubleSignEvidences (evidence : List DoubleSignEvidence) : Eff Db Unit :=
  if evidence.length = 0 then pure ()
  else do
    let rows ← evidence.mapM saveVotes
    Eff.wrap "error while storing double sign evidences: " (insertEvidences rows)

/-- Evidence of another kind is skipped. -/
def duplicateVotes (height : Int) (evidenceList : List Evidence) : List DoubleSignEvidence :=
  evidenceList.filterMap fun
    | .duplicateVote voteA voteB => some ⟨voteA, voteB, height⟩
    | .lightClientAttack => none

/-- An error is logged. -/
def updateDoubleSignEvidence (height : Int) (evidenceList : List Evidence) : Eff Db Unit :=
  Eff.attempt (saveDoubleSignEvidences (duplicateVotes height evidenceList))

-- ---------------------------------------------------------------------------
-- One vote
-- ---------------------------------------------------------------------------

def voteKeys (s : Db) : List (String × String) := s.doubleSignVote.rows.map voteKey

/-- What the constraints of the two tables say, and that the sequence is ahead of
the ids. -/
structure DoubleSignKeys (s : Db) : Prop where
  keys_nodup : (voteKeys s).Nodup
  ids_lt : ∀ vote ∈ s.doubleSignVote.rows, vote.id < s.doubleSignVoteIdSeq
  voteA_mem : ∀ row ∈ s.doubleSignEvidence, ∃ vote ∈ s.doubleSignVote.rows, vote.id = row.voteAId
  voteB_mem : ∀ row ∈ s.doubleSignEvidence, ∃ vote ∈ s.doubleSignVote.rows, vote.id = row.voteBId

def addVote (s : Db) (vote : DoubleSignVote) : Db :=
  { s with
    doubleSignVote := s.doubleSignVote.upsert .ignore (vote.row s.doubleSignVoteIdSeq)
    doubleSignVoteIdSeq := s.doubleSignVoteIdSeq + 1 }

def Storable (s : Db) (vote : DoubleSignVote) : Prop :=
  smallintColumn vote.type = none ∧ vote.key ∉ voteKeys s

section
variable {s t : Db} {vote : DoubleSignVote} {id : Nat}

theorem DoubleSignKeys.fresh (hs : DoubleSignKeys s) :
    s.doubleSignVote.find s.doubleSignVoteIdSeq = none := by
  rw [Table.find_eq_none_iff]
  intro hmem
  obtain ⟨row, hrow, he⟩ := List.mem_map.mp hmem
  exact Nat.lt_irrefl _ (he ▸ hs.ids_lt row hrow)

theorem addVote_rows (hs : DoubleSignKeys s) (vote : DoubleSignVote) :
    (addVote s vote).doubleSignVote.rows =
      s.doubleSignVote.rows ++ [vote.row s.doubleSignVoteIdSeq] := by
  have hfresh : (vote.row s.doubleSignVoteIdSeq).id ∉
      s.doubleSignVote.rows.map DoubleSignVoteRow.id := Table.find_eq_none_iff.mp hs.fresh
  simp [addVote, Table.upsert, hfresh]

theorem addVote_keys (hs : DoubleSignKeys s) (vote : DoubleSignVote) :
    voteKeys (addVote s vote) = voteKeys s ++ [vote.key] := by
  rw [voteKeys, addVote_rows hs, List.map_append]
  rfl

theorem DoubleSignKeys.addVote (hs : DoubleSignKeys s) (hv : vote.key ∉ voteKeys s) :
    DoubleSignKeys (addVote s vote) := by
  have hrows := addVote_rows hs vote
  constructor
  · rw [addVote_keys hs]
    exact List.nodup_append.mpr ⟨hs.keys_nodup, List.nodup_singleton _, by
      intro a ha b hb he
      exact hv (List.mem_singleton.mp hb ▸ he ▸ ha)⟩
  · rw [hrows]
    intro row hrow
    obtain hrow | hrow := List.mem_append.mp hrow
    · exact Nat.lt_succ_of_lt (hs.ids_lt row hrow)
    · rw [List.mem_singleton.mp hrow]
      exact Nat.lt_succ_self _
  · rw [hrows]
    intro row hrow
    obtain ⟨stored, hstored, he⟩ := hs.voteA_mem row hrow
    exact ⟨stored, List.mem_append_left _ hstored, he⟩
  · rw [hrows]
    intro row hrow
    obtain ⟨stored, hstored, he⟩ := hs.voteB_mem row hrow
    exact ⟨stored, List.mem_append_left _ hstored, he⟩

theorem conflict_iff (hs : DoubleSignKeys s) :
    (s.doubleSignVote.rows.any fun row =>
      row.id = s.doubleSignVoteIdSeq ∨ voteKey row = vote.key) = true ↔ vote.key ∈ voteKeys s := by
  simp only [List.any_eq_true, decide_eq_true_eq, voteKeys, List.mem_map]
  constructor
  · rintro ⟨row, hrow, hid | hkey⟩
    · exact absurd (hs.ids_lt row hrow) (hid ▸ Nat.lt_irrefl _)
    · exact ⟨row, hrow, hkey⟩
  · rintro ⟨row, hrow, hkey⟩
    exact ⟨row, hrow, .inr hkey⟩

/-- A vote that is stored already still draws an id. -/
theorem saveDoubleSignVote_fails (hs : DoubleSignKeys s)
    (hfit : smallintColumn vote.type = none) (hkey : vote.key ∈ voteKeys s) :
    Eff.Fails (saveDoubleSignVote vote) s
      { s with doubleSignVoteIdSeq := s.doubleSignVoteIdSeq + 1 } := by
  unfold saveDoubleSignVote
  rw [hfit]
  refine Eff.fails_bind.mpr (.inr ⟨_, _, rfl, Eff.fails_bind.mpr (.inr ⟨_, _, rfl, ?_⟩)⟩)
  rw [if_pos ((conflict_iff hs).mpr hkey)]
  exact Eff.fails_fail.mpr rfl

theorem saveDoubleSignVote_returns (hs : DoubleSignKeys s)
    (hvalidator : s.hasValidator vote.validatorAddress = true) (hv : Storable s vote) :
    Eff.Returns (saveDoubleSignVote vote) s s.doubleSignVoteIdSeq (addVote s vote) := by
  unfold saveDoubleSignVote
  rw [hv.1]
  refine Eff.returns_bind.mpr ⟨_, _, rfl, Eff.returns_bind.mpr ⟨_, _, rfl, ?_⟩⟩
  rw [if_neg fun h => hv.2 ((conflict_iff hs).mp h)]
  refine Eff.returns_bind.mpr ⟨_, _, Relation.insert_ok (by simp) fun row hrow _ => ?_, rfl⟩
  obtain rfl := List.mem_singleton.mp hrow
  have hfresh : s.doubleSignVote.find (vote.row s.doubleSignVoteIdSeq).id = none := hs.fresh
  change foreignKey _ _ (s.hasValidator
    (Conflict.resolve _ (s.doubleSignVote.find _) (vote.row _)).validatorAddress) = none
  rw [hfresh, Conflict.resolve_none]
  exact (congrArg _ hvalidator).trans (foreignKey_true ..)

theorem saveDoubleSignVote_returns_iff (hs : DoubleSignKeys s)
    (hvalidator : s.hasValidator vote.validatorAddress = true) :
    Eff.Returns (saveDoubleSignVote vote) s id t ↔
      Storable s vote ∧ id = s.doubleSignVoteIdSeq ∧ t = addVote s vote := by
  constructor
  · intro h
    have hv : Storable s vote := by
      cases hfit : smallintColumn vote.type with
      | some message =>
        unfold saveDoubleSignVote at h
        rw [hfit] at h
        exact absurd h Eff.returns_fail.mp
      | none => exact ⟨hfit, fun hkey => h.not_fails (saveDoubleSignVote_fails hs hfit hkey)⟩
    obtain ⟨hid, ht⟩ := h.unique (saveDoubleSignVote_returns hs hvalidator hv)
    exact ⟨hv, hid, ht⟩
  · rintro ⟨hv, rfl, rfl⟩
    exact saveDoubleSignVote_returns hs hvalidator hv

end

-- ---------------------------------------------------------------------------
-- All votes of a list
-- ---------------------------------------------------------------------------

def votesOf (evidence : List DoubleSignEvidence) : List DoubleSignVote :=
  evidence.flatMap fun ev => [ev.voteA, ev.voteB]

def evidenceRows (id : Nat) : List DoubleSignEvidence → List DoubleSignEvidenceRow
  | [] => []
  | ev :: evidence => ⟨ev.height, id, id + 1⟩ :: evidenceRows (id + 2) evidence

/-- No vote of the list is stored, and no two of them are at one block by one
validator. -/
structure FreshVotes (s : Db) (votes : List DoubleSignVote) : Prop where
  fit : ∀ vote ∈ votes, smallintColumn vote.type = none
  distinct : (voteKeys s ++ votes.map DoubleSignVote.key).Nodup

section
variable {s t : Db} {evidence : List DoubleSignEvidence}

theorem freshVotes_nil (hs : DoubleSignKeys s) : FreshVotes s [] := ⟨by simp, by simpa using hs.keys_nodup⟩

theorem freshVotes_cons_iff (hs : DoubleSignKeys s) {vote : DoubleSignVote} {votes : List DoubleSignVote} :
    FreshVotes s (vote :: votes) ↔ Storable s vote ∧ FreshVotes (addVote s vote) votes := by
  have hkeys : voteKeys s ++ (vote :: votes).map DoubleSignVote.key =
      voteKeys (addVote s vote) ++ votes.map DoubleSignVote.key := by
    rw [addVote_keys hs, List.map_cons, List.append_assoc]
    rfl
  constructor
  · rintro ⟨hfit, hdistinct⟩
    obtain ⟨hv, hvotes⟩ := List.forall_mem_cons.mp hfit
    refine ⟨⟨hv, fun hmem => ?_⟩, hvotes, hkeys ▸ hdistinct⟩
    exact (List.nodup_append.mp hdistinct).2.2 _ hmem _ (by simp) rfl
  · rintro ⟨⟨hv, -⟩, hvotes, hdistinct⟩
    exact ⟨List.forall_mem_cons.mpr ⟨hv, hvotes⟩, hkeys ▸ hdistinct⟩

theorem saveVotes_returns_iff (hs : DoubleSignKeys s) {ev : DoubleSignEvidence}
    (hA : s.hasValidator ev.voteA.validatorAddress = true)
    (hB : s.hasValidator ev.voteB.validatorAddress = true) {row : DoubleSignEvidenceRow} :
    Eff.Returns (saveVotes ev) s row t ↔ (Storable s ev.voteA ∧ Storable (addVote s ev.voteA) ev.voteB) ∧
      row = ⟨ev.height, s.doubleSignVoteIdSeq, s.doubleSignVoteIdSeq + 1⟩ ∧
      t = addVote (addVote s ev.voteA) ev.voteB := by
  unfold saveVotes
  simp only [Eff.returns_bind, Eff.returns_wrap, Eff.returns_pure]
  constructor
  · rintro ⟨idA, u, hvoteA, idB, v, hvoteB, rfl, rfl⟩
    obtain ⟨hstoreA, rfl, rfl⟩ := (saveDoubleSignVote_returns_iff hs hA).mp hvoteA
    obtain ⟨hstoreB, rfl, rfl⟩ :=
      (saveDoubleSignVote_returns_iff (hs.addVote hstoreA.2) hB).mp hvoteB
    exact ⟨⟨hstoreA, hstoreB⟩, rfl, rfl⟩
  · rintro ⟨⟨hstoreA, hstoreB⟩, rfl, rfl⟩
    exact ⟨_, _, saveDoubleSignVote_returns hs hA hstoreA, _, _,
      saveDoubleSignVote_returns (hs.addVote hstoreA.2) hB hstoreB, rfl, rfl⟩

theorem mapM_saveVotes_returns_iff (hs : DoubleSignKeys s)
    (hvalidator : ∀ vote ∈ votesOf evidence, s.hasValidator vote.validatorAddress = true)
    {rows : List DoubleSignEvidenceRow} :
    Eff.Returns (evidence.mapM saveVotes) s rows t ↔ FreshVotes s (votesOf evidence) ∧
      rows = evidenceRows s.doubleSignVoteIdSeq evidence ∧ t = (votesOf evidence).foldl addVote s := by
  induction evidence generalizing s rows with
  | nil => simp [votesOf, evidenceRows, freshVotes_nil hs, eq_comm]
  | cons ev evidence ih =>
    have hvotes : votesOf (ev :: evidence) = ev.voteA :: ev.voteB :: votesOf evidence := rfl
    rw [hvotes, List.forall_mem_cons, List.forall_mem_cons] at hvalidator
    obtain ⟨hA, hB, hrest⟩ := hvalidator
    rw [List.mapM_cons, hvotes]
    simp only [Eff.returns_bind, Eff.returns_pure]
    constructor
    · rintro ⟨row, u, hrow, rows', v, hrows, rfl, rfl⟩
      obtain ⟨⟨hstoreA, hstoreB⟩, rfl, rfl⟩ := (saveVotes_returns_iff hs hA hB).mp hrow
      have hs' := (hs.addVote hstoreA.2).addVote hstoreB.2
      obtain ⟨hfresh, rfl, rfl⟩ := (ih hs' hrest).mp hrows
      refine ⟨(freshVotes_cons_iff hs).mpr ⟨hstoreA, ?_⟩, rfl, rfl⟩
      exact (freshVotes_cons_iff (hs.addVote hstoreA.2)).mpr ⟨hstoreB, hfresh⟩
    · rintro ⟨hfresh, rfl, rfl⟩
      obtain ⟨hstoreA, hfreshA⟩ := (freshVotes_cons_iff hs).mp hfresh
      obtain ⟨hstoreB, hfreshB⟩ := (freshVotes_cons_iff (hs.addVote hstoreA.2)).mp hfreshA
      have hs' := (hs.addVote hstoreA.2).addVote hstoreB.2
      exact ⟨_, _, (saveVotes_returns_iff hs hA hB).mpr ⟨⟨hstoreA, hstoreB⟩, rfl, rfl⟩, _, _,
        (ih hs' hrest).mpr ⟨hfreshB, rfl, rfl⟩, rfl, rfl⟩

def voteRows (id : Nat) : List DoubleSignVote → List DoubleSignVoteRow
  | [] => []
  | vote :: votes => vote.row id :: voteRows (id + 1) votes

theorem addVotes_spec (hs : DoubleSignKeys s) {votes : List DoubleSignVote} (h : FreshVotes s votes) :
    DoubleSignKeys (votes.foldl addVote s) ∧
      (votes.foldl addVote s).doubleSignVote.rows =
        s.doubleSignVote.rows ++ voteRows s.doubleSignVoteIdSeq votes ∧
      (votes.foldl addVote s).doubleSignEvidence = s.doubleSignEvidence := by
  induction votes generalizing s with
  | nil => exact ⟨hs, by simp [voteRows], rfl⟩
  | cons vote votes ih =>
    obtain ⟨hv, hvotes⟩ := (freshVotes_cons_iff hs).mp h
    obtain ⟨hkeys, hrows, hevidence⟩ := ih (hs.addVote hv.2) hvotes
    refine ⟨hkeys, ?_, hevidence⟩
    rw [List.foldl_cons, hrows, addVote_rows hs, List.append_assoc]
    rfl

theorem length_evidenceRows (id : Nat) (evidence : List DoubleSignEvidence) :
    (evidenceRows id evidence).length = evidence.length := by
  induction evidence generalizing id with
  | nil => rfl
  | cons ev evidence ih => simp [evidenceRows, ih]

structure PointsAt (id : Nat) (votes : List DoubleSignVote) (row : DoubleSignEvidenceRow)
    (ev : DoubleSignEvidence) : Prop where
  height : row.height = ev.height
  voteA : ev.voteA.row row.voteAId ∈ voteRows id votes
  voteB : ev.voteB.row row.voteBId ∈ voteRows id votes

theorem evidenceRows_points (id : Nat) (evidence : List DoubleSignEvidence) :
    List.Forall₂ (PointsAt id (votesOf evidence)) (evidenceRows id evidence) evidence := by
  induction evidence generalizing id with
  | nil => exact .nil
  | cons ev evidence ih =>
    refine .cons ⟨rfl, by simp [votesOf, voteRows], by simp [votesOf, voteRows]⟩ ?_
    refine (ih (id + 2)).imp fun row ev' h => ⟨h.height, ?_, ?_⟩
    · exact List.mem_cons_of_mem _ (List.mem_cons_of_mem _ h.voteA)
    · exact List.mem_cons_of_mem _ (List.mem_cons_of_mem _ h.voteB)

theorem evidenceRows_ids (id : Nat) (evidence : List DoubleSignEvidence) :
    (∀ row ∈ evidenceRows id evidence, id ≤ row.voteAId) ∧
      ((evidenceRows id evidence).map DoubleSignEvidenceRow.voteAId).Nodup := by
  induction evidence generalizing id with
  | nil => simp [evidenceRows]
  | cons ev evidence ih =>
    obtain ⟨hle, hnodup⟩ := ih (id + 2)
    refine ⟨List.forall_mem_cons.mpr ⟨Nat.le_refl id, fun row hrow => ?_⟩, ?_⟩
    · exact Nat.le_of_add_right_le (hle row hrow)
    · refine List.nodup_cons.mpr ⟨fun hmem => ?_, hnodup⟩
      obtain ⟨row, hrow, he⟩ := List.mem_map.mp hmem
      have hrow' := hle row hrow
      simp only at he
      omega

def addEvidences (s : Db) (rows : List DoubleSignEvidenceRow) : Db :=
  { s with doubleSignEvidence := s.doubleSignEvidence ++ rows }

theorem insertEvidences_returns_iff {rows : List DoubleSignEvidenceRow}
    (hrows : rows.findSome? (evidenceViolation s) = none) :
    Eff.Returns (insertEvidences rows) s () t ↔
      rows.length * 3 ≤ maxPostgreSQLParams ∧ t = addEvidences s rows := by
  refine returns_sending.trans (and_congr_right fun _ => ?_)
  unfold Eff.Returns
  rw [Eff.exec_bind, Eff.exec_get]
  dsimp only
  rw [hrows]
  simp [addEvidences, eq_comm]

theorem find_addVotes (hs : DoubleSignKeys s) {votes : List DoubleSignVote}
    (h : FreshVotes s votes) {vote : DoubleSignVote} {id : Nat}
    (hmem : vote.row id ∈ voteRows s.doubleSignVoteIdSeq votes) :
    (votes.foldl addVote s).doubleSignVote.find id = some (vote.row id) := by
  obtain ⟨-, hrows, -⟩ := addVotes_spec hs h
  have hstored : vote.row id ∈ (votes.foldl addVote s).doubleSignVote.rows :=
    hrows ▸ List.mem_append_right _ hmem
  exact Table.find_of_mem hstored

theorem evidenceRows_valid (hs : DoubleSignKeys s) (h : FreshVotes s (votesOf evidence)) :
    (evidenceRows s.doubleSignVoteIdSeq evidence).findSome?
      (evidenceViolation ((votesOf evidence).foldl addVote s)) = none := by
  refine List.findSome?_eq_none_iff.mpr fun row hrow => ?_
  obtain ⟨ev, -, hpoints⟩ :=
    exists_of_mem_forall₂ (evidenceRows_points s.doubleSignVoteIdSeq evidence) row hrow
  simp [evidenceViolation, find_addVotes hs h hpoints.voteA, find_addVotes hs h hpoints.voteB]

theorem saveDoubleSignEvidences_returns_iff (hs : DoubleSignKeys s)
    (hvalidator : ∀ vote ∈ votesOf evidence, s.hasValidator vote.validatorAddress = true) :
    Eff.Returns (saveDoubleSignEvidences evidence) s () t ↔
      (FreshVotes s (votesOf evidence) ∧ evidence.length * 3 ≤ maxPostgreSQLParams) ∧
      t = addEvidences ((votesOf evidence).foldl addVote s)
        (evidenceRows s.doubleSignVoteIdSeq evidence) := by
  cases evidence with
  | nil =>
    have hsame : addEvidences s [] = s := by simp [addEvidences]
    simp [saveDoubleSignEvidences, votesOf, evidenceRows, freshVotes_nil hs, hsame, eq_comm]
  | cons ev evidence =>
    have hcall : saveDoubleSignEvidences (ev :: evidence) = (do
        let rows ← (ev :: evidence).mapM saveVotes
        Eff.wrap "error while storing double sign evidences: " (insertEvidences rows)) := rfl
    rw [hcall]
    simp only [Eff.returns_bind, Eff.returns_wrap]
    constructor
    · rintro ⟨rows, u, hvotes, hinsert⟩
      obtain ⟨hfresh, rfl, rfl⟩ := (mapM_saveVotes_returns_iff hs hvalidator).mp hvotes
      obtain ⟨hlen, ht⟩ := (insertEvidences_returns_iff (evidenceRows_valid hs hfresh)).mp hinsert
      rw [length_evidenceRows] at hlen
      exact ⟨⟨hfresh, hlen⟩, ht⟩
    · rintro ⟨⟨hfresh, hlen⟩, rfl⟩
      refine ⟨_, _, (mapM_saveVotes_returns_iff hs hvalidator).mpr ⟨hfresh, rfl, rfl⟩, ?_⟩
      refine (insertEvidences_returns_iff (evidenceRows_valid hs hfresh)).mpr ⟨?_, rfl⟩
      rw [length_evidenceRows]
      exact hlen

end

end SafrochainIndexer.Callisto.Staking
