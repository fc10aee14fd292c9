import SafrochainIndexer.Callisto.DoubleSigns

/-!
# Storing evidence twice

A call on fresh votes stores each vote and each evidence once. A vote that is
there already, from an earlier call or from the same list, ends the call with an
error (`evidences_idempotent_iff`). No second call changes a table
(`save_twice`).
-/

namespace SafrochainIndexer.Callisto.Staking

-- ---------------------------------------------------------------------------
-- Any call
-- ---------------------------------------------------------------------------

def Grows (s t : Db) : Prop := DoubleSignKeys s → DoubleSignKeys t ∧ voteKeys s ⊆ voteKeys t

theorem Grows.refl (s : Db) : Grows s s := fun hs => ⟨hs, List.Subset.refl _⟩

theorem Grows.trans {s t u : Db} (h : Grows s t) (h' : Grows t u) : Grows s u := by
  intro hs
  obtain ⟨ht, hst⟩ := h hs
  obtain ⟨hu, htu⟩ := h' ht
  exact ⟨hu, List.Subset.trans hst htu⟩

section
variable {s : Db}

theorem DoubleSignKeys.next (hs : DoubleSignKeys s) :
    DoubleSignKeys { s with doubleSignVoteIdSeq := s.doubleSignVoteIdSeq + 1 } :=
  ⟨hs.keys_nodup, fun row hrow => Nat.lt_succ_of_lt (hs.ids_lt row hrow), hs.voteA_mem, hs.voteB_mem⟩

theorem saveDoubleSignVote_grows (vote : DoubleSignVote) :
    Eff.Along Grows (saveDoubleSignVote vote) := by
  intro s hs
  unfold saveDoubleSignVote
  cases hfit : smallintColumn vote.type with
  | some message => exact Grows.refl s hs
  | none =>
    let u : Db := { s with doubleSignVoteIdSeq := s.doubleSignVoteIdSeq + 1 }
    have hnext : Eff.Returns nextDoubleSignVoteId s s.doubleSignVoteIdSeq u := rfl
    dsimp only
    rw [hnext.exec_bind, Eff.exec_bind, Eff.exec_get]
    dsimp only
    split
    · exact ⟨hs.next, List.Subset.refl _⟩
    · rename_i hclear
      have hstate : (Eff.exec (do
          doubleSignVoteTable.insert .ignore [vote.row s.doubleSignVoteIdSeq]
          pure s.doubleSignVoteIdSeq) u).2 =
          (Eff.exec (doubleSignVoteTable.insert .ignore [vote.row s.doubleSignVoteIdSeq]) u).2 :=
        Eff.exec_bind_of_fixes (f := id) _ (fun _ => .pure) u
      rw [hstate]
      obtain hsame | hreturns :=
        doubleSignVoteTable.insert_atomic .ignore [vote.row s.doubleSignVoteIdSeq] u
      · rw [hsame]
        exact ⟨hs.next, List.Subset.refl _⟩
      · have hkey : vote.key ∉ voteKeys s := fun hmem => hclear ((conflict_iff hs).mpr hmem)
        have hadded : (Eff.exec (doubleSignVoteTable.insert .ignore
            [vote.row s.doubleSignVoteIdSeq]) u).2 = addVote s vote := Relation.insert_write hreturns
        rw [hadded]
        refine ⟨hs.addVote hkey, ?_⟩
        rw [addVote_keys hs]
        exact List.subset_append_left _ _

theorem insertEvidences_grows (rows : List DoubleSignEvidenceRow) :
    Eff.Along Grows (insertEvidences rows) := by
  refine sending_along Grows.refl fun s hs => ?_
  rw [Eff.exec_bind, Eff.exec_get]
  dsimp only
  split
  · exact Grows.refl s hs
  · rename_i hvalid
    have hstored : ∀ row ∈ rows, (s.doubleSignVote.find row.voteAId).isSome = true ∧
        (s.doubleSignVote.find row.voteBId).isSome = true := by
      intro row hrow
      have hrow := List.findSome?_eq_none_iff.mp hvalid row hrow
      cases hA : s.doubleSignVote.find row.voteAId <;>
        cases hB : s.doubleSignVote.find row.voteBId <;>
        simp [evidenceViolation, foreignKey, hA, hB] at hrow ⊢
    have hmem : ∀ id, (s.doubleSignVote.find id).isSome = true →
        ∃ vote ∈ s.doubleSignVote.rows, vote.id = id := by
      intro id hid
      obtain ⟨vote, hvote⟩ := Option.isSome_iff_exists.mp hid
      exact ⟨vote, Table.mem_of_find hvote, Table.find_key hvote⟩
    refine ⟨⟨hs.keys_nodup, hs.ids_lt, fun row hrow => ?_, fun row hrow => ?_⟩, List.Subset.refl _⟩
    · exact (List.mem_append.mp hrow).elim (hs.voteA_mem row) fun hnew => hmem _ (hstored row hnew).1
    · exact (List.mem_append.mp hrow).elim (hs.voteB_mem row) fun hnew => hmem _ (hstored row hnew).2

theorem saveVotes_grows (ev : DoubleSignEvidence) : Eff.Along Grows (saveVotes ev) := by
  refine .bind Grows.trans (.wrap (saveDoubleSignVote_grows ev.voteA)) fun _ _ _ _ => ?_
  refine .bind Grows.trans (.wrap (saveDoubleSignVote_grows ev.voteB)) fun _ _ _ _ => ?_
  exact Grows.refl

/-- Whatever becomes of a call, the constraints stay met. -/
theorem saveDoubleSignEvidences_grows (evidence : List DoubleSignEvidence) :
    Eff.Along Grows (saveDoubleSignEvidences evidence) := by
  unfold saveDoubleSignEvidences
  split
  · exact Grows.refl
  · refine .bind Grows.trans (.mapM Grows.refl Grows.trans saveVotes_grows) fun _ rows _ _ => ?_
    exact .wrap (insertEvidences_grows rows)

end

-- ---------------------------------------------------------------------------
-- Storing once
-- ---------------------------------------------------------------------------

def DoubleSignVote.shownBy (vote : DoubleSignVote) (row : DoubleSignVoteRow) : Bool :=
  row = vote.row row.id

/-- The row has the height of the evidence, and its ids are those of rows that
show its votes. -/
def DoubleSignEvidence.shownBy (t : Db) (ev : DoubleSignEvidence) (row : DoubleSignEvidenceRow) :
    Bool :=
  row.height = ev.height ∧
    t.doubleSignVote.find row.voteAId = some (ev.voteA.row row.voteAId) ∧
    t.doubleSignVote.find row.voteBId = some (ev.voteB.row row.voteBId)

structure StoredOnce (t : Db) (evidence : List DoubleSignEvidence) : Prop where
  votes : ∀ vote ∈ votesOf evidence, t.doubleSignVote.rows.countP vote.shownBy = 1
  evidence : ∀ ev ∈ evidence, t.doubleSignEvidence.countP (ev.shownBy t) = 1

def Idempotent (s : Db) (evidence : List DoubleSignEvidence) : Prop :=
  ∃ t, Eff.Returns (saveDoubleSignEvidences evidence) s () t ∧ StoredOnce t evidence ∧
    (Eff.exec (saveDoubleSignEvidences evidence) t).2.doubleSignVote = t.doubleSignVote ∧
    (Eff.exec (saveDoubleSignEvidences evidence) t).2.doubleSignEvidence = t.doubleSignEvidence

section
variable {s : Db} {evidence : List DoubleSignEvidence}

theorem voteRows_mem (id : Nat) {votes : List DoubleSignVote} {vote : DoubleSignVote}
    (h : vote ∈ votes) : ∃ i, vote.row i ∈ voteRows id votes := by
  induction votes generalizing id with
  | nil => cases h
  | cons head votes ih =>
    cases h with
    | head => exact ⟨id, List.mem_cons_self⟩
    | tail _ hmem =>
      obtain ⟨i, hi⟩ := ih (id + 1) hmem
      exact ⟨i, List.mem_cons_of_mem _ hi⟩

theorem shownBy_row (vote : DoubleSignVote) (id : Nat) : vote.shownBy (vote.row id) = true := by
  simp [DoubleSignVote.shownBy, DoubleSignVote.row]

theorem shownBy_key {vote : DoubleSignVote} {row : DoubleSignVoteRow} (h : vote.shownBy row = true) :
    voteKey row = vote.key := by
  simp only [DoubleSignVote.shownBy, decide_eq_true_eq] at h
  rw [h]
  rfl

theorem DoubleSignKeys.votes_once (hs : DoubleSignKeys s) {vote : DoubleSignVote} {id : Nat}
    (h : vote.row id ∈ s.doubleSignVote.rows) : s.doubleSignVote.rows.countP vote.shownBy = 1 := by
  refine countP_eq_one hs.keys_nodup h (shownBy_row vote id) fun row _ hrow => ?_
  exact shownBy_key hrow

theorem old_evidence_not_shown (hs : DoubleSignKeys s) (h : FreshVotes s (votesOf evidence))
    {ev : DoubleSignEvidence} (hev : ev ∈ evidence) (rows : List DoubleSignEvidenceRow) :
    s.doubleSignEvidence.countP
      (ev.shownBy (addEvidences ((votesOf evidence).foldl addVote s) rows)) = 0 := by
  obtain ⟨-, hrows, -⟩ := addVotes_spec hs h
  refine List.countP_eq_zero.mpr fun row hrow hshown => ?_
  obtain ⟨vote, hvote, hid⟩ := hs.voteA_mem row hrow
  simp only [DoubleSignEvidence.shownBy, decide_eq_true_eq] at hshown
  have hfind : ((votesOf evidence).foldl addVote s).doubleSignVote.find vote.id = some vote :=
    Table.find_of_mem (hrows ▸ List.mem_append_left _ hvote)
  have heq : vote = ev.voteA.row row.voteAId :=
    Option.some.inj (hfind.symm.trans (hid ▸ hshown.2.1))
  have hkey : ev.voteA.key ∈ (votesOf evidence).map DoubleSignVote.key :=
    List.mem_map_of_mem (List.mem_flatMap.mpr ⟨ev, hev, List.mem_cons_self⟩)
  have hold : ev.voteA.key ∈ voteKeys s := List.mem_map.mpr ⟨vote, hvote, heq ▸ rfl⟩
  exact (List.nodup_append.mp h.distinct).2.2 _ hold _ hkey rfl

theorem new_evidence_once (hs : DoubleSignKeys s) (h : FreshVotes s (votesOf evidence))
    {ev : DoubleSignEvidence} (hev : ev ∈ evidence) (rows : List DoubleSignEvidenceRow) :
    (evidenceRows s.doubleSignVoteIdSeq evidence).countP
      (ev.shownBy (addEvidences ((votesOf evidence).foldl addVote s) rows)) = 1 := by
  obtain ⟨hkeys, -, -⟩ := addVotes_spec hs h
  obtain ⟨row, hrow, hpoints⟩ := exists_of_mem_forall₂
    (evidenceRows_points s.doubleSignVoteIdSeq evidence).flip ev hev
  refine countP_eq_one (evidenceRows_ids s.doubleSignVoteIdSeq evidence).2 hrow ?_ ?_
  · simp only [DoubleSignEvidence.shownBy, decide_eq_true_eq]
    exact ⟨hpoints.height, find_addVotes hs h hpoints.voteA, find_addVotes hs h hpoints.voteB⟩
  · -- two rows that show `voteA` have one vote row between them
    intro other _ hother
    simp only [DoubleSignEvidence.shownBy, decide_eq_true_eq] at hother
    have hmem := Table.mem_of_find (find_addVotes hs h hpoints.voteA)
    have hmem' := Table.mem_of_find hother.2.1
    have heq := List.inj_on_of_nodup_map hkeys.keys_nodup hmem' hmem rfl
    exact congrArg DoubleSignVoteRow.id heq

theorem addEvidences_storedOnce (hs : DoubleSignKeys s) (h : FreshVotes s (votesOf evidence)) :
    StoredOnce (addEvidences ((votesOf evidence).foldl addVote s)
      (evidenceRows s.doubleSignVoteIdSeq evidence)) evidence := by
  obtain ⟨hkeys, hrows, hevidence⟩ := addVotes_spec hs h
  constructor
  · intro vote hvote
    obtain ⟨id, hid⟩ := voteRows_mem s.doubleSignVoteIdSeq hvote
    exact hkeys.votes_once (hrows ▸ List.mem_append_right _ hid)
  · intro ev hev
    have hold := old_evidence_not_shown hs h hev (evidenceRows s.doubleSignVoteIdSeq evidence)
    have hnew := new_evidence_once hs h hev (evidenceRows s.doubleSignVoteIdSeq evidence)
    change List.countP _ (_ ++ _) = 1
    rw [hevidence, List.countP_append, hold, hnew]

theorem first_vote_fails {t : Db} {ev : DoubleSignEvidence} (evidence : List DoubleSignEvidence)
    (h : Eff.Fails (saveDoubleSignVote ev.voteA) s t) :
    Eff.Fails (saveDoubleSignEvidences (ev :: evidence)) s t := by
  have hcall : saveDoubleSignEvidences (ev :: evidence) = (do
      let rows ← (ev :: evidence).mapM saveVotes
      Eff.wrap "error while storing double sign evidences: " (insertEvidences rows)) := rfl
  rw [hcall, List.mapM_cons]
  refine Eff.fails_bind.mpr (.inl (Eff.fails_bind.mpr (.inl ?_)))
  exact Eff.fails_bind.mpr (.inl (Eff.fails_wrap.mpr h))

theorem first_vote_kept (hs : DoubleSignKeys s) (ev : DoubleSignEvidence)
    (evidence : List DoubleSignEvidence)
    (hvalidator : s.hasValidator ev.voteA.validatorAddress = true)
    (hfit : smallintColumn ev.voteA.type = none) :
    ev.voteA.key ∈ voteKeys (Eff.exec (saveDoubleSignEvidences (ev :: evidence)) s).2 := by
  by_cases hkey : ev.voteA.key ∈ voteKeys s
  · exact (saveDoubleSignEvidences_grows (ev :: evidence) s hs).2 hkey
  · let P : Db → Prop := fun t => DoubleSignKeys t ∧ ev.voteA.key ∈ voteKeys t
    have hR : ∀ s t, Grows s t → P s → P t := fun _ _ hgrows ⟨hs, hmem⟩ =>
      ⟨(hgrows hs).1, (hgrows hs).2 hmem⟩
    have hfirst : P (Eff.exec (Eff.wrap "error while storing double sign vote: "
        (saveDoubleSignVote ev.voteA)) s).2 := by
      have hvote := saveDoubleSignVote_returns hs hvalidator ⟨hfit, hkey⟩
      rw [(Eff.returns_wrap.mpr hvote).state]
      exact ⟨hs.addVote hkey, by simp [addVote_keys hs]⟩
    have hvotes : P (Eff.exec (saveVotes ev) s).2 := by
      refine Eff.Along.exec_bind hR hfirst fun _ => ?_
      refine .bind Grows.trans (.wrap (saveDoubleSignVote_grows ev.voteB)) fun _ _ _ _ => ?_
      exact Grows.refl
    have hmap : P (Eff.exec ((ev :: evidence).mapM saveVotes) s).2 := by
      rw [List.mapM_cons]
      refine Eff.Along.exec_bind hR hvotes fun _ => ?_
      exact .bind Grows.trans (.mapM Grows.refl Grows.trans saveVotes_grows) fun _ _ _ _ => Grows.refl
    exact (Eff.Along.exec_bind hR hmap fun rows => .wrap (insertEvidences_grows rows)).2

/-- Whatever became of a call, the same call again changes no table. -/
theorem save_twice (hs : DoubleSignKeys s) {evidence : List DoubleSignEvidence} {t : Db}
    (hvalidator : ∀ vote ∈ votesOf evidence, s.hasValidator vote.validatorAddress = true)
    (ht : (Eff.exec (saveDoubleSignEvidences evidence) s).2 = t) :
    (Eff.exec (saveDoubleSignEvidences evidence) t).2.doubleSignVote = t.doubleSignVote ∧
      (Eff.exec (saveDoubleSignEvidences evidence) t).2.doubleSignEvidence = t.doubleSignEvidence := by
  subst ht
  cases evidence with
  | nil => exact ⟨rfl, rfl⟩
  | cons ev evidence =>
    cases hfit : smallintColumn ev.voteA.type with
    | some message =>
      have hmisfit : ∀ u, Eff.Fails (saveDoubleSignVote ev.voteA) u u := by
        intro u
        unfold saveDoubleSignVote
        rw [hfit]
        exact Eff.fails_fail.mpr rfl
      rw [(first_vote_fails evidence (hmisfit _)).state]
      exact ⟨rfl, rfl⟩
    | none =>
      have hkey := first_vote_kept hs ev evidence (hvalidator ev.voteA List.mem_cons_self) hfit
      have hgrown := (saveDoubleSignEvidences_grows (ev :: evidence) s hs).1
      rw [(first_vote_fails evidence (saveDoubleSignVote_fails hgrown hfit hkey)).state]
      exact ⟨rfl, rfl⟩

theorem updateDoubleSignEvidence_twice (hs : DoubleSignKeys s) {height : Int}
    {evidenceList : List Evidence} {t : Db}
    (hvalidator : ∀ vote ∈ votesOf (duplicateVotes height evidenceList),
      s.hasValidator vote.validatorAddress = true)
    (ht : (Eff.exec (updateDoubleSignEvidence height evidenceList) s).2 = t) :
    (Eff.exec (updateDoubleSignEvidence height evidenceList) t).2.doubleSignVote =
        t.doubleSignVote ∧
      (Eff.exec (updateDoubleSignEvidence height evidenceList) t).2.doubleSignEvidence =
        t.doubleSignEvidence := by
  unfold updateDoubleSignEvidence at ht ⊢
  rw [Eff.exec_attempt_state] at ht ⊢
  exact save_twice hs hvalidator ht

/-- Exactly for votes that are not stored, no two of them at one block by one
validator, is the call idempotent. -/
theorem evidences_idempotent_iff (hs : DoubleSignKeys s)
    (hvalidator : ∀ vote ∈ votesOf evidence, s.hasValidator vote.validatorAddress = true) :
    Idempotent s evidence ↔
      FreshVotes s (votesOf evidence) ∧ evidence.length * 3 ≤ maxPostgreSQLParams := by
  constructor
  · rintro ⟨t, hreturns, -⟩
    exact ((saveDoubleSignEvidences_returns_iff hs hvalidator).mp hreturns).1
  · intro hcond
    have hreturns := (saveDoubleSignEvidences_returns_iff hs hvalidator).mpr ⟨hcond, rfl⟩
    exact ⟨_, hreturns, addEvidences_storedOnce hs hcond.1, save_twice hs hvalidator hreturns.state⟩

end

def knownValidator : Db :=
  { (default : Db) with validator := ⟨[⟨"safrovalcons1a", "pub"⟩], by decide⟩ }

def voteFor (blockID : String) : DoubleSignVote := ⟨1, 8, 0, blockID, "safrovalcons1a", 0, "sig"⟩

theorem doubleSignKeys_knownValidator : DoubleSignKeys knownValidator :=
  ⟨by decide, by decide, by decide, by decide⟩

theorem evidences_idempotent_pair :
    Idempotent knownValidator [⟨voteFor "A", voteFor "B", 9⟩] :=
  (evidences_idempotent_iff doubleSignKeys_knownValidator (by decide)).mpr
    ⟨⟨by decide, by decide⟩, by decide⟩

/-- Two evidences that share a vote, and a list that has been stored before. -/
theorem evidences_repeated_vote :
    ¬ Idempotent knownValidator [⟨voteFor "A", voteFor "B", 9⟩, ⟨voteFor "A", voteFor "C", 9⟩] ∧
    ¬ Idempotent
      (Eff.exec (saveDoubleSignEvidences [⟨voteFor "A", voteFor "B", 9⟩]) knownValidator).2
      [⟨voteFor "A", voteFor "B", 9⟩] := by
  constructor
  all_goals
    rintro ⟨t, hreturns, -⟩
    have hresult := congrArg Prod.fst hreturns
    change _ = Except.ok () at hresult
    revert hresult
    decide

end SafrochainIndexer.Callisto.Staking
