import SafrochainIndexer.Callisto.LifecycleLaws
import SafrochainIndexer.Callisto.ProposalCommand
import SafrochainIndexer.Lib.Ratchet

/-!
# Refreshes of the tallies

Every five minutes the module asks for the tally of each open proposal at the last
block. The loop ends with the first that the source has no tally of, so a proposal that
the chain has dropped, and that is still in its deposit period here, keeps those behind
it from their tallies (`tallies_current`).
-/

namespace SafrochainIndexer.Callisto.Gov

/-- One round of the loop of `updateProposalsTallyResults`. -/
def Module.refreshTally (m : Module) (height : Int) (proposalID : Nat) : Eff Db Unit :=
  Eff.wrap s!"error while updating proposal {proposalID} tally result : "
    (m.updateProposalTallyResult proposalID height)

def Module.updateProposalsTallyResults (m : Module) : Eff Db Unit := do
  let block ← getLastBlockHeightAndTimestamp
  let ids ← getOpenProposalsIds block.timestamp
  ids.forM (m.refreshTally block.height)

abbrev Tallies := Int → Nat → Option TallyCounts

/-- The row is what the chain says at its height. -/
def Tallies.Told (chain : Tallies) (row : ProposalTallyResultRow) : Prop :=
  chain row.height row.proposalId =
    some ⟨row.yes, row.abstain, row.no, row.noWithVeto⟩

/-- What the source answers, the chain says. It may fail. -/
def Module.TalliesOf (m : Module) (chain : Tallies) : Prop :=
  ∀ height id counts, m.source.tallyResult height id = .ok counts → chain height id = some counts

def tallyOf (id : Nat) (height : Int) (counts : TallyCounts) : TallyResult :=
  ⟨id, counts.yesCount, counts.abstainCount, counts.noCount, counts.noWithVetoCount, height⟩

/-- The tallies of `t` go on from those of `s` with what the chain says. -/
def TalliesOnward (chain : Tallies) (s t : Db) : Prop :=
  s.proposalTallyResult.Ratchets ProposalTallyResultRow.height chain.Told t.proposalTallyResult

/-- `t` comes after `s` in a run of refreshes and messages, each with a source of its
own, and of anything that leaves the tallies. -/
inductive TallyRuns (chain : Tallies) (s : Db) : Db → Prop
  | start : TallyRuns chain s s
  | refresh {t : Db} (m : Module) : TallyRuns chain s t → m.TalliesOf chain →
      TallyRuns chain s (Eff.exec m.updateProposalsTallyResults t).2
  | message {t : Db} (m : Module) (index : Nat) (msg : Msg) (tx : Tx) : TallyRuns chain s t →
      m.TalliesOf chain → TallyRuns chain s (Eff.exec (m.handleMsg index msg tx) t).2
  | elsewhere {t u : Db} : TallyRuns chain s t → u.proposalTallyResult = t.proposalTallyResult →
      TallyRuns chain s u

section
variable {m : Module} {chain : Tallies} {s t : Db} {id : Nat} {height : Int}

theorem tallies_along {α : Type} {call : Eff Db α}
    (h : Eff.Fixes Db.proposalTallyResult call) : Eff.Along (TalliesOnward chain) call := by
  refine h.along fun s t hsame => ?_
  unfold TalliesOnward
  rw [hsame]
  exact .refl

theorem tallies_bind {α γ : Type} {call : Eff Db α} {k : α → Eff Db γ}
    (hcall : Eff.Along (TalliesOnward chain) call)
    (hk : ∀ s a t, Eff.Returns call s a t → Eff.Along (TalliesOnward chain) (k a)) :
    Eff.Along (TalliesOnward chain) (call >>= k) := .bind .trans hcall hk

-- ---------------------------------------------------------------------------
-- One tally
-- ---------------------------------------------------------------------------

theorem updateProposalTallyResult_along (hm : m.TalliesOf chain) (id : Nat) (height : Int) :
    Eff.Along (TalliesOnward chain) (m.updateProposalTallyResult id height) := by
  refine tallies_bind (tallies_along (.wrap .ofExcept)) fun _ counts _ hcounts => ?_
  have hchain := hm _ _ _ (Eff.returns_ofExcept.mp (Eff.returns_wrap.mp hcounts)).1
  refine .wrap (sending_along (fun _ => .refl) ?_)
  refine tallyResultConflict_guards.insert_along ?_ (fun _ => .refl) fun _ _ h => h
  exact List.forall_mem_singleton.mpr hchain

theorem saveProposals_fixes (marshal : Any → Except String String) (proposals : List Proposal) :
    Eff.Fixes Db.proposalTallyResult (saveProposals marshal proposals) := by
  unfold saveProposals
  split
  · exact .pure
  · refine .bind (.wrap .ofExcept) fun rows => ?_
    refine .bind (.wrap (saveAccounts_fixes _ fun _ _ => rfl)) fun _ => ?_
    exact .wrap (sending_fixes (Relation.insert_fixes fun _ _ => rfl))

theorem handleMsg_tallies (hm : m.TalliesOf chain) (index : Nat) (msg : Msg) (tx : Tx) :
    Eff.Along (TalliesOnward chain) (m.handleMsg index msg tx) := by
  have hdeposit (depositor : String) (events : List Event) :
      Eff.Along (TalliesOnward chain) (m.handleDepositEvent tx depositor events) :=
    tallies_along (handleDepositEvent_fixes m (fun _ _ => rfl) (fun _ _ => rfl) _ _ _)
  have hvote (voter : String) (events : List Event) :
      Eff.Along (TalliesOnward chain) (m.handleVoteEvent tx voter events) := by
    refine tallies_bind (tallies_along (.wrap .ofExcept)) fun _ id _ _ => ?_
    refine tallies_bind (tallies_along (.wrap .ofExcept)) fun _ time _ _ => ?_
    refine tallies_bind (tallies_along (.wrap .ofExcept)) fun _ option _ _ => ?_
    refine tallies_bind (tallies_along (.wrap ?_)) fun _ _ _ _ =>
      updateProposalTallyResult_along hm _ _
    refine .bind (.wrap (saveAccounts_fixes _ fun _ _ => rfl)) fun _ => ?_
    exact .wrap (Relation.insert_fixes fun _ _ => rfl)
  unfold Module.handleMsg
  split
  · exact fun s => .refl
  · cases msg with
    | submitProposal version submission =>
      refine tallies_bind (tallies_along (logEvents_fixes _ _)) fun _ events _ _ => ?_
      refine tallies_bind (tallies_along (.wrap .ofExcept)) fun _ id _ _ => ?_
      refine tallies_bind (tallies_along (submittedProposal_fixes _ _)) fun _ proposal _ _ => ?_
      refine tallies_bind (tallies_along (.wrap .ofExcept)) fun _ msgs _ _ => ?_
      refine tallies_bind (tallies_along (.wrap (saveAccounts_fixes _ fun _ _ => rfl)))
        fun _ _ _ _ => ?_
      refine tallies_bind (tallies_along (.wrap .ofExcept)) fun _ _ _ _ => ?_
      refine tallies_bind (tallies_along (deref_fixes _)) fun _ submitTime _ _ => ?_
      refine tallies_bind (tallies_along (deref_fixes _)) fun _ depositEndTime _ _ => ?_
      exact tallies_bind (tallies_along (.wrap (saveProposals_fixes _ _))) fun _ _ _ _ =>
        hdeposit _ _
    | deposit version deposit =>
      exact tallies_bind (tallies_along (logEvents_fixes _ _)) fun _ events _ _ => hdeposit _ _
    | vote version vote =>
      exact tallies_bind (tallies_along (logEvents_fixes _ _)) fun _ events _ _ => hvote _ _
    | voteWeighted version vote =>
      exact tallies_bind (tallies_along (logEvents_fixes _ _)) fun _ events _ _ => hvote _ _
    | other => exact fun s => .refl

-- ---------------------------------------------------------------------------
-- One refresh
-- ---------------------------------------------------------------------------

theorem refreshTallies_along (hm : m.TalliesOf chain) (ids : List Nat) (height : Int) :
    Eff.Along (TalliesOnward chain) (ids.forM (m.refreshTally height)) :=
  .forM (fun _ => .refl) .trans fun id _ => .wrap (updateProposalTallyResult_along hm id height)

theorem updateProposalsTallyResults_along (hm : m.TalliesOf chain) :
    Eff.Along (TalliesOnward chain) m.updateProposalsTallyResults := by
  refine tallies_bind (tallies_along (.bind .get fun _ => .pure)) fun _ block _ _ => ?_
  exact tallies_bind (tallies_along (.bind .get fun _ => .pure)) fun _ ids _ _ =>
    refreshTallies_along hm ids block.height

def TalliedBy (height : Int) (s : Db) (id : Nat) : Prop :=
  ∃ row ∈ s.proposalTallyResult.rows, row.proposalId = id ∧ height ≤ row.height

theorem TalliedBy.onward (h : TalliedBy height s id) (hst : TalliesOnward chain s t) :
    TalliedBy height t id := by
  obtain ⟨row, hrow, hid, hle⟩ := h
  obtain ⟨row', hrow', hid', hle'⟩ := hst.onward row hrow
  exact ⟨row', hrow', hid'.trans hid, hle.trans hle'⟩

theorem updateProposalTallyResult_tallies {counts : TallyCounts}
    (hcounts : m.source.tallyResult height id = .ok counts) (hid : s.hasProposal id = true) :
    ∃ t, Eff.Returns (m.updateProposalTallyResult id height) s () t ∧ TalliedBy height t id ∧
      t.proposal = s.proposal := by
  have hsaved : Eff.Returns (saveTallyResults [tallyOf id height counts]) s ()
      (withTallyResults s [tallyOf id height counts]) :=
    saveTallyResults_returns (by simp [maxParameters]) (List.nodup_singleton _)
      (List.forall_mem_singleton.mpr hid)
  refine ⟨_, Eff.returns_bind.mpr ⟨counts, s, ?_, hsaved⟩, ?_, rfl⟩
  · exact Eff.returns_wrap.mpr (Eff.returns_ofExcept.mpr ⟨hcounts, rfl⟩)
  · have hfind : (withTallyResults s [tallyOf id height counts]).proposalTallyResult.find id =
        some (Register.offer ProposalTallyResultRow.height (s.proposalTallyResult.find id)
          (tallyOf id height counts).row) := tallyResultConflict_guards.find_upsert _ rfl
    refine ⟨_, Table.mem_of_find hfind, Table.find_key hfind, ?_⟩
    cases hstored : s.proposalTallyResult.find id with
    | none => exact Int.le_refl _
    | some row =>
      have hstamp := Register.stamp_offer ProposalTallyResultRow.height row
        (tallyOf id height counts).row
      exact hstamp ▸ le_max_right _ _

theorem refreshTally_find {other : Nat} (hother : other ≠ id) :
    (Eff.exec (m.refreshTally height id) s).2.proposalTallyResult.find other =
      s.proposalTallyResult.find other := by
  refine Eff.Fixes.wrap (f := fun u : Db => u.proposalTallyResult.find other) ?_ s
  exact .bind (.wrap .ofExcept) fun result => .wrap <| sending_fixes fun u =>
    proposalTallyResultTable.find_exec_insert (by simpa [TallyResult.row] using hother)

/-- The loop reaches all that come before the first without a tally. -/
theorem tallies_of_loop (hm : m.TalliesOf chain) {first rest : List Nat}
    (hstored : ∀ id ∈ first, s.hasProposal id = true)
    (hcounts : ∀ id ∈ first, ∃ counts, m.source.tallyResult height id = .ok counts) :
    ∀ id ∈ first,
      TalliedBy height (Eff.exec ((first ++ rest).forM (m.refreshTally height)) s).2 id := by
  induction first generalizing s with
  | nil => exact List.forall_mem_nil _
  | cons id first ih =>
    obtain ⟨hid, hfirst⟩ := List.forall_mem_cons.mp hstored
    obtain ⟨⟨counts, hok⟩, hrest⟩ := List.forall_mem_cons.mp hcounts
    obtain ⟨t, hreturns, htallied, hsame⟩ := updateProposalTallyResult_tallies hok hid
    have hround : Eff.Returns (m.refreshTally height id) s () t := Eff.returns_wrap.mpr hreturns
    have honward : Eff.Along (TalliesOnward chain) ((first ++ rest).forM (m.refreshTally height)) :=
      refreshTallies_along hm _ height
    rw [List.cons_append, hround.exec_forM_cons]
    refine List.forall_mem_cons.mpr ⟨htallied.onward (honward t), ih (fun id hid => ?_) hrest⟩
    unfold Db.hasProposal
    rw [hsame]
    exact hfirst id hid

theorem tallies_behind {first later : List Nat}
    (hmissing : ∀ counts, m.source.tallyResult height id ≠ .ok counts) {other : Nat}
    (hother : other ∉ first) :
    (Eff.exec ((first ++ id :: later).forM (m.refreshTally height)) s).2.proposalTallyResult.find
      other = s.proposalTallyResult.find other := by
  induction first generalizing s with
  | nil =>
    have hfails : Eff.Fails (m.refreshTally height id) s s := by
      refine Eff.fails_wrap.mpr (Eff.fails_bind.mpr (.inl (Eff.fails_wrap.mpr ?_)))
      cases hanswer : m.source.tallyResult height id with
      | ok counts => exact absurd hanswer (hmissing counts)
      | error message => exact Eff.fails_ofExcept.mpr ⟨⟨message, rfl⟩, rfl⟩
    rw [List.nil_append, (Eff.fails_forM_cons.mpr (.inl hfails)).state]
  | cons head first ih =>
    obtain ⟨hhead, hfirst⟩ := not_or.mp (mt List.mem_cons.mpr hother)
    have hround : (Eff.exec (m.refreshTally height head) s).2.proposalTallyResult.find other =
        s.proposalTallyResult.find other :=
      refreshTally_find hhead
    rw [List.cons_append]
    rcases Eff.returns_or_fails (m.refreshTally height head) s with ⟨_, hreturns⟩ | hfails
    · rw [hreturns.exec_forM_cons, ih hfirst, hround]
    · rw [(Eff.fails_forM_cons.mpr (.inl hfails)).state, hround]

theorem getOpenProposalsIds_stored {blockTime : Int} {ids : List Nat}
    (h : Eff.Returns (getOpenProposalsIds blockTime) s ids t) :
    t = s ∧ ∀ id ∈ ids, s.hasProposal id = true := by
  unfold getOpenProposalsIds at h
  obtain ⟨_, _, hget, hids⟩ := Eff.returns_bind.mp h
  obtain ⟨rfl, rfl⟩ := Eff.returns_get.mp hget
  obtain ⟨rfl, rfl⟩ := Eff.returns_pure.mp hids
  refine ⟨rfl, fun id hid => ?_⟩
  simp only [List.mem_append, List.mem_map, List.mem_filter] at hid
  rcases hid with ⟨row, ⟨hrow, -⟩, rfl⟩ | ⟨row, ⟨hrow, -⟩, rfl⟩
  all_goals exact Option.isSome_iff_exists.mpr ⟨row, Table.find_of_mem hrow⟩

theorem exec_updateProposalsTallyResults {ids : List Nat}
    (h : Eff.Returns (getOpenProposalsIds (lastBlock s.block.rows).timestamp) s ids t) :
    Eff.exec m.updateProposalsTallyResults s =
      Eff.exec (ids.forM (m.refreshTally (lastBlock s.block.rows).height)) s := by
  have hlast : Eff.Returns getLastBlockHeightAndTimestamp s (lastBlock s.block.rows) s := rfl
  obtain ⟨rfl, -⟩ := getOpenProposalsIds_stored h
  unfold Module.updateProposalsTallyResults
  rw [hlast.exec_bind, h.exec_bind]

theorem TallyRuns.onward (h : TallyRuns chain s t) : TalliesOnward chain s t := by
  induction h with
  | start => exact .refl
  | refresh m _ hm ih => exact ih.trans (updateProposalsTallyResults_along hm _)
  | message m index msg tx _ hm ih => exact ih.trans (handleMsg_tallies hm index msg tx _)
  | elsewhere _ hsame ih =>
    unfold TalliesOnward
    rw [hsame]
    exact ih

end

/-- Let `first` be open proposals that the source has the tallies of, as they come
first in the query. They have them after a refresh, even one that fails behind them.
However the run goes on, their tallies are then what the chain says at the height of the
refresh or a later one. If the next proposal has none, the refresh writes no tally but
theirs. -/
theorem tallies_current {chain : Tallies} {s t u : Db} {m : Module} {first rest : List Nat}
    (hs : ∀ row ∈ s.proposalTallyResult.rows, chain.Told row) (hbefore : TallyRuns chain s t)
    (hm : m.TalliesOf chain)
    (hopen : Eff.Returns (getOpenProposalsIds (lastBlock t.block.rows).timestamp) t (first ++ rest) t)
    (hcounts : ∀ id ∈ first,
      ∃ counts, m.source.tallyResult (lastBlock t.block.rows).height id = .ok counts)
    (hafter : TallyRuns chain (Eff.exec m.updateProposalsTallyResults t).2 u) :
    (∀ id ∈ first, ∃ tally, u.proposalTallyResult.find id = some tally ∧ chain.Told tally ∧
      (lastBlock t.block.rows).height ≤ tally.height) ∧
    ∀ next later, rest = next :: later →
      (∀ counts, m.source.tallyResult (lastBlock t.block.rows).height next ≠ .ok counts) →
      ∀ id ∉ first,
        (Eff.exec m.updateProposalsTallyResults t).2.proposalTallyResult.find id =
          t.proposalTallyResult.find id := by
  have hloop := exec_updateProposalsTallyResults (m := m) hopen
  constructor
  · intro id hid
    have hall := (hbefore.onward.trans (updateProposalsTallyResults_along hm t)).trans hafter.onward
    have hstored : ∀ id ∈ first, t.hasProposal id = true := fun id hid =>
      (getOpenProposalsIds_stored hopen).2 id (List.mem_append_left rest hid)
    have htallied : TalliedBy (lastBlock t.block.rows).height
        (Eff.exec m.updateProposalsTallyResults t).2 id :=
      hloop ▸ tallies_of_loop hm hstored hcounts id hid
    obtain ⟨tally, htally, hid, hle⟩ := htallied.onward hafter.onward
    refine ⟨tally, hid ▸ Table.find_of_mem htally, ?_, hle⟩
    exact (hall.sourced tally htally).elim (hs tally) fun htold => htold
  · rintro next later rfl hmissing id hid
    rw [hloop]
    exact tallies_behind hmissing hid

/-- Proposals 1 and 3 are in their voting period. The chain has dropped proposal 2,
which nothing has told the database. -/
def oneGone : Db :=
  { (default : Db) with
    block := ⟨[⟨7, 20⟩], by decide⟩
    proposal :=
      ⟨[⟨1, "", "", "", "", 0, 10, some 10, some 40, "", "PROPOSAL_STATUS_VOTING_PERIOD"⟩,
        ⟨2, "", "", "", "", 0, 15, none, none, "", "PROPOSAL_STATUS_DEPOSIT_PERIOD"⟩,
        ⟨3, "", "", "", "", 0, 10, some 10, some 40, "", "PROPOSAL_STATUS_VOTING_PERIOD"⟩],
        by decide⟩ }

def threeYes (_height : Int) (id : Nat) : Option TallyCounts :=
  if id = 2 then none else some ⟨"3", "0", "0", "0"⟩

def tellsOthers : Module :=
  { plain with
    source :=
      { plain.source with
        tallyResult := fun height id =>
          match threeYes height id with
          | some counts => .ok counts
          | none => .error s!"rpc error: code = NotFound desc = proposal {id} doesn't exist" } }

theorem tellsOthers_tallies : tellsOthers.TalliesOf threeYes := by
  intro height id counts h
  simp only [tellsOthers] at h
  split at h
  · rename_i found hfound
    obtain rfl := Except.ok.inj h
    exact hfound
  · cases h

/-- The refresh ends at proposal 2: proposal 1 has its tally, and proposal 3 has none. -/
theorem tallies_current_gone :
    (∃ tally, (Eff.exec tellsOthers.updateProposalsTallyResults oneGone).2.proposalTallyResult.find 1 =
      some tally ∧ tally.yes = "3") ∧
    (Eff.exec tellsOthers.updateProposalsTallyResults oneGone).2.proposalTallyResult.find 3 = none := by
  have hopen : Eff.Returns (getOpenProposalsIds (lastBlock oneGone.block.rows).timestamp) oneGone
      ([1] ++ [2, 3]) oneGone := by
    refine Eff.returns_bind.mpr ⟨oneGone, oneGone, Eff.returns_get.mpr ⟨rfl, rfl⟩, ?_⟩
    exact Eff.returns_pure.mpr ⟨by decide, rfl⟩
  have hnone : ∀ row ∈ oneGone.proposalTallyResult.rows, Tallies.Told threeYes row :=
    fun _ hrow => absurd hrow List.not_mem_nil
  obtain ⟨hfirst, hbehind⟩ := tallies_current hnone .start tellsOthers_tallies hopen
    (List.forall_mem_singleton.mpr ⟨_, rfl⟩) .start
  constructor
  · obtain ⟨tally, hfind, htold, -⟩ := hfirst 1 (by simp)
    refine ⟨tally, hfind, ?_⟩
    unfold Tallies.Told threeYes at htold
    rw [Table.find_key hfind] at htold
    exact (congrArg TallyCounts.yesCount (Option.some.inj htold)).symm
  · exact hbehind 2 [3] rfl (fun counts h => nomatch h) 3 (by decide)

end SafrochainIndexer.Callisto.Gov
