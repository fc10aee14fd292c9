import SafrochainIndexer.Callisto.FullTxs
import SafrochainIndexer.Callisto.GovGenesis
import SafrochainIndexer.Callisto.TxSearch
import SafrochainIndexer.Lib.Replays

/-!
# Votes in `parse gov proposal`

The command searches for the transactions that vote on a proposal and handles
their votes on it again. Votes that an authz message executes are not looked
at, and the tally is asked for at the height of every vote, so the node has to
have it.

`votes_refreshed`: after the command the table tells of the proposal what the
votes of the chain make of an empty one, however many of them it had missed.
-/

namespace SafrochainIndexer.Callisto.Gov

structure Command where
  module : Module
  txSearch : TxSearch.Node ResultTx
  tx : String → Except String (FullTx Msg)

def voteOf : Msg → Option (Nat × String)
  | .vote _ msg => some (msg.proposalId, msg.voter)
  | .voteWeighted _ msg => some (msg.proposalId, msg.voter)
  | _ => none

def voteQuery (proposalID : Nat) : String := s!"proposal_vote.proposal_id={proposalID}"

section
variable (c : Command)

/-- `none` if the pages of the search do not end within `rounds` requests. -/
def Command.refreshTxs (query : String) (handle : FullTx Msg → Msg × Nat → Eff Db Unit)
    (rounds : Nat) : Eff Db (Option Unit) :=
  match (TxSearch.queryTxs c.txSearch query rounds).1 with
  | none => pure none
  | some (.error message) => Eff.fail message
  | some (.ok txs) => do
    txs.forM (handleAgain c.tx handle)
    pure (some ())

/-- A vote on another proposal is skipped, which may not be stored. -/
def Command.handleVote (proposalID : Nat) (transaction : FullTx Msg) (msg : Msg × Nat) :
    Eff Db Unit :=
  match voteOf msg.1 with
  | none => pure ()
  | some vote =>
    if proposalID = vote.1 then
      Eff.wrap "error while handling MsgVote: " (c.module.handleMsg msg.2 msg.1 transaction.tx)
    else pure ()

def Command.refreshProposalVotes (proposalID rounds : Nat) : Eff Db (Option Unit) :=
  c.refreshTxs (voteQuery proposalID) (c.handleVote proposalID) rounds

end

-- ---------------------------------------------------------------------------
-- A chain
-- ---------------------------------------------------------------------------

section
variable (m : Module) (proposalID : Nat)

def Module.loggedVote (tx : Tx) (voter : String) (index : Nat) : Option ProposalVoteRow := do
  let events ← tx.logs[index]?
  let id ← (proposalIDFromEvents events).toOption
  let time ← (m.timeParse tx.timestamp).toOption
  let option ← (m.weightVoteOptionFromEvents events).toOption
  pure ⟨id, voter, option.option.string, option.weight, time, tx.height⟩

def Module.voteRows (transaction : FullTx Msg) (msg : Msg × Nat) : List ProposalVoteRow :=
  match voteOf msg.1 with
  | none => []
  | some vote =>
    if proposalID = vote.1 ∧ transaction.tx.logs ≠ [] then
      (m.loggedVote transaction.tx vote.2 msg.2).toList
    else []

def Module.votesCast (transactions : List (FullTx Msg)) : List ProposalVoteRow :=
  transactions.flatMap fun transaction =>
    transaction.msgs.zipIdx.flatMap (m.voteRows proposalID transaction)

end

/-- The search lists the transactions of a chain that are `listed`, and the node
has them. -/
structure Command.Finds (c : Command) (query : String) (chain : List (FullTx Msg))
    (listed : FullTx Msg → Bool) : Prop where
  ascending : chain.Pairwise fun a b => a.tx.height ≤ b.tx.height
  tx : ∀ transaction ∈ chain, c.tx transaction.tx.txHash = .ok transaction
  serves : TxSearch.Serves c.txSearch query ((chain.filter listed).map FullTx.result)

/-- The search lists the transactions that vote on the proposal and maybe others.
The log of a successful vote describes it, and the node has the tally of every
height. -/
structure Command.Sees (c : Command) (proposalID : Nat) (chain : List (FullTx Msg))
    (listed : FullTx Msg → Bool) : Prop extends c.Finds (voteQuery proposalID) chain listed where
  listed : ∀ transaction ∈ chain, ∀ msg ∈ transaction.msgs, ∀ voter,
    voteOf msg = some (proposalID, voter) → listed transaction = true
  described : ∀ transaction ∈ chain, transaction.tx.logs ≠ [] → ∀ msg ∈ transaction.msgs.zipIdx,
    ∀ voter, voteOf msg.1 = some (proposalID, voter) →
      ∃ row, c.module.loggedVote transaction.tx voter msg.2 = some row ∧ row.proposalId = proposalID
  tallies : ∀ height, ∃ result, c.module.source.tallyResult height proposalID = .ok result

section
variable {c : Command} {query : String} {chain : List (FullTx Msg)} {listed : FullTx Msg → Bool}

theorem Command.Finds.knows (h : c.Finds query chain listed) :
    Knows c.tx (chain.filter listed) ((chain.filter listed).map FullTx.result) := by
  refine ⟨fun transaction hmem => h.tx transaction (List.mem_of_mem_filter hmem), fun tx htx => ?_⟩
  exact List.mem_map.mp htx

theorem Command.Finds.fetched (h : c.Finds query chain listed) :
    fetched c.tx ((chain.filter listed).map FullTx.result) = chain.filter listed :=
  fetched_results fun transaction hmem => h.tx transaction (List.mem_of_mem_filter hmem)

theorem refreshTxs_returns (h : c.Finds query chain listed) {rounds : Nat}
    (hrounds : TxSearch.lastPage (chain.filter listed).length ≤ rounds)
    {handle : FullTx Msg → Msg × Nat → Eff Db Unit} {s t : Db} :
    Eff.Returns (c.refreshTxs query handle rounds) s (some ()) t ↔
      Eff.Returns (((chain.filter listed).map FullTx.result).forM (handleAgain c.tx handle)) s ⟨⟩ t := by
  unfold Command.refreshTxs
  rw [TxSearch.queryTxs_collects h.serves (by rw [List.length_map]; exact hrounds)]
  constructor
  · intro hr
    obtain ⟨⟨⟩, u, hloop, hu⟩ := Eff.returns_bind.mp hr
    obtain ⟨-, rfl⟩ := Eff.returns_pure.mp hu
    exact hloop
  · exact fun hloop => Eff.returns_bind.mpr ⟨⟨⟩, t, hloop, Eff.returns_pure.mpr ⟨rfl, rfl⟩⟩

end

-- ---------------------------------------------------------------------------
-- One vote
-- ---------------------------------------------------------------------------

section
variable {m : Module} {s : Db} {proposalID : Nat}

theorem updateProposalTallyResult_returns {height : Int} {result : TallyCounts}
    (hresult : m.source.tallyResult height proposalID = .ok result)
    (hproposal : s.hasProposal proposalID = true) :
    ∃ t, Eff.Returns (m.updateProposalTallyResult proposalID height) s () t := by
  let tally : TallyResult := ⟨proposalID, result.yesCount, result.abstainCount, result.noCount,
    result.noWithVetoCount, height⟩
  have ht : Eff.Returns (saveTallyResults [tally]) s () _ :=
    saveTallyResults_returns (by simp [maxParameters]) (List.nodup_singleton _)
      (List.forall_mem_singleton.mpr hproposal)
  exact ⟨_, Eff.returns_bind.mpr
    ⟨result, s, Eff.returns_wrap.mpr (Eff.returns_ofExcept.mpr ⟨hresult, rfl⟩), ht⟩⟩

theorem handleVoteEvent_returns {tx : Tx} {voter : String} {events : List Event} {time : Int}
    {option : WeightedVoteOption} {result : TallyCounts}
    (hid : proposalIDFromEvents events = .ok proposalID)
    (htime : m.timeParse tx.timestamp = .ok time)
    (hoption : m.weightVoteOptionFromEvents events = .ok option)
    (hresult : m.source.tallyResult tx.height proposalID = .ok result)
    (hproposal : s.hasProposal proposalID = true) :
    ∃ t, Eff.Returns (m.handleVoteEvent tx voter events) s () t := by
  let vote : Vote := ⟨proposalID, voter, option.option, option.weight, time, tx.height⟩
  obtain ⟨u, hsave, -⟩ := saveVote_ok (show s.hasProposal vote.proposalId = true from hproposal)
  have hkept : u.hasProposal proposalID = true := by
    have hfix : Eff.Fixes Db.proposal (saveVote vote) :=
      .bind (.wrap (saveAccounts_fixes _ fun _ _ => rfl)) fun _ => .wrap (Relation.insert_fixes fun _ _ => rfl)
    unfold Db.hasProposal
    rw [hfix.of_returns hsave]
    exact hproposal
  obtain ⟨t, htally⟩ := updateProposalTallyResult_returns hresult hkept
  refine ⟨t, ?_⟩
  have hsaved : Eff.Returns (Eff.wrap "error while saving vote: " (saveVote vote)) s () u :=
    Eff.returns_wrap.mpr hsave
  unfold Eff.Returns
  simp only [Module.handleVoteEvent, Eff.exec_wrap_ofExcept_bind, hid, htime, hoption]
  rw [hsaved.exec_bind]
  exact htally

theorem exec_handleMsg_vote {msg : Msg} {voter : String} {tx : Tx} {index : Nat}
    {events : List Event} (hvote : voteOf msg = some (proposalID, voter))
    (hevents : tx.logs[index]? = some events) (s : Db) :
    Eff.exec (m.handleMsg index msg tx) s = Eff.exec (m.handleVoteEvent tx voter events) s := by
  have hlogs : ¬tx.logs.length = 0 := by
    intro hnil
    simp [List.length_eq_zero_iff.mp hnil] at hevents
  have hlog : Eff.Returns (logEvents tx index) s events s := logEvents_returns.mpr ⟨hevents, rfl⟩
  unfold Module.handleMsg
  rw [if_neg hlogs]
  cases msg with
  | submitProposal version msg => exact nomatch hvote
  | deposit version msg => exact nomatch hvote
  | other => exact nomatch hvote
  | vote version msg =>
    obtain ⟨-, rfl⟩ := Prod.mk.inj (Option.some.inj hvote)
    exact hlog.exec_bind _
  | voteWeighted version msg =>
    obtain ⟨-, rfl⟩ := Prod.mk.inj (Option.some.inj hvote)
    exact hlog.exec_bind _

theorem loggedVote_some {tx : Tx} {voter : String} {index : Nat} {row : ProposalVoteRow}
    (h : m.loggedVote tx voter index = some row) :
    ∃ events id time option, tx.logs[index]? = some events ∧
      proposalIDFromEvents events = .ok id ∧ m.timeParse tx.timestamp = .ok time ∧
      m.weightVoteOptionFromEvents events = .ok option ∧
      row = ⟨id, voter, option.option.string, option.weight, time, tx.height⟩ := by
  simp only [Module.loggedVote, Option.bind_eq_bind, Option.bind_eq_some_iff, Option.pure_def,
    Option.some.injEq] at h
  obtain ⟨events, hevents, id, hid, time, htime, option, hoption, rfl⟩ := h
  exact ⟨events, id, time, option, hevents, ok_of_toOption hid, ok_of_toOption htime,
    ok_of_toOption hoption, rfl⟩

end

section
variable {c : Command} {proposalID : Nat} {chain : List (FullTx Msg)} {listed : FullTx Msg → Bool}
  {s : Db}

theorem handleVote_returns (hsees : c.Sees proposalID chain listed) {transaction : FullTx Msg}
    (hchain : transaction ∈ chain) {msg : Msg × Nat} (hmsg : msg ∈ transaction.msgs.zipIdx)
    (hproposal : s.hasProposal proposalID = true) :
    ∃ t, Eff.Returns (c.handleVote proposalID transaction msg) s () t ∧
      t.hasProposal proposalID = true ∧
      t.proposalVote =
        (c.module.voteRows proposalID transaction msg).foldl (Table.upsert voteConflict) s.proposalVote := by
  have hskip : Eff.Returns (pure () : Eff Db Unit) s () s := Eff.returns_pure.mpr ⟨rfl, rfl⟩
  unfold Command.handleVote Module.voteRows
  cases hvote : voteOf msg.1 with
  | none => exact ⟨s, hskip, hproposal, rfl⟩
  | some vote =>
    obtain ⟨id, voter⟩ := vote
    dsimp only
    by_cases hid : proposalID = id
    · subst hid
      rw [if_pos rfl]
      by_cases hlogs : transaction.tx.logs = []
      · refine ⟨s, Eff.returns_wrap.mpr ?_, hproposal, by simp [hlogs]⟩
        unfold Module.handleMsg
        rw [if_pos (List.length_eq_zero_iff.mpr hlogs)]
        exact hskip
      · obtain ⟨row, hrow, hrowId⟩ := hsees.described transaction hchain hlogs msg hmsg voter hvote
        obtain ⟨events, id, time, option, hevents, hid, htime, hoption, rfl⟩ := loggedVote_some hrow
        obtain rfl : id = proposalID := hrowId
        obtain ⟨result, hresult⟩ := hsees.tallies transaction.tx.height
        obtain ⟨t, ht⟩ : ∃ t, Eff.Returns (c.module.handleVoteEvent transaction.tx voter events) s () t :=
          handleVoteEvent_returns hid htime hoption hresult hproposal
        have hfix : Eff.Fixes Db.proposal (c.module.handleVoteEvent transaction.tx voter events) :=
          handleVoteEvent_fixes c.module (fun _ _ => rfl) (fun _ _ => rfl) (fun _ _ => rfl) _ _ _
        have hvotes : t.proposalVote = s.proposalVote.upsert voteConflict
            ⟨id, voter, option.option.string, option.weight, time, transaction.tx.height⟩ := by
          rw [← ht.state]
          exact handleVoteEvent_votes hid htime hoption hproposal
        refine ⟨t, Eff.returns_wrap.mpr ?_, ?_, ?_⟩
        · exact (exec_handleMsg_vote hvote hevents s).trans ht
        · unfold Db.hasProposal
          rw [hfix.of_returns ht]
          exact hproposal
        · rw [hvotes, hrow, if_pos ⟨rfl, hlogs⟩]
          rfl
    · rw [if_neg hid, if_neg fun h => hid h.1]
      exact ⟨s, hskip, hproposal, rfl⟩

theorem mem_voteRows {transaction : FullTx Msg} {msg : Msg × Nat}
    (hsees : c.Sees proposalID chain listed) (hchain : transaction ∈ chain)
    (hmsg : msg ∈ transaction.msgs.zipIdx) {row : ProposalVoteRow}
    (h : row ∈ c.module.voteRows proposalID transaction msg) :
    row.proposalId = proposalID ∧ row.height = transaction.tx.height ∧ listed transaction = true := by
  unfold Module.voteRows at h
  cases hvote : voteOf msg.1 with
  | none => simp [hvote] at h
  | some vote =>
    obtain ⟨id, voter⟩ := vote
    simp only [hvote] at h
    split at h
    · rename_i hcond
      obtain ⟨rfl, hlogs⟩ := hcond
      obtain ⟨logged, hlogged, hid⟩ := hsees.described transaction hchain hlogs msg hmsg voter hvote
      rw [hlogged] at h
      obtain rfl : row = logged := by simpa using h
      obtain ⟨_, _, _, _, -, -, -, -, rfl⟩ := loggedVote_some hlogged
      have hin : msg.1 ∈ transaction.msgs := (List.mem_zipIdx' hmsg).2 ▸ List.getElem_mem _
      exact ⟨hid, rfl, hsees.listed transaction hchain msg.1 hin voter hvote⟩
    · exact absurd h List.not_mem_nil

theorem votesCast_filter (hsees : c.Sees proposalID chain listed) {transactions : List (FullTx Msg)}
    (hin : ∀ transaction ∈ transactions, transaction ∈ chain) :
    c.module.votesCast proposalID (transactions.filter listed) =
      c.module.votesCast proposalID transactions := by
  induction transactions with
  | nil => rfl
  | cons transaction transactions ih =>
    obtain ⟨hchain, hin⟩ := List.forall_mem_cons.mp hin
    have ih := ih hin
    unfold Module.votesCast at ih ⊢
    cases hlisted : listed transaction with
    | true => rw [List.filter_cons_of_pos hlisted, List.flatMap_cons, List.flatMap_cons, ih]
    | false =>
      have hnone : transaction.msgs.zipIdx.flatMap (c.module.voteRows proposalID transaction) = [] := by
        refine List.flatMap_eq_nil_iff.mpr fun msg hmsg => List.eq_nil_iff_forall_not_mem.mpr ?_
        intro row hrow
        have htrue := (mem_voteRows hsees hchain hmsg hrow).2.2
        exact Bool.false_ne_true (hlisted.symm.trans htrue)
      rw [List.filter_cons_of_neg (by simp [hlisted]), List.flatMap_cons, hnone, List.nil_append, ih]

theorem votesCast_ascending (hsees : c.Sees proposalID chain listed) :
    (c.module.votesCast proposalID chain).Pairwise fun a b => a.height ≤ b.height := by
  have hheight : ∀ transaction ∈ chain, ∀ row ∈
      transaction.msgs.zipIdx.flatMap (c.module.voteRows proposalID transaction),
      row.height = transaction.tx.height := by
    intro transaction hchain row hrow
    obtain ⟨msg, hmsg, hrow⟩ := List.mem_flatMap.mp hrow
    exact (mem_voteRows hsees hchain hmsg hrow).2.1
  refine List.pairwise_flatMap.mpr ⟨fun transaction hchain => ?_, ?_⟩
  · refine List.pairwise_of_forall_mem_list fun a ha b hb => ?_
    rw [hheight transaction hchain a ha, hheight transaction hchain b hb]
  · refine hsees.ascending.imp_of_mem fun {x y} hx hy hxy a ha b hb => ?_
    rw [hheight x hx a ha, hheight y hy b hb]
    exact hxy

end

/-- For a stored proposal the command comes to an end, and then the row of a voter
and an option is that of the last such vote on the chain, however many the table
had missed, unless it already told of a later height. Other proposals are as they
were. -/
theorem votes_refreshed {c : Command} {proposalID : Nat} {chain : List (FullTx Msg)}
    {listed : FullTx Msg → Bool} (hsees : c.Sees proposalID chain listed) {rounds : Nat}
    (hrounds : TxSearch.lastPage (chain.filter listed).length ≤ rounds) {s : Db}
    (hproposal : s.hasProposal proposalID = true) :
    ∃ t, Eff.Returns (c.refreshProposalVotes proposalID rounds) s (some ()) t ∧
      ∀ key, t.proposalVote.find key =
        if key.1 = proposalID then
          Register.hold ProposalVoteRow.height (s.proposalVote.find key)
            ((c.module.votesCast proposalID chain).filter fun row =>
              row.uniqueVote = key).getLast?.toList
        else s.proposalVote.find key := by
  let Inv (done : List ProposalVoteRow) (u : Db) : Prop := u.hasProposal proposalID = true ∧
    u.proposalVote = done.foldl (Table.upsert voteConflict) s.proposalVote
  have hmsgs : ∀ transaction ∈ chain.filter listed, ∀ msg ∈ transaction.msgs.zipIdx, ∀ done u,
      Inv done u → ∃ t, Eff.Returns (c.handleVote proposalID transaction msg) u () t ∧
        Inv (done ++ c.module.voteRows proposalID transaction msg) t := by
    rintro transaction hfound msg hmsg done u ⟨hu, hdone⟩
    obtain ⟨t, ht, hkept, hrows⟩ :=
      handleVote_returns hsees (List.mem_of_mem_filter hfound) hmsg hu
    exact ⟨t, ht, hkept, by rw [hrows, hdone, List.foldl_append]⟩
  obtain ⟨hreturns, -, hvotes⟩ :=
    forM_handleAgain Inv _ hsees.knows hmsgs (fun _ h => h) [] ⟨hproposal, rfl⟩
  rw [hsees.fetched] at hreturns hvotes
  have hcast : (chain.filter listed).flatMap (fun transaction =>
      transaction.msgs.zipIdx.flatMap (c.module.voteRows proposalID transaction)) =
        c.module.votesCast proposalID chain := votesCast_filter hsees fun _ h => h
  rw [List.nil_append, hcast] at hvotes
  refine ⟨_, (refreshTxs_returns hsees.toFinds hrounds).mpr hreturns, fun key => ?_⟩
  rw [hvotes, voteConflict_guards.find_upserts]
  split
  · exact Register.hold_replayed ((votesCast_ascending hsees).filter _)
  · rename_i hkey
    have hnone : (c.module.votesCast proposalID chain).filter (fun row => row.uniqueVote = key) = [] := by
      refine List.filter_eq_nil_iff.mpr fun row hrow hunique => hkey ?_
      obtain ⟨transaction, hchain, hrow⟩ := List.mem_flatMap.mp hrow
      obtain ⟨msg, hmsg, hrow⟩ := List.mem_flatMap.mp hrow
      have hid := (mem_voteRows hsees hchain hmsg hrow).1
      exact (congrArg Prod.fst (of_decide_eq_true hunique)).symm.trans hid
    rw [hnone]
    rfl

def voting (height : Int) : FullTx Msg :=
  ⟨{ (castFor .yes height).tx with txHash := s!"vote {height}" },
    [.vote .v1 (castFor .yes height).msg]⟩

def twoVotes : Command where
  module := plain
  txSearch := TxSearch.strictNode [(voting 1).result, (voting 2).result]
  tx hash := if hash = (voting 1).tx.txHash then .ok (voting 1) else .ok (voting 2)

def votedYes (height : Int) : ProposalVoteRow :=
  ⟨1, "voter", VoteOption.yes.string, wholeVote, 1704067200000000, height⟩

theorem loggedVote_voting (height : Int) :
    plain.loggedVote (voting height).tx "voter" 0 = some (votedYes height) := by
  obtain ⟨events, hevents, hid, hoption, -⟩ :=
    castFor_describes (show VoteOption.yes ≠ .unspecified by decide) height
  have hlog : (voting height).tx.logs[0]? = some events := hevents
  unfold Module.loggedVote
  rw [hlog]
  simp only [Option.bind_eq_bind, Option.bind_some, hid, hoption]
  rfl

theorem twoVotes_sees : twoVotes.Sees 1 [voting 1, voting 2] fun _ => true where
  ascending := by decide
  tx := by decide
  serves _ _ hle := if_pos hle
  listed _ _ _ _ _ _ := rfl
  described := by
    intro transaction hchain _ msg hmsg voter hvote
    obtain ⟨height, rfl⟩ : ∃ height, transaction = voting height := by
      rcases List.mem_cons.mp hchain with rfl | hchain
      · exact ⟨1, rfl⟩
      · exact ⟨2, List.mem_singleton.mp hchain⟩
    obtain rfl : msg = (.vote .v1 (castFor .yes height).msg, 0) := List.mem_singleton.mp hmsg
    obtain rfl : voter = "voter" := (congrArg Prod.snd (Option.some.inj hvote)).symm
    exact ⟨_, loggedVote_voting height, rfl⟩
  tallies _ := ⟨_, rfl⟩

theorem votes_refreshed_twoVotes :
    ∃ t, Eff.Returns (twoVotes.refreshProposalVotes 1 1) storedProposals (some ()) t ∧
      t.proposalVote.find (1, "voter", VoteOption.yes.string) = some (votedYes 2) := by
  have hrounds : TxSearch.lastPage ([voting 1, voting 2].filter fun _ => true).length ≤ 1 := by decide
  obtain ⟨t, ht, hfind⟩ := votes_refreshed twoVotes_sees hrounds (s := storedProposals) rfl
  have hcast : twoVotes.module.votesCast 1 [voting 1, voting 2] = [votedYes 1, votedYes 2] := by
    have hrows : ∀ height, plain.voteRows 1 (voting height)
        (.vote .v1 (castFor .yes height).msg, 0) = [votedYes height] := by
      intro height
      have hif : plain.voteRows 1 (voting height) (.vote .v1 (castFor .yes height).msg, 0) =
          (plain.loggedVote (voting height).tx "voter" 0).toList := rfl
      rw [hif, loggedVote_voting]
      rfl
    show [voting 1, voting 2].flatMap _ = _
    rw [List.flatMap_cons, List.flatMap_singleton]
    exact congrArg₂ (· ++ ·) (hrows 1) (hrows 2)
  refine ⟨t, ht, ?_⟩
  rw [hfind, if_pos rfl, hcast]
  rfl

end SafrochainIndexer.Callisto.Gov
