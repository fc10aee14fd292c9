import SafrochainIndexer.Callisto.GovFrames
import SafrochainIndexer.Callisto.VoteTexts

/-!
# Votes

The unique key of `proposal_vote` contains the option. `stored_vote_iff` says
when the rows of a voter on a proposal are the voter's last vote.
-/

namespace SafrochainIndexer.Callisto.Gov

variable {m : Module} {s t : Db}

theorem voteConflict_guards : voteConflict.Guards ProposalVoteRow.height where
  set_eq stored excluded hk := by
    cases stored; cases excluded
    simpa [voteConflict, ProposalVoteRow.uniqueVote] using hk
  guard_iff _ _ := decide_eq_true_iff

theorem saveVote_ok {vote : Vote} (h : s.hasProposal vote.proposalId = true) :
    ∃ t, Eff.Returns (saveVote vote) s () t ∧
      t.proposalVote = s.proposalVote.upsert voteConflict vote.row := by
  have hvoter := (hasAccount_addAccounts s [⟨vote.voter⟩] vote.voter).mpr (by simp)
  have hproposal : (s.addAccounts [⟨vote.voter⟩]).hasProposal vote.proposalId = true := h
  have hrow : proposalVoteTable.violation (s.addAccounts [⟨vote.voter⟩]) vote.row = none := by
    simp [proposalVoteTable, Vote.row, hvoter, hproposal]
  exact ⟨_, saveAccounts_insert voteConflict_guards (by simp [maxPostgreSQLParams]) hrow _ _, rfl⟩

/-- The vote is stored whether or not the tally can be updated afterwards. -/
theorem handleVoteEvent_votes {tx : Tx} {voter : String} {events : List Event} {id : Nat}
    {time : Int} {option : WeightedVoteOption} (hid : proposalIDFromEvents events = .ok id)
    (htime : m.timeParse tx.timestamp = .ok time)
    (hoption : m.weightVoteOptionFromEvents events = .ok option)
    (hproposal : s.hasProposal id = true) :
    (Eff.exec (m.handleVoteEvent tx voter events) s).2.proposalVote =
      s.proposalVote.upsert voteConflict
        ⟨id, voter, option.option.string, option.weight, time, tx.height⟩ := by
  let vote : Vote := ⟨id, voter, option.option, option.weight, time, tx.height⟩
  obtain ⟨u, hsave, hvotes⟩ := saveVote_ok (show s.hasProposal vote.proposalId = true from hproposal)
  have hsaved : Eff.Returns (Eff.wrap "error while saving vote: " (saveVote vote)) s () u :=
    Eff.returns_wrap.mpr hsave
  simp only [Module.handleVoteEvent, Eff.exec_wrap_ofExcept_bind, hid, htime, hoption]
  rw [hsaved.exec_bind]
  refine (updateProposalTallyResult_fixes m ?_ id tx.height u).trans hvotes
  exact fun _ _ => rfl

-- ---------------------------------------------------------------------------
-- Sequences of votes
-- ---------------------------------------------------------------------------

/-- A `MsgVote` at an index of a transaction. -/
structure Cast where
  version : Version
  msg : MsgVote
  index : Nat
  tx : Tx
  deriving DecidableEq, Repr

variable (m) in
/-- The events of the message tell of the vote, and its time can be read. -/
def Describes (cast : Cast) : Prop :=
  ∃ events, cast.tx.logs[cast.index]? = some events ∧
    proposalIDFromEvents events = .ok cast.msg.proposalId ∧
    m.weightVoteOptionFromEvents events = .ok ⟨cast.msg.option, wholeVote⟩ ∧
    ∃ time, m.timeParse cast.tx.timestamp = .ok time

variable (m) in
def castRow (cast : Cast) : ProposalVoteRow where
  proposalId := cast.msg.proposalId
  voterAddress := cast.msg.voter
  option := cast.msg.option.string
  weight := wholeVote
  timestamp := (m.timeParse cast.tx.timestamp).toOption.getD zeroTime
  height := cast.tx.height

variable (m) in
def handleCasts (s : Db) (casts : List Cast) : Db :=
  casts.foldl (fun s cast => (Eff.exec (m.handleMsg cast.index (.vote cast.version cast.msg) cast.tx) s).2) s

def votesOf (id : Nat) (voter : String) (casts : List Cast) : List Cast :=
  casts.filter fun cast => cast.msg.proposalId = id ∧ cast.msg.voter = voter

def rowsOf (id : Nat) (voter : String) (s : Db) : List ProposalVoteRow :=
  s.proposalVote.rows.filter fun row => row.proposalId = id ∧ row.voterAddress = voter

theorem handleCast_votes {cast : Cast} (hd : Describes m cast)
    (hp : s.hasProposal cast.msg.proposalId = true) :
    (Eff.exec (m.handleMsg cast.index (.vote cast.version cast.msg) cast.tx) s).2.proposalVote =
      s.proposalVote.upsert voteConflict (castRow m cast) := by
  obtain ⟨events, hlog, hid, hoption, time, htime⟩ := hd
  have hne : cast.tx.logs.length ≠ 0 := by
    intro h
    simp [List.length_eq_zero_iff.mp h] at hlog
  have hevents : Eff.Returns (logEvents cast.tx cast.index) s events s :=
    logEvents_returns.mpr ⟨hlog, rfl⟩
  simp only [Module.handleMsg, if_neg hne]
  rw [hevents.exec_bind, handleVoteEvent_votes hid htime hoption hp]
  simp [castRow, htime, Except.toOption]

theorem handleCasts_votes {casts : List Cast} (hd : ∀ cast ∈ casts, Describes m cast)
    (hp : ∀ cast ∈ casts, s.hasProposal cast.msg.proposalId = true) :
    (handleCasts m s casts).proposalVote =
      (casts.map (castRow m)).foldl (Table.upsert voteConflict) s.proposalVote := by
  induction casts generalizing s with
  | nil => rfl
  | cons cast casts ih =>
    have hrest := ih (s := (Eff.exec (m.handleMsg cast.index (.vote cast.version cast.msg) cast.tx) s).2)
      (fun c hc => hd c (List.mem_cons_of_mem _ hc)) fun c hc => by
        have hvote : ∀ version submission,
            Msg.vote cast.version cast.msg ≠ .submitProposal version submission :=
          fun _ _ h => (nomatch h)
        unfold Db.hasProposal
        rw [handleMsg_proposals m hvote cast.index cast.tx s]
        exact hp c (List.mem_cons_of_mem _ hc)
    refine hrest.trans ?_
    rw [handleCast_votes (hd cast (by simp)) (hp cast (by simp))]
    rfl

theorem find_handleCasts {casts : List Cast} (hd : ∀ cast ∈ casts, Describes m cast)
    (hp : ∀ cast ∈ casts, s.hasProposal cast.msg.proposalId = true)
    (hs : casts.Pairwise fun a b => a.tx.height ≤ b.tx.height) {id : Nat} {voter : String}
    (hfresh : rowsOf id voter s = []) (option : String) :
    (handleCasts m s casts).proposalVote.find (id, voter, option) =
      (((votesOf id voter casts).filter fun cast => cast.msg.option.string = option).map
        (castRow m)).getLast? := by
  have hnone : s.proposalVote.find (id, voter, option) = none := by
    refine Table.find_eq_none_of_filter hfresh fun row hk => ?_
    simp only [ProposalVoteRow.uniqueVote, Prod.mk.injEq] at hk
    simp [hk]
  have hfilter : ((casts.map (castRow m)).filter fun row => row.uniqueVote = (id, voter, option)) =
      ((votesOf id voter casts).filter fun cast => cast.msg.option.string = option).map
        (castRow m) := by
    rw [List.filter_map, votesOf, List.filter_filter]
    refine congrArg _ (List.filter_congr fun cast _ => Bool.eq_iff_iff.mpr ?_)
    simp only [castRow, ProposalVoteRow.uniqueVote, Function.comp_apply, decide_eq_true_eq,
      Prod.mk.injEq, Bool.and_eq_true]
    refine decide_eq_true_iff.trans ?_
    constructor
    · rintro ⟨hid, hvoter, hoption⟩
      exact ⟨hoption, hid, hvoter⟩
    · rintro ⟨hoption, hid, hvoter⟩
      exact ⟨hid, hvoter, hoption⟩
  rw [handleCasts_votes hd hp, voteConflict_guards.find_upserts, hnone, hfilter]
  refine Register.hold_of_sorted ?_
  have hsub := (List.filter_sublist (p := fun cast : Cast => cast.msg.option.string = option)).trans
    (List.filter_sublist : (votesOf id voter casts).Sublist casts)
  exact List.pairwise_map.mpr (hs.sublist hsub)

theorem mem_rowsOf_iff {id : Nat} {voter : String} {row : ProposalVoteRow} :
    row ∈ rowsOf id voter s ↔
      row.proposalId = id ∧ row.voterAddress = voter ∧
        s.proposalVote.find (id, voter, row.option) = some row := by
  unfold rowsOf
  rw [List.mem_filter, Table.mem_rows_iff]
  constructor
  · rintro ⟨hf, hk⟩
    obtain ⟨rfl, rfl⟩ := of_decide_eq_true hk
    exact ⟨rfl, rfl, hf⟩
  · rintro ⟨rfl, rfl, hf⟩
    exact ⟨hf, by simp⟩

theorem nodup_rowsOf (id : Nat) (voter : String) (s : Db) : (rowsOf id voter s).Nodup :=
  s.proposalVote.keys_nodup.of_map.filter _

theorem option_stored {casts : List Cast} (hd : ∀ cast ∈ casts, Describes m cast)
    (hp : ∀ cast ∈ casts, s.hasProposal cast.msg.proposalId = true)
    (hs : casts.Pairwise fun a b => a.tx.height ≤ b.tx.height) {id : Nat} {voter : String}
    (hfresh : rowsOf id voter s = []) {cast : Cast} (hcast : cast ∈ votesOf id voter casts) :
    ∃ row ∈ rowsOf id voter (handleCasts m s casts), row.option = cast.msg.option.string := by
  have hin : cast ∈ (votesOf id voter casts).filter fun c =>
      c.msg.option.string = cast.msg.option.string := List.mem_filter.mpr ⟨hcast, by simp⟩
  obtain ⟨row, hrow⟩ : ∃ row, (handleCasts m s casts).proposalVote.find
      (id, voter, cast.msg.option.string) = some row := by
    rw [find_handleCasts hd hp hs hfresh]
    exact ⟨_, List.getLast?_eq_some_getLast (List.ne_nil_of_mem (List.mem_map.mpr ⟨cast, hin, rfl⟩))⟩
  have hk := Table.find_key hrow
  simp only [ProposalVoteRow.uniqueVote, Prod.mk.injEq] at hk
  obtain ⟨hid, hvoter, hoption⟩ := hk
  exact ⟨row, mem_rowsOf_iff.mpr ⟨hid, hvoter, by rw [hoption]; exact hrow⟩, hoption⟩

theorem last_vote_stored {casts : List Cast} (hd : ∀ cast ∈ casts, Describes m cast)
    (hp : ∀ cast ∈ casts, s.hasProposal cast.msg.proposalId = true)
    (hs : casts.Pairwise fun a b => a.tx.height ≤ b.tx.height) {id : Nat} {voter : String}
    (hfresh : rowsOf id voter s = []) {last : Cast}
    (hlast : (votesOf id voter casts).getLast? = some last)
    (hall : ∀ cast ∈ votesOf id voter casts, cast.msg.option = last.msg.option) :
    rowsOf id voter (handleCasts m s casts) = [castRow m last] := by
  have hfind := find_handleCasts hd hp hs hfresh
  have hlastRow : (handleCasts m s casts).proposalVote.find
      (id, voter, last.msg.option.string) = some (castRow m last) := by
    have hsame : ((votesOf id voter casts).filter fun c =>
        c.msg.option.string = last.msg.option.string) = votesOf id voter casts :=
      List.filter_eq_self.mpr fun c hc => by simp [hall c hc]
    rw [hfind, hsame, List.getLast?_map, hlast]
    rfl
  refine List.perm_singleton.mp ?_
  refine (List.perm_ext_iff_of_nodup (nodup_rowsOf ..) (List.nodup_singleton _)).mpr fun row => ?_
  rw [mem_rowsOf_iff, List.mem_singleton]
  constructor
  · rintro ⟨hid, hvoter, hrow⟩
    have hsome := hrow
    rw [hfind] at hsome
    obtain ⟨cast, hcast, rfl⟩ := List.mem_map.mp (List.mem_of_getLast? hsome)
    have hoption := hall cast (List.mem_filter.mp hcast).1
    have hname : (castRow m cast).option = last.msg.option.string := by
      rw [← hoption]
      rfl
    rw [hname, hlastRow] at hrow
    exact (Option.some.inj hrow).symm
  · rintro rfl
    have hvote : last.msg.proposalId = id ∧ last.msg.voter = voter := by
      simpa using (List.mem_filter.mp (List.mem_of_getLast? hlast)).2
    exact ⟨hvote.1, hvote.2, hlastRow⟩

/-- The rows of a voter on a proposal are the voter's last vote exactly if all
votes of the voter on it name one option. -/
theorem stored_vote_iff {casts : List Cast} (hd : ∀ cast ∈ casts, Describes m cast)
    (hp : ∀ cast ∈ casts, s.hasProposal cast.msg.proposalId = true)
    (hs : casts.Pairwise fun a b => a.tx.height ≤ b.tx.height) {id : Nat} {voter : String}
    (hfresh : rowsOf id voter s = []) {last : Cast}
    (hlast : (votesOf id voter casts).getLast? = some last) :
    rowsOf id voter (handleCasts m s casts) = [castRow m last] ↔
      ∀ cast ∈ votesOf id voter casts, cast.msg.option = last.msg.option := by
  constructor
  · intro hrows cast hcast
    obtain ⟨row, hrow, hoption⟩ := option_stored hd hp hs hfresh hcast
    rw [hrows] at hrow
    obtain rfl := List.mem_singleton.mp hrow
    exact VoteOption.string_injective hoption.symm
  · exact last_vote_stored hd hp hs hfresh hlast

def castFor (option : VoteOption) (height : Int) : Cast where
  version := .v1
  msg := ⟨1, "voter", option⟩
  index := 0
  tx := ⟨height, "vote", "2024-01-01T00:00:00Z",
    [[⟨"proposal_vote",
      [⟨"option", "option:" ++ option.string ++ " weight:\"1.000000000000000000\""⟩,
        ⟨"proposal_id", "1"⟩]⟩]], []⟩

theorem castFor_describes {option : VoteOption} (h : option ≠ .unspecified) (height : Int) :
    Describes plain (castFor option height) := by
  refine ⟨_, rfl, rfl, ?_, 1704067200000000, rfl⟩
  exact parse_wholeVote h plain_parses

theorem stored_vote_iff_repeated :
    rowsOf 1 "voter" (handleCasts plain storedProposals [castFor .yes 1, castFor .yes 2]) =
      [castRow plain (castFor .yes 2)] := by
  have hcasts : ∀ cast ∈ [castFor .yes 1, castFor .yes 2], ∃ height, cast = castFor .yes height := by
    intro cast hcast
    rcases List.mem_cons.mp hcast with rfl | hcast
    · exact ⟨1, rfl⟩
    · exact ⟨2, List.mem_singleton.mp hcast⟩
  refine (stored_vote_iff ?_ ?_ (by decide) rfl rfl).mpr ?_
  · intro cast hcast
    obtain ⟨height, rfl⟩ := hcasts cast hcast
    exact castFor_describes (by decide) height
  · intro cast hcast
    obtain ⟨height, rfl⟩ := hcasts cast hcast
    rfl
  · intro cast hcast
    obtain ⟨height, rfl⟩ := hcasts cast (List.mem_filter.mp hcast).1
    rfl

/-- A vote of another option leaves the vote before it in the table. -/
theorem earlier_vote_stays :
    (∀ cast ∈ [castFor .yes 1, castFor .no 2], Describes plain cast) ∧
      rowsOf 1 "voter" (handleCasts plain storedProposals [castFor .yes 1, castFor .no 2]) ≠
        [castRow plain (castFor .no 2)] := by
  constructor
  · intro cast hcast
    rcases List.mem_cons.mp hcast with rfl | hcast
    · exact castFor_describes (by decide) 1
    · obtain rfl := List.mem_singleton.mp hcast
      exact castFor_describes (by decide) 2
  · decide +kernel

end SafrochainIndexer.Callisto.Gov
