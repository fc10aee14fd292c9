import SafrochainIndexer.Callisto.AuthzLaws

/-!
# Weighted votes

The events of a `MsgVoteWeighted` have all options of the vote in one attribute,
one rendered option per line or as a JSON list, and `parseWeightVoteOption`
returns a single option. `weighted_vote_stored_iff`: the vote is stored exactly
if it is a single option on a line.
-/

namespace SafrochainIndexer.Callisto

def VoteOption.number : VoteOption → Nat
  | .unspecified => 0
  | .yes => 1
  | .abstain => 2
  | .no => 3
  | .noWithVeto => 4

namespace Gov

def jsonOption (option : WeightedVoteOption) : String :=
  "\x7b\"option\":" ++ toString option.option.number ++ ",\"weight\":\"" ++ option.weight ++ "\"\x7d"

/-- How `WeightedVoteOptions` are written: as lines, which may each end in a
blank, or as JSON. -/
inductive Rendering
  | lines (blank : Bool)
  | jsonList
  deriving DecidableEq, Repr

def Rendering.text (options : List WeightedVoteOption) : Rendering → String
  | .lines blank => (if blank then " \n" else "\n").intercalate (options.map renderedOption)
  | .jsonList => "[" ++ ",".intercalate (options.map jsonOption) ++ "]"

variable {m : Module} {s : Db}

-- ---------------------------------------------------------------------------
-- Rendered texts
-- ---------------------------------------------------------------------------

theorem count_lines {options : List WeightedVoteOption} (h : ∀ option ∈ options, ValidOption option)
    (sep : String) :
    options.length ≤ (sep.intercalate (options.map renderedOption)).toList.count ' ' := by
  have hone : ∀ option ∈ options, (renderedOption option).toList.count ' ' = 1 := by
    intro option hoption
    have hpieces := Text.length_splitAt (renderedOption option) ' '
    rw [splitAt_renderedOption (h option hoption)] at hpieces
    exact (Nat.succ.inj hpieces).symm
  clear h
  induction options with
  | nil => exact Nat.zero_le _
  | cons option options ih =>
    obtain ⟨hfirst, hrest⟩ := List.forall_mem_cons.mp hone
    have hih := ih hrest
    cases options with
    | nil =>
      rw [List.map_singleton, String.intercalate_singleton, hfirst]
      rfl
    | cons second options =>
      simp only [List.map_cons, String.intercalate_cons_cons, String.toList_append,
        List.count_append, hfirst, List.length_cons] at hih ⊢
      omega

theorem blank_not_mem_jsonList {options : List WeightedVoteOption}
    (h : ∀ option ∈ options, ValidOption option) :
    ' ' ∉ (Rendering.jsonList.text options).toList := by
  have hnumber : ∀ option : VoteOption, ' ' ∉ (toString option.number).toList := by
    intro option
    cases option <;> decide
  have hentries : ' ' ∉ (",".intercalate (options.map jsonOption)).toList := by
    refine Text.not_mem_intercalate (by decide) (List.forall_mem_map.mpr fun option hoption => ?_)
    have hweight := (h option hoption).weight.not_mem (c := ' ') rfl (by decide)
    simp only [jsonOption, String.toList_append, List.mem_append, not_or]
    exact ⟨⟨⟨⟨by decide, hnumber _⟩, by decide⟩, hweight⟩, by decide⟩
  simp only [Rendering.text, String.toList_append, List.mem_append, not_or]
  exact ⟨⟨by decide, hentries⟩, by decide⟩

theorem parse_ne_ok {text message : String} (hjson : m.unmarshalOption text = .error message)
    (hpieces : (Text.splitAt text ' ').length ≠ 2) (option : WeightedVoteOption) :
    m.parseWeightVoteOption text ≠ .ok option := by
  rw [Module.parseWeightVoteOption, hjson]
  dsimp only
  split
  · rename_i hpair
    exact absurd (congrArg List.length hpair) hpieces
  · intro h
    cases h

/-- One option, on a line. -/
def SingleLine (rendering : Rendering) (options : List WeightedVoteOption)
    (option : WeightedVoteOption) : Prop :=
  rendering ≠ .jsonList ∧ options = [option]

theorem parse_text_iff (hm : m.Parses) {rendering : Rendering} {options : List WeightedVoteOption}
    (hne : options ≠ []) (h : ∀ option ∈ options, ValidOption option)
    {option : WeightedVoteOption} :
    m.parseWeightVoteOption (rendering.text options) = .ok option ↔
      SingleLine rendering options option := by
  constructor
  · intro hparsed
    obtain ⟨first, rest, rfl⟩ := List.exists_cons_of_ne_nil hne
    cases rendering with
    | jsonList =>
      obtain ⟨message, hmessage⟩ := hm.unmarshal (Rendering.jsonList.text (first :: rest)) '['
        (by simp [Rendering.text]) (.inr rfl)
      refine absurd hparsed (parse_ne_ok hmessage ?_ option)
      rw [Text.length_splitAt, List.count_eq_zero.mpr (blank_not_mem_jsonList h)]
      decide
    | lines blank =>
      cases rest with
      | nil =>
        rw [Rendering.text, List.map_singleton, String.intercalate_singleton,
          parse_renderedOption (h first (List.mem_singleton.mpr rfl)) hm] at hparsed
        exact ⟨nofun, congrArg ([·]) (Except.ok.inj hparsed)⟩
      | cons second rest =>
        obtain ⟨message, hmessage⟩ :=
          hm.unmarshal ((Rendering.lines blank).text (first :: second :: rest)) 'o'
            (by simp [Rendering.text, String.intercalate_cons_cons, renderedOption]) (.inl rfl)
        refine absurd hparsed (parse_ne_ok hmessage ?_ option)
        have hcount := count_lines h (if blank then " \n" else "\n")
        rw [Text.length_splitAt, Rendering.text]
        simp only [List.length_cons] at hcount
        omega
  · rintro ⟨hlines, rfl⟩
    cases rendering with
    | jsonList => exact absurd rfl hlines
    | lines blank =>
      rw [Rendering.text, List.map_singleton, String.intercalate_singleton]
      exact parse_renderedOption (h option (List.mem_singleton.mpr rfl)) hm

-- ---------------------------------------------------------------------------
-- Stored votes
-- ---------------------------------------------------------------------------

/-- The events of a `MsgVoteWeighted` name the proposal and all its options, and
its time can be read. -/
def DescribesWeighted (m : Module) (rendering : Rendering) (index : Nat) (tx : Tx)
    (msg : MsgVoteWeighted) : Prop :=
  ∃ events, tx.logs[index]? = some events ∧ proposalIDFromEvents events = .ok msg.proposalId ∧
    attributeFromEvents "option" events = some (rendering.text msg.options) ∧
    ∃ time, m.timeParse tx.timestamp = .ok time

def voteRow (m : Module) (tx : Tx) (msg : MsgVoteWeighted) (option : WeightedVoteOption) :
    ProposalVoteRow where
  proposalId := msg.proposalId
  voterAddress := msg.voter
  option := option.option.string
  weight := option.weight
  timestamp := (m.timeParse tx.timestamp).toOption.getD zeroTime
  height := tx.height

/-- All rows are there, and no others are new. -/
structure StoredRows (rows : List ProposalVoteRow) (before after : Db) : Prop where
  stored : ∀ row ∈ rows, row ∈ after.proposalVote.rows
  only : ∀ row ∈ after.proposalVote.rows, row ∈ before.proposalVote.rows ∨ row ∈ rows

section
variable {rendering : Rendering} {index : Nat} {tx : Tx} {msg : MsgVoteWeighted}

theorem handleWeighted_votes (hd : DescribesWeighted m rendering index tx msg)
    (hp : s.hasProposal msg.proposalId = true) (version : Version) :
    (Eff.exec (m.handleMsg index (.voteWeighted version msg) tx) s).2.proposalVote =
      match m.parseWeightVoteOption (rendering.text msg.options) with
      | .ok option => s.proposalVote.upsert voteConflict (voteRow m tx msg option)
      | .error _ => s.proposalVote := by
  obtain ⟨events, hlog, hid, hoption, time, htime⟩ := hd
  have hne : tx.logs.length ≠ 0 := by
    intro h
    simp [List.length_eq_zero_iff.mp h] at hlog
  have hevents : Eff.Returns (logEvents tx index) s events s := logEvents_returns.mpr ⟨hlog, rfl⟩
  simp only [Module.handleMsg, if_neg hne]
  rw [hevents.exec_bind, handleVoteEvent_shared hid htime msg.voter hp,
    Module.weightVoteOptionFromEvents, hoption]
  dsimp only
  cases m.parseWeightVoteOption (rendering.text msg.options) with
  | error message => rfl
  | ok option => simp [voteRow, htime, Except.toOption]

theorem storedRows_unchanged_iff {rows : List ProposalVoteRow} {t : Db}
    (h : t.proposalVote = s.proposalVote) :
    StoredRows rows s t ↔ ∀ row ∈ rows, row ∈ s.proposalVote.rows := by
  constructor
  · intro hstored row hrow
    exact h ▸ hstored.stored row hrow
  · intro hthere
    refine ⟨fun row hrow => h ▸ hthere row hrow, fun row hrow => ?_⟩
    rw [h] at hrow
    exact .inl hrow

theorem storedRows_upsert_iff {row : ProposalVoteRow} {t : Db}
    (h : t.proposalVote = s.proposalVote.upsert voteConflict row) :
    StoredRows [row] s t ↔
      ∀ stored ∈ s.proposalVote.find row.uniqueVote, stored.height ≤ row.height := by
  have hupserts : t.proposalVote = [row].foldl (Table.upsert voteConflict) s.proposalVote := h
  constructor
  · intro hstored
    have hrow := hstored.stored row (List.mem_singleton.mpr rfl)
    rw [h] at hrow
    exact voteConflict_guards.le_of_mem_upsert hrow
  · intro hold
    constructor
    · refine List.forall_mem_singleton.mpr ?_
      rw [hupserts]
      exact voteConflict_guards.mem_upserts (List.mem_singleton.mpr rfl)
        (fun x hx _ => List.mem_singleton.mp hx) hold
    · intro other hother
      rw [hupserts] at hother
      exact voteConflict_guards.mem_of_upserts hother

/-- A weighted vote is stored exactly if it is a single option on a line and no
newer row of that option is there, or if its rows are there already. -/
theorem weighted_vote_stored_iff (hm : m.Parses) (hne : msg.options ≠ [])
    (hvalid : ∀ option ∈ msg.options, ValidOption option)
    (hd : DescribesWeighted m rendering index tx msg)
    (hp : s.hasProposal msg.proposalId = true) (version : Version) :
    StoredRows (msg.options.map (voteRow m tx msg)) s
        (Eff.exec (m.handleMsg index (.voteWeighted version msg) tx) s).2 ↔
      (∃ option, SingleLine rendering msg.options option ∧
        ∀ stored ∈ s.proposalVote.find (msg.proposalId, msg.voter, option.option.string),
          stored.height ≤ tx.height) ∨
      ∀ option ∈ msg.options, voteRow m tx msg option ∈ s.proposalVote.rows := by
  have hvotes := handleWeighted_votes hd hp version
  cases hparsed : m.parseWeightVoteOption (rendering.text msg.options) with
  | error message =>
    rw [hparsed] at hvotes
    rw [storedRows_unchanged_iff hvotes, List.forall_mem_map]
    refine (or_iff_right ?_).symm
    rintro ⟨option, hsingle, -⟩
    rw [(parse_text_iff hm hne hvalid).mpr hsingle] at hparsed
    cases hparsed
  | ok option =>
    rw [hparsed] at hvotes
    have hsingle := (parse_text_iff hm hne hvalid).mp hparsed
    rw [hsingle.2, List.map_singleton, storedRows_upsert_iff hvotes, List.forall_mem_singleton]
    constructor
    · intro hold
      exact .inl ⟨option, ⟨hsingle.1, rfl⟩, hold⟩
    · rintro (⟨other, ⟨-, hsame⟩, hold⟩ | hthere) stored hstored
      · obtain rfl := List.singleton_inj.mp hsame
        exact hold stored hstored
      · rw [Table.find_of_mem hthere] at hstored
        exact Option.some.inj hstored ▸ le_rfl

end

def weightedVote (options : List WeightedVoteOption) : MsgVoteWeighted := ⟨1, "voter", options⟩

def weightedTx (rendering : Rendering) (options : List WeightedVoteOption) : Tx :=
  ⟨5, "vote", "2024-01-01T00:00:00Z",
    [[⟨"proposal_vote", [⟨"option", rendering.text options⟩, ⟨"proposal_id", "1"⟩]⟩]], []⟩

theorem weightedTx_describes (rendering : Rendering) (options : List WeightedVoteOption) :
    DescribesWeighted plain rendering 0 (weightedTx rendering options) (weightedVote options) :=
  ⟨_, rfl, rfl, rfl, 1704067200000000, rfl⟩

theorem whole_weighted_vote_stored :
    StoredRows [voteRow plain (weightedTx (.lines true) [⟨.yes, wholeVote⟩])
        (weightedVote [⟨.yes, wholeVote⟩]) ⟨.yes, wholeVote⟩] storedProposals
      (Eff.exec (plain.handleMsg 0 (.voteWeighted .v1 (weightedVote [⟨.yes, wholeVote⟩]))
        (weightedTx (.lines true) [⟨.yes, wholeVote⟩])) storedProposals).2 := by
  have hvalid : ∀ option ∈ (weightedVote [⟨.yes, wholeVote⟩]).options, ValidOption option :=
    List.forall_mem_singleton.mpr ⟨by decide, by decide⟩
  have hdescribes := weightedTx_describes (.lines true) [⟨.yes, wholeVote⟩]
  refine (weighted_vote_stored_iff plain_parses (by decide) hvalid hdescribes rfl .v1).mpr
    (.inl ⟨_, ⟨by decide, rfl⟩, ?_⟩)
  exact fun _ hstored => nomatch hstored

def halves : List WeightedVoteOption :=
  [⟨.yes, "0.500000000000000000"⟩, ⟨.no, "0.500000000000000000"⟩]

/-- Of a vote that is split in halves nothing is stored. -/
theorem split_vote_lost :
    DescribesWeighted plain (.lines true) 0 (weightedTx (.lines true) halves) (weightedVote halves) ∧
      ¬ StoredRows (halves.map (voteRow plain (weightedTx (.lines true) halves) (weightedVote halves)))
        storedProposals
        (Eff.exec (plain.handleMsg 0 (.voteWeighted .v1 (weightedVote halves))
          (weightedTx (.lines true) halves)) storedProposals).2 := by
  refine ⟨weightedTx_describes _ _, fun hstored => ?_⟩
  have hnone : (Eff.exec (plain.handleMsg 0 (.voteWeighted .v1 (weightedVote halves))
      (weightedTx (.lines true) halves)) storedProposals).2.proposalVote.rows = [] := by
    decide +kernel
  have hrow := hstored.stored _ (List.mem_cons_self ..)
  rw [hnone] at hrow
  exact List.not_mem_nil hrow

end Gov

end SafrochainIndexer.Callisto
