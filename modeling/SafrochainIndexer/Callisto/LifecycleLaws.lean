import SafrochainIndexer.Callisto.Lifecycle
import SafrochainIndexer.Callisto.StatusLaws
import SafrochainIndexer.Lib.Lockstep

/-!
# Proposal statuses in the order of the chain

The indexer follows the chain block by block. `lifecycle_iff` says when the
stored status of every indexed proposal is the status on the chain after every
block. The scanned events cover each step of a proposal but the one that drops
it.
-/

namespace SafrochainIndexer.Callisto.Gov

variable {m : Module} {s t : Db}

-- ---------------------------------------------------------------------------
-- Scanned ids
-- ---------------------------------------------------------------------------

theorem parseProposalIDs_ok {values : List String} {ids : List Nat}
    (h : parseProposalIDs values = .ok ids) :
    (∀ id ∈ ids, ∃ value ∈ values, Text.parseUint value = .ok id) ∧
      ∀ value ∈ values, ∃ id ∈ ids, Text.parseUint value = .ok id := by
  induction values generalizing ids with
  | nil =>
    obtain rfl := Except.ok.inj h
    simp
  | cons value values ih =>
    unfold parseProposalIDs at h
    cases hvalue : Text.parseUint value with
    | error message => simp [hvalue] at h
    | ok id =>
      cases hrest : parseProposalIDs values with
      | error message => simp [hvalue, hrest, Except.map] at h
      | ok rest =>
        simp only [hvalue, hrest, Except.map, Except.ok.injEq] at h
        subst h
        obtain ⟨hids, hvalues⟩ := ih hrest
        constructor
        · intro k hk
          rcases List.mem_cons.mp hk with rfl | hk
          · exact ⟨value, by simp, hvalue⟩
          · obtain ⟨v, hv, hparse⟩ := hids k hk
            exact ⟨v, List.mem_cons_of_mem _ hv, hparse⟩
        · intro v hv
          rcases List.mem_cons.mp hv with rfl | hv
          · exact ⟨id, by simp, hvalue⟩
          · obtain ⟨k, hk, hparse⟩ := hvalues v hv
            exact ⟨k, List.mem_cons_of_mem _ hk, hparse⟩

theorem updatedProposalIDs_ok {txEvents endBlockEvents : List Event} {ids : List Nat}
    (h : updatedProposalIDs txEvents endBlockEvents = .ok ids) :
    (∀ id ∈ ids, ∃ value ∈ startsVoting txEvents ∪ endsVoting endBlockEvents,
      Text.parseUint value = .ok id) ∧
    ∀ value ∈ startsVoting txEvents ∪ endsVoting endBlockEvents,
      ∃ id ∈ ids, Text.parseUint value = .ok id := by
  simp only [updatedProposalIDs, findProposalIDsInEvents, Eff.bind_ok, Eff.pure_ok] at h
  obtain ⟨endIDs, hend, submitIDs, hsubmit, depositIDs, hdeposit, rfl⟩ := h
  obtain ⟨hend, hend'⟩ := parseProposalIDs_ok hend
  obtain ⟨hsubmit, hsubmit'⟩ := parseProposalIDs_ok hsubmit
  obtain ⟨hdeposit, hdeposit'⟩ := parseProposalIDs_ok hdeposit
  constructor
  · intro id hid
    rcases List.mem_append.mp hid with hid | hid
    · rcases List.mem_append.mp hid with hid | hid
      · obtain ⟨value, hvalue, hparse⟩ := hend id hid
        exact ⟨value, .inr hvalue, hparse⟩
      · obtain ⟨value, hvalue, hparse⟩ := hsubmit id hid
        exact ⟨value, .inl (.inl hvalue), hparse⟩
    · obtain ⟨value, hvalue, hparse⟩ := hdeposit id hid
      exact ⟨value, .inl (.inr hvalue), hparse⟩
  · rintro value ((hvalue | hvalue) | hvalue)
    · obtain ⟨id, hid, hparse⟩ := hsubmit' value hvalue
      exact ⟨id, by simp [hid], hparse⟩
    · obtain ⟨id, hid, hparse⟩ := hdeposit' value hvalue
      exact ⟨id, by simp [hid], hparse⟩
    · obtain ⟨id, hid, hparse⟩ := hend' value hvalue
      exact ⟨id, by simp [hid], hparse⟩

section
variable {c d : Chain} {txEvents endBlockEvents : List Event} {ids : List Nat}
  (h : BlockStep c txEvents endBlockEvents d)
  (hids : updatedProposalIDs txEvents endBlockEvents = .ok ids)
include h hids

theorem BlockStep.scanned {id : Nat} (hid : id ∈ ids) : d.proposals id ≠ none := by
  obtain ⟨value, hvalue, hparse⟩ := (updatedProposalIDs_ok hids).1 id hid
  obtain ⟨k, rfl, p, hp, -⟩ := h.evolves.named_past value hvalue
  have hlt := (d.wellFormed k p hp).2.trans_le d.nextId_le
  obtain rfl := Except.ok.inj ((Text.parseUint_toString hlt).symm.trans hparse)
  rw [hp]
  exact Option.some_ne_none p

/-- A proposal whose status a block changes is named, unless it is dropped. -/
theorem BlockStep.unscanned {id : Nat} (hid : id ∉ ids) {p q : V1Proposal}
    (hp : c.proposals id = some p) (hq : d.proposals id = some q) : q.status = p.status := by
  have hlt := (d.wellFormed id q hq).2.trans_le d.nextId_le
  rcases h.evolves.kept id p hp with hnone | ⟨r, hr, hsame⟩
  · rw [hnone] at hq
    cases hq
  · obtain rfl := Option.some.inj (hq.symm.trans hr)
    rcases hsame with hsame | hnamed
    · exact hsame
    · obtain ⟨k, hk, hparse⟩ := (updatedProposalIDs_ok hids).2 _ hnamed
      obtain rfl := Except.ok.inj ((Text.parseUint_toString hlt).symm.trans hparse)
      exact absurd hk hid

end

-- ---------------------------------------------------------------------------
-- Messages
-- ---------------------------------------------------------------------------

/-- Every row of `t` is the row of `s`, or has the status of its proposal on the
chain `d`. -/
def Refreshed (d : Chain) (s t : Db) : Prop :=
  ∀ id, t.proposal.find id = s.proposal.find id ∨
    ∃ row p, t.proposal.find id = some row ∧ d.proposals id = some p ∧ row.status = p.status.string

variable {d : Chain}

theorem Refreshed.trans {u : Db} (h : Refreshed d s t) (h' : Refreshed d t u) : Refreshed d s u := by
  intro id
  rcases h' id with hsame' | hnew
  · rcases h id with hsame | ⟨row, p, hrow, hp⟩
    · exact .inl (hsame'.trans hsame)
    · exact .inr ⟨row, p, hsame'.trans hrow, hp⟩
  · exact .inr hnew

theorem Refreshed.of_eq (h : t.proposal = s.proposal) : Refreshed d s t :=
  fun _ => .inl (by rw [h])

theorem along_of_fixes {α : Type} {call : Eff Db α} (h : Eff.Fixes Db.proposal call) :
    Eff.Along (Refreshed d) call := h.along fun _ _ => Refreshed.of_eq

theorem saveProposals_along {protoMarshalJSON : Any → Except String String} {proposal : Proposal}
    {p : V1Proposal} (hp : d.proposals proposal.id = some p)
    (hstatus : proposal.status = p.status.string) :
    Eff.Along (Refreshed d) (saveProposals protoMarshalJSON [proposal]) := by
  intro s
  obtain ⟨_, hreturns⟩ | hfails := Eff.returns_or_fails (saveProposals protoMarshalJSON [proposal]) s
  · obtain ⟨⟨row, hrow, hphase⟩, hother⟩ := saveProposals_find hreturns
    intro id
    by_cases he : id = proposal.id
    · subst he
      exact .inr ⟨row, p, hrow, hp, (congrArg Phase.status hphase).trans hstatus⟩
    · exact .inl (hother id he)
  · exact .of_eq (saveProposals_fails hfails)

theorem submittedProposal_fixes {β : Type} {f : Db → β} (height : Int) (id : Nat) :
    Eff.Fixes f (m.submittedProposal height id) := by
  unfold Module.submittedProposal
  split
  · exact .pure
  · split
    · exact .bind (.wrap (.bind .get fun _ => .pure)) fun _ => .wrap .ofExcept
    · exact .fail

theorem deref_fixes {β : Type} {f : Db → β} (time : Option Int) : Eff.Fixes f (deref time) := by
  cases time with
  | none => exact .panicking
  | some time => exact .pure

theorem handleSubmitProposalEvent_along {tx : Tx} {proposer : String} {events : List Event}
    (hsource : ∀ id, proposalIDFromEvents events = .ok id →
      ∃ p, d.proposals id = some p ∧ m.source.proposal tx.height id = .ok p) :
    Eff.Along (Refreshed d) (m.handleSubmitProposalEvent tx proposer events) := by
  refine .bind Refreshed.trans (along_of_fixes (.wrap .ofExcept)) fun _ id _ hid => ?_
  obtain ⟨hid, -⟩ := Eff.returns_ofExcept.mp (Eff.returns_wrap.mp hid)
  obtain ⟨p, hp, hok⟩ := hsource id hid
  refine .bind Refreshed.trans (along_of_fixes (submittedProposal_fixes _ _)) fun _ q _ hq => ?_
  unfold Module.submittedProposal at hq
  rw [hok] at hq
  obtain ⟨rfl, -⟩ := Eff.returns_pure.mp hq
  refine .bind Refreshed.trans (along_of_fixes (.wrap .ofExcept)) fun _ _ _ _ => ?_
  refine .bind Refreshed.trans
    (along_of_fixes (.wrap (saveAccounts_fixes _ fun _ _ => rfl))) fun _ _ _ _ => ?_
  refine .bind Refreshed.trans (along_of_fixes (.wrap .ofExcept)) fun _ _ _ _ => ?_
  refine .bind Refreshed.trans (along_of_fixes (deref_fixes _)) fun _ _ _ _ => ?_
  refine .bind Refreshed.trans (along_of_fixes (deref_fixes _)) fun _ _ _ _ => ?_
  refine .bind Refreshed.trans (.wrap (saveProposals_along ?_ rfl)) fun _ _ _ _ => ?_
  · obtain rfl := (d.wellFormed id p hp).1
    exact hp
  · exact along_of_fixes (handleDepositEvent_fixes m (fun _ _ => rfl) (fun _ _ => rfl) _ _ _)

structure Delivery where
  index : Nat
  msg : Msg
  tx : Tx
  deriving DecidableEq, Repr

def Delivery.Known (d : Chain) (delivery : Delivery) : Prop :=
  ∀ version msg, delivery.msg = .submitProposal version msg →
    ∀ events id, delivery.tx.logs[delivery.index]? = some events →
      proposalIDFromEvents events = .ok id → d.proposals id ≠ none

theorem handleMsg_along {delivery : Delivery} (hknown : delivery.Known d)
    (hsource : ∀ id p, d.proposals id = some p →
      m.source.proposal delivery.tx.height id = .ok p) :
    Eff.Along (Refreshed d) (m.handleMsg delivery.index delivery.msg delivery.tx) := by
  obtain ⟨index, msg, tx⟩ := delivery
  by_cases hmsg : ∃ version submission, msg = .submitProposal version submission
  · obtain ⟨version, submission, rfl⟩ := hmsg
    unfold Module.handleMsg
    dsimp only
    split
    · exact along_of_fixes .pure
    · refine .bind Refreshed.trans (along_of_fixes (logEvents_fixes _ _)) fun _ events _ hlog => ?_
      obtain ⟨hevents, -⟩ := logEvents_returns.mp hlog
      refine handleSubmitProposalEvent_along fun id hid => ?_
      obtain ⟨p, hp⟩ := Option.ne_none_iff_exists'.mp
        (hknown version submission rfl events id hevents hid)
      exact ⟨p, hp, hsource id p hp⟩
  · push Not at hmsg
    exact along_of_fixes (handleMsg_proposals m hmsg index tx)

-- ---------------------------------------------------------------------------
-- Blocks
-- ---------------------------------------------------------------------------

/-- A block of the chain: what its transactions and its end emit, the messages
of it that the module gets, and the chain after it. -/
structure Block where
  height : Int
  txs : List Tx
  endBlockEvents : List Event
  msgs : List Delivery
  after : Chain

variable (m) in
/-- The error of a message is logged and the next message is handled. -/
def deliver (s : Db) (delivery : Delivery) : Db :=
  (Eff.exec (Eff.attempt (m.handleMsg delivery.index delivery.msg delivery.tx)) s).2

variable (m) in
def blockHandled (s : Db) (block : Block) : Db :=
  (Eff.exec (m.handleBlock block.height block.endBlockEvents block.txs) s).2

variable (m) in
def processBlock (s : Db) (block : Block) : Db :=
  block.msgs.foldl (deliver m) (blockHandled m s block)

variable (m) in
/-- The block is a step of the chain, and the source knows the chain after it. -/
structure Valid (c : Chain) (block : Block) : Prop where
  step : BlockStep c (collectTxEvents block.txs) block.endBlockEvents block.after
  source : ∀ id p, block.after.proposals id = some p → m.source.proposal block.height id = .ok p
  height : ∀ delivery ∈ block.msgs, delivery.tx.height = block.height
  known : ∀ delivery ∈ block.msgs, delivery.Known block.after

variable (m) in
def Handled (s : Db) (block : Block) : Prop :=
  ∃ t, Eff.Returns
    (m.updateProposalsStatus block.height (collectTxEvents block.txs) block.endBlockEvents) s () t

/-- Every indexed proposal has the status of the chain, and is invalid where the
chain does not have it. -/
def Mirrors (s : Db) (c : Chain) : Prop := ∀ row ∈ s.proposal.rows, row.status = c.status row.id

/-- Every indexed proposal was submitted. -/
def Submitted (s : Db) (c : Chain) : Prop := ∀ row ∈ s.proposal.rows, row.id < c.nextId

def DropsNone (s : Db) (c : Chain) (block : Block) : Prop :=
  ∀ row ∈ s.proposal.rows, c.proposals row.id ≠ none → block.after.proposals row.id ≠ none

section
variable {c : Chain} {block : Block}

theorem deliver_refreshed {delivery : Delivery} (hknown : delivery.Known d)
    (hsource : ∀ id p, d.proposals id = some p →
      m.source.proposal delivery.tx.height id = .ok p) :
    Refreshed d s (deliver m s delivery) := by
  unfold deliver
  rw [Eff.exec_attempt_state]
  exact handleMsg_along hknown hsource s

theorem deliveries_refreshed {msgs : List Delivery} {height : Int}
    (hsource : ∀ id p, d.proposals id = some p → m.source.proposal height id = .ok p)
    (hheight : ∀ delivery ∈ msgs, delivery.tx.height = height)
    (hknown : ∀ delivery ∈ msgs, delivery.Known d) : Refreshed d s (msgs.foldl (deliver m) s) := by
  induction msgs generalizing s with
  | nil => exact .of_eq rfl
  | cons delivery msgs ih =>
    have hfirst : Refreshed d s (deliver m s delivery) := by
      refine deliver_refreshed (hknown delivery (by simp)) ?_
      rw [hheight delivery (by simp)]
      exact hsource
    exact hfirst.trans (ih (fun other hin => hheight other (List.mem_cons_of_mem _ hin))
      fun other hin => hknown other (List.mem_cons_of_mem _ hin))

theorem blockHandled_find (hvalid : Valid m c block) (hhandled : Handled m s block) :
    ∃ ids, updatedProposalIDs (collectTxEvents block.txs) block.endBlockEvents = .ok ids ∧ ∀ id,
      (id ∉ ids → (blockHandled m s block).proposal.find id = s.proposal.find id) ∧
      (id ∈ ids → ∃ p, block.after.proposals id = some p ∧
        (blockHandled m s block).proposal.find id =
          (s.proposal.find id).map (updateOf p).set) := by
  obtain ⟨t, ht⟩ := hhandled
  obtain ⟨ids, _, hids, -⟩ := Eff.returns_bind.mp ht
  obtain ⟨hids, -⟩ := Eff.returns_ofExcept.mp hids
  obtain ⟨onChain, hchain⟩ :
      ∃ onChain : Nat → V1Proposal, ∀ id ∈ ids, block.after.proposals id = some (onChain id) := by
    refine ⟨fun id => (block.after.proposals id).getD
      ⟨id, "", "", "", [], .depositPeriod, none, none, none, none⟩, fun id hid => ?_⟩
    obtain ⟨p, hp⟩ := Option.ne_none_iff_exists'.mp (hvalid.step.scanned hids hid)
    simp [hp]
  have hfind := updateProposalsStatus_find hids (fun id hid =>
    ⟨hvalid.source id _ (hchain id hid), (block.after.wellFormed id _ (hchain id hid)).1⟩) ht
  refine ⟨ids, hids, fun id => ?_⟩
  have hstate : blockHandled m s block = t := (Eff.exec_attempt_state _ s).trans ht.state
  rw [hstate]
  constructor
  · intro hout
    rw [hfind, if_neg hout]
  · intro hin
    refine ⟨onChain id, hchain id hin, ?_⟩
    rw [hfind, if_pos hin]

theorem processBlock_row (hvalid : Valid m c block) (hhandled : Handled m s block)
    {row : ProposalRow} (hrow : row ∈ (processBlock m s block).proposal.rows) :
    (∃ p, block.after.proposals row.id = some p ∧ row.status = p.status.string) ∨
      row ∈ s.proposal.rows ∧ ∃ ids,
        updatedProposalIDs (collectTxEvents block.txs) block.endBlockEvents = .ok ids ∧
          row.id ∉ ids := by
  obtain ⟨ids, hids, hfind⟩ := blockHandled_find hvalid hhandled
  have hmsgs := deliveries_refreshed (s := blockHandled m s block) hvalid.source hvalid.height
    hvalid.known
  have hrow := Table.find_of_mem hrow
  rcases hmsgs row.id with hsame | ⟨row', p, hrow', hp, hstatus⟩
  · have hu := hsame.symm.trans hrow
    obtain ⟨hout, hin⟩ := hfind row.id
    by_cases hid : row.id ∈ ids
    · obtain ⟨p, hp, hset⟩ := hin hid
      obtain ⟨old, -, hold⟩ := Option.map_eq_some_iff.mp (hset.symm.trans hu)
      refine .inl ⟨p, hp, ?_⟩
      rw [← hold]
      rfl
    · exact .inr ⟨Table.mem_of_find ((hout hid).symm.trans hu), ids, hids, hid⟩
  · obtain rfl := Option.some.inj (hrow'.symm.trans hrow)
    exact .inl ⟨p, hp, hstatus⟩

theorem processBlock_absent (hvalid : Valid m c block) (hhandled : Handled m s block) {id : Nat}
    (hnone : block.after.proposals id = none) :
    (processBlock m s block).proposal.find id = s.proposal.find id := by
  obtain ⟨ids, hids, hfind⟩ := blockHandled_find hvalid hhandled
  obtain ⟨hout, -⟩ := hfind id
  have hid : id ∉ ids := fun hin => hvalid.step.scanned hids hin hnone
  have hmsgs := deliveries_refreshed (s := blockHandled m s block) hvalid.source hvalid.height
    hvalid.known
  rcases hmsgs id with hsame | ⟨-, p, -, hp, -⟩
  · exact hsame.trans (hout hid)
  · rw [hnone] at hp
    cases hp

theorem processBlock_submitted (hvalid : Valid m c block) (hhandled : Handled m s block)
    (h : Submitted s c) : Submitted (processBlock m s block) block.after := by
  intro row hrow
  rcases processBlock_row hvalid hhandled hrow with ⟨p, hp, -⟩ | ⟨hold, -⟩
  · exact (block.after.wellFormed row.id p hp).2
  · exact (h row hold).trans_le hvalid.step.evolves.nextId_le

/-- A block keeps the statuses of the chain if it drops no indexed proposal, and
only then. -/
theorem processBlock_mirrors_iff (hvalid : Valid m c block) (hhandled : Handled m s block)
    (hsubmitted : Submitted s c) (h : Mirrors s c) :
    Mirrors (processBlock m s block) block.after ↔ DropsNone s c block := by
  constructor
  · intro hafter row hrow hon hnone
    obtain ⟨p, hp⟩ := Option.ne_none_iff_exists'.mp hon
    have hstays : (processBlock m s block).proposal.find row.id = some row :=
      (processBlock_absent hvalid hhandled hnone).trans (Table.find_of_mem hrow)
    have hbefore := h row hrow
    have hinvalid := hafter row (Table.mem_of_find hstays)
    simp only [Chain.status, hp] at hbefore
    simp only [Chain.status, hnone] at hinvalid
    exact p.status.string_ne_invalid (hbefore.symm.trans hinvalid)
  · intro hnone row hrow
    rcases processBlock_row hvalid hhandled hrow with ⟨p, hp, hstatus⟩ | ⟨hold, ids, hids, hid⟩
    · simp [Chain.status, hp, hstatus]
    · have hbefore := h row hold
      cases hc : c.proposals row.id with
      | none =>
        have habsent := hvalid.step.evolves.absent row.id (hsubmitted row hold) hc
        simp only [Chain.status, hc] at hbefore
        simp [Chain.status, habsent, hbefore]
      | some p =>
        obtain ⟨q, hq⟩ := Option.ne_none_iff_exists'.mp
          (hnone row hold (by rw [hc]; exact Option.some_ne_none p))
        have hsame := hvalid.step.unscanned hids hid hc hq
        simp only [Chain.status, hc] at hbefore
        simp [Chain.status, hq, hbefore, hsame]

end

-- ---------------------------------------------------------------------------
-- Runs
-- ---------------------------------------------------------------------------

/-- In a run of the chain whose blocks are all handled successfully, every
indexed proposal has the status of the chain after every block, exactly if no
block drops a proposal that is indexed before it. -/
theorem lifecycle_iff {c : Chain} {blocks : List Block}
    (hvalid : Lockstep.Each (processBlock m) (fun _ block => block.after)
      (fun _ c block => Valid m c block) s c blocks)
    (hhandled : Lockstep.Each (processBlock m) (fun _ block => block.after)
      (fun s _ block => Handled m s block) s c blocks)
    (hsubmitted : Submitted s c) (h : Mirrors s c) :
    Lockstep.Throughout (processBlock m) (fun _ block => block.after) Mirrors s c blocks ↔
      Lockstep.Each (processBlock m) (fun _ block => block.after) DropsNone s c blocks := by
  have hrun := hvalid.and hhandled
  have hstored := hrun.invariant (P := Submitted) (by
    rintro s c block hsubmitted ⟨hvalid, hhandled⟩
    exact processBlock_submitted hvalid hhandled hsubmitted) hsubmitted
  refine Lockstep.throughout_iff ?_ (hrun.and hstored) h
  rintro s c block h ⟨⟨hvalid, hhandled⟩, hsubmitted⟩
  exact processBlock_mirrors_iff hvalid hhandled hsubmitted h

-- ---------------------------------------------------------------------------
-- Dropped proposals
-- ---------------------------------------------------------------------------

/-- A scan for dropped proposals would not do: none of them can be read back. -/
theorem updateDeletedProposalStatus_fails {id : Nat} {row : ProposalRow}
    (hmessage : ∀ text : String, text.toList.head? = some '[' →
      ∃ message, m.unmarshalJSON text = .error message)
    (hrow : s.proposal.find id = some row) (hcontent : row.content.toList.head? = some '[') :
    ∃ message, Eff.exec (m.updateDeletedProposalStatus id) s = (.error (.error message), s) := by
  obtain ⟨message, hfails⟩ := getProposal_fails hmessage hrow hcontent
  refine ⟨message, ?_⟩
  rw [Module.updateDeletedProposalStatus, Eff.exec_bind, hfails]

def depositing : V1Proposal :=
  ⟨1, "", "", "", [], .depositPeriod, some 0, some 1, none, none⟩

def votedOn : V1Proposal := { depositing with status := .votingPeriod }

def depositChain : Chain where
  proposals id := if id = 1 then some depositing else none
  nextId := 2
  wellFormed id p hp := by
    obtain ⟨rfl, rfl⟩ : id = 1 ∧ depositing = p := by simpa using hp
    exact ⟨rfl, by decide⟩
  nextId_le := by decide

def votingSource : Module :=
  { plain with source := { plain.source with proposal := fun _ _ => .ok votedOn } }

def storedDeposit : Db :=
  { (default : Db) with
    proposal := Table.empty.upsert .ignore
      ⟨1, "", "", "", "[]", 0, 1, none, none, "safro1", "PROPOSAL_STATUS_DEPOSIT_PERIOD"⟩ }

def votingBlock : Block where
  height := 3
  txs := [⟨3, "deposit", "", [],
    [⟨"proposal_deposit", [⟨"voting_period_start", toString votedOn.id⟩]⟩]⟩]
  endBlockEvents := []
  msgs := []
  after := depositChain.replace votedOn (by decide)

def dropBlock : Block where
  height := 3
  txs := []
  endBlockEvents :=
    [⟨"inactive_proposal", [⟨"proposal_id", toString 1⟩, ⟨"proposal_result", "proposal_dropped"⟩]⟩]
  msgs := []
  after := depositChain.remove 1

theorem storedDeposit_mirrors : Mirrors storedDeposit depositChain := by
  intro row hrow
  obtain rfl := List.mem_singleton.mp hrow
  rfl

theorem storedDeposit_submitted : Submitted storedDeposit depositChain := by
  intro row hrow
  obtain rfl := List.mem_singleton.mp hrow
  decide

theorem votingBlock_valid : Valid votingSource depositChain votingBlock where
  step := ⟨votingBlock.after,
    .cons (TxStep.startVoting (p := depositing) (q := votedOn) rfl rfl rfl (.inr rfl)) (.nil _), .nil _⟩
  source id p hp := by
    change (if id = 1 then some votedOn else if id = 1 then some depositing else none) = some p at hp
    by_cases hid : id = 1
    · obtain rfl : votedOn = p := by simpa [hid] using hp
      rfl
    · simp [hid] at hp
  height delivery hin := absurd hin List.not_mem_nil
  known delivery hin := absurd hin List.not_mem_nil

theorem dropBlock_valid : Valid plain depositChain dropBlock where
  step := ⟨depositChain, .nil _, .cons (EndStep.drop (p := depositing) rfl rfl) (.nil _)⟩
  source id p hp := by
    change (if id = 1 then none else if id = 1 then some depositing else none) = some p at hp
    by_cases hid : id = 1
    · simp [hid] at hp
    · simp [hid] at hp
  height delivery hin := absurd hin List.not_mem_nil
  known delivery hin := absurd hin List.not_mem_nil

theorem lifecycle_iff_voting :
    Lockstep.Throughout (processBlock votingSource) (fun _ block => block.after) Mirrors
      storedDeposit depositChain [votingBlock] := by
  have hvalid : Lockstep.Each (processBlock votingSource) (fun _ block => block.after)
      (fun _ c block => Valid votingSource c block) storedDeposit depositChain [votingBlock] :=
    ⟨votingBlock_valid, trivial⟩
  have hhandled : Handled votingSource storedDeposit votingBlock := ⟨_, rfl⟩
  refine (lifecycle_iff hvalid ⟨hhandled, trivial⟩ storedDeposit_submitted storedDeposit_mirrors).mpr
    ⟨?_, trivial⟩
  intro row hrow _
  obtain rfl := List.mem_singleton.mp hrow
  decide

/-- The indexer does not hear of a proposal that is dropped. -/
theorem dropped_proposal_stays :
    (Valid plain depositChain dropBlock ∧ Handled plain storedDeposit dropBlock ∧
      Submitted storedDeposit depositChain ∧ Mirrors storedDeposit depositChain) ∧
    ¬ Lockstep.Throughout (processBlock plain) (fun _ block => block.after) Mirrors
      storedDeposit depositChain [dropBlock] := by
  refine ⟨⟨dropBlock_valid, ⟨_, rfl⟩, storedDeposit_submitted, storedDeposit_mirrors⟩, ?_⟩
  rintro ⟨-, h⟩
  have hstatus := h _ (List.mem_singleton.mpr rfl)
  revert hstatus
  decide

end SafrochainIndexer.Callisto.Gov
