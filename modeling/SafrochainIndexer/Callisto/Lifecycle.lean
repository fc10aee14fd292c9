import SafrochainIndexer.Callisto.Gov
import Mathlib.Data.Set.Insert

/-!
# The life of a proposal on the chain

The chain's own gov module, as far as statuses go: transactions submit
proposals and start their voting periods, the end of a block drops a proposal
whose deposit period is over or closes one whose voting period is over. Each
step emits its event. `BlockStep.evolves` sums up what a block may do, in terms
of the proposals that the indexer scans its events for.
-/

namespace SafrochainIndexer.Callisto.Gov

/-- The proposals of the chain. Ids count up and are not used again. -/
structure Chain where
  proposals : Nat → Option V1Proposal
  nextId : Nat
  wellFormed : ∀ id p, proposals id = some p → p.id = id ∧ id < nextId
  nextId_le : nextId ≤ 2 ^ 64

namespace Chain

def submit (c : Chain) (p : V1Proposal) (hid : p.id = c.nextId) (hmax : c.nextId < 2 ^ 64) : Chain where
  proposals id := if id = p.id then some p else c.proposals id
  nextId := c.nextId + 1
  wellFormed id q hq := by
    by_cases h : id = p.id
    · obtain rfl : p = q := by simpa [h] using hq
      exact ⟨h.symm, by omega⟩
    · have hold := c.wellFormed id q (by simpa [h] using hq)
      exact ⟨hold.1, hold.2.trans (Nat.lt_succ_self _)⟩
  nextId_le := hmax

def replace (c : Chain) (p : V1Proposal) (h : c.proposals p.id ≠ none) : Chain where
  proposals id := if id = p.id then some p else c.proposals id
  nextId := c.nextId
  wellFormed id q hq := by
    by_cases hid : id = p.id
    · obtain rfl : p = q := by simpa [hid] using hq
      obtain ⟨old, hold⟩ := Option.ne_none_iff_exists'.mp h
      exact ⟨hid.symm, hid ▸ (c.wellFormed p.id old hold).2⟩
    · exact c.wellFormed id q (by simpa [hid] using hq)
  nextId_le := c.nextId_le

def remove (c : Chain) (dropped : Nat) : Chain where
  proposals id := if id = dropped then none else c.proposals id
  nextId := c.nextId
  wellFormed id q hq := by
    by_cases hid : id = dropped
    · simp [hid] at hq
    · exact c.wellFormed id q (by simpa [hid] using hq)
  nextId_le := c.nextId_le

def status (c : Chain) (id : Nat) : String :=
  match c.proposals id with
  | some p => p.status.string
  | none => proposalStatusInvalid

end Chain

-- ---------------------------------------------------------------------------
-- Steps
-- ---------------------------------------------------------------------------

/-- The proposals whose voting period starts, as the events of transactions tell
it. -/
def startsVoting (events : List Event) : Set String :=
  {value | value ∈ valuesInEvents events "submit_proposal" "voting_period_start" ∨
    value ∈ valuesInEvents events "proposal_deposit" "voting_period_start"}

/-- The proposals whose voting period ends, as the end-block events tell it. -/
def endsVoting (events : List Event) : Set String :=
  {value | value ∈ valuesInEvents events "active_proposal" "proposal_id"}

inductive TxStep : Chain → List Event → Chain → Prop
  | submit {c : Chain} (p : V1Proposal) (hid : p.id = c.nextId) (hmax : c.nextId < 2 ^ 64)
      (hstatus : p.status = .depositPeriod) (more : List Attribute)
      (hmore : ∀ attr ∈ more, attr.key ≠ "voting_period_start") :
      TxStep c [⟨"submit_proposal", ⟨"proposal_id", toString p.id⟩ :: more⟩] (c.submit p hid hmax)
  | startVoting {c : Chain} {p q : V1Proposal} (hp : c.proposals q.id = some p)
      (hdeposit : p.status = .depositPeriod) (hvoting : q.status = .votingPeriod) {type : String}
      (htype : type = "submit_proposal" ∨ type = "proposal_deposit") :
      TxStep c [⟨type, [⟨"voting_period_start", toString q.id⟩]⟩]
        (c.replace q (by rw [hp]; exact Option.some_ne_none p))
  | other {c : Chain} (event : Event) (hevent : startsVoting [event] = ∅) : TxStep c [event] c

inductive EndStep : Chain → List Event → Chain → Prop
  | drop {c : Chain} {id : Nat} {p : V1Proposal} (hp : c.proposals id = some p)
      (hdeposit : p.status = .depositPeriod) :
      EndStep c
        [⟨"inactive_proposal", [⟨"proposal_id", toString id⟩, ⟨"proposal_result", "proposal_dropped"⟩]⟩]
        (c.remove id)
  | close {c : Chain} {p q : V1Proposal} (hp : c.proposals q.id = some p)
      (hvoting : p.status = .votingPeriod)
      (hclosed : q.status = .passed ∨ q.status = .rejected ∨ q.status = .failed) (result : String) :
      EndStep c
        [⟨"active_proposal", [⟨"proposal_id", toString q.id⟩, ⟨"proposal_result", result⟩]⟩]
        (c.replace q (by rw [hp]; exact Option.some_ne_none p))
  | other {c : Chain} (event : Event) (hevent : endsVoting [event] = ∅) : EndStep c [event] c

inductive Steps (step : Chain → List Event → Chain → Prop) : Chain → List Event → Chain → Prop
  | nil (c : Chain) : Steps step c [] c
  | cons {c d e : Chain} {events events' : List Event} (head : step c events d)
      (tail : Steps step d events' e) : Steps step c (events ++ events') e

def BlockStep (c : Chain) (txEvents endBlockEvents : List Event) (e : Chain) : Prop :=
  ∃ d, Steps TxStep c txEvents d ∧ Steps EndStep d endBlockEvents e

-- ---------------------------------------------------------------------------
-- What steps do
-- ---------------------------------------------------------------------------

def Past (c : Chain) (id : Nat) : Prop :=
  ∃ p, c.proposals id = some p ∧ p.status ≠ .depositPeriod

/-- From `c` to `d` only proposals that are `named` change their status, apart
from those that are dropped, and what is named is not dropped. -/
structure Evolves (c : Chain) (named : Set String) (d : Chain) : Prop where
  named_past : ∀ value ∈ named, ∃ id, value = toString id ∧ Past d id
  past : ∀ id, Past c id → Past d id
  kept : ∀ id p, c.proposals id = some p →
    d.proposals id = none ∨
      ∃ q, d.proposals id = some q ∧ (q.status = p.status ∨ toString id ∈ named)
  absent : ∀ id, id < c.nextId → c.proposals id = none → d.proposals id = none
  nextId_le : c.nextId ≤ d.nextId

theorem Evolves.refl (c : Chain) : Evolves c ∅ c where
  named_past value h := absurd h (Set.notMem_empty value)
  past _ h := h
  kept _ p hp := .inr ⟨p, hp, .inl rfl⟩
  absent _ _ h := h
  nextId_le := le_rfl

theorem Evolves.trans {c d e : Chain} {named named' : Set String} (h : Evolves c named d)
    (h' : Evolves d named' e) : Evolves c (named ∪ named') e where
  named_past value hin := by
    rcases hin with hin | hin
    · obtain ⟨id, hid, hpast⟩ := h.named_past value hin
      exact ⟨id, hid, h'.past id hpast⟩
    · exact h'.named_past value hin
  past id hpast := h'.past id (h.past id hpast)
  kept id p hp := by
    have hlt := (c.wellFormed id p hp).2
    rcases h.kept id p hp with hnone | ⟨q, hq, hsame⟩
    · exact .inl (h'.absent id (hlt.trans_le h.nextId_le) hnone)
    · rcases h'.kept id q hq with hnone | ⟨r, hr, hsame'⟩
      · exact .inl hnone
      · refine .inr ⟨r, hr, ?_⟩
        rcases hsame with hsame | hin
        · rcases hsame' with hsame' | hin'
          · exact .inl (hsame'.trans hsame)
          · exact .inr (.inr hin')
        · exact .inr (.inl hin)
  absent id hlt hnone :=
    h'.absent id (hlt.trans_le h.nextId_le) (h.absent id hlt hnone)
  nextId_le := h.nextId_le.trans h'.nextId_le

theorem valuesInEvents_append (events events' : List Event) (type key : String) :
    valuesInEvents (events ++ events') type key =
      valuesInEvents events type key ++ valuesInEvents events' type key := by
  simp [valuesInEvents]

theorem startsVoting_append (events events' : List Event) :
    startsVoting (events ++ events') = startsVoting events ∪ startsVoting events' := by
  ext value
  simp only [startsVoting, valuesInEvents_append, List.mem_append, Set.mem_ofPred_eq, Set.mem_union]
  tauto

theorem endsVoting_append (events events' : List Event) :
    endsVoting (events ++ events') = endsVoting events ∪ endsVoting events' := by
  ext value
  simp [endsVoting, valuesInEvents_append]

theorem replace_evolves {c : Chain} {p : V1Proposal} (h : c.proposals p.id ≠ none)
    (hp : p.status ≠ .depositPeriod) : Evolves c {toString p.id} (c.replace p h) where
  named_past value hin := ⟨p.id, hin, p, by simp [Chain.replace], hp⟩
  past id hpast := by
    by_cases hid : id = p.id
    · exact ⟨p, by simp [Chain.replace, hid], hp⟩
    · obtain ⟨q, hq, hstatus⟩ := hpast
      exact ⟨q, by simp [Chain.replace, hid, hq], hstatus⟩
  kept id q hq := by
    by_cases hid : id = p.id
    · exact .inr ⟨p, by simp [Chain.replace, hid], .inr (by simp [hid])⟩
    · exact .inr ⟨q, by simp [Chain.replace, hid, hq], .inl rfl⟩
  absent id _ hnone := by
    have hid : id ≠ p.id := fun he => h (he ▸ hnone)
    simp [Chain.replace, hid, hnone]
  nextId_le := le_rfl

theorem submit_evolves {c : Chain} {p : V1Proposal} (hid : p.id = c.nextId)
    (hmax : c.nextId < 2 ^ 64) : Evolves c ∅ (c.submit p hid hmax) where
  named_past value h := absurd h (Set.notMem_empty value)
  past id := by
    rintro ⟨q, hq, hstatus⟩
    have hne : id ≠ p.id := by
      have hlt := (c.wellFormed id q hq).2
      omega
    exact ⟨q, by simp [Chain.submit, hne, hq], hstatus⟩
  kept id q hq := by
    have hne : id ≠ p.id := by
      have hlt := (c.wellFormed id q hq).2
      omega
    exact .inr ⟨q, by simp [Chain.submit, hne, hq], .inl rfl⟩
  absent id hlt hnone := by
    have hne : id ≠ p.id := by omega
    simp [Chain.submit, hne, hnone]
  nextId_le := Nat.le_succ _

theorem remove_evolves {c : Chain} {id : Nat} {p : V1Proposal} (hp : c.proposals id = some p)
    (hdeposit : p.status = .depositPeriod) : Evolves c ∅ (c.remove id) where
  named_past value h := absurd h (Set.notMem_empty value)
  past k := by
    rintro ⟨q, hq, hstatus⟩
    have hne : k ≠ id := by
      rintro rfl
      obtain rfl := Option.some.inj (hp.symm.trans hq)
      exact hstatus hdeposit
    exact ⟨q, by simp [Chain.remove, hne, hq], hstatus⟩
  kept k q hq := by
    by_cases hk : k = id
    · exact .inl (by simp [Chain.remove, hk])
    · exact .inr ⟨q, by simp [Chain.remove, hk, hq], .inl rfl⟩
  absent k _ hnone := by simp [Chain.remove, hnone]
  nextId_le := le_rfl

theorem TxStep.evolves {c d : Chain} {events : List Event} (h : TxStep c events d) :
    Evolves c (startsVoting events) d := by
  cases h with
  | submit p hid hmax hstatus more hmore =>
    have hnone : startsVoting [⟨"submit_proposal", ⟨"proposal_id", toString p.id⟩ :: more⟩] = ∅ := by
      ext value
      simp only [startsVoting, valuesInEvents]
      simp
      intro a ha hk
      exact absurd hk (hmore a ha)
    rw [hnone]
    exact submit_evolves hid hmax
  | @startVoting p q hp hdeposit hvoting type htype =>
    have hone : startsVoting [⟨type, [⟨"voting_period_start", toString q.id⟩]⟩] = {toString q.id} := by
      rcases htype with rfl | rfl
      · ext value
        simp [startsVoting, valuesInEvents]
      · ext value
        simp [startsVoting, valuesInEvents]
    rw [hone]
    exact replace_evolves _ (by simp [hvoting])
  | other event hevent =>
    rw [hevent]
    exact .refl c

theorem EndStep.evolves {c d : Chain} {events : List Event} (h : EndStep c events d) :
    Evolves c (endsVoting events) d := by
  cases h with
  | @drop id p hp hdeposit =>
    have hnone : endsVoting [⟨"inactive_proposal",
        [⟨"proposal_id", toString id⟩, ⟨"proposal_result", "proposal_dropped"⟩]⟩] = ∅ := by
      ext value
      simp [endsVoting, valuesInEvents]
    rw [hnone]
    exact remove_evolves hp hdeposit
  | @close p q hp hvoting hclosed result =>
    have hone : endsVoting [⟨"active_proposal",
        [⟨"proposal_id", toString q.id⟩, ⟨"proposal_result", result⟩]⟩] = {toString q.id} := by
      ext value
      simp [endsVoting, valuesInEvents]
    rw [hone]
    refine replace_evolves _ ?_
    rcases hclosed with h | h | h <;> simp [h]
  | other event hevent =>
    rw [hevent]
    exact .refl c

theorem Steps.evolves {step : Chain → List Event → Chain → Prop} {named : List Event → Set String}
    (hnil : named [] = ∅)
    (happend : ∀ events events', named (events ++ events') = named events ∪ named events')
    (hstep : ∀ c events d, step c events d → Evolves c (named events) d) {c d : Chain}
    {events : List Event} (h : Steps step c events d) : Evolves c (named events) d := by
  induction h with
  | nil c =>
    rw [hnil]
    exact .refl c
  | cons head tail ih =>
    rw [happend]
    exact (hstep _ _ _ head).trans ih

theorem BlockStep.evolves {c e : Chain} {txEvents endBlockEvents : List Event}
    (h : BlockStep c txEvents endBlockEvents e) :
    Evolves c (startsVoting txEvents ∪ endsVoting endBlockEvents) e := by
  obtain ⟨d, htx, hend⟩ := h
  have hstarts := htx.evolves (by simp [startsVoting, valuesInEvents]) startsVoting_append
    fun _ _ _ => TxStep.evolves
  have hends := hend.evolves (by simp [endsVoting, valuesInEvents]) endsVoting_append
    fun _ _ _ => EndStep.evolves
  exact hstarts.trans hends

end SafrochainIndexer.Callisto.Gov
