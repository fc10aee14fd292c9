import SafrochainIndexer.Lib.Lockstep
import Mathlib.Data.Int.Order.Basic

/-!
# The cache of recent transaction counts

`getTransactionCountsRecent` of `transaction.service.ts` answers from a cache
for ten seconds after a refill. A refill replaces both counts, and a call for
one period fills only that one: until the cache expires, the other period is
answered with nothing. `answers_coherent_iff`: all answers of a run are the
counts of a recent query exactly when no call within the ten seconds asks for
more than the last refill was for.

A call that misses the cache waits for its query. Other calls may come in the
meantime, and queries may end in any order.
-/

namespace SafrochainIndexer.Api

/-- `"24h" | "7d"`; a call without a period asks for both. -/
inductive Period
  | h24
  | d7
  deriving DecidableEq, Repr

def Period.requested : Option Period → Period → Bool
  | none, _ => true
  | some period, p => decide (p = period)

/-- `TransactionCountsDto`. -/
structure Counts where
  last24h : Option Nat
  last7d : Option Nat
  deriving DecidableEq, Repr

def Counts.get (counts : Counts) : Period → Option Nat
  | .h24 => counts.last24h
  | .d7 => counts.last7d

/-- `updatedAt` is in milliseconds; zero means never. -/
structure CountsCache extends Counts where
  updatedAt : Int
  deriving DecidableEq, Repr

def COUNTS_CACHE_TTL_MS : Int := 10000

/-- `count` is what Postgres counts for a period while the query runs. -/
def runCountsQuery (count : Period → Nat) : Option Period → Counts
  | some .h24 => ⟨some (count .h24), none⟩
  | some .d7 => ⟨none, some (count .d7)⟩
  | none => ⟨some (count .h24), some (count .d7)⟩

def CountsCache.hit (cache : CountsCache) (now : Int) : Bool :=
  decide (cache.updatedAt ≠ 0) && decide (now - cache.updatedAt < COUNTS_CACHE_TTL_MS)

def CountsCache.answer (cache : CountsCache) : Option Period → Counts
  | some .h24 => ⟨cache.last24h, none⟩
  | some .d7 => ⟨none, cache.last7d⟩
  | none => ⟨cache.last24h, cache.last7d⟩

structure CountsAnswer where
  period : Option Period
  counts : Counts
  time : Int
  deriving DecidableEq, Repr

/-- `pending` holds the calls that wait for their query. -/
structure CountsService where
  countsCache : CountsCache
  pending : List (Option Period)
  answers : List CountsAnswer
  deriving DecidableEq, Repr

/-- A call comes in at `now`, or the query of a call that waits ends at `now`. -/
inductive CountsEvent
  | getTransactionCountsRecent (period : Option Period) (now : Int)
  | queryReturns (period : Option Period) (count : Period → Nat) (now : Int)

namespace CountsService

def start : CountsService := ⟨⟨⟨none, none⟩, 0⟩, [], []⟩

def step (s : CountsService) : CountsEvent → CountsService
  | .getTransactionCountsRecent period now =>
    if s.countsCache.hit now then
      { s with answers := s.answers ++ [⟨period, s.countsCache.answer period, now⟩] }
    else { s with pending := s.pending ++ [period] }
  | .queryReturns period count now =>
    let result := runCountsQuery count period
    { countsCache := ⟨result, now⟩
      pending := s.pending.erase period
      answers := s.answers ++ [⟨period, result, now⟩] }

end CountsService

-- ---------------------------------------------------------------------------
-- What the queries returned
-- ---------------------------------------------------------------------------

/-- A count that `runCountsQuery` returned. -/
structure Returned where
  period : Period
  count : Nat
  time : Int
  deriving DecidableEq, Repr

structure CountsHistory where
  returned : List Returned
  last : Option (Option Period × Int)
  deriving DecidableEq, Repr

namespace CountsHistory

def start : CountsHistory := ⟨[], none⟩

def next (b : CountsHistory) : CountsEvent → CountsHistory
  | .getTransactionCountsRecent _ _ => b
  | .queryReturns period count now =>
    ⟨b.returned ++ ([.h24, .d7].filter (Period.requested period)).map fun p => ⟨p, count p, now⟩,
      some (period, now)⟩

end CountsHistory

/-- Each requested period is answered with a count that was returned less than
ten seconds before. -/
def CountsAnswer.Coherent (returned : List Returned) (a : CountsAnswer) : Prop :=
  ∀ p, Period.requested a.period p = true → ∃ v, a.counts.get p = some v ∧
    ∃ t, ⟨p, v, t⟩ ∈ returned ∧ t ≤ a.time ∧ a.time - t < COUNTS_CACHE_TTL_MS

def AnswersCoherent (s : CountsService) (b : CountsHistory) : Prop :=
  ∀ a ∈ s.answers, a.Coherent b.returned

/-- Time is counted from after 1970 and does not run backwards, and only a call
that waits gets the result of a query. -/
def ValidEvent (s : CountsService) (b : CountsHistory) : CountsEvent → Prop
  | .getTransactionCountsRecent _ now => ∀ last ∈ b.last, last.2 ≤ now
  | .queryReturns period _ now => 0 < now ∧ period ∈ s.pending ∧ ∀ last ∈ b.last, last.2 ≤ now

instance (s : CountsService) (b : CountsHistory) : (event : CountsEvent) →
    Decidable (ValidEvent s b event)
  | .getTransactionCountsRecent _ now => inferInstanceAs (Decidable (∀ last ∈ b.last, last.2 ≤ now))
  | .queryReturns period _ now =>
    inferInstanceAs (Decidable (0 < now ∧ period ∈ s.pending ∧ ∀ last ∈ b.last, last.2 ≤ now))

/-- A call within ten seconds of the last query asks for nothing that this query
was not for. -/
def CoveredEvent (_ : CountsService) (b : CountsHistory) : CountsEvent → Prop
  | .getTransactionCountsRecent period now => ∀ filled time, b.last = some (filled, time) →
      now - time < COUNTS_CACHE_TTL_MS →
      ∀ p, Period.requested period p = true → Period.requested filled p = true
  | .queryReturns _ _ _ => True

-- ---------------------------------------------------------------------------
-- The cache
-- ---------------------------------------------------------------------------

@[simp] theorem runCountsQuery_get (count : Period → Nat) (period : Option Period) (p : Period) :
    (runCountsQuery count period).get p =
      if Period.requested period p then some (count p) else none := by
  cases period with
  | none => cases p <;> rfl
  | some period => cases period <;> cases p <;> rfl

theorem answer_get (cache : CountsCache) {period : Option Period} {p : Period}
    (h : Period.requested period p = true) : (cache.answer period).get p = cache.get p := by
  cases period with
  | none => cases p <;> rfl
  | some period =>
    obtain rfl := of_decide_eq_true h
    cases p <;> rfl

def Filled (s : CountsService) (b : CountsHistory) : Prop :=
  match b.last with
  | none => s.countsCache.updatedAt = 0
  | some (filled, time) => s.countsCache.updatedAt = time ∧ 0 < time ∧ ∀ p,
      if Period.requested filled p then
        ∃ v, s.countsCache.get p = some v ∧ ⟨p, v, time⟩ ∈ b.returned
      else s.countsCache.get p = none

theorem mem_returned {b : CountsHistory} {period : Option Period} {count : Period → Nat}
    {now : Int} {p : Period} (h : Period.requested period p = true) :
    ⟨p, count p, now⟩ ∈ (b.next (.queryReturns period count now)).returned := by
  refine List.mem_append_right _ (List.mem_map.mpr ⟨p, List.mem_filter.mpr ⟨?_, h⟩, rfl⟩)
  cases p <;> simp

theorem filled_next {s : CountsService} {b : CountsHistory} {event : CountsEvent}
    (hf : Filled s b) (hv : ValidEvent s b event) : Filled (s.step event) (b.next event) := by
  cases event with
  | getTransactionCountsRecent period now =>
    unfold CountsService.step
    dsimp only
    split <;> exact hf
  | queryReturns period count now =>
    refine ⟨rfl, hv.1, fun p => ?_⟩
    split
    · rename_i h
      exact ⟨count p, by simp [CountsService.step, h], mem_returned h⟩
    · rename_i h
      simp [CountsService.step, h]

theorem hit_iff {s : CountsService} {b : CountsHistory} (hf : Filled s b) (now : Int) :
    s.countsCache.hit now = true ↔
      ∃ filled time, b.last = some (filled, time) ∧ now - time < COUNTS_CACHE_TTL_MS := by
  unfold Filled at hf
  unfold CountsCache.hit
  split at hf
  · rename_i hlast
    simp [hlast, hf]
  · rename_i filled time hlast
    have hne : time ≠ 0 := Int.ne_of_gt hf.2.1
    rw [hf.1, Bool.and_eq_true, decide_eq_true_iff, decide_eq_true_iff]
    constructor
    · rintro ⟨-, hfresh⟩
      exact ⟨filled, time, hlast, hfresh⟩
    · rintro ⟨filled', time', hlast', hfresh⟩
      obtain ⟨rfl, rfl⟩ := Prod.mk.inj (Option.some.inj (hlast.symm.trans hlast'))
      exact ⟨hne, hfresh⟩

theorem coherent_answer_iff {s : CountsService} {b : CountsHistory} (hf : Filled s b)
    {filled : Option Period} {time now : Int} (hlast : b.last = some (filled, time))
    (hle : time ≤ now) (hfresh : now - time < COUNTS_CACHE_TTL_MS) (period : Option Period) :
    CountsAnswer.Coherent b.returned ⟨period, s.countsCache.answer period, now⟩ ↔
      ∀ p, Period.requested period p = true → Period.requested filled p = true := by
  unfold Filled at hf
  rw [hlast] at hf
  obtain ⟨-, -, hcache⟩ := hf
  refine forall_congr' fun p => forall_congr' fun hp => ?_
  rw [answer_get _ hp]
  have hget := hcache p
  constructor
  · rintro ⟨v, hv, -⟩
    by_contra hnot
    rw [if_neg hnot] at hget
    exact nomatch hget.symm.trans hv
  · intro hfilled
    rw [if_pos hfilled] at hget
    obtain ⟨v, hv, hmem⟩ := hget
    exact ⟨v, hv, time, hmem, hle, hfresh⟩

theorem CountsAnswer.Coherent.mono {returned more : List Returned} {a : CountsAnswer}
    (h : a.Coherent returned) : a.Coherent (returned ++ more) := by
  intro p hp
  obtain ⟨v, hv, time, hmem, htime⟩ := h p hp
  exact ⟨v, hv, time, List.mem_append_left _ hmem, htime⟩

theorem answersCoherent_step_iff {s : CountsService} {b : CountsHistory} {event : CountsEvent}
    (h : AnswersCoherent s b) (hf : Filled s b) (hv : ValidEvent s b event) :
    AnswersCoherent (s.step event) (b.next event) ↔ CoveredEvent s b event := by
  cases event with
  | getTransactionCountsRecent period now =>
    unfold CountsService.step
    dsimp only
    by_cases hhit : s.countsCache.hit now = true
    · obtain ⟨filled, time, hlast, hfresh⟩ := (hit_iff hf now).mp hhit
      have hanswer := coherent_answer_iff hf hlast (hv _ hlast) hfresh period
      rw [if_pos hhit]
      constructor
      · intro hall filled' time' hlast' _
        obtain ⟨rfl, rfl⟩ := Prod.mk.inj (Option.some.inj (hlast.symm.trans hlast'))
        exact hanswer.mp (hall _ (by simp))
      · intro hcovered a ha
        rcases List.mem_append.mp ha with ha | ha
        · exact h a ha
        · obtain rfl := List.mem_singleton.mp ha
          exact hanswer.mpr (hcovered filled time hlast hfresh)
    · rw [if_neg hhit]
      refine ⟨fun _ filled time hlast hfresh => ?_, fun _ => h⟩
      exact absurd ((hit_iff hf now).mpr ⟨filled, time, hlast, hfresh⟩) hhit
  | queryReturns period count now =>
    refine ⟨fun _ => trivial, fun _ a ha => ?_⟩
    rcases List.mem_append.mp ha with ha | ha
    · exact (h a ha).mono
    · obtain rfl := List.mem_singleton.mp ha
      intro p hp
      exact ⟨count p, by simpa using hp, now, mem_returned hp, le_refl now, by simp [COUNTS_CACHE_TTL_MS]⟩

-- ---------------------------------------------------------------------------
-- Runs
-- ---------------------------------------------------------------------------

/-- All answers of a run are coherent exactly if every call is covered. -/
theorem answers_coherent_iff (events : List CountsEvent)
    (hvalid : Lockstep.Each CountsService.step CountsHistory.next ValidEvent CountsService.start
      CountsHistory.start events) :
    Lockstep.Throughout CountsService.step CountsHistory.next AnswersCoherent CountsService.start
        CountsHistory.start events ↔
      Lockstep.Each CountsService.step CountsHistory.next CoveredEvent CountsService.start
        CountsHistory.start events := by
  have hfilled : Lockstep.Each CountsService.step CountsHistory.next (fun s b _ => Filled s b)
      CountsService.start CountsHistory.start events :=
    hvalid.invariant (fun _ _ _ => filled_next) rfl
  refine Lockstep.throughout_iff (fun s b event h hc => ?_) (hvalid.and hfilled) ?_
  · exact answersCoherent_step_iff h hc.2 hc.1
  · intro a ha
    nomatch ha

theorem answers_coherent_same_period :
    Lockstep.Throughout CountsService.step CountsHistory.next AnswersCoherent CountsService.start
      CountsHistory.start
      [.getTransactionCountsRecent (some .h24) 5000, .queryReturns (some .h24) (fun _ => 7) 5100,
        .getTransactionCountsRecent (some .h24) 6100] := by
  have hiff := answers_coherent_iff
    [.getTransactionCountsRecent (some .h24) 5000, .queryReturns (some .h24) (fun _ => 7) 5100,
      .getTransactionCountsRecent (some .h24) 6100]
    ⟨by decide, by decide, by decide, trivial⟩
  refine hiff.mpr ⟨?_, trivial, ?_, trivial⟩
  · intro filled time hlast
    nomatch hlast
  · intro filled time hlast _ p hp
    obtain ⟨rfl, rfl⟩ := Prod.mk.inj (Option.some.inj hlast)
    exact hp

/-- A call for 24 hours fills the cache, and a second later one for 7 days gets
no number. -/
theorem cached_period_is_lost :
    ¬Lockstep.Throughout CountsService.step CountsHistory.next AnswersCoherent CountsService.start
      CountsHistory.start
      [.getTransactionCountsRecent (some .h24) 5000, .queryReturns (some .h24) (fun _ => 7) 5100,
        .getTransactionCountsRecent (some .d7) 6100] := by
  rintro ⟨-, -, -, h⟩
  obtain ⟨v, hv, -⟩ := h ⟨some .d7, ⟨none, none⟩, 6100⟩ (by decide) .d7 rfl
  nomatch hv

end SafrochainIndexer.Api
