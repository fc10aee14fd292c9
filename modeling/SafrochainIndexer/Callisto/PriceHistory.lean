import SafrochainIndexer.Callisto.Pricefeed

/-!
# Price histories

`UpdatePricesHistory` means to store every price at the time of the run. The
loop that sets this time sets it on a copy, so the time of the API is stored:
`history_grows_iff`.
-/

namespace SafrochainIndexer.Callisto.Pricefeed

def historyConflict : Conflict TokenPriceHistoryRow.uniquePriceForTimestamp where
  set stored excluded :=
    { stored with
      price := excluded.price
      marketCap := excluded.marketCap }
  guard _ _ := true
  key_set _ _ := rfl

def historyRow (ticker : TokenPrice) (timestamp : Int) : TokenPriceHistoryRow :=
  ⟨ticker.unitName, ticker.price, ticker.marketCap, timestamp⟩

def saveTokenPricesHistory (prices : List TokenPrice) : Eff Db Unit :=
  if prices.length = 0 then pure ()
  else
    Eff.wrap "error while storing tokens price history: "
      (sending (prices.length * 4)
        (tokenPriceHistoryTable.insert historyConflict
          (prices.map fun ticker => historyRow ticker ticker.timestamp)))

def updatePricesHistory (queryCoinGecko : String → Except String (List Market)) (timestamp : Int) :
    Eff Db Unit := do
  let prices ← getTokenPrices queryCoinGecko
  -- `for _, price := range prices` assigns to a copy of each element
  let _copies := prices.map fun price => { price with timestamp := timestamp }
  Eff.wrap "error while saving token prices history: " (saveTokenPricesHistory prices)

-- ---------------------------------------------------------------------------
-- Runs
-- ---------------------------------------------------------------------------

structure HistoryRun where
  now : Int
  markets : List Market

def HistoryRun.prices (run : HistoryRun) : List TokenPrice :=
  convertCoingeckoPrices (run.markets.map Market.ticker)

def HistoryRun.update (run : HistoryRun) : Eff Db Unit :=
  updatePricesHistory (fun _ => .ok run.markets) run.now

/-- After any number of runs each of them has its row for every price it
received, and what was stored at any time is still there. -/
structure HistoryGrows (s : Db) (runs : List HistoryRun) : Prop where
  priced : ∀ earlier later t, runs = earlier ++ later →
    Eff.Returns (earlier.forM HistoryRun.update) s () t →
      ∀ run ∈ earlier, ∀ price ∈ run.prices,
        t.tokenPriceHistory.find (price.unitName, run.now) = some (historyRow price run.now)
  kept : ∀ earlier between later u t, runs = earlier ++ (between ++ later) →
    Eff.Returns (earlier.forM HistoryRun.update) s () u →
      Eff.Returns (between.forM HistoryRun.update) u () t →
        ∀ row ∈ u.tokenPriceHistory.rows, row ∈ t.tokenPriceHistory.rows

/-- The API has updated every price at the very time of the run. -/
def OnTime (run : HistoryRun) : Prop := ∀ price ∈ run.prices, price.timestamp = run.now

def OncePriced (run : HistoryRun) : Prop := (run.prices.map TokenPrice.unitName).Nodup

/-- The runs follow each other in time, and come after what is stored. -/
structure Ascending (s : Db) (runs : List HistoryRun) : Prop where
  times : runs.Pairwise fun a b => a.now < b.now
  fresh : ∀ row ∈ s.tokenPriceHistory.rows, ∀ run ∈ runs, row.timestamp < run.now

-- ---------------------------------------------------------------------------
-- One run
-- ---------------------------------------------------------------------------

variable {s t : Db} {run : HistoryRun} {runs : List HistoryRun}

theorem update_returns (hids : tokensPriceID s ≠ []) (h : Eff.Returns run.update s () t) :
    Eff.Returns (saveTokenPricesHistory run.prices) s () t := by
  have hprices : Eff.Returns (getTokenPrices fun _ => .ok run.markets) s run.prices s := by
    refine Eff.returns_bind.mpr ⟨s, s, by simp, ?_⟩
    simp [hids, getTokensPrices, HistoryRun.prices, bind, Except.bind, pure, Except.pure]
  obtain ⟨prices, u, hreturns, hsave⟩ := Eff.returns_bind.mp h
  obtain ⟨rfl, rfl⟩ := hprices.unique hreturns
  exact Eff.returns_wrap.mp hsave

theorem update_tokenUnit (h : Eff.Returns run.update s () t) : t.tokenUnit = s.tokenUnit := by
  have hfixes : Eff.Fixes Db.tokenUnit run.update := by
    refine .bind (.bind .get fun u => ?_) fun prices => .wrap ?_
    · dsimp only
      split
      · exact .pure
      · exact .wrap .ofExcept
    · unfold saveTokenPricesHistory
      split
      · exact .pure
      · exact .wrap (sending_fixes (Relation.insert_fixes fun _ _ => rfl))
  exact hfixes.of_returns h

theorem tokensPriceID_of_update (h : Eff.Returns run.update s () t) :
    tokensPriceID t = tokensPriceID s := by
  rw [tokensPriceID, tokensPriceID, update_tokenUnit h]

theorem resolve_historyRow (stored : Option TokenPriceHistoryRow) (row : TokenPriceHistoryRow)
    (hk : ∀ o, stored = some o → o.uniquePriceForTimestamp = row.uniquePriceForTimestamp) :
    historyConflict.resolve stored row = row := by
  cases stored with
  | none => rfl
  | some o =>
    have hkey := hk o rfl
    cases o
    cases row
    simp only [TokenPriceHistoryRow.uniquePriceForTimestamp, Prod.mk.injEq] at hkey
    simp [Conflict.merge, historyConflict, hkey]

theorem historyConflict_writes (stored : Option TokenPriceHistoryRow) (row : TokenPriceHistoryRow) :
    historyConflict.writes stored row = true := by
  cases stored <;> rfl

theorem update_find (hids : tokensPriceID s ≠ []) (h : Eff.Returns run.update s () t) :
    (∀ price ∈ run.prices, t.tokenPriceHistory.find (price.unitName, price.timestamp) =
      some (historyRow price price.timestamp)) ∧
    ∀ k, (∀ price ∈ run.prices, (price.unitName, price.timestamp) ≠ k) →
      t.tokenPriceHistory.find k = s.tokenPriceHistory.find k := by
  have hsave := update_returns hids h
  unfold saveTokenPricesHistory at hsave
  split at hsave
  · rename_i hnil
    obtain ⟨-, rfl⟩ := Eff.returns_pure.mp hsave
    exact ⟨by simp [List.length_eq_zero_iff.mp hnil], fun _ _ => rfl⟩
  · obtain ⟨-, hinsert⟩ := returns_sending.mp (Eff.returns_wrap.mp hsave)
    obtain ⟨u, written, hu, -, rfl⟩ := Relation.insert_returns.mp hinsert
    refine ⟨fun price hprice => ?_, fun k hk => ?_⟩
    · have hfind := Table.find_insertAll_of_writes hu (List.mem_map_of_mem hprice)
        (historyConflict_writes _ _)
      exact hfind.trans (congrArg some (resolve_historyRow _ _ fun _ => Table.find_key))
    · refine Table.insertAll_unwritten hu fun hin => ?_
      obtain hnil | ⟨row, hrow, hkey, -⟩ := (Table.mem_insertAll hu).mp hin
      · cases hnil
      · obtain ⟨price, hprice, rfl⟩ := List.mem_map.mp hrow
        exact hk price hprice hkey

-- ---------------------------------------------------------------------------
-- Runs on time
-- ---------------------------------------------------------------------------

theorem runs_append {earlier later : List HistoryRun} :
    Eff.Returns ((earlier ++ later).forM HistoryRun.update) s () t ↔
      ∃ u, Eff.Returns (earlier.forM HistoryRun.update) s () u ∧
        Eff.Returns (later.forM HistoryRun.update) u () t := by
  induction earlier generalizing s with
  | nil => simp
  | cons run earlier ih =>
    simp only [List.cons_append, Eff.returns_forM_cons, ih]
    constructor
    · rintro ⟨u, hrun, v, hearlier, hlater⟩
      exact ⟨v, ⟨u, hrun, hearlier⟩, hlater⟩
    · rintro ⟨v, ⟨u, hrun, hearlier⟩, hlater⟩
      exact ⟨u, hrun, v, hearlier, hlater⟩

section
variable (hids : tokensPriceID s ≠ [])
include hids

theorem runs_tokensPriceID (h : Eff.Returns (runs.forM HistoryRun.update) s () t) :
    tokensPriceID t ≠ [] := by
  induction runs generalizing s with
  | nil =>
    obtain rfl := Eff.returns_forM_nil.mp h
    exact hids
  | cons run runs ih =>
    obtain ⟨u, hrun, hrest⟩ := Eff.returns_forM_cons.mp h
    exact ih (tokensPriceID_of_update hrun ▸ hids) hrest

theorem runs_find (hon : ∀ run ∈ runs, OnTime run)
    (h : Eff.Returns (runs.forM HistoryRun.update) s () t) {k : String × Int}
    (hk : ∀ run ∈ runs, run.now ≠ k.2) : t.tokenPriceHistory.find k = s.tokenPriceHistory.find k := by
  induction runs generalizing s with
  | nil =>
    obtain rfl := Eff.returns_forM_nil.mp h
    rfl
  | cons run runs ih =>
    obtain ⟨hrunOn, hrestOn⟩ := List.forall_mem_cons.mp hon
    obtain ⟨hrunNow, hrestNow⟩ := List.forall_mem_cons.mp hk
    obtain ⟨u, hrun, hrest⟩ := Eff.returns_forM_cons.mp h
    rw [ih (tokensPriceID_of_update hrun ▸ hids) hrestOn hrest hrestNow]
    refine (update_find hids hrun).2 k fun price hprice heq => hrunNow ?_
    rw [← hrunOn price hprice, ← heq]

theorem runs_priced (hon : ∀ run ∈ runs, OnTime run)
    (htimes : runs.Pairwise fun a b => a.now < b.now)
    (h : Eff.Returns (runs.forM HistoryRun.update) s () t) :
    ∀ run ∈ runs, ∀ price ∈ run.prices,
      t.tokenPriceHistory.find (price.unitName, run.now) = some (historyRow price run.now) := by
  induction runs generalizing s with
  | nil => simp
  | cons run runs ih =>
    obtain ⟨hrunOn, hrestOn⟩ := List.forall_mem_cons.mp hon
    obtain ⟨hlater, hrestTimes⟩ := List.pairwise_cons.mp htimes
    obtain ⟨u, hrun, hrest⟩ := Eff.returns_forM_cons.mp h
    have hidsu : tokensPriceID u ≠ [] := tokensPriceID_of_update hrun ▸ hids
    refine List.forall_mem_cons.mpr ⟨fun price hprice => ?_, ih hidsu hrestOn hrestTimes hrest⟩
    have hstored := (update_find hids hrun).1 price hprice
    rw [hrunOn price hprice] at hstored
    rw [runs_find hidsu hrestOn hrest fun later hin => (hlater later hin).ne', hstored]

theorem grows_of_onTime (ha : Ascending s runs) (hon : ∀ run ∈ runs, OnTime run) :
    HistoryGrows s runs where
  priced := by
    rintro earlier later t rfl h
    exact runs_priced hids (fun run hrun => hon run (List.mem_append_left _ hrun))
      (List.pairwise_append.mp ha.times).1 h
  kept := by
    rintro earlier between later u t rfl hu ht row hrow
    obtain ⟨-, -, hbefore⟩ := List.pairwise_append.mp ha.times
    have hearlier : ∀ run ∈ earlier, OnTime run := fun run hrun =>
      hon run (List.mem_append_left _ hrun)
    have hbetween : ∀ run ∈ between, OnTime run := fun run hrun =>
      hon run (List.mem_append_right _ (List.mem_append_left _ hrun))
    refine Table.mem_rows_iff.mpr ((runs_find (runs_tokensPriceID hids hu) hbetween ht ?_).trans
      (Table.find_of_mem hrow))
    -- a row at the time of a later run would have been stored before all runs
    intro run hrun hnow
    have hold : row ∈ s.tokenPriceHistory.rows := by
      refine Table.mem_rows_iff.mpr ((runs_find hids hearlier hu ?_).symm.trans
        (Table.find_of_mem hrow))
      intro first hfirst heq
      have hlt := hbefore first hfirst run (List.mem_append_left _ hrun)
      exact hlt.ne (heq.trans hnow.symm)
    have hlt := ha.fresh row hold run (List.mem_append_right _ (List.mem_append_left _ hrun))
    exact hlt.ne hnow.symm

/-- A run whose prices are not of its own time has no row at this time. -/
theorem onTime_of_grows (ha : Ascending s runs) (honce : ∀ run ∈ runs, OncePriced run)
    (h : Eff.Returns (runs.forM HistoryRun.update) s () t) (hgrows : HistoryGrows s runs) :
    ∀ run ∈ runs, OnTime run := by
  induction runs using List.reverseRecOn generalizing t with
  | nil => simp
  | append_singleton earlier run ih =>
    obtain ⟨u, hearlier, hlast⟩ := runs_append.mp h
    obtain ⟨w, hrun, hend⟩ := Eff.returns_forM_cons.mp hlast
    obtain rfl := Eff.returns_forM_nil.mp hend
    obtain ⟨htimes, -, hbefore⟩ := List.pairwise_append.mp ha.times
    have hon : ∀ first ∈ earlier, OnTime first := by
      refine ih ⟨htimes, fun row hrow first hfirst => ?_⟩ (fun first hfirst => ?_) hearlier ⟨?_, ?_⟩
      · exact ha.fresh row hrow first (List.mem_append_left _ hfirst)
      · exact honce first (List.mem_append_left _ hfirst)
      · rintro before after v rfl hv
        exact hgrows.priced before (after ++ [run]) v (by simp) hv
      · rintro before between after v v' rfl hv hv'
        exact hgrows.kept before between (after ++ [run]) v v' (by simp) hv hv'
    refine List.forall_mem_append.mpr ⟨hon, List.forall_mem_singleton.mpr fun price hprice => ?_⟩
    by_contra hlate
    -- nothing is stored under this unit at the time of the run
    have hnone : u.tokenPriceHistory.find (price.unitName, run.now) = none := by
      rw [runs_find hids hon hearlier fun first hfirst => (hbefore first hfirst run (by simp)).ne]
      refine Table.find_eq_none_iff.mpr fun hmem => ?_
      obtain ⟨row, hrow, hkey⟩ := List.mem_map.mp hmem
      have hlt := ha.fresh row hrow run (by simp)
      exact hlt.ne (congrArg Prod.snd hkey)
    have hpriced := hgrows.priced (earlier ++ [run]) [] _ (by simp) h run (by simp) price hprice
    rw [(update_find (runs_tokensPriceID hids hearlier) hrun).2, hnone] at hpriced
    · cases hpriced
    · intro other hother heq
      obtain ⟨hunit, hnow⟩ := Prod.mk.inj heq
      have hsame : other = price :=
        List.inj_on_of_nodup_map (honce run (by simp)) hother hprice hunit
      exact hlate (hsame ▸ hnow)

end

/-- The history grows by every run when the API prices all units at the times of
the runs; and only then, where each run prices a unit once. -/
theorem history_grows_iff (hids : tokensPriceID s ≠ []) (ha : Ascending s runs) :
    ((∀ run ∈ runs, OnTime run) → HistoryGrows s runs) ∧
      ∀ t, Eff.Returns (runs.forM HistoryRun.update) s () t → (∀ run ∈ runs, OncePriced run) →
        HistoryGrows s runs → ∀ run ∈ runs, OnTime run :=
  ⟨grows_of_onTime hids ha, fun _ h honce => onTime_of_grows hids ha honce h⟩

def atomRun (now lastUpdated : Int) : HistoryRun :=
  ⟨now, [⟨"cosmos", "atom", "31.16", 8809250407, lastUpdated⟩]⟩

theorem atomRuns_ascending (first second : Int) :
    Ascending tradedUnits [atomRun 100 first, atomRun 200 second] where
  times := by simp [atomRun]
  fresh := by
    rintro row hrow
    cases hrow

theorem history_grows_iff_atom : HistoryGrows tradedUnits [atomRun 100 100, atomRun 200 200] := by
  refine (history_grows_iff (by decide) (atomRuns_ascending 100 200)).1 ?_
  simp [OnTime, HistoryRun.prices, atomRun, convertCoingeckoPrices, Market.ticker]

/-- The API says twice that its price is of time 50, and one row is stored. -/
theorem unchanged_timestamp_merges_runs :
    Ascending tradedUnits [atomRun 100 50, atomRun 200 50] ∧
      (∃ t, Eff.Returns ([atomRun 100 50, atomRun 200 50].forM HistoryRun.update) tradedUnits () t ∧
        t.tokenPriceHistory.rows.length = 1) ∧
      ¬HistoryGrows tradedUnits [atomRun 100 50, atomRun 200 50] := by
  have hrun : Eff.Returns ([atomRun 100 50, atomRun 200 50].forM HistoryRun.update) tradedUnits ()
      _ := rfl
  refine ⟨atomRuns_ascending 50 50, ⟨_, hrun, rfl⟩, fun h => ?_⟩
  have hpriced := h.priced _ [] _ rfl hrun (atomRun 200 50) (by simp) ⟨"atom", "31.16", 8809250407, 50⟩
    (by decide)
  revert hpriced
  decide

end SafrochainIndexer.Callisto.Pricefeed
