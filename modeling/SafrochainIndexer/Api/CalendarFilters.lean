import SafrochainIndexer.Api.DateFilterService

/-!
# What filters by date accept

A request's filters accept a timestamp if each of them does. The filters for an
exact date, a second, a fiscal year and custom ranges are compared with what they
are for: the windows end before the last instants of the day and of the year, a
second has a fraction, and a list without a valid range is no condition.
-/

namespace SafrochainIndexer.Api

open Calendar (monthOf monthStart monthLength dateOf)

-- ---------------------------------------------------------------------------
-- Conditions of several filters
-- ---------------------------------------------------------------------------

def Holds (conditions : Except QueryError (List Condition)) (t : Int) : Prop :=
  ∃ cs, conditions = .ok cs ∧ ∀ c ∈ cs, c t = true

def Accepts (engine : Engine) (now : Int) (filters : List DateFilter) (t : Int) : Prop :=
  Holds (applyAll engine now filters) t

@[simp] theorem holds_ok {cs : List Condition} {t : Int} :
    Holds (.ok cs) t ↔ ∀ c ∈ cs, c t = true := by
  simp [Holds]

@[simp] theorem holds_error {e : QueryError} {t : Int} : ¬ Holds (.error e) t := by
  simp [Holds]

@[simp] theorem holds_whenTruthy {truthy : Prop} [Decidable truthy]
    {conditions : Except QueryError (List Condition)} {t : Int} :
    Holds (whenTruthy truthy conditions) t ↔ (truthy → Holds conditions t) := by
  unfold whenTruthy
  split
  · simp [*]
  · simp [*]

theorem accepts_iff {engine : Engine} {now : Int} {filters : List DateFilter} {t : Int} :
    Accepts engine now filters t ↔ ∀ filter ∈ filters, Holds (filter.conditions engine now) t := by
  induction filters with
  | nil => simp [Accepts, applyAll, bind, Except.bind, pure, Except.pure]
  | cons filter filters ih =>
    rw [List.forall_mem_cons, ← ih]
    unfold Accepts applyAll
    rw [List.mapM_cons]
    cases hfilter : filter.conditions engine now with
    | error e => simp [bind, Except.bind]
    | ok cs =>
      cases hfilters : filters.mapM (DateFilter.conditions engine now) with
      | error e => simp [bind, Except.bind]
      | ok css => simp [bind, Except.bind, pure, Except.pure, or_imp, forall_and]

theorem accepts_singleton {engine : Engine} {now : Int} {filter : DateFilter} {t : Int} :
    Accepts engine now [filter] t ↔ Holds (filter.conditions engine now) t := by
  simp [accepts_iff]

theorem accepts_iff_each {engine : Engine} {now : Int} {filters : List DateFilter} {t : Int} :
    Accepts engine now filters t ↔ ∀ filter ∈ filters, Accepts engine now [filter] t := by
  simp [accepts_iff]

def Stored (time : Int) : Prop := firstTimestamp ≤ 1000 * time

theorem holds_window {start stop : Option Int} {t : Int} :
    Holds (do pure [← notBefore start, ← notAfter stop]) t ↔
      ∃ a b, start = some a ∧ stop = some b ∧ Stored a ∧ Stored b ∧
        1000 * a ≤ t ∧ t ≤ 1000 * b := by
  cases start with
  | none => simp [notBefore, parameter, bind, Except.bind]
  | some a =>
    cases stop with
    | none =>
      simp only [notBefore, notAfter, parameter, bind, Except.bind]
      split <;> simp_all
    | some b =>
      simp only [notBefore, notAfter, parameter, bind, Except.bind, Stored]
      by_cases ha : 1000 * a < firstTimestamp
      · simp [ha]
      · by_cases hb : 1000 * b < firstTimestamp
        · simp [ha, hb, pure, Except.pure]
        · simp [ha, hb, pure, Except.pure, not_lt.mp]

-- ---------------------------------------------------------------------------
-- Days and seconds
-- ---------------------------------------------------------------------------

def OnDay (engine : Engine) (text : String) (t : Int) : Prop :=
  ∃ time, newDate engine text = some time ∧ dayOfTimestamp t = time / msPerDay

def lastDay : Int := 100000000

/-- The end of a day is its last millisecond. -/
def lastOfDay : Int := 86399999000

theorem accepts_dateExact {engine : Engine} {now : Int} {text : String} {t : Int}
    (ht : firstTimestamp ≤ t) :
    Accepts engine now [.dateExact text] t ↔ (text ≠ "" →
      OnDay engine text t ∧ dayOfTimestamp t < lastDay ∧ t % 86400000000 ≤ lastOfDay) := by
  have hclip : ∀ time, newDate engine text = some time → -maxTime ≤ time ∧ time ≤ maxTime := by
    intro time htime
    obtain ⟨parsed, -, hparsed⟩ := Option.bind_eq_some_iff.mp htime
    obtain ⟨hbounds, rfl⟩ := timeClip_eq_some.mp hparsed
    exact hbounds
  rw [accepts_singleton, DateFilter.conditions, holds_whenTruthy, holds_window]
  refine imp_congr_right fun _ => ?_
  simp only [Option.bind_eq_some_iff, setTime, timeClip_eq_some]
  constructor
  · rintro ⟨a, b, ⟨time, htime, hstart, rfl⟩, ⟨time', htime', hstop, rfl⟩, -, -, hlow, hhigh⟩
    rw [htime, Option.some.injEq] at htime'
    subst htime'
    unfold maxTime msPerDay at *
    refine ⟨⟨time, htime, ?_⟩, ?_, ?_⟩
    · unfold dayOfTimestamp msPerDay
      omega
    · unfold dayOfTimestamp lastDay
      omega
    · unfold lastOfDay
      omega
  · rintro ⟨⟨time, htime, hday⟩, hlast, hrest⟩
    have hbounds := hclip time htime
    unfold dayOfTimestamp lastDay lastOfDay maxTime msPerDay firstTimestamp at *
    refine ⟨_, _, ⟨time, htime, ?_, rfl⟩, ⟨time, htime, ?_, rfl⟩, ?_⟩
    · omega
    · omega
    · unfold Stored firstTimestamp
      omega

/-- The whole seconds of a timestamp's minute. -/
def wholeSecond (t : Int) : Int := t % 60000000 / 1000000

theorem accepts_second {engine : Engine} {now : Int} {s : Nat} {t : Int} :
    Accepts engine now [.second s] t ↔ wholeSecond t = s ∧ t % 1000000 = 0 := by
  have hfield : extract t .second = s ↔ t % 60000000 = 1000000 * s := by
    unfold extract
    rw [div_eq_iff (by norm_num), mul_comm]
    exact_mod_cast Iff.rfl
  rw [accepts_singleton, DateFilter.conditions, equals, holds_ok, List.forall_mem_singleton,
    decide_eq_true_iff, hfield]
  unfold wholeSecond
  omega

-- ---------------------------------------------------------------------------
-- Custom ranges
-- ---------------------------------------------------------------------------

def GivenRange (engine : Engine) (texts : String) (range : Int × Int) : Prop :=
  ∃ i start stop, (Text.splitAt texts ',')[2 * i]? = some start ∧
    (Text.splitAt texts ',')[2 * i + 1]? = some stop ∧
    newDate engine (Text.trim start) = some range.1 ∧
    newDate engine (Text.trim stop) = some range.2

def InRange (range : Int × Int) (t : Int) : Prop := 1000 * range.1 ≤ t ∧ t ≤ 1000 * range.2

def StoredRange (range : Int × Int) : Prop := Stored range.1 ∧ Stored range.2

theorem mem_rangesOf {engine : Engine} {texts : List String} {range : Int × Int} :
    range ∈ rangesOf engine texts ↔ ∃ i start stop, texts[2 * i]? = some start ∧
      texts[2 * i + 1]? = some stop ∧ newDate engine (Text.trim start) = some range.1 ∧
      newDate engine (Text.trim stop) = some range.2 := by
  induction texts using rangesOf.induct engine with
  | case1 start stop texts a b hb ha ih =>
    simp only [rangesOf, ha, hb, List.mem_cons, ih]
    constructor
    · rintro (rfl | ⟨i, start', stop', hstart, hstop, hdates⟩)
      · exact ⟨0, start, stop, rfl, rfl, ha, hb⟩
      · exact ⟨i + 1, start', stop', hstart, hstop, hdates⟩
    · rintro ⟨i, start', stop', hstart, hstop, hdates⟩
      cases i with
      | zero =>
        obtain rfl : start = start' := by simpa using hstart
        obtain rfl : stop = stop' := by simpa using hstop
        rw [ha, hb, Option.some.injEq, Option.some.injEq] at hdates
        exact Or.inl (Prod.ext hdates.1.symm hdates.2.symm)
      | succ i => exact Or.inr ⟨i, start', stop', hstart, hstop, hdates⟩
  | case2 start stop texts hnone ih =>
    rw [rangesOf]
    split
    · rename_i a b ha hb
      exact absurd hb (hnone a b ha)
    · rw [ih]
      constructor
      · rintro ⟨i, start', stop', hstart, hstop, hdates⟩
        exact ⟨i + 1, start', stop', hstart, hstop, hdates⟩
      · rintro ⟨i, start', stop', hstart, hstop, hdates⟩
        cases i with
        | zero =>
          obtain rfl : start = start' := by simpa using hstart
          obtain rfl : stop = stop' := by simpa using hstop
          exact absurd hdates.2 (hnone _ _ hdates.1)
        | succ i => exact ⟨i, start', stop', hstart, hstop, hdates⟩
  | case3 texts hshort =>
    have hlength : texts.length < 2 := by
      rcases texts with _ | ⟨start, _ | ⟨stop, texts⟩⟩
      · simp
      · simp
      · exact absurd rfl (hshort start stop texts)
    rw [rangesOf]
    · refine iff_of_false List.not_mem_nil ?_
      rintro ⟨i, start, stop, -, hstop, -⟩
      obtain ⟨hlt, -⟩ := List.getElem?_eq_some_iff.mp hstop
      omega
    · exact hshort

theorem mem_parseCustomRanges {engine : Engine} {texts : String} {range : Int × Int} :
    range ∈ parseCustomRanges engine texts ↔ GivenRange engine texts range :=
  mem_rangesOf

def windowOf (range : Int × Int) : Except QueryError (Condition × Condition) := do
  pure (← notBefore (some range.1), ← notAfter (some range.2))

theorem windowOf_returns_iff {range : Int × Int} : (∃ w, windowOf range = .ok w) ↔
    StoredRange range := by
  unfold windowOf notBefore notAfter parameter StoredRange Stored
  by_cases hstart : 1000 * range.1 < firstTimestamp
  · simp [hstart, bind, Except.bind]
  · by_cases hstop : 1000 * range.2 < firstTimestamp
    · simp [hstart, hstop, bind, Except.bind, pure, Except.pure]
    · simp [hstart, hstop, bind, Except.bind, pure, Except.pure, not_lt.mp]

theorem windowOf_ok {range : Int × Int} {w : Condition × Condition} (h : windowOf range = .ok w)
    (t : Int) : (w.1 t && w.2 t) = true ↔ InRange range t := by
  obtain ⟨hstart, hstop⟩ := windowOf_returns_iff.mp ⟨w, h⟩
  unfold windowOf notBefore notAfter parameter at h
  simp [not_lt.mpr hstart, not_lt.mpr hstop, bind, Except.bind, pure, Except.pure] at h
  subst h
  simp [InRange]

theorem any_windows_iff {ranges : List (Int × Int)} {ws : List (Condition × Condition)} {t : Int}
    (h : List.Forall₂ (fun range w => windowOf range = .ok w) ranges ws) :
    (ws.any fun w => w.1 t && w.2 t) = true ↔ ∃ range ∈ ranges, InRange range t := by
  induction h with
  | nil => simp
  | cons hw _ ih =>
    rw [List.any_cons, Bool.or_eq_true, windowOf_ok hw t, ih, List.exists_mem_cons_iff]

theorem holds_ranges {ranges : List (Int × Int)} {t : Int} :
    Holds (do
      let conditions ← ranges.mapM windowOf
      if conditions.isEmpty then pure []
      else pure [fun t => conditions.any fun condition => condition.1 t && condition.2 t]) t ↔
      (∀ range ∈ ranges, StoredRange range) ∧
        (ranges ≠ [] → ∃ range ∈ ranges, InRange range t) := by
  simp only [← windowOf_returns_iff, ← mapM_returns_iff]
  cases hmap : ranges.mapM windowOf with
  | error e => simp [bind, Except.bind]
  | ok ws =>
    have hall := mapM_ok_iff.mp hmap
    rw [← any_windows_iff hall]
    cases hall with
    | nil => simp [bind, Except.bind, pure, Except.pure]
    | cons _ _ => simp [bind, Except.bind, pure, Except.pure]

theorem accepts_customRanges {engine : Engine} {now : Int} {texts : String} {t : Int} :
    Accepts engine now [.customRanges texts] t ↔
      (∀ range, GivenRange engine texts range → StoredRange range) ∧
        ((∃ range, GivenRange engine texts range) →
          ∃ range, GivenRange engine texts range ∧ InRange range t) := by
  have hconditions : Holds (DateFilter.conditions engine now (.customRanges texts)) t ↔
      (texts ≠ "" → (∀ range ∈ parseCustomRanges engine texts, StoredRange range) ∧
        (parseCustomRanges engine texts ≠ [] →
          ∃ range ∈ parseCustomRanges engine texts, InRange range t)) :=
    holds_whenTruthy.trans (imp_congr_right fun _ => holds_ranges)
  have hne : parseCustomRanges engine texts ≠ [] ↔
      ∃ range, range ∈ parseCustomRanges engine texts := by
    rw [ne_eq, List.eq_nil_iff_forall_not_mem, not_forall_not]
  rw [accepts_singleton, hconditions, hne]
  simp only [← mem_parseCustomRanges]
  by_cases htexts : texts = ""
  · have hnone : parseCustomRanges engine texts = [] := by
      rw [htexts]
      rfl
    simp [hnone]
  · simp only [ne_eq, htexts, not_false_eq_true, forall_const]

-- ---------------------------------------------------------------------------
-- Fiscal years
-- ---------------------------------------------------------------------------

/-- The midnight that April 1 begins with. -/
def aprilFirst (year : Int) : Int := 86400000000 * monthStart (12 * year + 3)

def InFiscalYear (year t : Int) : Prop := aprilFirst year ≤ t ∧ t < aprilFirst (year + 1)

instance (year t : Int) : Decidable (InFiscalYear year t) :=
  inferInstanceAs (Decidable (_ ∧ _))

theorem aprilFirst_strictMono : StrictMono aprilFirst := by
  intro year year' hlt
  have hstart : monthStart (12 * year + 3) < monthStart (12 * year' + 3) :=
    Calendar.monthStart_strictMono (by omega)
  unfold aprilFirst
  omega

/-- A timestamp is in one fiscal year: the year of its month, or the one before up
to March. -/
theorem existsUnique_inFiscalYear (t : Int) : ∃! year, InFiscalYear year t := by
  obtain ⟨hlow, hhigh⟩ := Calendar.monthOf_spec (dayOfTimestamp t)
  have hyear : ∃ year, year = (monthOf (dayOfTimestamp t) - 3) / 12 := ⟨_, rfl⟩
  obtain ⟨year, hyear⟩ := hyear
  have hstart : monthStart (12 * year + 3) ≤ monthStart (monthOf (dayOfTimestamp t)) :=
    Calendar.monthStart_strictMono.monotone (by omega)
  have hstop : monthStart (monthOf (dayOfTimestamp t) + 1) ≤ monthStart (12 * (year + 1) + 3) :=
    Calendar.monthStart_strictMono.monotone (by omega)
  refine ⟨year, ⟨?_, ?_⟩, ?_⟩
  · unfold aprilFirst
    unfold dayOfTimestamp at *
    omega
  · unfold aprilFirst
    unfold dayOfTimestamp at *
    omega
  · rintro year' ⟨hlow', hhigh'⟩
    have hle : year' < year + 1 := aprilFirst_strictMono.lt_iff_lt.mp (lt_of_le_of_lt hlow' (by
      unfold aprilFirst
      unfold dayOfTimestamp at *
      omega))
    have hge : year < year' + 1 := aprilFirst_strictMono.lt_iff_lt.mp (lt_of_le_of_lt (by
      unfold aprilFirst
      unfold dayOfTimestamp at *
      omega) hhigh')
    omega

/-- `new Date` reads a year of two digits as one of the twentieth century. -/
def fullYear (year : Int) : Int := if 0 ≤ year ∧ year ≤ 99 then 1900 + year else year

def marchLast (year : Int) : Int := aprilFirst year - 86400000000

theorem newDateOf_eq_some {year month day time : Int} : newDateOf year month day = some time ↔
    (-maxTime ≤ time ∧ time ≤ maxTime) ∧
      time = msPerDay * dateOf (12 * fullYear year + month) day := by
  unfold newDateOf fullYear
  rw [timeClip_eq_some]
  constructor
  · rintro ⟨hbounds, rfl⟩
    exact ⟨hbounds, rfl⟩
  · rintro ⟨hbounds, rfl⟩
    exact ⟨hbounds, rfl⟩

theorem dateOf_april (year : Int) :
    1000 * (msPerDay * dateOf (12 * year + 3) 1) = aprilFirst year := by
  unfold dateOf aprilFirst msPerDay
  omega

theorem dateOf_march (year : Int) :
    1000 * (msPerDay * dateOf (12 * year + 2) 31) = marchLast year := by
  have hlength : monthLength (12 * year + 2) = 31 := by simp [monthLength]
  have hnext := Calendar.monthStart_succ (12 * year + 2)
  rw [hlength, show 12 * year + 2 + 1 = 12 * year + 3 by omega] at hnext
  unfold dateOf marchLast aprilFirst msPerDay
  omega

/-- An instant that is a `Date` and that Postgres takes, in microseconds. -/
def Reached (t : Int) : Prop := firstTimestamp ≤ t ∧ t ≤ 1000 * maxTime

theorem accepts_fiscalYear {engine : Engine} {now year t : Int} (h : year ≠ 0) :
    Accepts engine now [.fiscalYear year] t ↔
      Reached (aprilFirst (fullYear year)) ∧ Reached (marchLast (fullYear (year + 1))) ∧
        aprilFirst (fullYear year) ≤ t ∧ t ≤ marchLast (fullYear (year + 1)) := by
  have hconditions : Holds (DateFilter.conditions engine now (.fiscalYear year)) t ↔
      (year ≠ 0 → _) :=
    holds_whenTruthy.trans (imp_congr_right fun _ => holds_window)
  rw [accepts_singleton, hconditions, ← dateOf_april, ← dateOf_march]
  simp only [newDateOf_eq_some, Reached, Stored]
  constructor
  · intro hwindow
    obtain ⟨a, b, ⟨ha, rfl⟩, ⟨hb, rfl⟩, hstart, hstop, hlow, hhigh⟩ := hwindow h
    exact ⟨⟨hstart, by omega⟩, ⟨hstop, by omega⟩, hlow, hhigh⟩
  · rintro ⟨⟨hstart, ha⟩, ⟨hstop, hb⟩, hlow, hhigh⟩ -
    have hmin : -(1000 * maxTime) ≤ firstTimestamp := by decide
    exact ⟨_, _, ⟨⟨by omega, by omega⟩, rfl⟩, ⟨⟨by omega, by omega⟩, rfl⟩, hstart, hstop, hlow,
      hhigh⟩

theorem accepts_fiscalYear_zero {engine : Engine} {now t : Int} :
    Accepts engine now [.fiscalYear 0] t := by
  rw [accepts_singleton]
  exact holds_whenTruthy.mpr fun hne => absurd rfl hne

def firstFiscalYear : Int := -4712

def lastFiscalYear : Int := 275759

/-- Where a fiscal year's filter and the fiscal year differ. The year's last day is
left out after its midnight; 0 is no filter, years of two digits are read as those
of the twentieth century, and far years have no dates. -/
def FiscalGap (year t : Int) : Prop :=
  if year = 0 then ¬ InFiscalYear year t
  else if year = -1 then aprilFirst 0 ≤ t ∧ t ≤ marchLast 1900
  else if 1 ≤ year ∧ year ≤ 98 then
    InFiscalYear year t ∨ aprilFirst (1900 + year) ≤ t ∧ t ≤ marchLast (1901 + year)
  else if year = 99 ∨ year < firstFiscalYear ∨ lastFiscalYear < year then InFiscalYear year t
  else marchLast (year + 1) < t ∧ t < aprilFirst (year + 1)

instance (year t : Int) : Decidable (FiscalGap year t) :=
  inferInstanceAs (Decidable (ite _ _ _))

theorem reached_mono {a b t : Int} (ha : Reached a) (hb : Reached b) (hle : a ≤ t) (hge : t ≤ b) :
    Reached t :=
  ⟨ha.1.trans hle, hge.trans hb.2⟩

theorem reached_aprilFirst {year : Int} : Reached (aprilFirst year) ↔
    firstFiscalYear ≤ year ∧ year ≤ 275760 := by
  have hfirst : Reached (aprilFirst firstFiscalYear) ∧
      ¬ firstTimestamp ≤ aprilFirst (firstFiscalYear - 1) := by
    unfold Reached
    decide
  have hlast : Reached (aprilFirst 275760) ∧ ¬ aprilFirst 275761 ≤ 1000 * maxTime := by
    unfold Reached
    decide
  constructor
  · rintro ⟨hlow, hhigh⟩
    constructor
    · by_contra hlt
      have hle := aprilFirst_strictMono.monotone (show year ≤ firstFiscalYear - 1 by omega)
      exact hfirst.2 (hlow.trans hle)
    · by_contra hlt
      have hle := aprilFirst_strictMono.monotone (show 275761 ≤ year by omega)
      exact hlast.2 (hle.trans hhigh)
  · rintro ⟨hlow, hhigh⟩
    exact reached_mono hfirst.1 hlast.1 (aprilFirst_strictMono.monotone hlow)
      (aprilFirst_strictMono.monotone hhigh)

theorem aprilFirst_le_marchLast (year : Int) : aprilFirst year ≤ marchLast (year + 1) := by
  have hlt : monthStart (12 * year + 3) < monthStart (12 * (year + 1) + 3) :=
    Calendar.monthStart_strictMono (by omega)
  unfold marchLast aprilFirst
  omega

theorem reached_marchLast {year : Int} (h : firstFiscalYear < year) :
    Reached (marchLast year) ↔ year ≤ lastFiscalYear + 1 := by
  have hlast : ¬ marchLast 275761 ≤ 1000 * maxTime := by decide
  unfold lastFiscalYear
  constructor
  · rintro ⟨-, hhigh⟩
    by_contra hlt
    have hle := aprilFirst_strictMono.monotone (show 275761 ≤ year by omega)
    unfold marchLast at *
    omega
  · intro hle
    have hprevious : Reached (aprilFirst (year - 1)) := reached_aprilFirst.mpr (by omega)
    have hnext : Reached (aprilFirst year) := reached_aprilFirst.mpr (by omega)
    have hstart := aprilFirst_le_marchLast (year - 1)
    rw [sub_add_cancel] at hstart
    refine reached_mono hprevious hnext hstart ?_
    unfold marchLast
    omega

theorem fullYear_of_ne {year : Int} (h : ¬ (0 ≤ year ∧ year ≤ 99)) : fullYear year = year :=
  if_neg h

theorem fullYear_of_mem {year : Int} (h : 0 ≤ year ∧ year ≤ 99) : fullYear year = 1900 + year :=
  if_pos h

/-- The condition of a fiscal year: both ends are reached, and the timestamp is between
them. -/
def FiscalWindow (year t : Int) : Prop :=
  Reached (aprilFirst (fullYear year)) ∧ Reached (marchLast (fullYear (year + 1))) ∧
    aprilFirst (fullYear year) ≤ t ∧ t ≤ marchLast (fullYear (year + 1))

theorem fiscalWindow_minus (t : Int) : (FiscalWindow (-1) t ↔ InFiscalYear (-1) t) ↔
    ¬ (aprilFirst 0 ≤ t ∧ t ≤ marchLast 1900) := by
  have hstart : Reached (aprilFirst (-1)) := reached_aprilFirst.mpr (by decide)
  have hstop : Reached (marchLast 1900) := (reached_marchLast (by decide)).mpr (by decide)
  have horder : aprilFirst (-1) < aprilFirst 0 ∧ aprilFirst 0 ≤ marchLast 1900 := by decide
  rw [FiscalWindow, fullYear_of_ne (by decide), show (-1 : Int) + 1 = 0 by rfl,
    fullYear_of_mem (by decide), add_zero]
  simp only [hstart, hstop, true_and, InFiscalYear, show (-1 : Int) + 1 = 0 by rfl]
  omega

theorem fiscalWindow_two {year : Int} (h : 1 ≤ year ∧ year ≤ 98) (t : Int) :
    (FiscalWindow year t ↔ InFiscalYear year t) ↔
      ¬ (InFiscalYear year t ∨ aprilFirst (1900 + year) ≤ t ∧ t ≤ marchLast (1901 + year)) := by
  have hstart : Reached (aprilFirst (1900 + year)) :=
    reached_aprilFirst.mpr (by unfold firstFiscalYear; omega)
  have hstop : Reached (marchLast (1900 + year + 1)) :=
    (reached_marchLast (by unfold firstFiscalYear; omega)).mpr (by unfold lastFiscalYear; omega)
  have horder : aprilFirst (year + 1) ≤ aprilFirst (1900 + year) :=
    aprilFirst_strictMono.monotone (by omega)
  rw [FiscalWindow, fullYear_of_mem (by omega), fullYear_of_mem (by omega),
    show 1900 + (year + 1) = 1900 + year + 1 by omega,
    show 1901 + year = 1900 + year + 1 by omega]
  simp only [hstart, hstop, true_and, InFiscalYear]
  omega

/-- The year 99 ends before it starts, and far years have no dates. -/
theorem not_fiscalWindow {year : Int}
    (h : year = 99 ∨ year < firstFiscalYear ∨ lastFiscalYear < year) (t : Int) :
    ¬ FiscalWindow year t := by
  rintro ⟨hstart, hstop, hlow, hhigh⟩
  rcases h with rfl | hearly | hlate
  · exact absurd (hlow.trans hhigh) (by decide)
  · unfold firstFiscalYear at *
    rw [fullYear_of_ne (by omega), reached_aprilFirst] at hstart
    unfold firstFiscalYear at hstart
    omega
  · have hyear := hlate
    unfold lastFiscalYear at hyear
    have hfirst : firstFiscalYear < year + 1 := by
      unfold firstFiscalYear
      omega
    rw [fullYear_of_ne (by omega), reached_marchLast hfirst] at hstop
    omega

theorem fiscalWindow_plain {year : Int} (hyear : ¬ (0 ≤ year ∧ year ≤ 99)) (hminus : year ≠ -1)
    (hlow : firstFiscalYear ≤ year) (hhigh : year ≤ lastFiscalYear) (t : Int) :
    (FiscalWindow year t ↔ InFiscalYear year t) ↔
      ¬ (marchLast (year + 1) < t ∧ t < aprilFirst (year + 1)) := by
  have hstart : Reached (aprilFirst year) :=
    reached_aprilFirst.mpr ⟨hlow, by unfold lastFiscalYear at hhigh; omega⟩
  have hstop : Reached (marchLast (year + 1)) := (reached_marchLast (by omega)).mpr (by omega)
  have horder := aprilFirst_le_marchLast year
  have hmidnight : marchLast (year + 1) < aprilFirst (year + 1) := by
    unfold marchLast
    omega
  rw [FiscalWindow, fullYear_of_ne hyear, fullYear_of_ne (by omega)]
  simp only [hstart, hstop, true_and, InFiscalYear]
  omega

theorem fiscalYear_iff {engine : Engine} {now year t : Int} :
    (Accepts engine now [.fiscalYear year] t ↔ InFiscalYear year t) ↔ ¬ FiscalGap year t := by
  unfold FiscalGap
  by_cases hzero : year = 0
  · subst hzero
    simp [accepts_fiscalYear_zero]
  rw [accepts_fiscalYear hzero, ← FiscalWindow, if_neg hzero]
  by_cases hminus : year = -1
  · subst hminus
    rw [if_pos rfl]
    exact fiscalWindow_minus t
  rw [if_neg hminus]
  by_cases htwo : 1 ≤ year ∧ year ≤ 98
  · rw [if_pos htwo]
    exact fiscalWindow_two htwo t
  rw [if_neg htwo]
  by_cases hfar : year = 99 ∨ year < firstFiscalYear ∨ lastFiscalYear < year
  · rw [if_pos hfar]
    simp [not_fiscalWindow hfar t]
  · rw [if_neg hfar]
    exact fiscalWindow_plain (by omega) hminus (by omega) (by omega) t

-- ---------------------------------------------------------------------------
-- What the filters are for
-- ---------------------------------------------------------------------------

structure Classified (engine : Engine) (now : Int) (filters : DateFilterDto) (t : Int) : Prop where
  dateExact : ∀ text, filters.dateExact = some text →
    (Accepts engine now [.dateExact text] t ↔ OnDay engine text t)
  second : ∀ s : Nat, filters.second = some s →
    (Accepts engine now [.second s] t ↔ wholeSecond t = s)
  fiscalYear : ∀ year, filters.fiscalYear = some year →
    (Accepts engine now [.fiscalYear year] t ↔ InFiscalYear year t)
  customRanges : ∀ texts, filters.customRanges = some texts →
    (Accepts engine now [.customRanges texts] t ↔
      ∃ range, GivenRange engine texts range ∧ InRange range t)
  several : Holds (applyDateFilters engine now filters) t ↔
    ∀ filter ∈ filters.supplied, Accepts engine now [filter] t

/-- The timestamp is none of those that the windows miss: the last microseconds of
the day, the fractions of a second, the end of the fiscal year; and there is a range. -/
structure Resolved (engine : Engine) (filters : DateFilterDto) (t : Int) : Prop where
  dateExact : ∀ text, filters.dateExact = some text →
    text ≠ "" ∧ (OnDay engine text t → dayOfTimestamp t < lastDay ∧ t % 86400000000 ≤ lastOfDay)
  second : ∀ s : Nat, filters.second = some s → wholeSecond t = s → t % 1000000 = 0
  fiscalYear : ∀ year, filters.fiscalYear = some year → ¬ FiscalGap year t
  customRanges : ∀ texts, filters.customRanges = some texts →
    (∃ range, GivenRange engine texts range) ∧
      ((∃ range, GivenRange engine texts range ∧ InRange range t) →
        ∀ range, GivenRange engine texts range → StoredRange range)

theorem dateExact_iff {engine : Engine} {now : Int} {text : String} {t : Int}
    (ht : firstTimestamp ≤ t) :
    (Accepts engine now [.dateExact text] t ↔ OnDay engine text t) ↔
      text ≠ "" ∧
        (OnDay engine text t → dayOfTimestamp t < lastDay ∧ t % 86400000000 ≤ lastOfDay) := by
  rw [accepts_dateExact ht]
  by_cases htext : text = ""
  · subst htext
    have hnone : ¬ OnDay engine "" t := by
      rintro ⟨time, htime, -⟩
      rw [newDate, engine.dateParse_empty] at htime
      cases htime
    simp [hnone]
  · simp [htext]

theorem second_iff {engine : Engine} {now : Int} {s : Nat} {t : Int} :
    (Accepts engine now [.second s] t ↔ wholeSecond t = s) ↔
      (wholeSecond t = s → t % 1000000 = 0) := by
  rw [accepts_second]
  exact and_iff_left_iff_imp

theorem customRanges_iff {engine : Engine} {now : Int} {texts : String} {t : Int} :
    (Accepts engine now [.customRanges texts] t ↔
      ∃ range, GivenRange engine texts range ∧ InRange range t) ↔
      (∃ range, GivenRange engine texts range) ∧
        ((∃ range, GivenRange engine texts range ∧ InRange range t) →
          ∀ range, GivenRange engine texts range → StoredRange range) := by
  rw [accepts_customRanges]
  by_cases hgiven : ∃ range, GivenRange engine texts range
  · simp only [hgiven, forall_const, true_and]
    exact and_iff_right_iff_imp
  · have hrange : ∀ range, ¬ GivenRange engine texts range := not_exists.mp hgiven
    simp [hrange]

theorem classified_iff {engine : Engine} {now : Int} {filters : DateFilterDto} {t : Int}
    (ht : firstTimestamp ≤ t) :
    (Classified engine now filters t ↔ Resolved engine filters t) ∧
      ∃! year, InFiscalYear year t := by
  refine ⟨⟨fun h => ⟨?_, ?_, ?_, ?_⟩, fun h => ⟨?_, ?_, ?_, ?_, accepts_iff_each⟩⟩,
    existsUnique_inFiscalYear t⟩
  · exact fun text htext => (dateExact_iff ht).mp (h.dateExact text htext)
  · exact fun s hs => second_iff.mp (h.second s hs)
  · exact fun year hyear => fiscalYear_iff.mp (h.fiscalYear year hyear)
  · exact fun texts htexts => customRanges_iff.mp (h.customRanges texts htexts)
  · exact fun text htext => (dateExact_iff ht).mpr (h.dateExact text htext)
  · exact fun s hs => second_iff.mpr (h.second s hs)
  · exact fun year hyear => fiscalYear_iff.mpr (h.fiscalYear year hyear)
  · exact fun texts htexts => customRanges_iff.mpr (h.customRanges texts htexts)

def marchEngine : Engine where
  dateParse text := if text = "2024-03-15" then some 1710460800000 else none
  parseInt _ := none
  dateParse_empty := rfl

theorem classified_iff_noon : Classified marchEngine 0
    { dateExact := some "2024-03-15", second := some 0, fiscalYear := some 2023 }
    1710504000000000 := by
  refine (classified_iff (by decide)).1.mpr ⟨?_, ?_, ?_, ?_⟩
  · rintro text ⟨⟩
    exact ⟨by decide, fun _ => by decide⟩
  · rintro s ⟨⟩ -
    decide
  · rintro year ⟨⟩
    decide
  · rintro texts ⟨⟩

/-- Noon of March 31, 2024 is not in the filter for the fiscal year 2023. -/
theorem not_classified : ¬ Classified marchEngine 0 { fiscalYear := some 2023 }
    1711886400000000 := by
  intro h
  exact fiscalYear_iff.mp (h.fiscalYear 2023 rfl) (by decide)

end SafrochainIndexer.Api
