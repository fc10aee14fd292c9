import SafrochainIndexer.Callisto.Consensus
import SafrochainIndexer.Lib.Worklist

/-!
# The daily refetch

Every midnight the blocks that are missing between the newest block that is a
day old and the head of the chain are processed again, the lowest first. The
first that fails ends the day, and the error goes nowhere.

`refetch_gives_up`: what a day finds below its window is not looked at by any
later day.
-/

namespace SafrochainIndexer.Callisto.DailyRefetch

def isInt4 (n : Int) : Bool := -2 ^ 31 ≤ n && n < 2 ^ 31

def Stored (s : Db) (height : Int) : Prop := ∃ row ∈ s.block.rows, row.height = height

instance (s : Db) (height : Int) : Decidable (Stored s height) :=
  inferInstanceAs (Decidable (∃ row ∈ s.block.rows, _))

/-- `generate_series(start, end)`. -/
def heightsBetween (startHeight endHeight : Int) : List Int :=
  (List.range (endHeight + 1 - startHeight).toNat).map fun (i : Nat) => startHeight + i

/-- A statement that fails has no rows. -/
def getMissingBlocks (startHeight endHeight : Int) : Eff Db (List Int) := do
  let s ← get
  if isInt4 startHeight && isInt4 endHeight then
    pure ((heightsBetween startHeight endHeight).filter fun height => !decide (Stored s height))
  else pure []

/-- `process` is that of the worker of the parser. -/
structure Module where
  latestHeight : Except String Int
  db : Consensus.Module
  parserContext : Except String Unit
  process : Int → Eff Db Unit

def Module.refetch (m : Module) (block : Int) : Eff Db Unit :=
  Eff.wrap s!"error while re-fetching block {block}: " (m.process block)

def Module.refetchMissingBlocks (m : Module) (now : Int) : Eff Db Unit := do
  let latestBlock ← Eff.wrap "error while getting latest block: " (Eff.ofExcept m.latestHeight)
  let blockHeightDayAgo ← Eff.wrap "error while getting block height from a day ago: "
    (m.db.getBlockHeightTimeDayAgo now)
  let missingBlocks ← getMissingBlocks blockHeightDayAgo.height latestBlock
  if missingBlocks.length = 0 then pure ()
  else do
    Eff.ofExcept m.parserContext
    missingBlocks.forM m.refetch

inductive Event
  | midnight (m : Module) (now : Int)
  | other (call : Eff Db Unit)

def step (s : Db) : Event → Db
  | .midnight m now => (Eff.exec (m.refetchMissingBlocks now) s).2
  | .other call => (Eff.exec call s).2

def run (s : Db) (events : List Event) : Db := events.foldl step s

/-- The heights that the midnights of a run have stored. -/
def Refetched : Db → List Event → Int → Prop
  | _, [], _ => False
  | s, event :: events, height =>
    (match event with
      | .midnight .. => Stored (step s event) height ∧ ¬Stored s height
      | .other _ => False) ∨ Refetched (step s event) events height

-- ---------------------------------------------------------------------------
-- Assumptions
-- ---------------------------------------------------------------------------

/-- The blocks that a call leaves: all that were there, and new ones as the chain
has dated them. -/
def Grows (time : Int → Int) (s t : Db) : Prop :=
  (∀ row ∈ s.block.rows, row ∈ t.block.rows) ∧
    ∀ row ∈ t.block.rows, row ∈ s.block.rows ∨ row.timestamp = time row.height

/-- A worker that returns has stored its block, unless that is the genesis, and it
stores no other. -/
structure Worker (time : Int → Int) (process : Int → Eff Db Unit) : Prop where
  stores : ∀ {height s t}, 0 < height → Eff.Returns (process height) s () t → Stored t height
  grows : ∀ {height s}, Grows time s (Eff.exec (process height) s).2
  only : ∀ {height s row}, row ∈ (Eff.exec (process height) s).2.block.rows →
    row ∈ s.block.rows ∨ row.height = height

def Event.Sound (time : Int → Int) : Event → Prop
  | .midnight m _ => Worker time m.process
  | .other call => ∀ s, Grows time s (Eff.exec call s).2

def Dated (time : Int → Int) (s : Db) : Prop :=
  ∀ row ∈ s.block.rows, row.timestamp = time row.height

/-- No midnight of the run comes before `now`. -/
def NotBefore (now : Int) (events : List Event) : Prop :=
  ∀ m later, .midnight m later ∈ events → now ≤ later

-- ---------------------------------------------------------------------------
-- One midnight
-- ---------------------------------------------------------------------------

theorem mem_heightsBetween {startHeight endHeight height : Int} :
    height ∈ heightsBetween startHeight endHeight ↔ startHeight ≤ height ∧ height ≤ endHeight := by
  simp only [heightsBetween, List.mem_map, List.mem_range]
  constructor
  · rintro ⟨i, hi, rfl⟩
    omega
  · rintro ⟨hstart, hend⟩
    exact ⟨(height - startHeight).toNat, by omega, by omega⟩

theorem heightsBetween_sorted (startHeight endHeight : Int) :
    (heightsBetween startHeight endHeight).Pairwise (· < ·) := by
  refine List.pairwise_map.mpr (List.pairwise_lt_range.imp fun h => ?_)
  omega

section
variable {m : Module} {time : Int → Int} {now : Int} {s : Db}

theorem Grows.refl (time : Int → Int) (s : Db) : Grows time s s := ⟨fun _ h => h, fun _ h => .inl h⟩

theorem Grows.trans {s t u : Db} (h : Grows time s t) (h' : Grows time t u) : Grows time s u :=
  ⟨fun row hrow => h'.1 row (h.1 row hrow), fun row hrow => (h'.2 row hrow).elim (h.2 row) .inr⟩

theorem Grows.stored {s t : Db} (h : Grows time s t) {height : Int} (hs : Stored s height) :
    Stored t height := by
  obtain ⟨row, hrow, hheight⟩ := hs
  exact ⟨row, h.1 row hrow, hheight⟩

theorem Grows.dated {s t : Db} (h : Grows time s t) (hs : Dated time s) : Dated time t :=
  fun row hrow => (h.2 row hrow).elim (hs row) id

theorem exec_refetch (block : Int) (s : Db) :
    (Eff.exec (m.refetch block) s).2 = (Eff.exec (m.process block) s).2 := by
  rw [Module.refetch, Eff.exec_wrap]

theorem Worker.adds (h : Worker time m.process) : Worklist.Adds Stored (0 < ·) m.refetch where
  stored hpos hr := h.stores hpos (Eff.returns_wrap.mp hr)
  kept hb := by
    rw [exec_refetch]
    exact h.grows.stored hb
  only hb := by
    rw [exec_refetch] at hb
    obtain ⟨row, hrow, hheight⟩ := hb
    obtain hrow | hnew := h.only hrow
    · exact .inl ⟨row, hrow, hheight⟩
    · exact .inr (hheight.symm.trans hnew)

theorem grows_forM (h : Worker time m.process) (blocks : List Int) (s : Db) :
    Grows time s (Eff.exec (blocks.forM m.refetch) s).2 := by
  induction blocks generalizing s with
  | nil => exact .refl time s
  | cons block blocks ih =>
    have hblock : Grows time s (Eff.exec (m.refetch block) s).2 := exec_refetch block s ▸ h.grows
    obtain ⟨⟨⟩, hr⟩ | ⟨fault, hf⟩ := Eff.returns_or_fails (m.refetch block) s
    · rw [hr.exec_forM_cons]
      exact hblock.trans (ih _)
    · rw [Eff.exec_forM_cons_error hf]
      exact hblock

def missing (s : Db) (startHeight endHeight : Int) : List Int :=
  if isInt4 startHeight && isInt4 endHeight then
    (heightsBetween startHeight endHeight).filter fun height => !decide (Stored s height)
  else []

theorem mem_missing {startHeight endHeight height : Int} (h : height ∈ missing s startHeight endHeight) :
    startHeight ≤ height ∧ height ≤ endHeight ∧ ¬Stored s height := by
  unfold missing at h
  split at h
  · obtain ⟨hbetween, hnot⟩ := List.mem_filter.mp h
    obtain ⟨hstart, hend⟩ := mem_heightsBetween.mp hbetween
    exact ⟨hstart, hend, by simpa using hnot⟩
  · exact absurd h List.not_mem_nil

theorem missing_sorted (s : Db) (startHeight endHeight : Int) :
    (missing s startHeight endHeight).Pairwise (· < ·) := by
  unfold missing
  split
  · exact (heightsBetween_sorted _ _).filter _
  · exact .nil

/-- The block that a day ago was the newest. -/
def Module.dayAgo (m : Module) (now : Int) (s : Db) : Option BlockRow :=
  m.db.newest.pick (s.block.rows.filter fun row => row.timestamp ≤ Consensus.timeAdd now
    (Consensus.hour * -24))

theorem exec_dayAgo (now : Int) (s : Db) :
    Eff.exec (m.db.getBlockHeightTimeDayAgo now) s =
      match m.dayAgo now s with
      | none => (.error (.error "cannot get block time, no blocks saved"), s)
      | some row => (.ok row, s) := by
  unfold Consensus.Module.getBlockHeightTimeDayAgo Consensus.Module.getBlockHeightTime
  rw [Eff.exec_bind]
  show Eff.exec (match m.dayAgo now s with
    | none => Eff.fail "cannot get block time, no blocks saved"
    | some row => pure row) s = _
  cases m.dayAgo now s <;> rfl

theorem dayAgo_spec {start : BlockRow} (h : m.dayAgo now s = some start) :
    start ∈ s.block.rows ∧
      start.timestamp ≤ Consensus.timeAdd now (Consensus.hour * -24) ∧
      ∀ row ∈ s.block.rows, row.timestamp ≤ Consensus.timeAdd now (Consensus.hour * -24) →
        row.timestamp ≤ start.timestamp := by
  obtain ⟨hmem, hpast⟩ := List.mem_filter.mp (m.db.newest.mem h)
  refine ⟨hmem, of_decide_eq_true hpast, fun row hrow hle => ?_⟩
  exact m.db.newest.le h row (List.mem_filter.mpr ⟨hrow, decide_eq_true hle⟩)

theorem exec_refetchMissingBlocks (now : Int) (s : Db) :
    (∃ fault, Eff.exec (m.refetchMissingBlocks now) s = (.error fault, s)) ∨
      ∃ latest start, m.latestHeight = .ok latest ∧ m.dayAgo now s = some start ∧
        Eff.exec (m.refetchMissingBlocks now) s =
          Eff.exec ((missing s start.height latest).forM m.refetch) s := by
  unfold Module.refetchMissingBlocks
  rw [Eff.exec_wrap_ofExcept_bind]
  cases m.latestHeight with
  | error message => exact .inl ⟨_, rfl⟩
  | ok latest =>
    dsimp only
    rw [Eff.exec_bind, Eff.exec_wrap, exec_dayAgo]
    cases m.dayAgo now s with
    | none => exact .inl ⟨_, rfl⟩
    | some start =>
      dsimp only [Except.mapError]
      have hmissing : Eff.Returns (getMissingBlocks start.height latest) s
          (missing s start.height latest) s := by
        unfold getMissingBlocks missing
        refine Eff.returns_bind.mpr ⟨s, s, Eff.returns_get.mpr ⟨rfl, rfl⟩, ?_⟩
        split <;> exact Eff.returns_pure.mpr ⟨rfl, rfl⟩
      rw [hmissing.exec_bind]
      by_cases hnil : (missing s start.height latest).length = 0
      · refine .inr ⟨latest, start, rfl, rfl, ?_⟩
        rw [if_pos hnil, List.length_eq_zero_iff.mp hnil]
        rfl
      · rw [if_neg hnil, Eff.exec_bind, Eff.exec_ofExcept]
        cases m.parserContext with
        | error message => exact .inl ⟨_, rfl⟩
        | ok _ => exact .inr ⟨latest, start, rfl, rfl, rfl⟩

theorem grows_refetchMissingBlocks (h : Worker time m.process) (now : Int) (s : Db) :
    Grows time s (Eff.exec (m.refetchMissingBlocks now) s).2 := by
  obtain ⟨fault, hexec⟩ | ⟨latest, start, -, -, hexec⟩ := exec_refetchMissingBlocks (m := m) now s
  · rw [hexec]
    exact .refl time s
  · rw [hexec]
    exact grows_forM h _ s

theorem mem_missing_prefix {blocks before after : List Int} {block height : Int}
    (hsorted : blocks.Pairwise (· < ·)) (h : blocks = before ++ block :: after) :
    height ∈ before ↔ height ∈ blocks ∧ height < block := by
  subst h
  obtain ⟨-, hafter, hcross⟩ := List.pairwise_append.mp hsorted
  constructor
  · exact fun hb => ⟨List.mem_append_left _ hb, hcross height hb block List.mem_cons_self⟩
  · rintro ⟨hmem, hlt⟩
    rcases List.mem_append.mp hmem with hb | hb
    · exact hb
    · rcases List.mem_cons.mp hb with rfl | hb
      · exact absurd hlt (lt_irrefl height)
      · exact absurd hlt (lt_asymm ((List.pairwise_cons.mp hafter).1 height hb))

/-- A midnight that returns leaves nothing missing in its window. One that fails
has changed nothing, or names a missing block: everything below it is stored
again and nothing above it is. -/
theorem refetch_day (h : Worker time m.process) (now : Int) {s : Db}
    (hblocks : ∀ row ∈ s.block.rows, 0 < row.height) :
    match Eff.exec (m.refetchMissingBlocks now) s with
    | (.ok _, t) => ∃ latest start, m.latestHeight = .ok latest ∧ m.dayAgo now s = some start ∧
        ∀ height, Stored t height ↔
          Stored s height ∨ height ∈ missing s start.height latest
    | (.error fault, t) => t = s ∨ ∃ latest start block, ∃ fault' : Fault,
        m.latestHeight = .ok latest ∧ m.dayAgo now s = some start ∧
          block ∈ missing s start.height latest ∧
          fault = fault'.within s!"error while re-fetching block {block}: " ∧
          ∀ height ≠ block, Stored t height ↔
            Stored s height ∨ height ∈ missing s start.height latest ∧ height < block := by
  obtain ⟨fault, hexec⟩ | ⟨latest, start, hlatest, hstart, hexec⟩ :=
    exec_refetchMissingBlocks (m := m) now s
  · rw [hexec]
    exact .inl rfl
  have hpos : ∀ height ∈ missing s start.height latest, 0 < height := by
    intro height hmissing
    exact (hblocks start (dayAgo_spec hstart).1).trans_le (mem_missing hmissing).1
  rw [hexec]
  split
  · rename_i t hr
    exact ⟨latest, start, hlatest, hstart, h.adds.forM_returns hpos hr⟩
  · rename_i fault t hf
    obtain ⟨before, block, after, u, hsplit, hfail, -, hdone⟩ := h.adds.forM_fails hpos hf
    have hbefore : ∀ height, height ∈ before ↔ _ := fun height =>
      mem_missing_prefix (missing_sorted s start.height latest) hsplit
    obtain ⟨fault', hfault⟩ : ∃ fault' : Fault,
        fault = fault'.within s!"error while re-fetching block {block}: " := by
      rw [Module.refetch, Eff.exec_wrap] at hfail
      cases hprocess : (Eff.exec (m.process block) u).1 with
      | ok _ => simp [hprocess] at hfail
      | error fault' =>
        simp only [hprocess, Eff.mapError_error, Prod.mk.injEq, Except.error.injEq] at hfail
        exact ⟨fault', hfail.1.symm⟩
    refine .inr ⟨latest, start, block, fault', hlatest, hstart, ?_, hfault, fun height hne => ?_⟩
    · rw [hsplit]
      exact List.mem_append_right _ List.mem_cons_self
    · rw [hdone height hne, hbefore height]

end

def halfDays (height : Int) : Int := height * 43200000000

def forgetfulWorker (height : Int) : Eff Db Unit :=
  if height = 3 then Eff.fail "failed to get block from node"
  else modify fun s => { s with block := s.block.upsert .ignore ⟨height, halfDays height⟩ }

def forgetful : Module where
  latestHeight := .ok 4
  db := Consensus.plain
  parserContext := .ok ()
  process := forgetfulWorker

theorem mem_upsert_ignore {t : Table BlockRow.height} {row new : BlockRow} :
    row ∈ (t.upsert .ignore new).rows ↔
      row ∈ t.rows ∨ t.find new.height = none ∧ row = new := by
  rw [Table.mem_rows_iff, Table.mem_rows_iff, Table.find_upsert]
  by_cases hk : row.height = new.height
  · rw [if_pos hk, hk]
    cases t.find new.height with
    | none => simp [eq_comm]
    | some stored => simp
  · have hne : row ≠ new := fun h => hk (h ▸ rfl)
    simp [hk, hne]

theorem forgetful_worker : Worker halfDays forgetful.process where
  stores {height s t} _ hr := by
    change Eff.Returns (forgetfulWorker height) s () t at hr
    unfold forgetfulWorker at hr
    split at hr
    · exact absurd hr (by simp)
    · obtain rfl := Eff.returns_modify.mp hr
      have hstored := Table.find_upsert_same .ignore s.block ⟨height, halfDays height⟩
      exact ⟨_, Table.mem_of_find hstored, Table.find_key hstored⟩
  grows {height s} := by
    change Grows halfDays s (Eff.exec (forgetfulWorker height) s).2
    unfold forgetfulWorker
    split
    · exact .refl _ s
    · refine ⟨fun row hrow => mem_upsert_ignore.mpr (.inl hrow), fun row hrow => ?_⟩
      obtain hold | ⟨-, rfl⟩ := mem_upsert_ignore.mp hrow
      · exact .inl hold
      · exact .inr rfl
  only {height s row} hrow := by
    change row ∈ (Eff.exec (forgetfulWorker height) s).2.block.rows at hrow
    unfold forgetfulWorker at hrow
    split at hrow
    · exact .inl hrow
    · obtain hold | ⟨-, rfl⟩ := mem_upsert_ignore.mp hrow
      · exact .inl hold
      · exact .inr rfl

def gap : Db := Consensus.firstBlocks [⟨1, halfDays 1⟩]

theorem refetch_day_forgetful : ∃ block ∈ missing gap 1 4, ∀ height ≠ block,
    Stored (Eff.exec (forgetful.refetchMissingBlocks (halfDays 4)) gap).2 height ↔
      Stored gap height ∨ height ∈ missing gap 1 4 ∧ height < block := by
  have h := refetch_day forgetful_worker (halfDays 4) (s := gap) (by decide)
  have hexec : Eff.exec (forgetful.refetchMissingBlocks (halfDays 4)) gap =
      (.error (.error "error while re-fetching block 3: failed to get block from node"),
        Consensus.firstBlocks [⟨1, halfDays 1⟩, ⟨2, halfDays 2⟩]) := rfl
  rw [hexec] at h ⊢
  obtain hsame | ⟨latest, start, block, fault, hlatest, hstart, hblock, -, hdone⟩ := h
  · have hstored : Stored gap 2 := hsame ▸ by decide
    exact absurd hstored (by decide)
  · obtain rfl : 4 = latest := Except.ok.inj hlatest
    obtain rfl : BlockRow.mk 1 (halfDays 1) = start := Option.some.inj hstart
    exact ⟨block, hblock, hdone⟩

-- ---------------------------------------------------------------------------
-- Runs
-- ---------------------------------------------------------------------------

section
variable {time : Int → Int} {s t : Db}

theorem grows_step {event : Event} (h : event.Sound time) (s : Db) : Grows time s (step s event) := by
  cases event with
  | midnight m now => exact grows_refetchMissingBlocks h now s
  | other call => exact h s

theorem grows_run {events : List Event} (h : ∀ event ∈ events, event.Sound time) (s : Db) :
    Grows time s (run s events) := by
  induction events generalizing s with
  | nil => exact .refl time s
  | cons event events ih =>
    obtain ⟨hevent, hevents⟩ := List.forall_mem_cons.mp h
    exact (grows_step hevent s).trans (ih hevents _)

/-- A block is later than the blocks below it. -/
def Ticks (time : Int → Int) : Prop := ∀ {a b : Int}, a < b → time a < time b

theorem dayAgo_le {m m' : Module} {now later : Int} {start start' : BlockRow}
    (htime : Ticks time) (hs : Dated time s) (hgrows : Grows time s t) (hnow : now ≤ later)
    (h : m.dayAgo now s = some start) (h' : m'.dayAgo later t = some start') :
    start.height ≤ start'.height := by
  obtain ⟨hmem, hpast, -⟩ := dayAgo_spec h
  obtain ⟨hmem', -, hnewest⟩ := dayAgo_spec h'
  have hle : start.timestamp ≤ start'.timestamp := by
    refine hnewest start (hgrows.1 start hmem) (hpast.trans ?_)
    unfold Consensus.timeAdd
    omega
  rw [hs start hmem, hgrows.dated hs start' hmem'] at hle
  by_contra hlt
  exact absurd hle (Int.not_le.mpr (htime (Int.not_le.mp hlt)))

theorem start_le_of_stored {m : Module} {now height : Int} (h : Worker time m.process)
    (hnew : Stored (Eff.exec (m.refetchMissingBlocks now) s).2 height) (hold : ¬Stored s height) :
    ∃ start, m.dayAgo now s = some start ∧ start.height ≤ height := by
  obtain ⟨fault, hexec⟩ | ⟨latest, start, -, hstart, hexec⟩ :=
    exec_refetchMissingBlocks (m := m) now s
  · rw [hexec] at hnew
    exact absurd hnew hold
  · rw [hexec] at hnew
    have hmissing := (h.adds.only_forM hnew).resolve_left hold
    exact ⟨start, hstart, (mem_missing hmissing).1⟩

theorem refetched_above {m : Module} {now : Int} {start : BlockRow} (htime : Ticks time)
    (hs : Dated time s) (hstart : m.dayAgo now s = some start) {events : List Event}
    (hsound : ∀ event ∈ events, event.Sound time) (hlater : NotBefore now events)
    (hgrows : Grows time s t) {height : Int} (h : Refetched t events height) :
    start.height ≤ height := by
  induction events generalizing t with
  | nil => exact h.elim
  | cons event events ih =>
    obtain ⟨hevent, hevents⟩ := List.forall_mem_cons.mp hsound
    rcases h with hhere | hlaterOn
    · cases event with
      | other call => exact hhere.elim
      | midnight m' later =>
        obtain ⟨start', hstart', hle⟩ := start_le_of_stored hevent hhere.1 hhere.2
        have hnow := hlater m' later List.mem_cons_self
        exact (dayAgo_le htime hs hgrows hnow hstart hstart').trans hle
    · exact ih hevents (fun m later hmem => hlater m later (List.mem_cons_of_mem _ hmem))
        (hgrows.trans (grows_step hevent t)) hlaterOn

/-- A chain whose times grow, midnights in their order, and anything that adds
blocks between them. From a midnight on, no midnight stores a block below the
window of that one, so a block that is missing there stays missing unless
something else stores it; and no block that is stored is ever lost. -/
theorem refetch_gives_up {m : Module} {now : Int} {start : BlockRow} (htime : Ticks time)
    {before after : List Event} (hs : Dated time s)
    (hsound : ∀ event ∈ before ++ .midnight m now :: after, event.Sound time)
    (hlater : NotBefore now after) (hstart : m.dayAgo now (run s before) = some start) :
    (∀ height, Refetched (run s before) (.midnight m now :: after) height → start.height ≤ height) ∧
      ∀ height, Stored (run s before) height →
        Stored (run s (before ++ .midnight m now :: after)) height := by
  have hbefore := fun event h => hsound event (List.mem_append_left _ h)
  have hafter := fun event h => hsound event (List.mem_append_right before h)
  have hdated := (grows_run hbefore s).dated hs
  refine ⟨fun height h => ?_, fun height h => ?_⟩
  · refine refetched_above htime hdated hstart hafter ?_ (.refl time _) h
    intro m' later hmem
    rcases List.mem_cons.mp hmem with heq | hmem
    · exact (Event.midnight.inj heq).2 ▸ le_refl now
    · exact hlater m' later hmem
  · have hrun : run s (before ++ .midnight m now :: after) =
        run (run s before) (.midnight m now :: after) := List.foldl_append
    rw [hrun]
    exact (grows_run hafter _).stored h

def lostDays : List Event :=
  [.midnight forgetful (halfDays 4), .other (forgetfulWorker 4), .other (forgetfulWorker 6)]

theorem refetch_gives_up_forgetful :
    ¬Refetched (run gap lostDays)
      [.midnight forgetful (halfDays 6), .midnight forgetful (halfDays 8)] 3 := by
  have htime : Ticks halfDays := by
    intro a b h
    unfold halfDays
    omega
  have hdated : Dated halfDays gap := by
    unfold Dated
    decide
  have hsound : ∀ event ∈ lostDays ++
      [.midnight forgetful (halfDays 6), .midnight forgetful (halfDays 8)],
        event.Sound halfDays := by
    have hstore : ∀ height s, Grows halfDays s (Eff.exec (forgetfulWorker height) s).2 :=
      fun _ _ => forgetful_worker.grows
    simp [lostDays, Event.Sound, forgetful_worker, hstore]
  have hlater : NotBefore (halfDays 6) [.midnight forgetful (halfDays 8)] := by
    intro m later hmem
    obtain ⟨-, rfl⟩ := Event.midnight.inj (List.mem_singleton.mp hmem)
    decide
  have hstart : forgetful.dayAgo (halfDays 6) (run gap lostDays) = some ⟨4, halfDays 4⟩ := rfl
  intro h
  have hle := (refetch_gives_up htime hdated hsound hlater hstart).1 3 h
  exact absurd hle (by decide)

end

end SafrochainIndexer.Callisto.DailyRefetch
